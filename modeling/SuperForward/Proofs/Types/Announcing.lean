/-
  Declaring functions and methods, step by step.

  What a declaration announces depends on which names are classes, and on nothing else that has
  been declared. Methods that wait for the method they override are declared last; this succeeds
  if every method that is declared has the type of a function.
-/
import SuperForward.Proofs.Types.Linking

namespace SuperForward

open SuperForward.Program (root Below)

/-! ## Registries -/

namespace Registry

variable {r : Registry}

/-- Every method that is declared has the type of a function. -/
def Callable (r : Registry) : Prop :=
  ∀ c m type, r.ownMethod? c m = some type → type.returns?.isSome = true

theorem Callable.congr {s : Registry} (h : r.Callable) (hmethods : s.methods = r.methods) :
    s.Callable := by
  intro c m type htype
  refine h c m type ?_
  unfold ownMethod? at htype ⊢
  rwa [← hmethods]

theorem Callable.declareMethod (h : r.Callable) (owner method name : String) (returns : JsType) :
    (r.declareMethod owner method (some (.function name returns false))).Callable := by
  intro c m type htype
  rw [ownMethod?_declareMethod] at htype
  split at htype
  · cases htype
    rfl
  · exact h c m type htype

end Registry

namespace Typing

/-! ## Announcements -/

/-- What a function gives back if nothing is declared. -/
def inferred (p : Program) (fn : Handle) : JsType :=
  match inferredResult p fn with
  | .ok type => type
  | .error _ => .void

/-- What a function gives back: as declared, or else as inferred. -/
def resultOf (p : Program) (r : Registry) (d : Declaration) : JsType :=
  match d.doc.bind (·.returnType) with
  | some expression => declaredType r expression
  | none => inferred p d.fn

/-- What a declaration is about, besides classes. -/
inductive Announcement where
  | nothing
  | function (name : String) (type : JsType)
  | method (className method : String) (type : JsType)
  | override (o : Override)

namespace Announcement

/-- The method that waits for the one it overrides. -/
def override? : Announcement → Option Override
  | .override o => some o
  | _ => none

/-- The registry with what is announced. -/
def declareIn (r : Registry) : Announcement → Registry
  | .function name type => r.declareFunction name (some type)
  | .method className m type => r.declareMethod className m (some type)
  | .nothing | .override _ => r

theorem classes_declareIn (r : Registry) (x : Announcement) : (x.declareIn r).classes = r.classes := by
  cases x <;> rfl

end Announcement

/-- What a declaration announces. -/
def announcement (p : Program) (r : Registry) (d : Declaration) : Announcement :=
  if r.isClass (toString d.name) then .nothing
  else match d.name.splitOn .prototype with
    | none => .function (toString d.name) (.function (toString d.name) (resultOf p r d) false)
    | some (owner, member) =>
      match member.single? with
      | none => .nothing
      | some method =>
        if r.isClass (toString owner) then
          if leavesResult d.doc then .override ⟨toString owner, method, d.fn⟩
          else .method (toString owner) method (.function (toString d.name) (resultOf p r d) false)
        else .nothing

/-- The type of a method that overrides. -/
def overrideType (p : Program) (r : Registry) (o : Override) : JsType :=
  .function (o.className ++ ".prototype." ++ o.method)
    (match overridden? r o with
      | some type => type.returns?.getD .void
      | none => inferred p o.fn) false

/-- A declaration announces nothing, or a function, or a method of a declared class. -/
theorem announcement_cases (p : Program) (r : Registry) (d : Declaration) :
    announcement p r d = .nothing ∨
      (r.isClass (toString d.name) = false ∧ d.name.splitOn .prototype = none ∧
        announcement p r d
          = .function (toString d.name) (.function (toString d.name) (resultOf p r d) false)) ∨
      ∃ owner member m, r.isClass (toString d.name) = false ∧
        d.name.splitOn .prototype = some (owner, member) ∧ member.single? = some m ∧
        r.isClass (toString owner) = true ∧
        ((leavesResult d.doc = true ∧
            announcement p r d = .override ⟨toString owner, m, d.fn⟩) ∨
          (leavesResult d.doc = false ∧ announcement p r d = .method (toString owner) m
            (.function (toString d.name) (resultOf p r d) false))) := by
  unfold announcement
  cases hclass : r.isClass (toString d.name) with
  | true => exact .inl rfl
  | false =>
    cases hsplit : d.name.splitOn .prototype with
    | none => exact .inr (.inl ⟨rfl, rfl, rfl⟩)
    | some parts =>
      obtain ⟨owner, member⟩ := parts
      cases hsingle : member.single? with
      | none =>
        left
        simp [hsingle]
      | some m =>
        cases howner : r.isClass (toString owner) with
        | false =>
          left
          simp [hsingle, howner]
        | true =>
          refine .inr (.inr ⟨owner, member, m, rfl, rfl, hsingle, howner, ?_⟩)
          cases hleaves : leavesResult d.doc with
          | true =>
            left
            simp [hsingle, howner]
          | false =>
            right
            simp [hsingle, howner]

/-- Which names are classes decides what is announced. -/
theorem announcement_congr {p : Program} {r s : Registry} (h : ∀ c, s.isClass c = r.isClass c)
    (d : Declaration) : announcement p s d = announcement p r d := by
  have hresult : resultOf p s d = resultOf p r d := by
    unfold resultOf declaredType Registry.instanceOf?
    simp only [h]
  unfold announcement
  simp only [h, hresult]

/-! ## Declaring -/

theorem outcome_ask {α : Type} {q : Program → Except Fault α} {x : α} {a : Typing}
    (h : q a.program = .ok x) : (ask q).outcome a = (.ok x, a) := by
  unfold ask
  rw [Task.outcome_get_bind, Task.outcome_ofExcept, h]

section

variable {p : Program} (hp : p.Parsed)
include hp

theorem inferredResult_eq {fn : Handle} (hfn : p.Below root fn) :
    inferredResult p fn = .ok (inferred p fn) := by
  obtain ⟨type, h⟩ := inferredResult_ok hp hfn
  unfold inferred
  rw [h]

theorem outcome_result {d : Declaration} {a : Typing} (hprogram : a.program = p)
    (hd : p.Below root d.fn) : (result d).outcome a = (.ok (resultOf p a.registry d), a) := by
  unfold result resultOf
  cases d.doc.bind (·.returnType) with
  | some expression => rfl
  | none => exact outcome_ask (by rw [hprogram]; exact inferredResult_eq hp hd)

/-- What is announced is declared, and what waits is given back. -/
theorem outcome_declareFunction {d : Declaration} {a : Typing} (hprogram : a.program = p)
    (hd : p.Below root d.fn) :
    (declareFunction d).outcome a = (.ok (announcement p a.registry d).override?,
      { a with registry := (announcement p a.registry d).declareIn a.registry }) := by
  have hresult := outcome_result hp hprogram hd
  unfold declareFunction announcement
  rw [Task.outcome_get_bind]
  -- the cases in the order of the program: a class, a function, a method of a class, or nothing
  -- of these
  by_cases hclass : a.registry.isClass (toString d.name) = true
  · simp only [hclass, if_true]
    rfl
  simp only [hclass, if_false, Bool.false_eq_true]
  cases hsplit : d.name.splitOn .prototype with
  | none =>
    simp only
    rw [Task.outcome_bind_ok hresult]
    rfl
  | some parts =>
    obtain ⟨owner, member⟩ := parts
    cases hsingle : member.single? with
    | none =>
      simp only [hsingle]
      rfl
    | some m =>
      simp only [hsingle, Task.outcome_get_bind]
      by_cases howner : a.registry.isClass (toString owner) = true
      · by_cases hleaves : leavesResult d.doc = true
        · simp only [howner, hleaves, if_true]
          rfl
        · simp only [howner, hleaves, if_true, if_false, Bool.false_eq_true]
          rw [Task.outcome_bind_ok hresult]
          rfl
      · simp only [howner, if_false, Bool.false_eq_true]
        rfl

/-- A method that overrides is declared with the result of the one it overrides. -/
theorem outcome_declareOverride {o : Override} {a : Typing} (hprogram : a.program = p)
    (hcallable : a.registry.Callable) (ho : p.Below root o.fn) :
    (declareOverride o).outcome a = (.ok (), { a with
      registry := a.registry.declareMethod o.className o.method
        (some (overrideType p a.registry o)) }) := by
  unfold declareOverride overrideType
  rw [Task.outcome_get_bind]
  cases htype : overridden? a.registry o with
  | none =>
    rw [Task.outcome_bind_ok (outcome_ask (by rw [hprogram]; exact inferredResult_eq hp ho))]
    rfl
  | some type =>
    -- what is overridden is a declared method
    obtain ⟨parent, -, hfind⟩ := Option.bind_eq_some_iff.mp htype
    obtain ⟨owner, howner⟩ := Registry.ownMethod?_of_findMethod hfind
    obtain ⟨returns, hr⟩ := Option.isSome_iff_exists.mp (hcallable _ _ _ howner)
    simp only [hr, Option.getD_some]
    rfl

end

/-- The registry with what some declarations announce. -/
def withAnnounced (p : Program) (r : Registry) (ds : List Declaration) : Registry :=
  ds.foldl (fun s d => (announcement p r d).declareIn s) r

/-- The methods that wait for those they override. -/
def waiting (p : Program) (r : Registry) (ds : List Declaration) : List Override :=
  ds.filterMap fun d => (announcement p r d).override?

/-- The registry with some overrides, one after the other. -/
def withOverrides (p : Program) (r : Registry) (os : List Override) : Registry :=
  os.foldl (fun s o => s.declareMethod o.className o.method (some (overrideType p s o))) r

/-- The registry with all functions and methods. -/
def withFunctions (p : Program) (r : Registry) (a : Ancestry) (ds : List Declaration) : Registry :=
  withOverrides p (withAnnounced p r ds) (baseFirst a (waiting p r ds))

section

variable {p : Program}

theorem classes_withAnnounced (r : Registry) (ds : List Declaration) :
    (withAnnounced p r ds).classes = r.classes := by
  have hfold : ∀ s : Registry,
      (ds.foldl (fun s d => (announcement p r d).declareIn s) s).classes = s.classes := by
    induction ds with
    | nil => exact fun _ => rfl
    | cons d ds ih => exact fun s => (ih _).trans (Announcement.classes_declareIn s _)
  exact hfold r

theorem classes_withOverrides (r : Registry) (os : List Override) :
    (withOverrides p r os).classes = r.classes := by
  induction os generalizing r with
  | nil => rfl
  | cons o os ih => exact ih _

theorem classes_withFunctions (r : Registry) (a : Ancestry) (ds : List Declaration) :
    (withFunctions p r a ds).classes = r.classes :=
  (classes_withOverrides ..).trans (classes_withAnnounced r ds)

theorem isClass_of_classes {r s : Registry} (h : s.classes = r.classes) (c : String) :
    s.isClass c = r.isClass c := by
  unfold Registry.isClass
  rw [h]

theorem superclass?_of_classes {r s : Registry} (h : s.classes = r.classes) (c : String) :
    s.superclass? c = r.superclass? c := by
  unfold Registry.superclass?
  rw [h]

/-- A method is announced with the type of a function. -/
theorem callable_declareIn {r s : Registry} (h : s.Callable) (d : Declaration) :
    ((announcement p r d).declareIn s).Callable := by
  rcases announcement_cases p r d with hx | ⟨-, -, hx⟩ | ⟨_, _, _, -, -, -, -, ⟨-, hx⟩ | ⟨-, hx⟩⟩
  · rw [hx]
    exact h
  · rw [hx]
    exact h.congr rfl
  · rw [hx]
    exact h
  · rw [hx]
    exact h.declareMethod _ _ _ _

theorem callable_withAnnounced {r : Registry} (h : r.Callable) (ds : List Declaration) :
    (withAnnounced p r ds).Callable := by
  have hfold : ∀ s : Registry, s.Callable →
      (ds.foldl (fun s d => (announcement p r d).declareIn s) s).Callable := by
    induction ds with
    | nil => exact fun _ hs => hs
    | cons d ds ih => exact fun s hs => ih _ (callable_declareIn hs d)
  exact hfold r h

theorem callable_withOverrides {r : Registry} (h : r.Callable) (os : List Override) :
    (withOverrides p r os).Callable := by
  induction os generalizing r with
  | nil => exact h
  | cons o os ih => exact ih (h.declareMethod _ _ _ _)

/-- A method that waits is the function of its declaration. -/
theorem fn_of_override? {r : Registry} {d : Declaration} {o : Override}
    (h : (announcement p r d).override? = some o) : o.fn = d.fn := by
  rcases announcement_cases p r d with hx | ⟨-, -, hx⟩ | ⟨_, _, _, -, -, -, -, ⟨-, hx⟩ | ⟨-, hx⟩⟩ <;>
    rw [hx] at h <;> cases h
  rfl

/-- Steps that change the registry only, one after the other. -/
theorem foldl_registry {α : Type} (f : Registry → α → Registry) (xs : List α) (a : Typing) :
    xs.foldl (fun s x => { s with registry := f s.registry x }) a
      = { a with registry := xs.foldl f a.registry } := by
  induction xs generalizing a with
  | nil => rfl
  | cons x xs ih => exact ih _

/-- The first round declares what is announced. -/
theorem outcome_announced (hp : p.Parsed) {ds : List Declaration} {a : Typing}
    (hprogram : a.program = p) (hds : ∀ d ∈ ds, p.Below root d.fn) :
    (ds.mapM declareFunction).outcome a
      = (.ok (ds.map fun d => (announcement p a.registry d).override?),
        { a with registry := withAnnounced p a.registry ds }) := by
  have hstep (s : Typing) (d : Declaration) (hd : d ∈ ds)
      (hs : s.program = p ∧ s.registry.classes = a.registry.classes) :
      (declareFunction d).outcome s = (.ok (announcement p a.registry d).override?,
          { s with registry := (announcement p a.registry d).declareIn s.registry }) ∧
        s.program = p ∧ ((announcement p a.registry d).declareIn s.registry).classes
          = a.registry.classes := by
    -- what is announced depends on the classes, which stay the same
    have h := outcome_declareFunction hp hs.1 (hds d hd)
    rw [announcement_congr (isClass_of_classes hs.2)] at h
    exact ⟨h, hs.1, (Announcement.classes_declareIn _ _).trans hs.2⟩
  refine (Task.outcome_mapM hstep ⟨hprogram, rfl⟩).1.trans ?_
  rw [foldl_registry fun r d => (announcement p a.registry d).declareIn r]
  rfl

/-- The second round declares what waits. -/
theorem outcome_overrides (hp : p.Parsed) {os : List Override} {a : Typing}
    (hprogram : a.program = p) (hcallable : a.registry.Callable)
    (hos : ∀ o ∈ os, p.Below root o.fn) :
    (for o in os do declareOverride o : Task Typing Unit).outcome a
      = (.ok (), { a with registry := withOverrides p a.registry os }) := by
  have hstep (s : Typing) (o : Override) (ho : o ∈ os)
      (hs : s.program = p ∧ s.registry.Callable) :
      (declareOverride o).outcome s = (.ok (), { s with
          registry := s.registry.declareMethod o.className o.method
            (some (overrideType p s.registry o)) }) ∧
        s.program = p ∧ (s.registry.declareMethod o.className o.method
            (some (overrideType p s.registry o))).Callable :=
    ⟨outcome_declareOverride hp hs.1 hs.2 (hos o ho), hs.1, hs.2.declareMethod _ _ _ _⟩
  refine (Task.outcome_forIn hstep ⟨hprogram, hcallable⟩).1.trans ?_
  rw [foldl_registry fun r o => r.declareMethod o.className o.method (some (overrideType p r o))]
  rfl

theorem below_of_mem_waiting {r : Registry} {ds : List Declaration}
    (hds : ∀ d ∈ ds, p.Below root d.fn) : ∀ o ∈ waiting p r ds, p.Below root o.fn := by
  intro o ho
  obtain ⟨d, hd, hoverride⟩ := List.mem_filterMap.mp ho
  rw [fn_of_override? hoverride]
  exact hds d hd

/-- All functions and methods of a program are declared, if the methods that were declared
before can be called. -/
theorem outcome_declareFunctions (hp : p.Parsed) {ds : List Declaration} {a : Typing}
    (hprogram : a.program = p) (hcallable : a.registry.Callable)
    (hds : ∀ d ∈ ds, p.Below root d.fn) :
    (declareFunctions ds).outcome a
      = (.ok (), { a with registry := withFunctions p a.registry a.ancestry ds }) := by
  have hwaiting : (ds.map fun d => (announcement p a.registry d).override?).filterMap id
      = waiting p a.registry ds := by
    rw [List.filterMap_map]
    rfl
  unfold declareFunctions
  rw [Task.outcome_bind_ok (outcome_announced hp hprogram hds), Task.outcome_get_bind, hwaiting]
  refine outcome_overrides (a := { a with registry := withAnnounced p a.registry ds }) hp hprogram
    (callable_withAnnounced hcallable ds) ?_
  intro o ho
  exact below_of_mem_waiting hds o (StableSort.mem_sortBy.mp ho)

end

end Typing

end SuperForward
