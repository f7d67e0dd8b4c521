/-
  The methods and functions that a program declares.

  A function has the type that is announced for it last. A method that waits for the one it
  overrides is declared after all others, and base classes come first: in the end the last
  override of a method has the result of what is found above its class in the end.
-/
import SuperForward.Proofs.Sorting
import SuperForward.Proofs.Types.Choosing

namespace SuperForward

open SuperForward.Program (root Below)

/-- The class and the method that are declared. -/
def Override.key (o : Override) : String × String := (o.className, o.method)

/-! ## Registries -/

namespace Registry

variable {r : Registry}

/-- A look-up depends on what is declared on the classes that it comes to. -/
theorem findMethodWithin_congr {s : Registry} {P : String → Prop} {m : String}
    (hsuper : ∀ c, P c → s.superclass? c = r.superclass? c)
    (hclosed : ∀ c parent, P c → r.superclass? c = some parent → P parent)
    (hown : ∀ c, P c → s.ownMethod? c m = r.ownMethod? c m) {c : String} (hc : P c)
    (steps : Nat) : s.findMethodWithin m steps c = r.findMethodWithin m steps c := by
  induction steps generalizing c with
  | zero => rfl
  | succ steps ih =>
    rw [findMethodWithin, findMethodWithin, hown c hc, hsuper c hc]
    cases r.ownMethod? c m with
    | some type => rfl
    | none =>
      cases hparent : r.superclass? c with
      | none => rfl
      | some parent => exact ih (hclosed c parent hc hparent)

/-- What is found is the same in registries with as many classes, the same superclasses and the
same methods. -/
theorem findMethod_congr {s : Registry} {m : String}
    (hlength : s.classes.entries.length = r.classes.entries.length)
    (hsuper : ∀ c, s.superclass? c = r.superclass? c)
    (hown : ∀ c, s.ownMethod? c m = r.ownMethod? c m) (c : String) :
    s.findMethod c m = r.findMethod c m := by
  unfold findMethod
  rw [hlength]
  exact findMethodWithin_congr (P := fun _ => True) (fun c _ => hsuper c)
    (fun _ _ _ _ => trivial) (fun c _ => hown c) trivial _

/-- A class is declared if there is an entry for it. -/
theorem mem_keys_iff (h : r.classes.keys.Nodup) {c : String} :
    c ∈ r.classes.keys ↔ r.isClass c = true := by
  unfold isClass OrderedMap.contains
  rw [Option.isSome_iff_exists]
  constructor
  · intro hc
    obtain ⟨e, he, rfl⟩ := List.mem_map.mp hc
    exact ⟨e.2, OrderedMap.lookup_of_mem h he⟩
  · rintro ⟨parent?, hget⟩
    exact List.mem_map.mpr ⟨_, OrderedMap.mem_of_lookup hget, rfl⟩

/-- Registries with the same classes have as many of them. -/
theorem length_classes_eq {s : Registry} (hr : r.classes.keys.Nodup) (hs : s.classes.keys.Nodup)
    (h : ∀ c, s.isClass c = r.isClass c) :
    s.classes.entries.length = r.classes.entries.length := by
  have hperm : s.classes.keys.Perm r.classes.keys :=
    (List.perm_ext_iff_of_nodup hs hr).mpr fun c => by rw [mem_keys_iff hs, mem_keys_iff hr, h]
  have hlength := hperm.length_eq
  unfold OrderedMap.keys at hlength
  rwa [List.length_map, List.length_map] at hlength

end Registry

namespace Typing

/-! ## What is announced -/

namespace Announcement

/-- The class and the method that is announced. -/
def key? : Announcement → Option (String × String)
  | .method c m _ => some (c, m)
  | .override o => some (o.className, o.method)
  | .nothing | .function .. => none

/-- What is put into the registry as a method. -/
def methodOf? : Announcement → Option ((String × String) × Option JsType)
  | .method c m type => some ((c, m), some type)
  | .nothing | .function .. | .override _ => none

/-- What is put into the registry as a function. -/
def functionOf? : Announcement → Option (String × Option JsType)
  | .function name type => some (name, some type)
  | .nothing | .method .. | .override _ => none

theorem methodOf?_eq_some {x : Announcement} {e : (String × String) × Option JsType} :
    x.methodOf? = some e ↔ ∃ type, e.2 = some type ∧ x = .method e.1.1 e.1.2 type := by
  obtain ⟨⟨c, m⟩, type?⟩ := e
  cases x <;> simp [methodOf?, eq_comm, and_comm]

theorem functionOf?_eq_some {x : Announcement} {e : String × Option JsType} :
    x.functionOf? = some e ↔ ∃ type, e.2 = some type ∧ x = .function e.1 type := by
  obtain ⟨name, type?⟩ := e
  cases x <;> simp [functionOf?, eq_comm, and_comm]

theorem override?_eq_some {x : Announcement} {o : Override} :
    x.override? = some o ↔ x = .override o := by
  cases x <;> simp [override?]

end Announcement

section

variable {p : Program} {r : Registry}

/-- What is announced as a method has the name of one. -/
theorem toString_of_key? {d : Declaration} {c m : String}
    (h : (announcement p r d).key? = some (c, m)) :
    toString d.name = c ++ ".prototype." ++ m := by
  rcases announcement_cases p r d with hx | ⟨-, -, hx⟩ |
    ⟨owner, member, method, -, hsplit, hsingle, -, ⟨-, hx⟩ | ⟨-, hx⟩⟩
  · rw [hx] at h
    cases h
  · rw [hx] at h
    cases h
  · rw [hx] at h
    cases h
    exact QualifiedName.toString_of_splitOn_prototype hsplit hsingle
  · rw [hx] at h
    cases h
    exact QualifiedName.toString_of_splitOn_prototype hsplit hsingle

/-- What is announced as a function has its name. -/
theorem toString_of_function {d : Declaration} {name : String} {type : JsType}
    (h : announcement p r d = .function name type) : toString d.name = name := by
  rcases announcement_cases p r d with hx | ⟨-, -, hx⟩ | ⟨_, _, _, -, -, -, -, ⟨-, hx⟩ | ⟨-, hx⟩⟩ <;>
    rw [hx] at h <;> cases h
  rfl

theorem methods_withAnnounced (ds : List Declaration) :
    (withAnnounced p r ds).methods
      = r.methods.insertAll (ds.filterMap fun d => (announcement p r d).methodOf?) := by
  have hfold : ∀ s : Registry,
      (ds.foldl (fun s d => (announcement p r d).declareIn s) s).methods
        = s.methods.insertAll (ds.filterMap fun d => (announcement p r d).methodOf?) := by
    induction ds with
    | nil => exact fun _ => rfl
    | cons d ds ih =>
      intro s
      rw [List.foldl_cons, ih, List.filterMap_cons]
      cases announcement p r d <;> rfl
  exact hfold r

theorem functions_withAnnounced (ds : List Declaration) :
    (withAnnounced p r ds).functions
      = r.functions.insertAll (ds.filterMap fun d => (announcement p r d).functionOf?) := by
  have hfold : ∀ s : Registry,
      (ds.foldl (fun s d => (announcement p r d).declareIn s) s).functions
        = s.functions.insertAll (ds.filterMap fun d => (announcement p r d).functionOf?) := by
    induction ds with
    | nil => exact fun _ => rfl
    | cons d ds ih =>
      intro s
      rw [List.foldl_cons, ih, List.filterMap_cons]
      cases announcement p r d <;> rfl
  exact hfold r

theorem functions_withOverrides (os : List Override) :
    (withOverrides p r os).functions = r.functions := by
  induction os generalizing r with
  | nil => rfl
  | cons o os ih => exact ih

/-! ## Methods that override -/

/-- What a method overrides is found on the classes above its own. -/
theorem overridden?_congr {s : Registry} {P : String → Prop} {o : Override}
    (hlength : s.classes.entries.length = r.classes.entries.length)
    (hown : s.superclass? o.className = r.superclass? o.className)
    (hfirst : ∀ parent, r.superclass? o.className = some parent → P parent)
    (hsuper : ∀ c, P c → s.superclass? c = r.superclass? c)
    (hclosed : ∀ c parent, P c → r.superclass? c = some parent → P parent)
    (hmethods : ∀ c, P c → s.ownMethod? c o.method = r.ownMethod? c o.method) :
    overridden? s o = overridden? r o := by
  unfold overridden? Registry.findMethod
  rw [hown, hlength]
  cases hparent : r.superclass? o.className with
  | none => rfl
  | some parent =>
    exact Registry.findMethodWithin_congr hsuper hclosed hmethods (hfirst parent hparent) _

/-- If base classes come first, the last override of a method has in the end the result of what
it overrides in the end. -/
theorem ownMethod?_withOverrides {a : Ancestry} {os : List Override}
    (hsorted : os.Pairwise fun o o' => a.depth o.className ≤ a.depth o'.className)
    (hdepth : ∀ c parent, r.superclass? c = some parent → a.depth parent < a.depth c)
    (c m : String) : (withOverrides p r os).ownMethod? c m
      = match (os.filter fun o => o.key == (c, m)).getLast? with
        | some o => some (overrideType p (withOverrides p r os) o)
        | none => r.ownMethod? c m := by
  induction os generalizing r c m with
  | nil => rfl
  | cons o os ih =>
    obtain ⟨hfirst, hsorted⟩ := List.pairwise_cons.mp hsorted
    have hstep (c m : String) := @ih
      (r.declareMethod o.className o.method (some (overrideType p r o))) hsorted hdepth c m
    have hcons : withOverrides p r (o :: os)
        = withOverrides p (r.declareMethod o.className o.method (some (overrideType p r o))) os :=
      rfl
    have hown (c m : String) :
        (r.declareMethod o.className o.method (some (overrideType p r o))).ownMethod? c m
          = if o.key = (c, m) then some (overrideType p r o) else r.ownMethod? c m :=
      Registry.ownMethod?_declareMethod
    have hhead : ((o :: os).filter fun o => o.key == (c, m))
        = if o.key = (c, m) then o :: os.filter fun o => o.key == (c, m)
          else os.filter fun o => o.key == (c, m) := by
      rw [List.filter_cons]
      simp only [beq_iff_eq]
    rw [hcons, hstep, ← hcons, hhead]
    by_cases hlater : (os.filter fun o => o.key == (c, m)) = []
    · rw [hlater, List.getLast?_nil]
      by_cases hkey : o.key = (c, m)
      · simp only [hown, if_pos hkey, List.getLast?_singleton]
        -- what has been found above the class is not declared again
        have hclasses := classes_withOverrides (p := p) r (o :: os)
        have hsame : overridden? (withOverrides p r (o :: os)) o = overridden? r o := by
          refine overridden?_congr (P := fun c => a.depth c < a.depth o.className)
            (by rw [hclasses]) (superclass?_of_classes hclasses _) (hdepth _)
            (fun c _ => superclass?_of_classes hclasses c)
            (fun c parent hc hparent => (hdepth c parent hparent).trans hc) fun c hc => ?_
          have hnone : (os.filter fun o' => o'.key == (c, o.method)) = [] := by
            refine List.filter_eq_nil_iff.mpr fun o' ho' hkey' => ?_
            have hle := hfirst o' ho'
            rw [show o'.className = c from congrArg Prod.fst (beq_iff_eq.mp hkey')] at hle
            omega
          have hother : ¬ o.key = (c, o.method) := fun hkey' => by
            rw [show o.className = c from congrArg Prod.fst hkey'] at hc
            exact lt_irrefl _ hc
          rw [hcons, hstep, hnone, List.getLast?_nil]
          exact (hown c o.method).trans (if_neg hother)
        unfold overrideType
        rw [hsame]
      · simp only [hown, if_neg hkey, List.getLast?_nil]
    · obtain ⟨o', ho'⟩ := Option.isSome_iff_exists.mp (List.getLast?_isSome.mpr hlater)
      have hlast : (if o.key = (c, m) then o :: os.filter fun o => o.key == (c, m)
          else os.filter fun o => o.key == (c, m)).getLast? = some o' := by
        split
        · rw [List.getLast?_cons, ho']
          rfl
        · exact ho'
      simp only [ho', hlast]

/-- What the methods of a class are when all functions and methods have been declared. -/
theorem ownMethod?_withFunctions {a : Ancestry} (ds : List Declaration)
    (hdepth : ∀ c parent, r.superclass? c = some parent → a.depth parent < a.depth c)
    (c m : String) : (withFunctions p r a ds).ownMethod? c m
      = match ((waiting p r ds).filter fun o => o.key == (c, m)).getLast? with
        | some o => some (overrideType p (withFunctions p r a ds) o)
        | none => (withAnnounced p r ds).ownMethod? c m := by
  have hannounced := classes_withAnnounced (p := p) r ds
  have hsorted : (baseFirst a (waiting p r ds)).Pairwise fun o o' =>
      a.depth o.className ≤ a.depth o'.className := by
    refine (StableSort.pairwise_sortBy ?_ ?_ _).imp of_decide_eq_true
    · intro o o'
      simpa using Nat.le_total _ _
    · intro o₁ o₂ o₃ h₁ h₂
      simp only [decide_eq_true_eq] at h₁ h₂ ⊢
      exact h₁.trans h₂
  have hfilter : (baseFirst a (waiting p r ds)).filter (fun o => o.key == (c, m))
      = (waiting p r ds).filter fun o => o.key == (c, m) := by
    refine StableSort.filter_sortBy (fun o o' ho ho' => ?_) _
    have hkey : o.key = o'.key := (beq_iff_eq.mp ho).trans (beq_iff_eq.mp ho').symm
    exact decide_eq_true (Nat.le_of_eq (congrArg (fun k => a.depth k.1) hkey))
  unfold withFunctions
  rw [ownMethod?_withOverrides hsorted (fun n parent hparent => hdepth n parent (by
    rwa [superclass?_of_classes hannounced] at hparent)), hfilter]

/-- A method that does not wait has the type that is announced last, or the one it had before. -/
theorem ownMethod?_withAnnounced (ds : List Declaration) (c m : String) :
    (withAnnounced p r ds).ownMethod? c m
      = match OrderedMap.last? (c, m) (ds.filterMap fun d => (announcement p r d).methodOf?) with
        | some type? => type?
        | none => r.ownMethod? c m := by
  unfold Registry.ownMethod?
  rw [methods_withAnnounced, OrderedMap.get?_insertAll]
  cases OrderedMap.last? (c, m) (ds.filterMap fun d => (announcement p r d).methodOf?) with
  | none => rfl
  | some type? => rfl

/-- A function has the type that is announced last, or the one it had before. -/
theorem functions_get?_withFunctions (a : Ancestry) (ds : List Declaration) (name : String) :
    (withFunctions p r a ds).functions.get? name
      = (OrderedMap.last? name (ds.filterMap fun d => (announcement p r d).functionOf?)).or
        (r.functions.get? name) := by
  unfold withFunctions
  rw [functions_withOverrides, functions_withAnnounced, OrderedMap.get?_insertAll]

end

end Typing

end SuperForward
