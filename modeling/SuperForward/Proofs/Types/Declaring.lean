/-
  Declaring what a program declares.

  Of a program of scripts everything can be declared: the questions that are asked of it have
  answers, superclasses are declared classes and come to an end, classes that are declared are
  known to the ancestry, and every method that is declared is a function of the program and has
  the type of one.
-/
import SuperForward.Types.Typing
import SuperForward.Proofs.Outcome
import SuperForward.Proofs.Program.Naming
import SuperForward.Proofs.Splitting
import SuperForward.Proofs.Types.Ancestors

namespace SuperForward

open SuperForward.Program (root Below)
open SuperForward.Task (Yields yields_pure yields_modify)

/-! ## The registry -/

namespace Registry

variable {r : Registry} {name c : String}

theorem isClass_declareClass :
    (r.declareClass name).isClass c = true ↔ name = c ∨ r.isClass c = true := by
  unfold declareClass
  split
  · next h =>
    constructor
    · exact .inr
    · rintro (rfl | h')
      · exact h
      · exact h'
  · unfold isClass OrderedMap.contains
    rw [OrderedMap.get?_insert]
    by_cases hc : name = c <;> simp [hc]

/-- A class that is declared anew has no superclass yet. -/
theorem superclass?_declareClass : (r.declareClass name).superclass? c = r.superclass? c := by
  unfold declareClass
  split
  · rfl
  · next h =>
    unfold superclass?
    rw [OrderedMap.get?_insert]
    split
    · next hc =>
      subst hc
      unfold isClass OrderedMap.contains at h
      rw [Bool.not_eq_true, Option.isSome_eq_false_iff, Option.isNone_iff_eq_none] at h
      rw [h]
      rfl
    · rfl

theorem ownMethod?_declareClass {m : String} :
    (r.declareClass name).ownMethod? c m = r.ownMethod? c m := by
  unfold declareClass
  split
  · rfl
  · rfl

theorem setSuperclass_eq {parent : String} (hname : r.isClass name = true)
    (hparent : r.isClass parent = true) : ∃ r', r.setSuperclass name parent = .ok r' ∧
      (∀ c, r'.isClass c = r.isClass c) ∧ r'.methods = r.methods ∧
      ∀ c, r'.superclass? c = if name = c then some parent else r.superclass? c := by
  refine ⟨{ r with classes := r.classes.insert name (some parent) }, ?_, ?_, rfl, ?_⟩
  · unfold setSuperclass
    simp [hname, hparent]
  · intro c
    unfold isClass OrderedMap.contains at *
    rw [OrderedMap.get?_insert]
    split
    · next hc =>
      subst hc
      rw [hname]
      rfl
    · rfl
  · intro c
    unfold superclass?
    rw [OrderedMap.get?_insert]
    split <;> rfl

theorem ownMethod?_declareMethod {owner method m : String} {type : Option JsType} :
    (r.declareMethod owner method type).ownMethod? c m
      = if (owner, method) = (c, m) then type else r.ownMethod? c m := by
  unfold ownMethod? declareMethod
  rw [OrderedMap.get?_insert]
  split <;> rfl

theorem findMethodWithin_succ {method : String} {type : JsType} {steps : Nat}
    (h : r.findMethodWithin method steps c = some type) :
    r.findMethodWithin method (steps + 1) c = some type := by
  induction steps generalizing c with
  | zero => cases h
  | succ steps ih =>
    unfold findMethodWithin at h ⊢
    split at h
    · exact h
    · obtain ⟨parent, hparent, htype⟩ := Option.bind_eq_some_iff.mp h
      exact Option.bind_eq_some_iff.mpr ⟨parent, hparent, ih htype⟩

/-- What a class does not declare itself is found on its superclass. -/
theorem findMethod_of_superclass? {method : String} {type : JsType}
    (h : r.findMethod c method = some type) (hown : r.ownMethod? c method = none) :
    ∃ parent, r.superclass? c = some parent ∧ r.findMethod parent method = some type := by
  unfold findMethod findMethodWithin at h
  rw [hown] at h
  obtain ⟨parent, hparent, htype⟩ := Option.bind_eq_some_iff.mp h
  exact ⟨parent, hparent, findMethodWithin_succ htype⟩

/-- What is found on a class or above it is what some class declares itself. -/
theorem ownMethod?_of_findMethod {method : String} {type : JsType}
    (h : r.findMethod c method = some type) : ∃ owner, r.ownMethod? owner method = some type := by
  unfold findMethod at h
  generalize r.classes.entries.length + 1 = steps at h
  induction steps generalizing c with
  | zero => cases h
  | succ steps ih =>
    unfold findMethodWithin at h
    split at h
    · next found =>
      cases h
      exact ⟨c, found⟩
    · obtain ⟨parent, -, hparent⟩ := Option.bind_eq_some_iff.mp h
      exact ih hparent

end Registry

namespace Typing

/-- What holds of everything that has been declared at any time. -/
structure Sound (r : Registry) (a : Ancestry) : Prop where
  known : ∀ c, r.isClass c = true → a.classes.contains c = true
  linked : ∀ c parent, r.superclass? c = some parent → r.isClass parent = true
  above : ∀ c parent, r.superclass? c = some parent → (c, parent) ∈ a.links
  acyclic : a.Acyclic
  callable : ∀ c m type, r.ownMethod? c m = some type → type.returns?.isSome = true

/-- Declarations are made about one program. -/
structure Declares (p : Program) (a : Typing) : Prop where
  program : a.program = p
  sound : Sound a.registry a.ancestry
  declared : ∀ c m type, a.registry.ownMethod? c m = some type → p.HasMethod c m

/-- A declaration is about a function of the program, and has its name. -/
structure Declaration.IsOf (d : Declaration) (p : Program) : Prop where
  below : p.Below root d.fn
  kind : p.kindOf? d.fn = some .function
  named : p.functionName d.fn = .ok (some d.name)

/-- A method that overrides is a function of the program. -/
structure Override.IsOf (o : Override) (p : Program) : Prop where
  below : p.Below root o.fn
  method : p.HasMethod o.className o.method

/-! ## Questions -/

section Questions

variable {p : Program} (hp : p.Parsed)
include hp

theorem docOfFunction_ok {fn : Handle} (hfn : p.Below root fn) :
    ∃ doc, p.docOfFunction fn = .ok doc := by
  obtain ⟨node, hnode, hn⟩ := Program.node_of_lt (hp.lt_size_of_below hfn)
  have hparent : p.parentOf fn = node.parent := (Program.node_fields hnode).2.2.2.1
  unfold Program.docOfFunction
  simp only [hnode, except_ok_bind, except_pure]
  split
  · exact ⟨_, rfl⟩
  · cases habove : node.parent with
    | none => exact ⟨none, rfl⟩
    | some above =>
      rw [habove] at hparent
      have hlt : above < p.size := hp.forest.parent_lt_size hparent
      obtain ⟨parent, hparent, hn'⟩ := Program.node_of_lt hlt
      have hgrand : p.parentOf above = parent.parent := (Program.node_fields hparent).2.2.2.1
      simp only [hparent, except_ok_bind]
      split
      · exact ⟨_, rfl⟩
      · split
        · exact ⟨_, rfl⟩
        · cases hgrandparent : parent.parent with
          | none => exact ⟨none, rfl⟩
          | some grandparent =>
            rw [hgrandparent] at hgrand
            obtain ⟨declaration, hdeclaration, -⟩ :=
              Program.node_of_lt (hp.forest.parent_lt_size hgrand)
            simp only [hdeclaration, except_ok_bind]
            exact ⟨_, rfl⟩

theorem declarationAt_ok {n : Handle} (hn : p.Below root n) :
    ∃ d?, declarationAt p n = .ok d? ∧ ∀ d ∈ d?, Declaration.IsOf d p := by
  unfold declarationAt
  simp only [Program.isKind_of_lt (hp.lt_size_of_below hn), except_ok_bind, except_pure]
  by_cases hkind : p.kindOf? n = some .function
  · obtain ⟨name?, hname, -⟩ := hp.functionName_ok hn hkind
    obtain ⟨doc, hdoc⟩ := docOfFunction_ok hp hn
    simp only [hkind, decide_true, Bool.not_true, Bool.false_eq_true, if_false, hname,
      except_ok_bind]
    cases name? with
    | none => exact ⟨none, rfl, by simp⟩
    | some name =>
      simp only [hdoc, except_ok_bind]
      refine ⟨_, rfl, ?_⟩
      intro d hd
      cases hd
      exact ⟨hn, hkind, hname⟩
  · exact ⟨none, by simp [hkind], by simp⟩

theorem inheritsAt_ok {n : Handle} (hn : p.Below root n) :
    ∃ link?, inheritsAt p n = .ok link? := by
  obtain ⟨node, hnode, -⟩ := Program.node_of_lt (hp.lt_size_of_below hn)
  have hchildren := (Program.node_fields hnode).2.2.1
  unfold inheritsAt
  simp only [hnode, except_ok_bind, except_pure]
  split
  · next callee child parent _ hlist =>
    rw [hlist] at hchildren
    have name {c : Handle} (hc : c ∈ [callee, child, parent]) :
        ∃ name, p.qualifiedName c = .ok name :=
      hp.qualifiedName_ok (hn.child (hp.forest.mem_children_iff.mp (hchildren ▸ hc)))
    obtain ⟨calleeName, hcallee⟩ := name (c := callee) (by simp)
    obtain ⟨childName, hchild⟩ := name (c := child) (by simp)
    obtain ⟨parentName, hparent⟩ := name (c := parent) (by simp)
    simp only [hcallee, hchild, hparent, except_ok_bind]
    cases calleeName with
    | none => exact ⟨none, rfl⟩
    | some name =>
      simp only
      split
      · exact ⟨none, rfl⟩
      · exact ⟨_, rfl⟩
  · exact ⟨none, rfl⟩

/-- The nodes below the root, in the order in which they are asked about. -/
theorem subtree_root : p.subtree root = .ok (p.preOrder root) :=
  hp.forest.subtree_eq hp.root_lt_size

theorem declarationsOf_ok :
    ∃ ds, declarationsOf p = .ok ds ∧ ∀ d ∈ ds, Declaration.IsOf d p := by
  have hall : ∀ n ∈ p.preOrder root, ∃ d?, declarationAt p n = .ok d? ∧
      ∀ d ∈ d?, Declaration.IsOf d p :=
    fun n hn => declarationAt_ok hp (hp.forest.mem_preOrder_iff.mp hn)
  obtain ⟨ds, hds, hfrom⟩ := Program.exists_mapM_ok fun n hn => (hall n hn).imp fun _ h => h.1
  refine ⟨ds.filterMap id, ?_, ?_⟩
  · unfold declarationsOf
    simp only [subtree_root hp, except_ok_bind, hds, except_pure]
  · intro d hd
    obtain ⟨d?, hd?, h⟩ := List.mem_filterMap.mp hd
    obtain ⟨n, hn, hat⟩ := hfrom d? hd?
    obtain ⟨_, hat', hof⟩ := hall n hn
    rw [hat] at hat'
    cases hat'
    exact hof d h

theorem inheritsOf_ok : ∃ links, inheritsOf p = .ok links := by
  obtain ⟨links, hlinks, -⟩ := Program.exists_mapM_ok (f := inheritsAt p) (l := p.preOrder root)
    fun n hn => inheritsAt_ok hp (hp.forest.mem_preOrder_iff.mp hn)
  refine ⟨links.filterMap id, ?_⟩
  unfold inheritsOf
  simp only [subtree_root hp, except_ok_bind, hlinks, except_pure]

theorem returnsValueWithin_ok (steps : Nat) (ns : List Handle) (hns : ∀ n ∈ ns, n < p.size) :
    ∃ b, returnsValueWithin p steps ns = .ok b := by
  induction steps generalizing ns with
  | zero => exact ⟨false, rfl⟩
  | succ steps ih =>
    cases ns with
    | nil => exact ⟨false, rfl⟩
    | cons n ns =>
      obtain ⟨node, hnode, -⟩ := Program.node_of_lt (hns n (List.mem_cons_self ..))
      have hchildren := (Program.node_fields hnode).2.2.1
      unfold returnsValueWithin
      simp only [hnode, except_ok_bind]
      split
      · exact ⟨true, rfl⟩
      · refine ih _ fun m hm => ?_
        rcases List.mem_append.mp hm with hm | hm
        · split at hm
          · exact absurd hm List.not_mem_nil
          · rw [← hchildren] at hm
            exact hp.forest.lt_size_of_mem hm
        · exact hns m (List.mem_cons_of_mem _ hm)

theorem inferredResult_ok {fn : Handle} (hfn : p.Below root fn) :
    ∃ type, inferredResult p fn = .ok type := by
  unfold inferredResult
  simp only [Program.lastChild, Program.children_of_lt (hp.lt_size_of_below hfn), except_ok_bind,
    except_pure]
  cases hlast : (p.childrenOf fn).getLast? with
  | none => exact ⟨.void, rfl⟩
  | some body =>
    have hbody : body < p.size := hp.forest.lt_size_of_mem (List.mem_of_getLast? hlast)
    obtain ⟨b, hb⟩ := returnsValueWithin_ok hp (p.size + 1) (p.childrenOf body)
      fun n hn => hp.forest.lt_size_of_mem hn
    simp only [Program.children_of_lt hbody, except_ok_bind, hb]
    exact ⟨_, rfl⟩

end Questions

/-! ## Declaring -/

theorem yields_ask {α : Type} {p : Program} {question : Program → Except Fault α}
    (h : ∃ a, question p = .ok a) :
    Yields (Declares p) (ask question) fun _ => Declares p := by
  intro s hs
  obtain ⟨a, ha⟩ := h
  refine ⟨a, s, ?_, hs⟩
  unfold ask
  rw [Task.outcome_get_bind, Task.outcome_ofExcept, hs.program, ha]

section

variable {p : Program}

theorem yields_note (level : Log.Level) (text : String) :
    Yields (Declares p) (note level text) fun _ => Declares p :=
  yields_modify fun _ hs => ⟨hs.program, hs.sound, hs.declared⟩

/-- A class that is declared is known to the ancestry from then on. -/
theorem Sound.declareClass {r : Registry} {a : Ancestry} (h : Sound r a) (name : String) :
    Sound (r.declareClass name) (a.addClass name) where
  known := by
    intro c hc
    unfold Ancestry.addClass
    rcases Registry.isClass_declareClass.mp hc with rfl | hc
    · split
      · next h => exact h
      · simp
    · have := h.known c hc
      split
      · exact this
      · rw [List.contains_iff_mem] at this ⊢
        exact List.mem_append_left _ this
  linked := by
    intro c parent hparent
    rw [Registry.superclass?_declareClass] at hparent
    exact Registry.isClass_declareClass.mpr (.inr (h.linked c parent hparent))
  above := by
    intro c parent hparent
    rw [Registry.superclass?_declareClass] at hparent
    unfold Ancestry.addClass
    split
    · exact h.above c parent hparent
    · exact h.above c parent hparent
  acyclic := h.acyclic.addClass name
  callable := by
    intro c m type htype
    rw [Registry.ownMethod?_declareClass] at htype
    exact h.callable c m type htype

theorem declareClass_yields (d : Declaration) :
    Yields (Declares p) (declareClass d) fun _ => Declares p := by
  unfold declareClass
  cases d.doc with
  | none => exact yields_pure fun _ hs => hs
  | some doc =>
    simp only
    split
    · refine (yields_modify fun s hs => ⟨hs.program, hs.sound.declareClass _, ?_⟩).bind
        fun _ => yields_pure fun _ hs => hs
      intro c m type htype
      rw [Registry.ownMethod?_declareClass] at htype
      exact hs.declared c m type htype
    · exact yields_pure fun _ hs => hs

/-- A link between declared classes that closes no circle. -/
theorem Sound.setSuperclass {r r' : Registry} {a : Ancestry} {child parent : String}
    (h : Sound r a) (hchild : r.isClass child = true) (hparent : r.isClass parent = true)
    (hnew : child ∉ a.upwards parent) (hset : r.setSuperclass child parent = .ok r') :
    Sound r' (a.addLink child parent) := by
  obtain ⟨r'', hset', hclass, hmethods, hsuper⟩ := Registry.setSuperclass_eq hchild hparent
  rw [hset'] at hset
  cases hset
  -- links and superclasses gain the one entry, and it closes no circle
  refine ⟨?_, ?_, ?_, h.acyclic.addLink hnew, ?_⟩
  · intro c hc
    rw [hclass] at hc
    unfold Ancestry.addLink
    split
    · exact h.known c hc
    · exact h.known c hc
  · intro c q hq
    rw [hclass]
    rw [hsuper] at hq
    split at hq
    · cases hq
      exact hparent
    · exact h.linked c q hq
  · intro c q hq
    rw [hsuper] at hq
    rw [Ancestry.mem_links_addLink]
    split at hq
    · next heq =>
      cases hq
      exact .inr (heq ▸ rfl)
    · exact .inl (h.above c q hq)
  · intro c m type htype
    refine h.callable c m type ?_
    unfold Registry.ownMethod? at htype ⊢
    rw [hmethods] at htype
    exact htype

theorem link_yields (child parent : String) :
    Yields (Declares p) (link child parent) fun _ => Declares p := by
  unfold link
  refine .get_bind fun s hs => ?_
  have note (level : Log.Level) (text : String) :
      Yields (fun s' => s' = s) (note level text) fun _ => Declares p :=
    (yields_note level text).imp (fun _ h => h ▸ hs) fun _ _ h => h
  split
  · exact note _ _
  next hchild =>
  split
  · exact note _ _
  next hparent =>
  split
  · exact note _ _
  simp only [Bool.not_eq_eq_eq_not, Bool.not_true, Bool.not_eq_false] at hchild hparent
  -- both classes are known, so that it can be asked whether one is above the other
  have hleads : ∃ b, s.ancestry.leadsTo parent child = .ok b := by
    unfold Ancestry.leadsTo
    rw [hs.sound.known _ hchild, hs.sound.known _ hparent]
    exact ⟨_, rfl⟩
  obtain ⟨b, hb⟩ := hleads
  have hcircle : Yields (fun s' => s' = s) (if (child == parent) = true then pure true
      else Task.ofExcept (s.ancestry.leadsTo parent child) : Task Typing Bool)
      fun circle s' => s' = s ∧ (circle = false → child ∉ s.ancestry.upwards parent) := by
    split
    · exact yields_pure fun _ h => ⟨h, fun h => nomatch h⟩
    · rw [hb]
      exact fun s' h => ⟨b, s', rfl, h, fun hfree => Ancestry.not_mem_upwards (hfree ▸ hb)⟩
  refine hcircle.bind fun circle => ?_
  split
  · exact (note _ _).imp (fun _ h => h.1) fun _ _ h => h
  next hfree =>
  obtain ⟨r', hset, -, hmethods, -⟩ := Registry.setSuperclass_eq hchild hparent
  rintro s' ⟨rfl, hnew⟩
  rw [Task.outcome_bind_ok (Task.outcome_modify _ _), Task.outcome_ofExcept_bind hset]
  refine ⟨(), _, rfl, hs.program,
    hs.sound.setSuperclass hchild hparent (hnew (Bool.not_eq_true _ ▸ hfree)) hset, ?_⟩
  intro c m type htype
  refine hs.declared c m type ?_
  unfold Registry.ownMethod? at htype ⊢
  rwa [← hmethods]

end

section

variable {p : Program} (hp : p.Parsed)
include hp

theorem declareClasses_yields (ds : List Declaration) :
    Yields (Declares p) (declareClasses ds) fun _ => Declares p := by
  unfold declareClasses
  have hdeclare := Yields.mapM (I := Declares p) (R := fun _ _ => True) ds
    fun d _ => (declareClass_yields d).imp (fun _ h => h) fun _ _ h => ⟨h, trivial⟩
  refine hdeclare.bind fun documented => ?_
  refine ((yields_ask (inheritsOf_ok hp)).imp (fun _ h => h.1) fun _ _ h => h).bind fun _ => ?_
  refine (Yields.forIn (I := Declares p) _ ?_).bind fun _ => yields_pure fun _ hs => hs
  intro e _
  exact (link_yields e.1 e.2).bind fun _ => yields_pure fun _ hs => ⟨rfl, hs⟩

theorem result_yields {d : Declaration} (hd : p.Below root d.fn) :
    Yields (Declares p) (result d) fun _ => Declares p := by
  unfold result
  split
  · exact .get_bind fun s hs => yields_pure fun s' h => h ▸ hs
  · exact yields_ask (inferredResult_ok hp hd)

omit hp in
/-- A method that is declared with the type of a function. -/
theorem Sound.declareMethod {r : Registry} {a : Ancestry} (h : Sound r a)
    (owner method name : String) (returns : JsType) :
    Sound (r.declareMethod owner method (some (.function name returns false))) a where
  known := h.known
  linked := h.linked
  above := h.above
  acyclic := h.acyclic
  callable := by
    intro c m type htype
    rw [Registry.ownMethod?_declareMethod] at htype
    split at htype
    · cases htype
      rfl
    · exact h.callable c m type htype

omit hp in
/-- A method of which there is a function is declared. -/
theorem declareMethod_yields {owner method : String} (hmethod : p.HasMethod owner method)
    (name : String) (returns : JsType) :
    Yields (Declares p) (declare (·.declareMethod owner method
      (some (.function name returns false)))) fun _ => Declares p := by
  refine yields_modify fun s hs => ⟨hs.program, hs.sound.declareMethod _ _ _ _, ?_⟩
  intro c m type htype
  rw [Registry.ownMethod?_declareMethod] at htype
  split at htype
  · next hsame =>
    cases hsame
    exact hmethod
  · exact hs.declared c m type htype

theorem declareFunction_yields {d : Declaration} (hd : Declaration.IsOf d p) :
    Yields (Declares p) (declareFunction d) fun o? s => Declares p s ∧
      ∀ o ∈ o?, Override.IsOf o p := by
  have nothing : Yields (Declares p) (pure none : Task Typing (Option Override)) fun o? s =>
      Declares p s ∧ ∀ o ∈ o?, Override.IsOf o p := yields_pure fun _ hs => ⟨hs, by simp⟩
  unfold declareFunction
  refine .get_bind fun s hs => ?_
  have look {α : Type} {t : Task Typing α} {after : α → Typing → Prop}
      (h : Yields (Declares p) t after) : Yields (fun s' => s' = s) t after :=
    h.imp (fun _ h => h ▸ hs) fun _ _ h => h
  split
  · exact look nothing
  split
  · refine (look (result_yields hp hd.below)).bind fun type => ?_
    exact (yields_modify fun s hs => ⟨hs.program, ⟨hs.sound.known, hs.sound.linked,
      hs.sound.above, hs.sound.acyclic, hs.sound.callable⟩, hs.declared⟩).bind fun _ => nothing
  · next owner member hsplit =>
    split
    · next method hsingle =>
      refine .get_bind fun s' hs' => ?_
      subst hs'
      have hmethod : p.HasMethod (toString owner) method := ⟨d.fn, hd.below, hd.kind, d.name,
        hd.named, QualifiedName.toString_of_splitOn_prototype hsplit hsingle⟩
      split
      · split
        · exact look (yields_pure fun _ hs => ⟨hs, fun o ho => by
            cases ho
            exact ⟨hd.below, hmethod⟩⟩)
        · refine (look (result_yields hp hd.below)).bind fun type => ?_
          exact (declareMethod_yields hmethod _ _).bind fun _ => nothing
      · exact look nothing
    · exact look nothing

theorem declareOverride_yields {o : Override} (ho : Override.IsOf o p) :
    Yields (Declares p) (declareOverride o) fun _ => Declares p := by
  unfold declareOverride
  refine .get_bind fun s hs => ?_
  have declare := declareMethod_yields ho.method (o.className ++ ".prototype." ++ o.method)
  cases htype : overridden? s.registry o with
  | none =>
    exact ((yields_ask (inferredResult_ok hp ho.below)).bind declare).imp (fun _ h => h ▸ hs)
      fun _ _ h => h
  | some type =>
    -- what is overridden is a declared method
    obtain ⟨parent, -, hfind⟩ := Option.bind_eq_some_iff.mp htype
    obtain ⟨owner, howner⟩ := Registry.ownMethod?_of_findMethod hfind
    obtain ⟨returns, hr⟩ := Option.isSome_iff_exists.mp (hs.sound.callable _ _ _ howner)
    simp only [hr]
    exact (declare returns).imp (fun _ h => h ▸ hs) fun _ _ h => h

theorem declareFunctions_yields {ds : List Declaration} (hds : ∀ d ∈ ds, Declaration.IsOf d p) :
    Yields (Declares p) (declareFunctions ds) fun _ => Declares p := by
  unfold declareFunctions
  have hdeclare := Yields.mapM (I := Declares p)
    (R := fun _ (o? : Option Override) => ∀ o ∈ o?, Override.IsOf o p) ds
    fun d hd => declareFunction_yields hp (hds d hd)
  refine hdeclare.bind fun overrides => ?_
  refine .get_bind fun s hs => ?_
  have hloop : Yields (Declares p) (for o in baseFirst s.ancestry (overrides.filterMap id) do
      declareOverride o) fun _ => Declares p := by
    refine (Yields.forIn (I := Declares p) _ ?_).bind fun _ => yields_pure fun _ hs => hs
    intro o ho
    obtain ⟨o?, ho?, h⟩ := List.mem_filterMap.mp (StableSort.mem_sortBy.mp ho)
    obtain ⟨d, -, hof⟩ := hs.2 o? ho?
    exact (declareOverride_yields hp (hof o h)).bind
      fun _ => yields_pure fun _ hs => ⟨rfl, hs⟩
  exact hloop.imp (fun _ h => h ▸ hs.1) fun _ _ h => h

end

end Typing

end SuperForward
