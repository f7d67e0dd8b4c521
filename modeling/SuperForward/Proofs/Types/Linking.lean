/-
  Declaring and linking classes, step by step.

  What a program declares to be classes, and which links it asks for, does not depend on what
  was declared before. A link that is asked for is left out, or it is made; it can only be asked
  whether it would close a circle if the ancestry knows both classes.
-/
import SuperForward.Types.Typing
import SuperForward.Proofs.Entries
import SuperForward.Proofs.Outcome
import SuperForward.Proofs.Types.Declaring

namespace SuperForward

/-! ## Registries -/

namespace Registry

variable {r : Registry}

theorem nodup_declareClass (h : r.classes.keys.Nodup) (name : String) :
    (r.declareClass name).classes.keys.Nodup := by
  unfold declareClass
  split
  · exact h
  · exact OrderedMap.nodup_put h

theorem nodup_setSuperclass {r' : Registry} {child parent : String}
    (h : r.classes.keys.Nodup) (hset : r.setSuperclass child parent = .ok r') :
    r'.classes.keys.Nodup := by
  unfold setSuperclass at hset
  split at hset
  · cases hset
  · split at hset
    · cases hset
    · cases hset
      exact OrderedMap.nodup_put h

end Registry

/-! ## What is declared -/

namespace Declaration

/-- The function is documented to be a class or an interface. -/
def declaresClass (d : Declaration) : Bool :=
  d.doc.any fun doc => doc.isConstructor || doc.isInterface

/-- The function is documented to be an interface, and not to be a class. -/
def declaresInterface (d : Declaration) : Bool :=
  d.doc.any fun doc => !doc.isConstructor && doc.isInterface

/-- The link to the superclass that the documentation of a class names. -/
def documentedLink (d : Declaration) : Option (String × String) :=
  if d.declaresClass then
    ((d.doc.bind (·.superclass)).bind DocComment.nonblank?).map fun parent =>
      (toString d.name, parent)
  else none

end Declaration

namespace Typing

/-- The name is declared as that of a class or an interface. -/
def DeclaresClass (ds : List Declaration) (c : String) : Prop :=
  ∃ d ∈ ds, d.declaresClass = true ∧ toString d.name = c

/-- The name is declared as that of an interface. -/
def DeclaresInterface (ds : List Declaration) (c : String) : Prop :=
  ∃ d ∈ ds, d.declaresInterface = true ∧ toString d.name = c

/-- The links that are asked for: those that calls make take the place of documented ones. -/
def linksOf (ds : List Declaration) (called : List (String × String)) : List (String × String) :=
  ((OrderedMap.ofList (ds.filterMap Declaration.documentedLink)).insertAll called).entries

/-- What is known once a declaration has been looked at for a class. -/
def withClass (a : Typing) (d : Declaration) : Typing :=
  if d.declaresClass then
    { a with
      registry := a.registry.declareClass (toString d.name)
      ancestry := a.ancestry.addClass (toString d.name)
      interfaces := if d.doc.any (·.isConstructor) || a.interfaces.contains (toString d.name)
        then a.interfaces else a.interfaces ++ [toString d.name] }
  else a

theorem outcome_declareClass (d : Declaration) (a : Typing) :
    (declareClass d).outcome a = (.ok d.documentedLink, a.withClass d) := by
  unfold declareClass withClass Declaration.documentedLink Declaration.declaresClass
  cases hdoc : d.doc with
  | none => rfl
  | some doc =>
    simp only [Option.any_some, Option.bind_some]
    split
    · rfl
    · rfl

/-- What declaring the classes of a program changes, and what it leaves. -/
structure ClassesDeclared (ds : List Declaration) (a b : Typing) : Prop where
  isClass : ∀ c, b.registry.isClass c = true ↔ DeclaresClass ds c ∨ a.registry.isClass c = true
  superclass? : ∀ c, b.registry.superclass? c = a.registry.superclass? c
  methods : b.registry.methods = a.registry.methods
  functions : b.registry.functions = a.registry.functions
  known : ∀ c, c ∈ b.ancestry.classes ↔ DeclaresClass ds c ∨ c ∈ a.ancestry.classes
  links : b.ancestry.links = a.ancestry.links
  interfaces : ∀ c, c ∈ b.interfaces ↔ DeclaresInterface ds c ∨ c ∈ a.interfaces
  program : b.program = a.program
  nodup : a.registry.classes.keys.Nodup → b.registry.classes.keys.Nodup

theorem classesDeclared_nil (a : Typing) : ClassesDeclared [] a a := by
  constructor <;> simp [DeclaresClass, DeclaresInterface]

theorem mem_classes_addClass {a : Ancestry} {name c : String} :
    c ∈ (a.addClass name).classes ↔ name = c ∨ c ∈ a.classes := by
  unfold Ancestry.addClass
  split
  · next h =>
    constructor
    · exact .inr
    · rintro (rfl | h')
      · exact List.contains_iff_mem.mp h
      · exact h'
  · simp [or_comm, eq_comm]

theorem links_addClass {a : Ancestry} {name : String} : (a.addClass name).links = a.links := by
  unfold Ancestry.addClass
  split <;> rfl

theorem classesDeclared_withClass (d : Declaration) (a : Typing) :
    ClassesDeclared [d] a (a.withClass d) := by
  have hclass {c : String} : DeclaresClass [d] c ↔ d.declaresClass = true ∧ toString d.name = c := by
    simp [DeclaresClass]
  have hinterface {c : String} :
      DeclaresInterface [d] c ↔ d.declaresInterface = true ∧ toString d.name = c := by
    simp [DeclaresInterface]
  unfold withClass
  by_cases hd : d.declaresClass = true
  · rw [if_pos hd]
    refine ⟨?_, ?_, ?_, ?_, ?_, links_addClass, ?_, rfl, fun h => Registry.nodup_declareClass h _⟩
    · intro c
      rw [hclass, Registry.isClass_declareClass]
      simp [hd]
    · intro c
      exact Registry.superclass?_declareClass
    · unfold Registry.declareClass
      split <;> rfl
    · unfold Registry.declareClass
      split <;> rfl
    · intro c
      rw [hclass, mem_classes_addClass]
      simp [hd]
    · -- what is documented as a class is an interface unless it is a constructor
      have hkind : d.declaresInterface = !d.doc.any (·.isConstructor) := by
        unfold Declaration.declaresClass at hd
        unfold Declaration.declaresInterface
        cases hdoc : d.doc with
        | none => rw [hdoc] at hd; cases hd
        | some doc =>
          rw [hdoc] at hd
          simp only [Option.any_some, Bool.or_eq_true] at hd ⊢
          cases hc : doc.isConstructor with
          | true => rfl
          | false =>
            rw [hc] at hd
            simpa using hd
      intro c
      rw [hinterface, hkind]
      cases d.doc.any (·.isConstructor) with
      | true => simp
      | false =>
        simp only [Bool.false_or, Bool.not_false, true_and]
        split
        · next h =>
          constructor
          · exact .inr
          · rintro (rfl | h')
            · exact List.contains_iff_mem.mp h
            · exact h'
        · simp [or_comm, eq_comm]
  · rw [if_neg hd]
    have hno : d.declaresInterface = false := by
      unfold Declaration.declaresClass at hd
      unfold Declaration.declaresInterface
      cases hdoc : d.doc with
      | none => rfl
      | some doc =>
        rw [hdoc] at hd
        simp only [Option.any_some, Bool.or_eq_true, not_or, Bool.not_eq_true] at hd ⊢
        simp [hd]
    constructor <;> simp [hclass, hinterface, hd, hno]

theorem ClassesDeclared.append {ds es : List Declaration} {a b c : Typing}
    (h : ClassesDeclared ds a b) (h' : ClassesDeclared es b c) : ClassesDeclared (ds ++ es) a c := by
  have hclass {n : String} : DeclaresClass (ds ++ es) n ↔ DeclaresClass ds n ∨ DeclaresClass es n := by
    simp only [DeclaresClass, List.mem_append, or_and_right, exists_or]
  have hinterface {n : String} :
      DeclaresInterface (ds ++ es) n ↔ DeclaresInterface ds n ∨ DeclaresInterface es n := by
    simp only [DeclaresInterface, List.mem_append, or_and_right, exists_or]
  refine ⟨?_, ?_, h'.methods.trans h.methods, h'.functions.trans h.functions, ?_,
    h'.links.trans h.links, ?_, h'.program.trans h.program, fun hn => h'.nodup (h.nodup hn)⟩
  · intro n
    rw [h'.isClass, h.isClass, hclass, or_left_comm, or_assoc]
  · intro n
    rw [h'.superclass?, h.superclass?]
  · intro n
    rw [h'.known, h.known, hclass, or_left_comm, or_assoc]
  · intro n
    rw [h'.interfaces, h.interfaces, hinterface, or_left_comm, or_assoc]

theorem classesDeclared_foldl (ds : List Declaration) (a : Typing) :
    ClassesDeclared ds a (ds.foldl withClass a) := by
  induction ds generalizing a with
  | nil => exact classesDeclared_nil a
  | cons d ds ih => exact (classesDeclared_withClass d a).append (ih (a.withClass d))

/-! ## Links -/

/-- A link that is asked for between two different declared classes that are no interfaces. -/
structure Linkable (a : Typing) (child parent : String) : Prop where
  isClass : a.registry.isClass child = true
  isClass_parent : a.registry.isClass parent = true
  child_not_interface : child ∉ a.interfaces
  parent_not_interface : parent ∉ a.interfaces
  ne : child ≠ parent

/-- The ancestry knows both classes of a link. -/
def Knows (a : Typing) (child parent : String) : Prop :=
  child ∈ a.ancestry.classes ∧ parent ∈ a.ancestry.classes

/-- What may become of a link: it is left out, or it is made. -/
inductive LinkStep (a : Typing) (child parent : String) : Typing → Prop
  | leftOut (log : List Log.Entry)
      (h : Linkable a child parent → child ∈ a.ancestry.upwards parent) :
      LinkStep a child parent { a with log }
  | made (linkable : Linkable a child parent) (new : child ∉ a.ancestry.upwards parent)
      (registry : Registry) (set : a.registry.setSuperclass child parent = .ok registry) :
      LinkStep a child parent
        { a with ancestry := a.ancestry.addLink child parent, registry := registry }

theorem outcome_note (level : Log.Level) (text : String) (a : Typing) :
    (note level text).outcome a = (.ok (), { a with log := a.log ++ [⟨level, text⟩] }) := rfl

theorem leadsTo_of_knows {a : Ancestry} {source target : String} (hs : source ∈ a.classes)
    (ht : target ∈ a.classes) :
    a.leadsTo source target = .ok ((a.upwards source).contains target) := by
  unfold Ancestry.leadsTo
  rw [List.contains_iff_mem.mpr hs, List.contains_iff_mem.mpr ht]
  rfl

theorem leadsTo_of_not_knows {a : Ancestry} {source target : String}
    (h : ¬ (target ∈ a.classes ∧ source ∈ a.classes)) :
    ∃ e, a.leadsTo source target = .error e := by
  unfold Ancestry.leadsTo
  by_cases hs : source ∈ a.classes
  · have ht : target ∉ a.classes := fun ht => h ⟨ht, hs⟩
    exact ⟨.unknownChild target, by simp [hs, ht]⟩
  · exact ⟨.unknownParent source, by simp [hs]⟩

/-- A link can be dealt with exactly if it is no link between classes, or the ancestry knows
both of them. -/
theorem outcome_link (child parent : String) (a : Typing) :
    ((Linkable a child parent → Knows a child parent) →
        ∃ b, (link child parent).outcome a = (.ok (), b) ∧ LinkStep a child parent b) ∧
      (Linkable a child parent → ¬ Knows a child parent →
        ∃ e b, (link child parent).outcome a = (.error e, b)) := by
  have leaveOut {level : Log.Level} {text : String} (h : ¬ Linkable a child parent) :
      ((Linkable a child parent → Knows a child parent) → ∃ b,
          (note level text).outcome a = (.ok (), b) ∧ LinkStep a child parent b) ∧
        (Linkable a child parent → ¬ Knows a child parent → ∃ e b,
          (note level text).outcome a = (.error e, b)) :=
    ⟨fun _ => ⟨_, outcome_note level text a, .leftOut _ fun h' => absurd h' h⟩,
      fun h' => absurd h' h⟩
  unfold link
  rw [Task.outcome_get_bind]
  -- the checks in the order in which they are made; each of the first four leaves the link out
  split
  · next h => exact leaveOut fun h' => by rw [h'.isClass] at h; cases h
  next hchild =>
  split
  · next h => exact leaveOut fun h' => by rw [h'.isClass_parent] at h; cases h
  next hparent =>
  split
  · next h =>
    refine leaveOut fun h' => ?_
    rw [Bool.or_eq_true, List.contains_iff_mem, List.contains_iff_mem] at h
    exact h.elim h'.child_not_interface h'.parent_not_interface
  next hinterfaces =>
  simp only [Bool.not_eq_eq_eq_not, Bool.not_true, Bool.not_eq_false] at hchild hparent
  simp only [Bool.or_eq_true, List.contains_iff_mem, not_or] at hinterfaces
  by_cases hne : child = parent
  · rw [if_pos (beq_iff_eq.mpr hne)]
    exact leaveOut fun h' => h'.ne hne
  rw [if_neg (by simpa using hne)]
  have hlinkable : Linkable a child parent :=
    ⟨hchild, hparent, hinterfaces.1, hinterfaces.2, hne⟩
  refine ⟨fun h => ?_, fun _ h => ?_⟩
  · obtain ⟨hknown, hknown'⟩ := h hlinkable
    rw [Task.outcome_ofExcept_bind (leadsTo_of_knows hknown' hknown)]
    split
    · next hcircle =>
      exact ⟨_, outcome_note _ _ a, .leftOut _ fun _ => List.contains_iff_mem.mp hcircle⟩
    · next hnew =>
      obtain ⟨r', hset, -⟩ := Registry.setSuperclass_eq hchild hparent
      refine ⟨_, ?_, .made hlinkable (fun h => hnew (List.contains_iff_mem.mpr h)) r' hset⟩
      rw [Task.outcome_bind_ok (Task.outcome_modify _ _), Task.outcome_ofExcept_bind hset]
      rfl
  · obtain ⟨e, he⟩ := leadsTo_of_not_knows h
    rw [Task.outcome_bind, Task.outcome_ofExcept, he]
    exact ⟨e, a, rfl⟩

/-- What linking leaves as it is. -/
structure SameClasses (a b : Typing) : Prop where
  isClass : ∀ c, b.registry.isClass c = a.registry.isClass c
  interfaces : b.interfaces = a.interfaces
  known : b.ancestry.classes = a.ancestry.classes
  methods : b.registry.methods = a.registry.methods
  functions : b.registry.functions = a.registry.functions
  program : b.program = a.program

theorem SameClasses.refl (a : Typing) : SameClasses a a := ⟨fun _ => rfl, rfl, rfl, rfl, rfl, rfl⟩

theorem SameClasses.trans {a b c : Typing} (h : SameClasses a b) (h' : SameClasses b c) :
    SameClasses a c :=
  ⟨fun n => (h'.isClass n).trans (h.isClass n), h'.interfaces.trans h.interfaces,
    h'.known.trans h.known, h'.methods.trans h.methods, h'.functions.trans h.functions,
    h'.program.trans h.program⟩

theorem SameClasses.linkable_iff {a b : Typing} (h : SameClasses a b) {child parent : String} :
    Linkable b child parent ↔ Linkable a child parent := by
  constructor
  · intro h'
    exact ⟨(h.isClass _).symm.trans h'.isClass, (h.isClass _).symm.trans h'.isClass_parent,
      h.interfaces ▸ h'.child_not_interface, h.interfaces ▸ h'.parent_not_interface, h'.ne⟩
  · intro h'
    exact ⟨(h.isClass _).trans h'.isClass, (h.isClass _).trans h'.isClass_parent,
      h.interfaces ▸ h'.child_not_interface, h.interfaces ▸ h'.parent_not_interface, h'.ne⟩

theorem SameClasses.knows_iff {a b : Typing} (h : SameClasses a b) {child parent : String} :
    Knows b child parent ↔ Knows a child parent := by
  unfold Knows
  rw [h.known]

theorem classes_addLink {a : Ancestry} {child parent : String} :
    (a.addLink child parent).classes = a.classes := by
  unfold Ancestry.addLink
  split <;> rfl

theorem LinkStep.sameClasses {a b : Typing} {child parent : String}
    (h : LinkStep a child parent b) : SameClasses a b := by
  cases h with
  | leftOut log _ => exact ⟨fun _ => rfl, rfl, rfl, rfl, rfl, rfl⟩
  | made linkable _ r' set =>
    obtain ⟨r'', hset, hclass, hmethods, -⟩ :=
      Registry.setSuperclass_eq linkable.isClass linkable.isClass_parent
    have hfunctions : r'.functions = a.registry.functions := by
      unfold Registry.setSuperclass at set
      rw [linkable.isClass, linkable.isClass_parent] at set
      cases set
      rfl
    rw [set] at hset
    cases hset
    exact ⟨hclass, rfl, classes_addLink, hmethods, hfunctions, rfl⟩

/-- What becomes of several links, one after the other. -/
inductive LinkSteps : Typing → List (String × String) → Typing → Prop
  | nil (a : Typing) : LinkSteps a [] a
  | cons {a b c : Typing} {link : String × String} {links : List (String × String)}
      (head : LinkStep a link.1 link.2 b) (tail : LinkSteps b links c) :
      LinkSteps a (link :: links) c

theorem LinkSteps.sameClasses {a b : Typing} {links : List (String × String)}
    (h : LinkSteps a links b) : SameClasses a b := by
  induction h with
  | nil a => exact .refl a
  | cons head _ ih => exact head.sameClasses.trans ih

/-- Every link between classes is one between classes that the ancestry knows. -/
def AllKnown (a : Typing) (links : List (String × String)) : Prop :=
  ∀ l ∈ links, Linkable a l.1 l.2 → Knows a l.1 l.2

theorem SameClasses.allKnown_iff {a b : Typing} (h : SameClasses a b)
    {links : List (String × String)} : AllKnown b links ↔ AllKnown a links := by
  unfold AllKnown
  simp only [h.linkable_iff, h.knows_iff]

/-- Links can be dealt with exactly if every link between classes is one between classes that
the ancestry knows. -/
theorem outcome_links (links : List (String × String)) (a : Typing) :
    (AllKnown a links → ∃ b, (for l in links do link l.1 l.2 : Task Typing Unit).outcome a
        = (.ok (), b) ∧ LinkSteps a links b) ∧
      (¬ AllKnown a links → ∃ e b,
        (for l in links do link l.1 l.2 : Task Typing Unit).outcome a = (.error e, b)) := by
  induction links generalizing a with
  | nil => exact ⟨fun _ => ⟨a, rfl, .nil a⟩, fun h => absurd (by simp [AllKnown]) h⟩
  | cons l links ih =>
    obtain ⟨hok, herror⟩ := outcome_link l.1 l.2 a
    by_cases hl : Linkable a l.1 l.2 → Knows a l.1 l.2
    · obtain ⟨b, hb, hstep⟩ := hok hl
      have hrest : AllKnown a (l :: links) ↔ AllKnown b links := by
        rw [hstep.sameClasses.allKnown_iff]
        exact List.forall_mem_cons.trans (and_iff_right hl)
      rw [hrest, @Task.outcome_forIn_cons _ _ (fun l : String × String => link l.1 l.2) l links a b hb]
      exact ⟨fun h => ((ih b).1 h).imp fun c hc => ⟨hc.1, .cons hstep hc.2⟩, (ih b).2⟩
    · have hnot : ¬ AllKnown a (l :: links) := fun h => hl (h l (List.mem_cons_self ..))
      obtain ⟨hlinkable, hunknown⟩ := Classical.not_imp.mp hl
      obtain ⟨e, b, hb⟩ := herror hlinkable hunknown
      exact ⟨fun h => absurd h hnot, fun _ => ⟨e, b,
        @Task.outcome_forIn_error _ _ (fun l : String × String => link l.1 l.2) l links a b e hb⟩⟩

/-- All declarations are looked at for classes. -/
theorem outcome_documented (ds : List Declaration) (a : Typing) :
    (ds.mapM declareClass).outcome a
      = (.ok (ds.map Declaration.documentedLink), ds.foldl withClass a) :=
  (Task.outcome_mapM (I := fun _ => True)
    (fun s d _ _ => ⟨outcome_declareClass d s, trivial⟩) trivial).1

/-- Classes can only be declared if it can be said which links calls ask for. -/
theorem inheritsOf_of_declareClasses {ds : List Declaration} {a b : Typing}
    (h : (declareClasses ds).outcome a = (.ok (), b)) :
    ∃ called, inheritsOf a.program = .ok called := by
  unfold declareClasses at h
  rw [Task.outcome_bind_ok (outcome_documented ds a)] at h
  obtain ⟨called, s, hask, -⟩ := Task.outcome_bind_eq_ok h
  unfold ask at hask
  rw [Task.outcome_get_bind, Task.outcome_ofExcept, (classesDeclared_foldl ds a).program] at hask
  exact ⟨called, congrArg Prod.fst hask⟩

/-- What becomes of the classes of a program and of the links that are asked for. -/
theorem outcome_declareClasses (ds : List Declaration) {called : List (String × String)}
    {a : Typing} (hcalled : inheritsOf a.program = .ok called) :
    ∃ b, ClassesDeclared ds a b ∧
      (AllKnown b (linksOf ds called) → ∃ c, (declareClasses ds).outcome a = (.ok (), c) ∧
        LinkSteps b (linksOf ds called) c) ∧
      (¬ AllKnown b (linksOf ds called) → ∃ e c, (declareClasses ds).outcome a = (.error e, c)) := by
  have hb := classesDeclared_foldl ds a
  have hdocumented : (ds.map Declaration.documentedLink).filterMap id
      = ds.filterMap Declaration.documentedLink := by
    rw [List.filterMap_map]
    rfl
  have hask : (ask inheritsOf).outcome (ds.foldl withClass a)
      = (.ok called, ds.foldl withClass a) := by
    unfold ask
    rw [Task.outcome_get_bind, Task.outcome_ofExcept, hb.program, hcalled]
  have hrun : (declareClasses ds).outcome a
      = (for l in linksOf ds called do link l.1 l.2 : Task Typing Unit).outcome
        (ds.foldl withClass a) := by
    unfold declareClasses
    rw [Task.outcome_bind_ok (outcome_documented ds a), Task.outcome_bind_ok hask, hdocumented]
    rfl
  rw [hrun]
  exact ⟨_, hb, outcome_links (linksOf ds called) _⟩

/-! ## What links have made of the superclasses -/

/-- What links have made of the superclasses: a class has a superclass by a link that was made,
or it has the one it had before. Links are made between known classes, and close no circle. -/
structure Linked (r : Registry) (known : List String) (a : Typing) : Prop where
  superclass? : ∀ c, a.registry.superclass? c = r.superclass? c ∨
    ∃ parent, a.registry.superclass? c = some parent ∧ (c, parent) ∈ a.ancestry.links
  known : ∀ l ∈ a.ancestry.links, l.2 ∈ known
  acyclic : a.ancestry.Acyclic

theorem LinkStep.linked {r : Registry} {a b : Typing} {child parent : String}
    (h : LinkStep a child parent b) (hall : Linkable a child parent → Knows a child parent)
    (ha : Linked r a.ancestry.classes a) : Linked r a.ancestry.classes b := by
  cases h with
  | leftOut log _ => exact ⟨ha.superclass?, ha.known, ha.acyclic⟩
  | made linkable new r' set =>
    obtain ⟨r'', hset, -, -, hsuper⟩ :=
      Registry.setSuperclass_eq linkable.isClass linkable.isClass_parent
    rw [set] at hset
    cases hset
    refine ⟨fun c => ?_, fun l hl => ?_, ha.acyclic.addLink new⟩
    · simp only [hsuper]
      split
      · next hc => exact .inr ⟨parent, rfl, Ancestry.mem_links_addLink.mpr (.inr (hc ▸ rfl))⟩
      · exact (ha.superclass? c).imp_right fun ⟨q, hq, hlink⟩ =>
          ⟨q, hq, Ancestry.mem_links_addLink.mpr (.inl hlink)⟩
    · rcases Ancestry.mem_links_addLink.mp hl with hl | rfl
      · exact ha.known l hl
      · exact (hall linkable).2

theorem LinkSteps.linked {r : Registry} {a b : Typing} {links : List (String × String)}
    (h : LinkSteps a links b) (hall : AllKnown a links) (ha : Linked r a.ancestry.classes a) :
    Linked r a.ancestry.classes b := by
  induction h with
  | nil => exact ha
  | cons head _ ih =>
    have hsame := head.sameClasses
    have hhead := head.linked (hall _ (List.mem_cons_self ..)) ha
    rw [← hsame.known] at hhead ⊢
    exact ih (hsame.allKnown_iff.mpr fun l hl => hall l (List.mem_cons_of_mem _ hl)) hhead

end Typing

end SuperForward
