/-
  Programs that share a registry.

  Typing may start from a registry in which other programs, or anything else, have declared
  classes. The ancestry does not know those classes, only what the program declares and what
  was typed with the same ancestry before. So a link between declared classes can only be dealt
  with if they are among the latter, and only circles of links that are made now are refused:
  what remains of the superclasses declared before may close one.
-/
import SuperForward.Proofs.Entries
import SuperForward.Proofs.Program.Characters
import SuperForward.Proofs.Types.Attaching
import Mathlib.Logic.Relation

namespace SuperForward

open SuperForward.Task (Leaves leaves_pure leaves_ofExcept leaves_modify)

namespace Typing

/-! ## Links to classes that were declared before -/

/-- A link is asked for between two different classes, declared by the program or before, that
are no interfaces. -/
structure AsksFor (a : Typing) (ds : List Declaration) (child parent : String) : Prop where
  isClass : DeclaresClass ds child ∨ a.registry.isClass child = true
  isClass_parent : DeclaresClass ds parent ∨ a.registry.isClass parent = true
  child_not_interface : ¬ (DeclaresInterface ds child ∨ child ∈ a.interfaces)
  parent_not_interface : ¬ (DeclaresInterface ds parent ∨ parent ∈ a.interfaces)
  ne : child ≠ parent

/-- The class is declared by the program, or the ancestry knows it from before. -/
def IsKnown (a : Typing) (ds : List Declaration) (c : String) : Prop :=
  DeclaresClass ds c ∨ c ∈ a.ancestry.classes

theorem ClassesDeclared.linkable_iff {ds : List Declaration} {a b : Typing}
    (h : ClassesDeclared ds a b) {child parent : String} :
    Linkable b child parent ↔ AsksFor a ds child parent := by
  constructor
  · intro h'
    exact ⟨(h.isClass _).mp h'.isClass, (h.isClass _).mp h'.isClass_parent,
      fun hc => h'.child_not_interface ((h.interfaces _).mpr hc),
      fun hc => h'.parent_not_interface ((h.interfaces _).mpr hc), h'.ne⟩
  · intro h'
    exact ⟨(h.isClass _).mpr h'.isClass, (h.isClass _).mpr h'.isClass_parent,
      fun hc => h'.child_not_interface ((h.interfaces _).mp hc),
      fun hc => h'.parent_not_interface ((h.interfaces _).mp hc), h'.ne⟩

theorem ClassesDeclared.allKnown_iff {ds : List Declaration} {a b : Typing}
    (h : ClassesDeclared ds a b) {links : List (String × String)} :
    AllKnown b links ↔
      ∀ l ∈ links, AsksFor a ds l.1 l.2 → IsKnown a ds l.1 ∧ IsKnown a ds l.2 := by
  unfold AllKnown Knows IsKnown
  simp only [h.linkable_iff, h.known]

/-- Typing a program succeeds, whatever has been declared before, exactly if every link that it
asks for between classes is one between classes that it declares itself, or that the ancestry
knows from before. -/
theorem determine_succeeds_iff (sources : List Source) (types : Handle → Option JsType)
    {a : Typing} (hprogram : a.program = (Program.ofSources sources).1.withTypes types)
    (hcallable : a.registry.Callable) :
    ∃ ds called, declarationsOf a.program = .ok ds ∧ inheritsOf a.program = .ok called ∧
      ((∃ b, determine.outcome a = (.ok (), b)) ↔
        ∀ l ∈ linksOf ds called, AsksFor a ds l.1 l.2 → IsKnown a ds l.1 ∧ IsKnown a ds l.2) := by
  have hp := Program.parsed_ofSources sources types
  obtain ⟨ds, hds, -⟩ := declarationsOf_ok (hprogram ▸ hp)
  obtain ⟨called, hcalled⟩ := inheritsOf_ok (hprogram ▸ hp)
  refine ⟨ds, called, hds, hcalled, ?_⟩
  obtain ⟨b, hb, hknown, hunknown⟩ := outcome_determine hp
    (hprogram.trans Program.withTypes_withTypes.symm) hcallable hds hcalled
  rw [← hb.allKnown_iff]
  constructor
  · rintro ⟨c, hc⟩
    by_contra h
    obtain ⟨e, c', hout⟩ := hunknown h
    rw [hc] at hout
    cases hout
  · intro h
    obtain ⟨c, types', -, -, hout⟩ := hknown h
    exact ⟨_, hout⟩

/-- A script that declares a class. -/
def baseScript : Source := ⟨"a.js", "/** @constructor */ A = function() {};"⟩

/-- A script that declares a class with a superclass that it does not declare. -/
def derivedScript : Source := ⟨"b.js", "/** @constructor @extends {A} */ B = function() {};"⟩

/-- The program of one script, without types. -/
def programOf (script : Source) : Program := (Program.ofSources [script]).1.withTypes fun _ => none

theorem programOf_of_characters {path text : String} {cs : List Char}
    (h : text = String.ofList cs) : programOf ⟨path, text⟩
      = (Program.empty.addCharacters [(path, cs)]).1.withTypes fun _ => none := by
  unfold programOf
  rw [Program.ofSources_one h]

/-- What is left when the script that declares the superclass has been typed. -/
def afterBase : Typing := (determine.outcome (start (programOf baseScript) .empty)).2

/-- The other script is going to be typed with the same ancestry. -/
def beforeDerived : Typing := { afterBase with program := programOf derivedScript }

/-- The script with the superclass can be typed and declares no methods; with a new ancestry on
the same registry, the other one cannot. -/
theorem outcomes_base :
    (determine.outcome (start (programOf baseScript) .empty)).1 = .ok () ∧
      beforeDerived.registry.methods.entries = [] ∧
      (determine.outcome (start (programOf derivedScript) afterBase.registry)).1
        = .error (.unknownParent "A") := by
  rw [beforeDerived, afterBase, show programOf baseScript = _ from programOf_of_characters rfl,
    show programOf derivedScript = _ from programOf_of_characters rfl]
  decide +kernel

theorem determine_succeeds_beforeDerived :
    beforeDerived.program = programOf derivedScript ∧ beforeDerived.registry.Callable ∧
      ∃ ds called, declarationsOf beforeDerived.program = .ok ds ∧
        inheritsOf beforeDerived.program = .ok called ∧
        ((∃ b, determine.outcome beforeDerived = (.ok (), b)) ↔
          ∀ l ∈ linksOf ds called, AsksFor beforeDerived ds l.1 l.2 →
            IsKnown beforeDerived ds l.1 ∧ IsKnown beforeDerived ds l.2) := by
  have hmethods : beforeDerived.registry.methods.entries = [] := outcomes_base.2.1
  have hcallable : beforeDerived.registry.Callable := by
    intro c m type h
    unfold Registry.ownMethod? OrderedMap.get? at h
    rw [hmethods] at h
    exact absurd h (by simp [OrderedMap.lookup])
  have hprogram : beforeDerived.program = programOf derivedScript := rfl
  exact ⟨hprogram, hcallable, determine_succeeds_iff [derivedScript] (fun _ => none)
    hprogram hcallable⟩

/-- With a new ancestry on the same registry, it is not. -/
theorem determine_fails_after_base :
    (determine.outcome (start (programOf baseScript) .empty)).1 = .ok () ∧
      (determine.outcome (start (programOf derivedScript) afterBase.registry)).1
        = .error (.unknownParent "A") :=
  ⟨outcomes_base.1, outcomes_base.2.2⟩

end Typing

/-! ## Circles -/

namespace Registry

/-- The other class is reached from the class by one or more steps to the superclass. -/
def Above (r : Registry) : String → String → Prop :=
  Relation.TransGen fun c parent => r.superclass? c = some parent

/-- No class is above itself. -/
def Acyclic (r : Registry) : Prop := ∀ c, ¬ r.Above c c

/-- A superclass of a class that is above itself is above itself. -/
theorem Above.superclass {r : Registry} {c parent : String} (h : r.Above c c)
    (hparent : r.superclass? c = some parent) : r.Above parent parent := by
  obtain ⟨parent', hparent', hback⟩ := Relation.TransGen.head'_iff.mp h
  rw [hparent] at hparent'
  cases hparent'
  exact Relation.TransGen.tail' hback hparent

/-- Two classes that are each the superclass of the other. -/
theorem above_of_superclass? {r : Registry} {c d : String} (h : r.superclass? c = some d)
    (h' : r.superclass? d = some c) : r.Above c c := .tail (.single h) h'

theorem acyclic_congr {r s : Registry} (h : ∀ c, s.superclass? c = r.superclass? c) :
    s.Acyclic ↔ r.Acyclic := by
  unfold Acyclic Above
  simp only [h]

theorem lower_of_superclass? {r : Registry} {rank : String → Nat}
    (h : ∀ e ∈ r.classes.entries, ∀ parent ∈ e.2, rank parent < rank e.1) {c parent : String}
    (hparent : r.superclass? c = some parent) : rank parent < rank c := by
  obtain ⟨parent?, hget, hsome⟩ := Option.bind_eq_some_iff.mp hparent
  exact h (c, parent?) (OrderedMap.mem_of_lookup hget) parent hsome

theorem eq_of_entries {r : Registry} {classes : List (String × Option String)}
    {methods : List ((String × String) × Option JsType)} {functions : List (String × Option JsType)}
    (h : (r.classes.entries, r.methods.entries, r.functions.entries)
      = (classes, methods, functions)) : r = ⟨⟨classes⟩, ⟨methods⟩, ⟨functions⟩⟩ := by
  obtain ⟨⟨_⟩, ⟨_⟩, ⟨_⟩⟩ := r
  cases h
  rfl

/-- Superclasses that have a lower rank than their classes come to an end. -/
theorem acyclic_of_rank {r : Registry} (rank : String → Nat)
    (h : ∀ e ∈ r.classes.entries, ∀ parent ∈ e.2, rank parent < rank e.1) : r.Acyclic := by
  have hlower {c d : String} (habove : r.Above c d) : rank d < rank c := by
    induction habove with
    | single hparent => exact lower_of_superclass? h hparent
    | tail _ hparent ih => exact (lower_of_superclass? h hparent).trans ih
  exact fun c habove => lt_irrefl _ (hlower habove)

end Registry

namespace Typing

/-- A circle of superclasses passes a known class that has the superclass it had before. -/
theorem Linked.acyclic_iff {r : Registry} {known : List String} {a : Typing}
    (h : Linked r known a) (hr : r.Acyclic) :
    a.registry.Acyclic ↔ ∀ c ∈ known, a.registry.superclass? c = r.superclass? c →
      ¬ a.registry.Above c c := by
  refine ⟨fun hacyclic c _ _ => hacyclic c, fun hkept => ?_⟩
  -- from the superclass that a link was made to, links that were made would lead on for ever
  have hmade : ∀ c parent, (c, parent) ∈ a.ancestry.links → a.registry.superclass? c = some parent →
      ¬ a.registry.Above c c := by
    intro c
    induction c using h.acyclic.induction with
    | h c ih =>
      intro parent hlink hparent habove
      have habove' := habove.superclass hparent
      rcases h.superclass? parent with hsame | ⟨next, hnext, hlink'⟩
      · exact hkept parent (h.known _ hlink) hsame habove'
      · exact ih parent hlink next hlink' hnext habove'
  -- so that what is on a circle has the superclass it had before
  have hsame : ∀ c, a.registry.Above c c → a.registry.superclass? c = r.superclass? c := by
    intro c habove
    rcases h.superclass? c with hsame | ⟨parent, hparent, hlink⟩
    · exact hsame
    · exact absurd habove (hmade c parent hlink hparent)
  intro c habove
  have hcircle : ∀ d, a.registry.Above c d → r.Above c d ∧ a.registry.Above d d := by
    intro d hd
    induction hd with
    | single hparent =>
      exact ⟨.single (hsame c habove ▸ hparent), habove.superclass hparent⟩
    | tail _ hparent ih =>
      exact ⟨ih.1.tail (hsame _ ih.2 ▸ hparent), ih.2.superclass hparent⟩
  exact hr c (hcircle c habove).1

/-! ## What functions and callees leave -/

theorem leaves_ask {α : Type} (q : Program → Except Fault α) :
    Leaves (·.registry.classes) (ask q) :=
  .get_bind fun _ => leaves_ofExcept _

theorem leaves_declare {f : Registry → Registry} (h : ∀ r, (f r).classes = r.classes) :
    Leaves (·.registry.classes) (declare f) :=
  leaves_modify fun a => h a.registry

theorem leaves_result (d : Declaration) : Leaves (·.registry.classes) (result d) := by
  unfold result
  split
  · exact .get_bind fun _ => leaves_pure _
  · exact leaves_ask _

theorem leaves_declareFunction (d : Declaration) :
    Leaves (·.registry.classes) (declareFunction d) := by
  have declared {f : JsType → Registry → Registry} (h : ∀ type r, (f type r).classes = r.classes)
      (type : JsType) : Leaves (·.registry.classes) (do declare (f type); return none :
        Task Typing (Option Override)) :=
    (leaves_declare (h type)).bind fun _ => leaves_pure none
  unfold declareFunction
  refine .get_bind fun a => ?_
  split
  · exact leaves_pure _
  split
  · exact (leaves_result d).bind fun returns =>
      declared (f := fun type r => r.declareFunction _ (some type)) (fun _ _ => rfl) _
  split
  · refine .get_bind fun a => ?_
    split
    · split
      · exact leaves_pure _
      · exact (leaves_result d).bind fun returns =>
          declared (f := fun type r => r.declareMethod _ _ (some type)) (fun _ _ => rfl) _
    · exact leaves_pure _
  · exact leaves_pure _

theorem leaves_declareOverride (o : Override) :
    Leaves (·.registry.classes) (declareOverride o) := by
  unfold declareOverride
  refine .get_bind fun a => ?_
  have declared (returns : JsType) : Leaves (·.registry.classes) (declare
      (·.declareMethod o.className o.method
        (some (.function (o.className ++ ".prototype." ++ o.method) returns false)))) :=
    leaves_declare fun _ => rfl
  split
  · split
    · exact (leaves_pure _).bind declared
    · exact (leaves_ofExcept (.error _)).bind declared
  · exact (leaves_ask _).bind declared

theorem leaves_declareFunctions (ds : List Declaration) :
    Leaves (·.registry.classes) (declareFunctions ds) := by
  unfold declareFunctions
  exact (Leaves.mapM leaves_declareFunction ds).bind fun _ => .get_bind fun _ =>
    .forIn leaves_declareOverride _

theorem leaves_typeCall (n : Handle) : Leaves (·.registry.classes) (typeCall n) := by
  unfold typeCall
  refine (leaves_ask _).bind fun _ => ?_
  split
  · refine (leaves_ask _).bind fun _ => (leaves_ask _).bind fun _ => ?_
    split
    · refine .get_bind fun _ => ?_
      split
      · exact leaves_modify fun _ => rfl
      · exact leaves_pure _
    · exact leaves_pure _
  · exact leaves_pure _

theorem leaves_typeCalls : Leaves (·.registry.classes) typeCalls := by
  unfold typeCalls
  exact (leaves_ask _).bind fun _ => .forIn leaves_typeCall _

/-! ## No circles -/

/-- What a new ancestry makes of the superclasses in a registry, if typing succeeds. -/
theorem linked_of_determine {p : Program} {r : Registry} {ds : List Declaration}
    (hds : declarationsOf p = .ok ds) {b : Typing}
    (h : determine.outcome (start p r) = (.ok (), b)) :
    ∃ c, Linked r c.ancestry.classes c ∧ c.registry.classes = b.registry.classes ∧
      ∀ n, n ∈ c.ancestry.classes ↔ DeclaresClass ds n := by
  unfold determine at h
  obtain ⟨ds', a₀, hout₀, h⟩ := Task.outcome_bind_eq_ok h
  obtain ⟨_, a₁, hout₁, h⟩ := Task.outcome_bind_eq_ok h
  obtain ⟨_, a₂, hout₂, hout₃⟩ := Task.outcome_bind_eq_ok h
  have hask : (ask declarationsOf).outcome (start p r) = (.ok ds, start p r) := outcome_ask hds
  rw [hask] at hout₀
  cases hout₀
  obtain ⟨called, hcalled⟩ := inheritsOf_of_declareClasses hout₁
  obtain ⟨b₀, hb₀, hknown, hunknown⟩ := outcome_declareClasses ds (a := start p r) hcalled
  -- typing did not fail, so the ancestry knew all the classes that were to be linked
  have hall : AllKnown b₀ (linksOf ds called) := by
    by_contra hnot
    obtain ⟨e, c, hout⟩ := hunknown hnot
    rw [hout₁] at hout
    cases hout
  obtain ⟨c, hout, hsteps⟩ := hknown hall
  rw [hout₁] at hout
  cases hout
  have hstart : Linked r b₀.ancestry.classes b₀ := by
    refine ⟨fun n => .inl (hb₀.superclass? n), fun l hl => ?_, ?_⟩
    · rw [hb₀.links] at hl
      exact absurd hl List.not_mem_nil
    · unfold Ancestry.Acyclic
      rw [hb₀.links]
      exact Ancestry.acyclic_empty
  have hclasses : b.registry.classes = a₁.registry.classes := by
    have h₂ := leaves_declareFunctions ds a₁
    have h₃ := leaves_typeCalls a₂
    rw [hout₂] at h₂
    rw [hout₃] at h₃
    exact h₃.trans h₂
  have hsame := hsteps.sameClasses.known
  refine ⟨a₁, hsame ▸ hsteps.linked hall hstart, hclasses.symm, fun n => ?_⟩
  rw [hsame, hb₀.known]
  exact or_iff_left List.not_mem_nil

/-- If the superclasses of the classes that were declared before come to an end, they still do
when typing with a new ancestry has succeeded, exactly if no class that the program declares and
that has the superclass it had before is above itself. So they do if the program declares no
class that had a superclass. -/
theorem acyclic_determine_iff {p : Program} {r : Registry} (hr : r.Acyclic)
    {ds : List Declaration} (hds : declarationsOf p = .ok ds) {b : Typing}
    (h : determine.outcome (start p r) = (.ok (), b)) :
    (b.registry.Acyclic ↔ ∀ c, DeclaresClass ds c →
      b.registry.superclass? c = r.superclass? c → ¬ b.registry.Above c c) ∧
    ((∀ c, DeclaresClass ds c → r.superclass? c = none) → b.registry.Acyclic) := by
  obtain ⟨c, hc, hclasses, hknown⟩ := linked_of_determine hds h
  have hsuper : ∀ n, b.registry.superclass? n = c.registry.superclass? n :=
    superclass?_of_classes hclasses.symm
  have habove : b.registry.Above = c.registry.Above := by
    unfold Registry.Above
    simp only [hsuper]
  have hiff : b.registry.Acyclic ↔ ∀ c, DeclaresClass ds c →
      b.registry.superclass? c = r.superclass? c → ¬ b.registry.Above c c := by
    rw [Registry.acyclic_congr hsuper, hc.acyclic_iff hr]
    simp only [hknown, hsuper, habove]
  refine ⟨hiff, fun hnone => hiff.mpr fun n hn hsame hcircle => ?_⟩
  obtain ⟨parent, hparent, -⟩ := Relation.TransGen.head'_iff.mp hcircle
  rw [hsame, hnone n hn] at hparent
  cases hparent

/-- A script that declares two classes, one the superclass of the other. -/
def linkingScript : Source :=
  ⟨"a.js", "/** @constructor */ A = function() {}; /** @constructor @extends {A} */ B = function() {};"⟩

/-- A script that declares two classes, one the superclass of the other. -/
def furtherScript : Source :=
  ⟨"b.js", "/** @constructor */ C = function() {}; /** @constructor @extends {C} */ D = function() {};"⟩

/-- A script that declares the same classes, with the link the other way. -/
def relinkingScript : Source :=
  ⟨"b.js", "/** @constructor @extends {B} */ A = function() {}; /** @constructor */ B = function() {};"⟩

/-- The registry in which the first script has declared its classes. -/
def linkedRegistry : Registry :=
  (determine.outcome (start (programOf linkingScript) .empty)).2.registry

theorem linkedRegistry_eq :
    linkedRegistry = ⟨⟨[("A", none), ("B", some "A")]⟩, ⟨[]⟩, ⟨[]⟩⟩ := by
  refine Registry.eq_of_entries ?_
  rw [linkedRegistry, show programOf linkingScript = _ from programOf_of_characters rfl]
  decide +kernel

theorem acyclic_linkedRegistry : linkedRegistry.Acyclic := by
  rw [linkedRegistry_eq]
  exact Registry.acyclic_of_rank (fun c => if c = "B" then 1 else 0) (by decide)

theorem eq_mk_of_fst {α β : Type} {x : α × β} {a : α} (h : x.1 = a) : x = (a, x.2) := by
  rw [← h]

/-- What is left when two more classes have been declared in that registry. -/
def afterFurther : Typing := (determine.outcome (start (programOf furtherScript) linkedRegistry)).2

theorem acyclic_determine_furtherScript :
    linkedRegistry.Acyclic ∧ ∃ ds, declarationsOf (programOf furtherScript) = .ok ds ∧
      determine.outcome (start (programOf furtherScript) linkedRegistry)
        = (.ok (), afterFurther) ∧
      (afterFurther.registry.Acyclic ↔ ∀ c, DeclaresClass ds c →
        afterFurther.registry.superclass? c = linkedRegistry.superclass? c →
        ¬ afterFurther.registry.Above c c) ∧
      ((∀ c, DeclaresClass ds c → linkedRegistry.superclass? c = none) →
        afterFurther.registry.Acyclic) := by
  obtain ⟨ds, hds, -⟩ :=
    declarationsOf_ok (Program.parsed_ofSources [furtherScript] fun _ => none)
  have hok : (determine.outcome (start (programOf furtherScript) linkedRegistry)).1 = .ok () := by
    rw [linkedRegistry_eq, show programOf furtherScript = _ from programOf_of_characters rfl]
    decide +kernel
  have hrun : determine.outcome (start (programOf furtherScript) linkedRegistry)
      = (.ok (), afterFurther) := by
    rw [afterFurther]
    exact eq_mk_of_fst hok
  exact ⟨acyclic_linkedRegistry, ds, hds, hrun,
    acyclic_determine_iff acyclic_linkedRegistry hds hrun⟩

/-- What is left when the classes have been declared again. -/
def afterRelinking : Typing :=
  (determine.outcome (start (programOf relinkingScript) linkedRegistry)).2

theorem outcome_relinking :
    (determine.outcome (start (programOf relinkingScript) linkedRegistry)).1 = .ok () ∧
      afterRelinking.registry.superclass? "A" = some "B" ∧
      afterRelinking.registry.superclass? "B" = some "A" := by
  rw [afterRelinking, linkedRegistry_eq,
    show programOf relinkingScript = _ from programOf_of_characters rfl]
  decide +kernel

/-- The link that was made before and the one that is made now close a circle. -/
theorem circle_afterRelinking :
    linkedRegistry.Acyclic ∧
      (determine.outcome (start (programOf relinkingScript) linkedRegistry)).1 = .ok () ∧
      ¬ afterRelinking.registry.Acyclic := by
  obtain ⟨hrun, hup, hback⟩ := outcome_relinking
  exact ⟨acyclic_linkedRegistry, hrun, fun h => h "A" (Registry.above_of_superclass? hup hback)⟩

end Typing

end SuperForward
