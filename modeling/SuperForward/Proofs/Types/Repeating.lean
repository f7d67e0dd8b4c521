/-
  Typing a program again.

  Types of nodes are not asked about when a program is typed, so that the same is declared and
  asked for as before. Links that are there already are made again or left out, whether the same
  ancestry is used or a new one; then the same methods wait, and find the same above them.
-/
import SuperForward.Proofs.Types.Agreeing

namespace SuperForward

open SuperForward.Program (root Below)

namespace Typing

/-! ## Types of nodes are not asked about -/

section

variable {p : Program} {types : Handle → Option JsType}

/-- What is asked about a node is asked about it without its type, or with another one. -/
theorem node_withTypes_bind {α : Type} {n : Handle} (f : Node → Except Fault α) :
    (p.withTypes types).node n >>= f = p.node n >>= fun node => f { node with type := types n } := by
  rw [Program.node_withTypes]
  cases p.node n <;> rfl

theorem declarationAt_withTypes (n : Handle) :
    declarationAt (p.withTypes types) n = declarationAt p n := by
  unfold declarationAt Program.docOfFunction Program.isKind
  simp only [node_withTypes_bind, Program.functionName_withTypes]

theorem inheritsAt_withTypes (n : Handle) :
    inheritsAt (p.withTypes types) n = inheritsAt p n := by
  unfold inheritsAt
  simp only [node_withTypes_bind, Program.qualifiedName_withTypes]

theorem returnsValueWithin_withTypes (steps : Nat) (ns : List Handle) :
    returnsValueWithin (p.withTypes types) steps ns = returnsValueWithin p steps ns := by
  induction steps generalizing ns with
  | zero => rfl
  | succ steps ih =>
    cases ns with
    | nil => rfl
    | cons n ns =>
      rw [returnsValueWithin, returnsValueWithin, Program.node_withTypes]
      cases p.node n with
      | error e => rfl
      | ok node => simp only [Except.map, except_ok_bind, ih]

theorem inferred_withTypes (fn : Handle) : inferred (p.withTypes types) fn = inferred p fn := by
  have hchildren (n : Handle) : (p.withTypes types).children n = p.children n := by
    unfold Program.children
    rw [Program.node_withTypes]
    cases p.node n <;> rfl
  unfold inferred inferredResult Program.lastChild
  simp only [hchildren, returnsValueWithin_withTypes, Program.size_withTypes]

theorem announcement_withTypes (r : Registry) (d : Declaration) :
    announcement (p.withTypes types) r d = announcement p r d := by
  unfold announcement resultOf
  simp only [inferred_withTypes]

theorem subtree_root_withTypes (hp : p.Parsed) :
    (p.withTypes types).subtree root = p.subtree root := by
  rw [subtree_root hp, subtree_root (hp.withTypes types)]
  unfold Program.preOrder
  rw [Program.size_withTypes, Program.preOrderWithin_withTypes]

theorem declarationsOf_withTypes (hp : p.Parsed) :
    declarationsOf (p.withTypes types) = declarationsOf p := by
  unfold declarationsOf
  rw [subtree_root_withTypes hp, funext declarationAt_withTypes]

theorem inheritsOf_withTypes (hp : p.Parsed) :
    inheritsOf (p.withTypes types) = inheritsOf p := by
  unfold inheritsOf
  rw [subtree_root_withTypes hp, funext inheritsAt_withTypes]

end

/-! ## The same classes -/

/-- Links that there are, and links that would close a circle with those, change nothing. -/
theorem LinkSteps.unchanged {a b : Typing} {links : List (String × String)}
    (h : LinkSteps a links b) (hacyclic : a.ancestry.Acyclic)
    (hdone : ∀ l ∈ links, l ∈ a.ancestry.links ∨
      (Linkable a l.1 l.2 → l.1 ∈ a.ancestry.upwards l.2))
    (hsuper : ∀ l ∈ a.ancestry.links, a.registry.superclass? l.1 = some l.2) :
    b.ancestry = a.ancestry ∧ ∀ c, b.registry.superclass? c = a.registry.superclass? c := by
  induction h with
  | nil => exact ⟨rfl, fun _ => rfl⟩
  | @cons a b _ link links head tail ih =>
    have hsame := head.sameClasses
    -- the first link changes nothing, so the others are in the same place as before
    suffices hhead : b.ancestry = a.ancestry ∧
        ∀ c, b.registry.superclass? c = a.registry.superclass? c by
      obtain ⟨hancestry, hregistry⟩ := hhead
      have hrest := ih (hancestry ▸ hacyclic)
        (fun l hl => by
          rw [hancestry, hsame.linkable_iff]
          exact hdone l (List.mem_cons_of_mem _ hl))
        (fun l hl => by
          rw [hregistry]
          exact hsuper l (hancestry ▸ hl))
      exact ⟨hrest.1.trans hancestry, fun c => (hrest.2 c).trans (hregistry c)⟩
    cases head with
    | leftOut log hcircle => exact ⟨rfl, fun _ => rfl⟩
    | made hlinkable hfree registry hset =>
      have hlink : link ∈ a.ancestry.links :=
        (hdone link (List.mem_cons_self ..)).resolve_right fun h => hfree (h hlinkable)
      obtain ⟨r', hset', -, -, hsuper'⟩ :=
        Registry.setSuperclass_eq hlinkable.isClass hlinkable.isClass_parent
      rw [hset] at hset'
      cases hset'
      refine ⟨?_, fun c => ?_⟩
      · show a.ancestry.addLink link.1 link.2 = a.ancestry
        unfold Ancestry.addLink
        rw [if_pos (List.contains_iff_mem.mpr hlink)]
      · show registry.superclass? c = a.registry.superclass? c
        rw [hsuper']
        split
        · next hc => rw [← hc, hsuper link hlink]
        · rfl

namespace ClassesChosen

variable {ds : List Declaration} {called : List (String × String)} {a b c : Typing}
  (h : ClassesChosen ds called a)
include h

/-- Classes and links are all that counts. -/
theorem congr (hancestry : b.ancestry = a.ancestry) (hinterfaces : b.interfaces = a.interfaces)
    (hclasses : b.registry.classes = a.registry.classes) : ClassesChosen ds called b where
  isClass := fun c => by rw [isClass_of_classes hclasses, h.isClass]
  known := fun c => by rw [hancestry, h.known]
  interfaces := fun c => by rw [hinterfaces, h.interfaces]
  made := hancestry ▸ h.made
  superclass? := fun c parent => by
    rw [superclass?_of_classes hclasses, h.superclass?, hancestry]
  acyclic := hancestry ▸ h.acyclic
  nodup := hclasses ▸ h.nodup

theorem consistent : Consistent ds called a where
  isClass := fun c => (h.isClass c).mp
  known := fun c => (h.known c).mp
  interfaces := fun c => (h.interfaces c).mp
  superclass? := fun c parent hparent => ⟨_, h.made, (h.superclass? c parent).mp hparent⟩
  nodup := h.nodup

/-- A new ancestry knows nothing else. -/
theorem consistent_start (p : Program) : Consistent ds called (start p a.registry) where
  isClass := h.consistent.isClass
  known := fun _ hc => absurd hc List.not_mem_nil
  interfaces := fun _ hc => absurd hc List.not_mem_nil
  superclass? := h.consistent.superclass?
  nodup := h.nodup

/-- With the same ancestry, nothing about the classes changes. -/
theorem again (hb : ClassesDeclared ds a b) (hc : LinkSteps b (linksOf ds called) c) :
    ClassesChosen ds called c := by
  have hsame := hc.sameClasses
  have hdone : ∀ l ∈ linksOf ds called, l ∈ b.ancestry.links ∨
      (Linkable b l.1 l.2 → l.1 ∈ b.ancestry.upwards l.2) := by
    intro l hl
    rw [linksOf_eq] at hl
    obtain ⟨before, after, hasked⟩ := List.append_of_mem hl
    rw [hb.links]
    by_cases hmade : l ∈ a.ancestry.links
    · exact .inl hmade
    · refine .inr fun hlinkable => Ancestry.mem_upwards_iff.mpr ?_
      have heligible := (h.consistent.linkable_iff hb).mp hlinkable
      -- what was not made would have closed a circle
      by_contra hfree
      refine hmade ((h.made.made_iff before l after hasked).mpr ⟨heligible, fun hback => hfree ?_⟩)
      refine Relation.ReflTransGen.mono (fun c parent hlink => ?_) _ _ hback
      rw [hb.links]
      exact hlink.1
  have hsuper : ∀ l ∈ b.ancestry.links, b.registry.superclass? l.1 = some l.2 := by
    intro l hl
    rw [hb.superclass?]
    exact (h.superclass? l.1 l.2).mpr (hb.links ▸ hl)
  have hacyclic : b.ancestry.Acyclic := by
    unfold Ancestry.Acyclic
    rw [hb.links]
    exact h.acyclic
  obtain ⟨hancestry, hregistry⟩ := hc.unchanged hacyclic hdone hsuper
  have hlinks : c.ancestry.links = a.ancestry.links := by rw [hancestry, hb.links]
  refine ⟨fun n => ?_, fun n => ?_, fun n => ?_, hlinks ▸ h.made, fun n parent => ?_,
    hancestry ▸ hacyclic, hc.nodup (hb.nodup h.nodup)⟩
  · rw [hsame.isClass, hb.isClass]
    exact or_iff_left_of_imp (h.isClass n).mp
  · rw [hsame.known, hb.known]
    exact or_iff_left_of_imp (h.known n).mp
  · rw [hsame.interfaces, hb.interfaces]
    exact or_iff_left_of_imp (h.interfaces n).mp
  · rw [hregistry, hb.superclass?, h.superclass?, hlinks]

/-- The same links are made whenever the same is asked for. -/
theorem links_eq (h' : ClassesChosen ds called b) : b.ancestry.links = a.ancestry.links :=
  h'.made.eq (nodup_requests ds called) h.made

theorem isClass_eq (h' : ClassesChosen ds called b) (n : String) :
    b.registry.isClass n = a.registry.isClass n := by
  rw [Bool.eq_iff_iff, h'.isClass, h.isClass]

theorem superclass?_eq (h' : ClassesChosen ds called b) (n : String) :
    b.registry.superclass? n = a.registry.superclass? n := by
  apply Option.ext
  intro parent
  rw [h'.superclass?, h.superclass?, h.links_eq h']

end ClassesChosen

/-! ## The same methods and functions -/

section

variable {p : Program} (types : Handle → Option JsType) {ds : List Declaration}
  {called : List (String × String)} {a b : Typing} (h : Chosen ds called a)
  (h' : ClassesChosen ds called b)
include h h'

theorem waiting_again :
    waiting (p.withTypes types) b.registry ds = waiting p a.registry ds := by
  unfold waiting
  simp only [announcement_withTypes, announcement_congr (h.isClass_eq h')]

/-- A method that is declared again has the same type: one that waits finds the same above its
class, and if nothing is announced, the type stays as it was. -/
theorem ownMethod?_again
    (hmethods : b.registry.methods = (withFunctions p a.registry a.ancestry ds).methods)
    (c m : String) :
    (withFunctions (p.withTypes types) b.registry b.ancestry ds).ownMethod? c m
      = (withFunctions p a.registry a.ancestry ds).ownMethod? c m := by
  have hclasses := classes_withFunctions (p := p) a.registry a.ancestry ds
  have hclasses' := classes_withFunctions (p := p.withTypes types) b.registry b.ancestry ds
  have hsuper (n : String) :
      (withFunctions (p.withTypes types) b.registry b.ancestry ds).superclass? n
        = (withFunctions p a.registry a.ancestry ds).superclass? n := by
    rw [superclass?_of_classes hclasses, superclass?_of_classes hclasses', h.superclass?_eq h']
  have hlength : (withFunctions (p.withTypes types) b.registry b.ancestry ds).classes.entries.length
      = (withFunctions p a.registry a.ancestry ds).classes.entries.length := by
    rw [hclasses, hclasses']
    exact Registry.length_classes_eq h.nodup h'.nodup (h.isClass_eq h')
  have hdepth (n parent : String)
      (hparent : (withFunctions p a.registry a.ancestry ds).superclass? n = some parent) :
      a.ancestry.depth parent < a.ancestry.depth n :=
    h.depth_lt ((superclass?_of_classes hclasses n).symm.trans hparent)
  -- an override looks at the methods above its class only, and those classes have smaller depth
  induction c using (measure a.ancestry.depth).wf.induction generalizing m with
  | h c ih =>
    have hkept : b.registry.ownMethod? c m
        = (withFunctions p a.registry a.ancestry ds).ownMethod? c m := by
      unfold Registry.ownMethod?
      rw [hmethods]
    have hown := ownMethod?_withFunctions (p := p) ds (fun _ _ => h.depth_lt) c m
    rw [ownMethod?_withFunctions ds (fun _ _ => h'.depth_lt), waiting_again types h h']
    cases hlast : ((waiting p a.registry ds).filter fun o => o.key == (c, m)).getLast? with
    | some o =>
      rw [hlast] at hown
      rw [hown]
      have hkey : o.key = (c, m) :=
        beq_iff_eq.mp (List.mem_filter.mp (List.mem_of_getLast? hlast)).2
      obtain rfl : o.className = c := congrArg Prod.fst hkey
      have habove := overridden?_congr (o := o)
        (P := fun n => a.ancestry.depth n < a.ancestry.depth o.className) hlength (hsuper _)
        (hdepth _) (fun n _ => hsuper n)
        (fun n parent hn hparent => (hdepth n parent hparent).trans hn) fun n hn => ih n hn _
      unfold overrideType
      simp only [habove, inferred_withTypes]
    | none =>
      rw [hlast] at hown
      simp only at hown ⊢
      rw [ownMethod?_withAnnounced] at hown ⊢
      simp only [announcement_withTypes, announcement_congr (h.isClass_eq h')]
      cases hannounced : OrderedMap.last? (c, m)
          (ds.filterMap fun d => (announcement p a.registry d).methodOf?) with
      | some type? =>
        rw [hannounced] at hown
        exact hown.symm
      | none => exact hkept

/-- What is declared again is the same. -/
theorem agrees_again
    (hmethods : b.registry.methods = (withFunctions p a.registry a.ancestry ds).methods)
    (hfunctions : b.registry.functions = (withFunctions p a.registry a.ancestry ds).functions) :
    (withFunctions p a.registry a.ancestry ds).Agrees
      (withFunctions (p.withTypes types) b.registry b.ancestry ds) := by
  have hclasses := classes_withFunctions (p := p) a.registry a.ancestry ds
  have hclasses' := classes_withFunctions (p := p.withTypes types) b.registry b.ancestry ds
  have hsuper (n : String) :
      (withFunctions (p.withTypes types) b.registry b.ancestry ds).superclass? n
        = (withFunctions p a.registry a.ancestry ds).superclass? n := by
    rw [superclass?_of_classes hclasses, superclass?_of_classes hclasses', h.superclass?_eq h']
  have hown := ownMethod?_again types h h' hmethods
  refine ⟨fun n => ?_, hsuper, hown, fun n m => ?_, fun name => ?_⟩
  · rw [isClass_of_classes hclasses, isClass_of_classes hclasses', h.isClass_eq h']
  · refine Registry.findMethod_congr ?_ hsuper (fun n => hown n m) n
    rw [hclasses, hclasses', Registry.length_classes_eq h.nodup h'.nodup (h.isClass_eq h')]
  · rw [functions_get?_withFunctions, hfunctions, functions_get?_withFunctions, h.functions]
    simp only [announcement_withTypes, announcement_congr (h.isClass_eq h')]
    cases OrderedMap.last? name
      (ds.filterMap fun d => (announcement p a.registry d).functionOf?) <;> rfl

end

/-! ## The same types of callees -/

theorem CalleeType.congr {p : Program} {r s : Registry} (h : r.Agrees s) {call callee : Handle}
    {type : JsType} (htype : CalleeType p r call callee type) : CalleeType p s call callee type := by
  obtain ⟨name, hspells, hname⟩ := htype.named
  exact ⟨htype.kind, htype.first, name, hspells, (h.typeOfCallee? name).trans hname⟩

/-- Callees that are given types by registries that say the same keep the ones they have. -/
theorem Attached.again {p : Program} {r s : Registry} {calls : List Handle}
    {types types' types'' : Handle → Option JsType} (h : Attached p r calls types types')
    (h' : Attached p s calls types' types'') (hsame : r.Agrees s) : types'' = types' := by
  funext n
  by_cases htyped : ∃ call ∈ calls, ∃ type, CalleeType p s call n type
  · obtain ⟨call, hcall, type, htype⟩ := htyped
    rw [h'.typed call hcall n type htype, h.typed call hcall n type (htype.congr hsame.symm)]
  · exact h'.kept n fun call hcall type htype => htyped ⟨call, hcall, type, htype⟩

/-! ## Typing again -/

/-- Two results of typing say the same about classes, their superclasses and interfaces, about
methods and functions, and about the types of all nodes. -/
structure Unchanged (a b : Typing) : Prop where
  registry : a.registry.Agrees b.registry
  links : b.ancestry.links = a.ancestry.links
  interfaces : ∀ c, c ∈ b.interfaces ↔ c ∈ a.interfaces
  program : b.program = a.program

/-- Typing starts again with the program and the registry that typing came to, and comes to the
same classes. -/
theorem unchanged_of_chosen {p : Program} (hp : p.Parsed) {ds : List Declaration}
    {called : List (String × String)} (hds : declarationsOf p = .ok ds)
    (hcalled : inheritsOf p = .ok called) {types : Handle → Option JsType} {c a s : Typing}
    (hc : Chosen ds called c)
    (ha : a = { c with
      program := p.withTypes types
      registry := withFunctions p c.registry c.ancestry ds })
    (hattached : Attached p a.registry (p.preOrder root) (fun _ => none) types)
    (hprogram : s.program = a.program) (hregistry : s.registry = a.registry)
    (hstart : Consistent ds called s)
    (hagain : ∀ {b c'}, ClassesDeclared ds s b → LinkSteps b (linksOf ds called) c' →
      ClassesChosen ds called c') :
    ∃ b, determine.outcome s = (.ok (), b) ∧ Unchanged a b := by
  subst ha
  have hcallable : s.registry.Callable := by
    have hnone : c.registry.Callable := by
      intro n k type htype
      unfold Registry.ownMethod? at htype
      rw [hc.methods] at htype
      cases htype
    rw [hregistry]
    exact callable_withOverrides (callable_withAnnounced hnone ds) _
  obtain ⟨b, hb, hknown, -⟩ := outcome_determine hp hprogram hcallable
    (by rw [hprogram]; exact (declarationsOf_withTypes hp).trans hds)
    (by rw [hprogram]; exact (inheritsOf_withTypes hp).trans hcalled)
  obtain ⟨c', types', hlinks, hattached', hout⟩ := hknown (hstart.allKnown hb _)
  have hchosen := hagain hb hlinks
  have hsame := hlinks.sameClasses
  have hagrees := agrees_again (p := p) types hc hchosen
    (by rw [hsame.methods, hb.methods, hregistry]) (by rw [hsame.functions, hb.functions, hregistry])
  rw [hprogram] at hattached' hout
  have hlinksEq : c'.ancestry.links = c.ancestry.links := hc.links_eq hchosen
  refine ⟨_, hout, hagrees, hlinksEq, fun n => ?_, ?_⟩
  · exact (hchosen.interfaces n).trans (hc.interfaces n).symm
  · rw [hattached.again hattached' hagrees]

/-- Typing a program again changes nothing, whether with the ancestry that typing it came to or
with a new one on the same registry. -/
theorem determine_again (sources : List Source) :
    ∃ a, ofProgram (Program.ofSources sources).1 = .ok a ∧
      (∃ b, determine.outcome a = (.ok (), b) ∧ Unchanged a b) ∧
      ∃ b, determine.outcome (start a.program a.registry) = (.ok (), b) ∧ Unchanged a b := by
  have hp := Program.parsed_untyped sources
  obtain ⟨ds, hds, -⟩ := declarationsOf_ok hp
  obtain ⟨called, hcalled⟩ := inheritsOf_ok hp
  obtain ⟨c, types, hc, hrun, hattached⟩ :=
    ofProgram_chosen hp (Program.withTypes_ofSources sources) hds hcalled
  refine ⟨_, hrun, ?_, ?_⟩
  · have hchosen := hc.congr (b := { c with
        program := (Program.ofSources sources).1.withTypes types
        registry := withFunctions (Program.ofSources sources).1 c.registry c.ancestry ds })
      rfl rfl (classes_withFunctions ..)
    exact unchanged_of_chosen hp hds hcalled hc rfl hattached rfl rfl hchosen.consistent
      hchosen.again
  · have hchosen := hc.congr (b := { c with
        registry := withFunctions (Program.ofSources sources).1 c.registry c.ancestry ds })
      rfl rfl (classes_withFunctions ..)
    have hstart := hchosen.consistent_start
      ((Program.ofSources sources).1.withTypes types)
    exact unchanged_of_chosen hp hds hcalled hc rfl hattached rfl rfl hstart
      fun hb hlinks => hstart.chosen hb rfl hlinks

end Typing

end SuperForward
