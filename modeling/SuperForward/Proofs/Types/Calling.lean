/-
  Typing callees.

  Typing ends on every program of scripts. It changes nothing about the program but the types
  of nodes, and the only nodes with types are those that spell a name which stands for a
  function or a method of that type when everything has been declared.
-/
import SuperForward.Analysis
import SuperForward.Proofs.Program.Without
import SuperForward.Proofs.Types.Declaring

namespace SuperForward

open SuperForward.Program (root Below)
open SuperForward.Task (Yields yields_pure yields_modify)

namespace Program

section WithTypes

variable {p : Program} {types : Handle → Option JsType} {n : Handle}

theorem kindOf?_withTypes : (p.withTypes types).kindOf? n = p.kindOf? n := by
  unfold kindOf?
  rw [nodes_withTypes]
  cases p.nodes[n]? <;> rfl

theorem textOf?_withTypes : (p.withTypes types).textOf? n = p.textOf? n := by
  unfold textOf?
  rw [nodes_withTypes]
  cases p.nodes[n]? <;> rfl

theorem docOf?_withTypes : (p.withTypes types).docOf? n = p.docOf? n := by
  unfold docOf?
  rw [nodes_withTypes]
  cases p.nodes[n]? <;> rfl

/-- What a node spells has nothing to do with types. -/
theorem Spells.withTypes {names : List String} (h : p.Spells n names) :
    (p.withTypes types).Spells n names := by
  induction h with
  | name kind htext nonempty =>
    exact .name (kindOf?_withTypes.trans kind) (textOf?_withTypes.trans htext) nonempty
  | this kind => exact .this (kindOf?_withTypes.trans kind)
  | getProp kind htext htarget _ ih =>
    exact .getProp (kindOf?_withTypes.trans kind) (textOf?_withTypes.trans htext)
      (by rw [childrenOf_withTypes]; exact htarget) ih

theorem Spells.of_withTypes {names : List String} (h : (p.withTypes types).Spells n names) :
    p.Spells n names := by
  induction h with
  | name kind htext nonempty =>
    exact .name (kindOf?_withTypes.symm.trans kind) (textOf?_withTypes.symm.trans htext) nonempty
  | this kind => exact .this (kindOf?_withTypes.symm.trans kind)
  | getProp kind htext htarget _ ih =>
    exact .getProp (kindOf?_withTypes.symm.trans kind) (textOf?_withTypes.symm.trans htext)
      (by rw [childrenOf_withTypes] at htarget; exact htarget) ih

theorem node_withTypes :
    (p.withTypes types).node n = (p.node n).map fun node => { node with type := types n } := by
  unfold node
  rw [nodes_withTypes]
  cases p.nodes[n]? <;> rfl

theorem segmentsWithin_withTypes (steps : Nat) (n : Handle) (below : List String) :
    (p.withTypes types).segmentsWithin steps n below = p.segmentsWithin steps n below := by
  induction steps generalizing n below with
  | zero => rfl
  | succ steps ih =>
    unfold segmentsWithin
    rw [node_withTypes]
    cases p.node n with
    | error e => rfl
    | ok node => simp only [Except.map, except_ok_bind, ih]

theorem qualifiedName_withTypes : (p.withTypes types).qualifiedName n = p.qualifiedName n := by
  unfold qualifiedName
  rw [size_withTypes, segmentsWithin_withTypes]

theorem ownName_withTypes : (p.withTypes types).ownName n = p.ownName n := by
  unfold ownName firstChild childAt children
  rw [node_withTypes]
  cases p.node n with
  | error e => rfl
  | ok node =>
    simp only [Except.map, except_ok_bind, except_pure]
    cases node.children[0]? with
    | none => rfl
    | some child =>
      simp only [node_withTypes]
      cases p.node child <;> rfl

theorem functionName_withTypes : (p.withTypes types).functionName n = p.functionName n := by
  unfold functionName parent
  rw [node_withTypes]
  cases p.node n with
  | error e => rfl
  | ok node =>
    simp only [Except.map, except_ok_bind, except_pure]
    cases node.parent with
    | none => exact ownName_withTypes
    | some above =>
      simp only [node_withTypes, qualifiedNameOf, qualifiedName_withTypes, ownName_withTypes]
      cases p.node above <;> rfl
theorem Below.withTypes {m : Handle} (h : p.Below n m) : (p.withTypes types).Below n m := by
  induction h with
  | here => exact .here
  | child _ link ih => exact ih.child (parentOf_withTypes.trans link)

theorem Below.of_withTypes {m : Handle} (h : (p.withTypes types).Below n m) : p.Below n m := by
  induction h with
  | here => exact .here
  | child _ link ih => exact ih.child (parentOf_withTypes.symm.trans link)

theorem setType_withTypes {type : Option JsType} :
    (p.withTypes types).setType n type
      = p.withTypes fun m => if m = n then type else types m := by
  apply ext_nodes
  intro m
  unfold setType update
  rw [Array.getElem?_modify, nodes_withTypes, nodes_withTypes]
  by_cases hm : n = m
  · subst hm
    rw [if_pos rfl]
    cases p.nodes[n]? with
    | none => rfl
    | some node => simp
  · rw [if_neg hm]
    cases p.nodes[m]? with
    | none => rfl
    | some node => simp [Ne.symm hm]

end WithTypes

theorem HasMethod.withTypes {p : Program} {c m : String} (h : p.HasMethod c m)
    (types : Handle → Option JsType) : (p.withTypes types).HasMethod c m := by
  obtain ⟨fn, hbelow, hkind, name, hname, hwritten⟩ := h
  exact ⟨fn, hbelow.withTypes, kindOf?_withTypes.trans hkind, name,
    functionName_withTypes.trans hname, hwritten⟩

theorem Parsed.withTypes {p : Program} (hp : p.Parsed) (types : Handle → Option JsType) :
    (p.withTypes types).Parsed := by
  obtain ⟨scripts, hshows, hscripts⟩ := hp.shows
  exact .of_shows (hp.forest.congr size_withTypes (fun _ => parentOf_withTypes)
    (fun _ => childrenOf_withTypes)) (parentOf_withTypes.trans hp.root_parent) hshows.withTypes
    hscripts

end Program

namespace Typing

/-- The types of nodes are those that names stand for. -/
def Known (p : Program) (r : Registry) (types : Handle → Option JsType) : Prop :=
  ∀ n type, types n = some type →
    ∃ name : QualifiedName, p.Spells n name.names ∧ r.typeOfCallee? name = some type

/-- Superclasses are declared classes and come to an end, and methods are functions of the
program. -/
structure Founded (p : Program) (r : Registry) : Prop where
  linked : ∀ c parent, r.superclass? c = some parent → r.isClass parent = true
  wellFounded : WellFounded fun parent c => r.superclass? c = some parent
  declared : ∀ c m type, r.ownMethod? c m = some type → p.HasMethod c m

theorem Declares.founded {p : Program} {a : Typing} (h : Declares p a) :
    Founded p a.registry where
  linked := h.sound.linked
  wellFounded := Subrelation.wf (fun link => h.sound.above _ _ link) h.sound.acyclic
  declared := h.declared

theorem Founded.withTypes {p : Program} {r : Registry} (h : Founded p r)
    (types : Handle → Option JsType) : Founded (p.withTypes types) r where
  linked := h.linked
  wellFounded := h.wellFounded
  declared := fun c m type htype => (h.declared c m type htype).withTypes types

/-- Typing of calls changes types only, and knows what it says. -/
structure Calls (p : Program) (r : Registry) (a : Typing) : Prop where
  registry : a.registry = r
  program : ∃ types, a.program = p.withTypes types ∧ Known p r types

section

variable {p : Program} (hp : p.Parsed) {r : Registry}
include hp

theorem typeCall_yields {n : Handle} (hn : p.Below root n) :
    Yields (Calls p r) (typeCall n) fun _ => Calls p r := by
  intro s hs
  obtain ⟨types, hprogram, hknown⟩ := hs.program
  have hp' := hp.withTypes types
  have hn' : (p.withTypes types).Below root n := hn.withTypes
  -- the program is the one that was parsed, with types: what is asked of it has an answer
  have hask {α : Type} {q : Program → Except Fault α} {a : α}
      (h : q (p.withTypes types) = .ok a) (f : α → Task Typing Unit) :
      (ask q >>= f).outcome s = (f a).outcome s := by
    refine Task.outcome_bind_ok ?_
    unfold ask
    rw [Task.outcome_get_bind, Task.outcome_ofExcept, hprogram, h]
  unfold typeCall
  rw [hask (Program.isKind_of_lt (hp'.lt_size_of_below hn'))]
  by_cases hkind : (p.withTypes types).kindOf? n = some .call
  · obtain ⟨callee, args, hchildren⟩ := hp'.children_call hn' hkind
    have hcallee : (p.withTypes types).Below root callee :=
      hn'.child (hp'.forest.mem_children_iff.mp (by rw [hchildren]; simp))
    have hfirst : (do Program.present (← (p.withTypes types).firstChild n)) = .ok callee := by
      simp only [Program.firstChild, Program.childAt,
        Program.children_of_lt (hp'.lt_size_of_below hn'), hchildren, except_ok_bind, except_pure]
      rfl
    rw [if_pos (by simpa using hkind),
      hask (q := fun p => do Program.present (← p.firstChild n)) hfirst]
    rcases hp'.qualifiedName_eq hcallee with ⟨name, hspells, hname⟩ | ⟨-, hname⟩
    · rw [hask (q := (·.qualifiedName callee)) hname]
      simp only [Task.outcome_get_bind]
      split
      · next type htype =>
        refine ⟨(), _, rfl, hs.registry, fun m => if m = callee then some type else types m,
          ?_, ?_⟩
        · rw [← Program.setType_withTypes, ← hprogram]
        · intro m t ht
          simp only at ht
          split at ht
          · next hm =>
            subst hm
            cases ht
            rw [hs.registry] at htype
            exact ⟨name, hspells.of_withTypes, htype⟩
          · exact hknown m t ht
      · exact ⟨(), s, rfl, hs⟩
    · rw [hask (q := (·.qualifiedName callee)) hname]
      exact ⟨(), s, rfl, hs⟩
  · rw [if_neg (by simpa using hkind)]
    exact ⟨(), s, rfl, hs⟩

theorem typeCalls_yields {types : Handle → Option JsType} (hknown : Known p r types) :
    Yields (fun a => a.registry = r ∧ a.program = p.withTypes types) typeCalls
      fun _ => Calls p r := by
  intro s hs
  obtain ⟨hregistry, hprogram⟩ := hs
  have hs : Calls p r s := ⟨hregistry, types, hprogram, hknown⟩
  have hp' := hp.withTypes types
  have hask : (ask (·.subtree Program.root)).outcome s
      = (.ok ((p.withTypes types).preOrder root), s) := by
    unfold ask
    rw [Task.outcome_get_bind, Task.outcome_ofExcept, hprogram]
    exact congrArg (·, s) (subtree_root hp')
  unfold typeCalls
  rw [Task.outcome_bind_ok hask]
  have hloop : Yields (Calls p r) (for n in (p.withTypes types).preOrder root do typeCall n)
      fun _ => Calls p r := by
    refine (Yields.forIn (I := Calls p r) _ ?_).bind fun _ => yields_pure fun _ hs => hs
    intro n hn
    have hbelow : p.Below root n := (hp'.forest.mem_preOrder_iff.mp hn).of_withTypes
    exact (typeCall_yields hp hbelow).bind fun _ => yields_pure fun _ hs => ⟨rfl, hs⟩
  exact hloop s hs
omit hp in
/-- Nothing has been declared at the start. -/
theorem declares_start : Declares p (start p .empty) where
  program := rfl
  sound := by
    refine ⟨?_, ?_, ?_, Ancestry.acyclic_empty, ?_⟩
    · intro c hc
      cases hc
    · intro c parent hparent
      cases hparent
    · intro c parent hparent
      cases hparent
    · intro c m type htype
      cases htype
  declared := by
    intro c m type htype
    cases htype

/-- What typing makes of a program of scripts that has no types yet. -/
theorem ofProgram_of_parsed (huntyped : p.withTypes (fun _ => none) = p) :
    ∃ a, ofProgram p = .ok a ∧ Calls p a.registry a ∧ Founded a.program a.registry := by
  obtain ⟨ds, hds, hbelow⟩ := declarationsOf_ok hp
  have hask : (ask declarationsOf).outcome (start p .empty) = (.ok ds, start p .empty) := by
    unfold ask
    rw [Task.outcome_get_bind, Task.outcome_ofExcept]
    exact congrArg (·, start p .empty) hds
  obtain ⟨_, a₁, hout₁, h₁⟩ := declareClasses_yields hp ds _ declares_start
  obtain ⟨_, a₂, hout₂, h₂⟩ := declareFunctions_yields hp hbelow a₁ h₁
  have hknown : Known p a₂.registry fun _ => none := fun n type h => by cases h
  obtain ⟨_, a₃, hout₃, h₃⟩ :=
    typeCalls_yields hp hknown a₂ ⟨rfl, h₂.program.trans huntyped.symm⟩
  refine ⟨a₃, ?_, ?_, ?_⟩
  · unfold ofProgram determine
    rw [Task.outcome_bind_ok hask, Task.outcome_bind_ok hout₁, Task.outcome_bind_ok hout₂, hout₃]
  · rw [h₃.registry]
    exact h₃
  · obtain ⟨types, hprogram, -⟩ := h₃.program
    rw [h₃.registry, hprogram]
    exact h₂.founded.withTypes types

end

/-- Typing ends on every program of sources. Only types change, a node has the type of the
function or the method that it spells the name of, and what is declared is founded. -/
theorem ofProgram_ofSources (sources : List Source) :
    ∃ a types, ofProgram (Program.ofSources sources).1 = .ok a ∧
      a.program = (Program.ofSources sources).1.withTypes types ∧
      (∀ n type, types n = some type → ∃ name : QualifiedName,
        a.program.Spells n name.names ∧ a.registry.typeOfCallee? name = some type) ∧
      Founded a.program a.registry := by
  have huntyped := Program.withTypes_ofSources sources
  obtain ⟨a, ha, hcalls, hfounded⟩ :=
    ofProgram_of_parsed (Program.parsed_untyped sources) huntyped
  obtain ⟨types, hprogram, hknown⟩ := hcalls.program
  refine ⟨a, types, ha, hprogram, ?_, hfounded⟩
  intro n type htype
  obtain ⟨name, hspells, hcallee⟩ := hknown n type htype
  exact ⟨name, hprogram ▸ hspells.withTypes, hcallee⟩

end Typing

end SuperForward
