/-
  Attaching types to callees, step by step.

  The callee of a call that spells a name gets the type that the name stands for, if it stands
  for anything; every other node keeps what type it had. The calls may come in any order, since
  a node that is the callee of a call spells at most one name.
-/
import SuperForward.Proofs.Types.Announcing
import SuperForward.Proofs.Types.Calling

namespace SuperForward

open SuperForward.Program (root Below)

theorem Program.preOrderWithin_withTypes {p : Program} {types : Handle → Option JsType}
    (levels : Nat) : (p.withTypes types).preOrderWithin levels = p.preOrderWithin levels := by
  induction levels with
  | zero => rfl
  | succ levels ih =>
    funext n
    rw [preOrderWithin, preOrderWithin, childrenOf_withTypes, ih]

/-- The types that nodes are given last count. -/
theorem Program.withTypes_withTypes {p : Program} {types types' : Handle → Option JsType} :
    (p.withTypes types).withTypes types' = p.withTypes types' := by
  apply ext_nodes
  intro n
  rw [nodes_withTypes, nodes_withTypes, nodes_withTypes]
  cases p.nodes[n]? <;> rfl

namespace Typing

/-- The call has a callee that spells a name which stands for a type. -/
structure CalleeType (p : Program) (r : Registry) (call callee : Handle) (type : JsType) :
    Prop where
  kind : p.kindOf? call = some .call
  first : (p.childrenOf call).head? = some callee
  named : ∃ name : QualifiedName, p.Spells callee name.names ∧ r.typeOfCallee? name = some type

/-- A callee has one type. -/
theorem CalleeType.unique {p : Program} {r : Registry} {call call' callee : Handle}
    {type type' : JsType} (h : CalleeType p r call callee type)
    (h' : CalleeType p r call' callee type') : type = type' := by
  obtain ⟨name, hspells, htype⟩ := h.named
  obtain ⟨name', hspells', htype'⟩ := h'.named
  have hname : name = name' := QualifiedName.ext_names (hspells.unique hspells')
  rw [hname, htype'] at htype
  exact (Option.some.inj htype).symm

/-- The types after those of some callees have been attached. -/
structure Attached (p : Program) (r : Registry) (calls : List Handle)
    (before after : Handle → Option JsType) : Prop where
  typed : ∀ call ∈ calls, ∀ n type, CalleeType p r call n type → after n = some type
  kept : ∀ n, (∀ call ∈ calls, ∀ type, ¬ CalleeType p r call n type) → after n = before n

theorem Attached.nil {p : Program} {r : Registry} (types : Handle → Option JsType) :
    Attached p r [] types types :=
  ⟨fun _ h => absurd h List.not_mem_nil, fun _ _ => rfl⟩

/-- Some callees after others. -/
theorem Attached.append {p : Program} {r : Registry} {calls calls' : List Handle}
    {types types' types'' : Handle → Option JsType} (h : Attached p r calls types types')
    (h' : Attached p r calls' types' types'') : Attached p r (calls ++ calls') types types'' := by
  refine ⟨?_, ?_⟩
  · intro call hcall n type htype
    rcases List.mem_append.mp hcall with hcall | hcall
    · -- what comes later either leaves the callee alone or gives it the same type
      by_cases hlater : ∃ call' ∈ calls', ∃ type', CalleeType p r call' n type'
      · obtain ⟨call', hcall', type', htype'⟩ := hlater
        rw [h'.typed call' hcall' n type' htype', htype.unique htype']
      · rw [h'.kept n fun call' hcall' type' htype' => hlater ⟨call', hcall', type', htype'⟩]
        exact h.typed call hcall n type htype
    · exact h'.typed call hcall n type htype
  · intro n hn
    rw [h'.kept n fun call hcall => hn call (List.mem_append_right _ hcall)]
    exact h.kept n fun call hcall => hn call (List.mem_append_left _ hcall)

section

variable {p : Program} (hp : p.Parsed) {r : Registry}
include hp

/-- What becomes of the callee of one node. -/
theorem outcome_typeCall {n : Handle} (hn : p.Below root n) {types : Handle → Option JsType}
    {a : Typing} (hregistry : a.registry = r) (hprogram : a.program = p.withTypes types) :
    ∃ types', (typeCall n).outcome a = (.ok (), { a with program := p.withTypes types' }) ∧
      Attached p r [n] types types' := by
  have hp' := hp.withTypes types
  have hn' : (p.withTypes types).Below root n := hn.withTypes
  have hsame : a = { a with program := p.withTypes types } := by rw [← hprogram]
  have hask {α : Type} {q : Program → Except Fault α} {x : α}
      (h : q (p.withTypes types) = .ok x) (f : α → Task Typing Unit) :
      (ask q >>= f).outcome a = (f x).outcome a :=
    Task.outcome_bind_ok (outcome_ask (by rw [hprogram]; exact h))
  -- nothing changes if no callee has a type
  have nothing (h : ∀ callee type, ¬ CalleeType p r n callee type) :
      ∃ types', ((.ok (), a) : Except Fault Unit × Typing)
          = (.ok (), { a with program := p.withTypes types' }) ∧ Attached p r [n] types types' :=
    ⟨types, by rw [← hsame], fun call hcall callee type htype =>
      absurd (List.mem_singleton.mp hcall ▸ htype) (h callee type), fun _ _ => rfl⟩
  unfold typeCall
  rw [hask (Program.isKind_of_lt (hp'.lt_size_of_below hn'))]
  rw [Program.kindOf?_withTypes]
  by_cases hkind : p.kindOf? n = some .call
  · obtain ⟨callee, args, hchildren⟩ := hp.children_call hn hkind
    have hcallee : p.Below root callee :=
      hn.child (hp.forest.mem_children_iff.mp (by rw [hchildren]; simp))
    have hfirst : (do Program.present (← (p.withTypes types).firstChild n)) = .ok callee := by
      simp only [Program.firstChild, Program.childAt, Program.childrenOf_withTypes,
        Program.children_of_lt (hp'.lt_size_of_below hn'), hchildren, except_ok_bind, except_pure]
      rfl
    have hhead : (p.childrenOf n).head? = some callee := by rw [hchildren]; rfl
    rw [if_pos (by simpa using hkind),
      hask (q := fun p => do Program.present (← p.firstChild n)) hfirst]
    rcases hp.qualifiedName_eq hcallee with ⟨name, hspells, hname⟩ | ⟨hnone, hname⟩
    · rw [hask (q := (·.qualifiedName callee)) (Program.qualifiedName_withTypes.trans hname)]
      simp only [Task.outcome_get_bind]
      subst hregistry
      cases htype : a.registry.typeOfCallee? name with
      | some type =>
        refine ⟨fun m => if m = callee then some type else types m, ?_, ?_, ?_⟩
        · rw [← Program.setType_withTypes, ← hprogram]
          rfl
        · intro call hcall m type' htype'
          rw [List.mem_singleton.mp hcall] at htype'
          have hm : m = callee := Option.some.inj (htype'.first.symm.trans hhead)
          have hthis : CalleeType p a.registry n callee type := ⟨hkind, hhead, name, hspells, htype⟩
          subst hm
          rw [if_pos rfl, htype'.unique hthis]
        · intro m hm
          have hne : m ≠ callee := fun h =>
            hm n (List.mem_singleton_self n) type ⟨hkind, h ▸ hhead, name, h ▸ hspells, htype⟩
          exact if_neg hne
      | none =>
        refine nothing fun callee' type h => ?_
        obtain ⟨name', hspells', htype'⟩ := h.named
        have hm : callee' = callee := Option.some.inj (h.first.symm.trans hhead)
        have hsame : name' = name := QualifiedName.ext_names ((hm ▸ hspells').unique hspells)
        rw [hsame, htype] at htype'
        cases htype'
    · rw [hask (q := (·.qualifiedName callee)) (Program.qualifiedName_withTypes.trans hname)]
      refine nothing fun callee' type h => ?_
      obtain ⟨name', hspells', -⟩ := h.named
      have hm : callee' = callee := Option.some.inj (h.first.symm.trans hhead)
      exact hnone _ (hm ▸ hspells')
  · rw [if_neg (by simpa using hkind)]
    exact nothing fun callee type h => hkind h.kind

/-- What becomes of the callees of some nodes. -/
theorem outcome_typeCallsOf {ns : List Handle} (hns : ∀ n ∈ ns, p.Below root n)
    {types : Handle → Option JsType} {a : Typing} (hregistry : a.registry = r)
    (hprogram : a.program = p.withTypes types) :
    ∃ types', (for n in ns do typeCall n : Task Typing Unit).outcome a
        = (.ok (), { a with program := p.withTypes types' }) ∧ Attached p r ns types types' := by
  induction ns generalizing types a with
  | nil => exact ⟨types, by rw [← hprogram]; rfl, .nil types⟩
  | cons n ns ih =>
    obtain ⟨types₁, hout₁, h₁⟩ :=
      outcome_typeCall hp (hns n (List.mem_cons_self ..)) hregistry hprogram
    obtain ⟨types₂, hout₂, h₂⟩ := @ih (fun m hm => hns m (List.mem_cons_of_mem _ hm)) types₁
      { a with program := p.withTypes types₁ } hregistry rfl
    exact ⟨types₂, (Task.outcome_forIn_cons hout₁).trans hout₂, h₁.append h₂⟩

/-- All callees of the program get their types. -/
theorem outcome_typeCalls {types : Handle → Option JsType} {a : Typing}
    (hregistry : a.registry = r) (hprogram : a.program = p.withTypes types) :
    ∃ types', typeCalls.outcome a = (.ok (), { a with program := p.withTypes types' }) ∧
      Attached p r (p.preOrder root) types types' := by
  have hpreOrder : (p.withTypes types).preOrder root = p.preOrder root := by
    unfold Program.preOrder
    rw [Program.size_withTypes, Program.preOrderWithin_withTypes]
  have hask : (ask (·.subtree root)).outcome a = (.ok (p.preOrder root), a) := by
    refine outcome_ask ?_
    rw [hprogram, ← hpreOrder]
    exact subtree_root (hp.withTypes types)
  unfold typeCalls
  rw [Task.outcome_bind_ok hask]
  exact outcome_typeCallsOf hp (fun n hn => hp.forest.mem_preOrder_iff.mp hn) hregistry hprogram

/-- What becomes of a program: its classes are declared, and unless a link is asked for between
classes that are not known, links are made, functions are declared and callees get their
types. -/
theorem outcome_determine {ds : List Declaration} {called : List (String × String)}
    {types : Handle → Option JsType} {a : Typing} (hprogram : a.program = p.withTypes types)
    (hcallable : a.registry.Callable) (hds : declarationsOf a.program = .ok ds)
    (hcalled : inheritsOf a.program = .ok called) :
    ∃ b, ClassesDeclared ds a b ∧
      (AllKnown b (linksOf ds called) → ∃ c types', LinkSteps b (linksOf ds called) c ∧
        Attached p (withFunctions a.program c.registry c.ancestry ds) (p.preOrder root) types
          types' ∧
        determine.outcome a = (.ok (), { c with
          program := p.withTypes types'
          registry := withFunctions a.program c.registry c.ancestry ds })) ∧
      (¬ AllKnown b (linksOf ds called) → ∃ e c, determine.outcome a = (.error e, c)) := by
  have hp' : a.program.Parsed := hprogram ▸ hp.withTypes types
  obtain ⟨b, hb, hknown, hunknown⟩ := outcome_declareClasses ds hcalled
  have hask : (ask declarationsOf).outcome a = (.ok ds, a) := outcome_ask hds
  unfold determine
  rw [Task.outcome_bind_ok hask]
  refine ⟨b, hb, fun h => ?_, fun h => ?_⟩
  · obtain ⟨c, hout₁, hc⟩ := hknown h
    have hsame := hc.sameClasses
    have hprogram' : c.program = a.program := hsame.program.trans hb.program
    have hcallable' : c.registry.Callable :=
      hcallable.congr (hsame.methods.trans hb.methods)
    have hbelow : ∀ d ∈ ds, a.program.Below root d.fn := by
      obtain ⟨ds', hds', hof⟩ := declarationsOf_ok hp'
      rw [hds] at hds'
      cases hds'
      exact fun d hd => (hof d hd).below
    have hout₂ := outcome_declareFunctions hp' hprogram' hcallable' hbelow
    obtain ⟨types', hout₃, htypes⟩ := outcome_typeCalls hp
      (a := { c with registry := withFunctions a.program c.registry c.ancestry ds }) rfl
      (hprogram'.trans hprogram)
    refine ⟨c, types', hc, htypes, ?_⟩
    rw [Task.outcome_bind_ok hout₁, Task.outcome_bind_ok hout₂, hout₃]
  · obtain ⟨e, c, hout⟩ := hunknown h
    exact ⟨e, c, by rw [Task.outcome_bind, hout]⟩

end

end Typing

end SuperForward
