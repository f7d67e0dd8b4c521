/-
  When a call is an exact forward.

  In a program that was read from scripts the matcher always gives an answer, and the answer is
  yes exactly if the call has the parts that `ExactForward` lists.
-/
import SuperForward.Forward.Matcher
import SuperForward.Proofs.Program.Naming

namespace SuperForward.Forward

open SuperForward.Program (Below Spells)

/-- The type of the value of a handle, if there is such a node and it is known. -/
def typeOf? (p : Program) (n : Handle) : Option JsType := p.nodes[n]?.bind (·.type)

/-- The arguments are plain names, one for each parameter, which spells the same name. -/
def Forwarded (p : Program) (params args : List Handle) : Prop :=
  List.Forall₂ (fun param arg => p.kindOf? arg = some .name ∧
    ∃ names, p.Spells param names ∧ p.Spells arg names) params args

/-- What makes a call in a function an exact forward to the method of that name. -/
structure ExactForward (p : Program) (r : Registry) (fn call : Handle) (name : QualifiedName) :
    Prop where
  args : ∃ params callee receiver args, (p.childrenOf fn)[1]? = some params ∧
    p.childrenOf call = callee :: receiver :: args ∧ p.kindOf? receiver = some .this ∧
    Forwarded p (p.childrenOf params) args
  result : ∃ callee type returns, (p.childrenOf call).head? = some callee ∧
    typeOf? p callee = some type ∧ type.returns? = some returns ∧
    (returns.isDefinite = true → ∃ parent, p.parentOf call = some parent ∧
      p.kindOf? parent = some .returnStmt)
  target : ∃ callee, ∃ called : QualifiedName, (p.childrenOf call).head? = some callee ∧
    p.Spells callee called.names ∧ isSuperclassMethod r name called = true

section

variable {p : Program} {top : Handle} (hp : p.ParsedAt top)
include hp

theorem sameName_iff {a b : Handle} (ha : p.Below top a) (hb : p.Below top b) :
    ∃ same, p.sameName a b = .ok same ∧
      (same = true ↔ ∃ names, p.Spells a names ∧ p.Spells b names) := by
  unfold Program.sameName
  -- names are compared as they are found, so a node that spells nothing is the same as no other
  rcases hp.qualifiedName_eq ha with ⟨q, hq, heq⟩ | ⟨hnone, heq⟩
  · rcases hp.qualifiedName_eq hb with ⟨q', hq', heq'⟩ | ⟨hnone', heq'⟩
    · refine ⟨some q' == some q, by simp only [heq, heq', except_ok_bind, except_pure], ?_⟩
      rw [beq_iff_eq, Option.some.injEq]
      constructor
      · rintro rfl
        exact ⟨_, hq, hq'⟩
      · rintro ⟨names, ha', hb'⟩
        have h₁ := hq.unique ha'
        have h₂ := hq'.unique hb'
        obtain ⟨ns, _, _⟩ := q
        obtain ⟨ns', _, _⟩ := q'
        simp only at h₁ h₂
        subst h₁ h₂
        rfl
    · refine ⟨none == some q, by simp only [heq, heq', except_ok_bind, except_pure], ?_⟩
      constructor
      · intro h
        cases h
      · rintro ⟨names, -, hb'⟩
        exact absurd hb' (hnone' names)
  · refine ⟨false, by simp only [heq, except_ok_bind, except_pure], ?_⟩
    constructor
    · intro h
      cases h
    · rintro ⟨names, ha', -⟩
      exact absurd ha' (hnone names)

theorem parametersForwarded_iff {params args : List Handle}
    (hparams : ∀ n ∈ params, p.Below top n) (hargs : ∀ n ∈ args, p.Below top n)
    (hlength : params.length = args.length) :
    ∃ b, parametersForwarded p params args = .ok b ∧ (b = true ↔ Forwarded p params args) := by
  -- both lists at once: at each step the argument has to be a name, and the same as the
  -- parameter
  induction params generalizing args with
  | nil =>
    obtain rfl := List.length_eq_zero_iff.mp hlength.symm
    exact ⟨true, rfl, by simp [Forwarded]⟩
  | cons param params ih =>
    obtain _ | ⟨arg, args⟩ := args
    · cases hlength
    have hparam := hparams param (List.mem_cons_self ..)
    have harg := hargs arg (List.mem_cons_self ..)
    obtain ⟨same, hsame, hiff⟩ := sameName_iff hp hparam harg
    obtain ⟨rest, hrest, hrest'⟩ := ih (fun n hn => hparams n (List.mem_cons_of_mem _ hn))
      (fun n hn => hargs n (List.mem_cons_of_mem _ hn)) (Nat.succ.inj hlength)
    unfold parametersForwarded
    simp only [Program.isKind_of_lt (hp.lt_size_of_below harg), hsame, hrest, except_ok_bind,
      except_pure]
    by_cases hkind : p.kindOf? arg = some .name
    · cases same with
      | true =>
        refine ⟨rest, by simp [hkind], ?_⟩
        rw [hrest', Forwarded, Forwarded, List.forall₂_cons]
        exact ⟨fun h => ⟨⟨hkind, hiff.mp rfl⟩, h⟩, fun h => h.2⟩
      | false =>
        refine ⟨false, by simp [hkind], ?_⟩
        rw [Forwarded, List.forall₂_cons]
        constructor
        · intro h
          cases h
        · rintro ⟨⟨-, h⟩, -⟩
          exact hiff.mpr h
    · refine ⟨false, by simp [hkind], ?_⟩
      rw [Forwarded, List.forall₂_cons]
      constructor
      · intro h
        cases h
      · rintro ⟨⟨h, -⟩, -⟩
        exact absurd h hkind

theorem below_child {n c : Handle} (hn : p.Below top n) (hc : c ∈ p.childrenOf n) :
    p.Below top c := hn.child (hp.forest.mem_children_iff.mp hc)

theorem argumentsMatch_iff {fn call : Handle} (hfn : p.Below top fn)
    (hkind : p.kindOf? fn = some .function) (hcall : p.Below top call) :
    ∃ b, argumentsMatch p fn call = .ok b ∧ (b = true ↔
      ∃ params callee receiver args, (p.childrenOf fn)[1]? = some params ∧
        p.childrenOf call = callee :: receiver :: args ∧ p.kindOf? receiver = some .this ∧
        Forwarded p (p.childrenOf params) args) := by
  obtain ⟨name, params, body, hchildren, -, -, -⟩ := hp.children_function hfn hkind
  have hparams : p.Below top params := below_child hp hfn (by rw [hchildren]; simp)
  have hsecond : p.secondChild fn = .ok (some params) := by
    simp only [Program.secondChild, Program.childAt,
      Program.children_of_lt (hp.lt_size_of_below hfn), hchildren, except_ok_bind, except_pure]
    rfl
  have hget : (p.childrenOf fn)[1]? = some params := by rw [hchildren]; rfl
  unfold argumentsMatch
  simp only [hsecond, Program.present, except_ok_bind, hget, Option.some.injEq,
    Program.children_of_lt (hp.lt_size_of_below hparams),
    Program.children_of_lt (hp.lt_size_of_below hcall)]
  -- the list of the call has to be long enough for a receiver before anything is compared
  rcases hlist : p.childrenOf call with _ | ⟨callee, _ | ⟨receiver, args⟩⟩
  · exact ⟨false, rfl, by simp⟩
  · exact ⟨false, rfl, by simp⟩
  · have hbelow : ∀ n ∈ callee :: receiver :: args, p.Below top n := by
      intro n hn
      exact below_child hp hcall (by rw [hlist]; exact hn)
    have hreceiver := hbelow receiver (by simp)
    simp only [Program.isKind_of_lt (hp.lt_size_of_below hreceiver), except_ok_bind, except_pure]
    -- the comparison goes through both lists together, so it is reached with equal lengths only
    by_cases hlength : (p.childrenOf params).length = args.length
    · obtain ⟨b, hb, hiff⟩ := parametersForwarded_iff hp
        (fun n hn => below_child hp hparams hn)
        (fun n hn => hbelow n (List.mem_cons_of_mem _ (List.mem_cons_of_mem _ hn))) hlength
      by_cases hthis : p.kindOf? receiver = some .this
      · refine ⟨b, by simp [hlength, hthis, hb], hiff.trans ?_⟩
        constructor
        · intro h
          exact ⟨params, callee, receiver, args, rfl, rfl, hthis, h⟩
        · rintro ⟨_, _, _, _, rfl, h, -, hf⟩
          cases h
          exact hf
      · refine ⟨false, by simp [hlength, hthis], ?_⟩
        constructor
        · intro h
          cases h
        · rintro ⟨_, _, _, _, rfl, h, hr, -⟩
          cases h
          exact absurd hr hthis
    · refine ⟨false, by simp [hlength], ?_⟩
      constructor
      · intro h
        cases h
      · rintro ⟨_, _, _, _, rfl, h, -, hf⟩
        cases h
        exact absurd hf.length_eq hlength

theorem firstChild_call {call : Handle} (hcall : p.Below top call)
    (hkind : p.kindOf? call = some .call) :
    ∃ callee, p.firstChild call = .ok (some callee) ∧ p.Below top callee ∧
      (p.childrenOf call).head? = some callee := by
  obtain ⟨callee, args, hchildren⟩ := hp.children_call hcall hkind
  refine ⟨callee, ?_, below_child hp hcall (by rw [hchildren]; simp), by rw [hchildren]; rfl⟩
  simp only [Program.firstChild, Program.childAt,
    Program.children_of_lt (hp.lt_size_of_below hcall), hchildren, except_ok_bind, except_pure]
  rfl

theorem resultMatches_iff {call parent : Handle} (hcall : p.Below top call)
    (hkind : p.kindOf? call = some .call) (hparent : p.parentOf call = some parent) :
    ∃ b, resultMatches p call = .ok b ∧ (b = true ↔
      ∃ callee type returns, (p.childrenOf call).head? = some callee ∧
        typeOf? p callee = some type ∧ type.returns? = some returns ∧
        (returns.isDefinite = true → ∃ parent, p.parentOf call = some parent ∧
          p.kindOf? parent = some .returnStmt)) := by
  obtain ⟨callee, hfirst, hcallee, hhead⟩ := firstChild_call hp hcall hkind
  obtain ⟨node, hnode, hn⟩ := Program.node_of_lt (hp.lt_size_of_below hcallee)
  have htype : typeOf? p callee = node.type := by
    unfold typeOf?
    rw [hn]
    rfl
  have hplt : parent < p.size := hp.forest.parent_lt_size hparent
  unfold resultMatches
  simp only [hfirst, Program.present, except_ok_bind, hnode, hhead, Option.some.injEq, hparent,
    Program.parent_of_lt (hp.lt_size_of_below hcall), Program.isKind_of_lt hplt, except_pure]
  -- a callee without a known result matches nothing, and a definite result has to be returned
  cases hreturns : node.type.bind (·.returns?) with
  | none =>
    refine ⟨false, rfl, ?_⟩
    constructor
    · intro h
      cases h
    · rintro ⟨_, type, returns, rfl, ht, hr, -⟩
      rw [← htype, ht] at hreturns
      exact absurd hr (by simp [show type.returns? = none from hreturns])
  | some returns =>
    obtain ⟨type, ht, hr⟩ := Option.bind_eq_some_iff.mp hreturns
    by_cases hdefinite : returns.isDefinite = true
    · refine ⟨decide (p.kindOf? parent = some .returnStmt), by simp [hdefinite], ?_⟩
      rw [decide_eq_true_iff]
      constructor
      · intro h
        exact ⟨callee, type, returns, rfl, htype.trans ht, hr, fun _ => ⟨parent, rfl, h⟩⟩
      · rintro ⟨_, type', returns', rfl, ht', hr', h⟩
        rw [htype, ht] at ht'
        cases ht'
        rw [hr] at hr'
        cases hr'
        obtain ⟨_, hp', hk⟩ := h hdefinite
        cases hp'
        exact hk
    · refine ⟨true, by simp [hdefinite], ?_⟩
      refine ⟨fun _ => ⟨callee, type, returns, rfl, htype.trans ht, hr, ?_⟩, fun _ => rfl⟩
      intro h
      exact absurd h hdefinite

theorem nameMatches_iff {call : Handle} (hcall : p.Below top call)
    (hkind : p.kindOf? call = some .call) (r : Registry) (name : QualifiedName) :
    ∃ b, nameMatches p r name call = .ok b ∧ (b = true ↔
      ∃ callee, ∃ called : QualifiedName, (p.childrenOf call).head? = some callee ∧
        p.Spells callee called.names ∧ isSuperclassMethod r name called = true) := by
  obtain ⟨callee, hfirst, hcallee, hhead⟩ := firstChild_call hp hcall hkind
  unfold nameMatches
  simp only [hfirst, Program.qualifiedNameOf, Program.present, except_ok_bind, hhead,
    Option.some.injEq]
  rcases hp.qualifiedName_eq hcallee with ⟨q, hq, heq⟩ | ⟨hnone, heq⟩
  · refine ⟨isSuperclassMethod r name q, by simp only [heq, except_ok_bind, except_pure], ?_⟩
    constructor
    · intro h
      exact ⟨callee, q, rfl, hq, h⟩
    · rintro ⟨_, q', rfl, hq', h⟩
      have hsame := hq.unique hq'
      obtain ⟨ns, _, _⟩ := q
      obtain ⟨ns', _, _⟩ := q'
      simp only at hsame
      subst hsame
      exact h
  · refine ⟨false, by simp only [heq, except_ok_bind, except_pure], ?_⟩
    constructor
    · intro h
      cases h
    · rintro ⟨_, q', rfl, hq', -⟩
      exact absurd hq' (hnone _)

/-- The matcher says yes to exact forwards, and to nothing else. -/
theorem isForward_iff {fn call parent : Handle} (hfn : p.Below top fn)
    (hfunction : p.kindOf? fn = some .function) (hcall : p.Below top call)
    (hkind : p.kindOf? call = some .call) (hparent : p.parentOf call = some parent)
    (r : Registry) (name : QualifiedName) :
    ∃ b, isForward p r fn call name = .ok b ∧ (b = true ↔ ExactForward p r fn call name) := by
  obtain ⟨a, ha, ha'⟩ := argumentsMatch_iff hp hfn hfunction hcall
  obtain ⟨b, hb, hb'⟩ := resultMatches_iff hp hcall hkind hparent
  obtain ⟨c, hc, hc'⟩ := nameMatches_iff hp hcall hkind r name
  unfold isForward
  simp only [ha, hb, hc, except_ok_bind, except_pure]
  refine ⟨a && b && c, ?_, ?_⟩
  · cases a <;> cases b <;> simp
  · rw [Bool.and_eq_true, Bool.and_eq_true, ha', hb', hc']
    exact ⟨fun h => ⟨h.1.1, h.1.2, h.2⟩, fun h => ⟨⟨h.args, h.result⟩, h.target⟩⟩

end

end SuperForward.Forward
