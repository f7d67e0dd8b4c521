/-
  Taking statements out, one after the other.

  The statement of a forward holds no other function assignment, so that no statement that is
  to be taken out hangs below another one. Taking one out leaves everything that is looked at
  for the others, and the order does not matter.
-/
import SuperForward.Proofs.Forward.Selection
import SuperForward.Proofs.Program.Enclosing

namespace SuperForward

open SuperForward.Program (root Below Spells)

/-! ## Nothing hangs below a forward -/

namespace Program

/-- No function hangs below a node. -/
def FunctionFree (p : Program) (n : Handle) : Prop :=
  ∀ m, p.Below n m → p.kindOf? m ≠ some .function

theorem Forest.functionFree {p : Program} (hp : p.Forest) {n : Handle} {kind : NodeKind}
    (hkind : p.kindOf? n = some kind) (hne : kind ≠ .function)
    (hchildren : ∀ c ∈ p.childrenOf n, p.FunctionFree c) : p.FunctionFree n := by
  intro m hm
  rcases hp.eq_or_mem_below hm with rfl | ⟨c, hc, hcm⟩
  · rw [hkind]
    exact fun h => hne (Option.some.inj h)
  · exact hchildren c hc m hcm

namespace Parsed

variable {p : Program} (hp : p.Parsed)
include hp

theorem below_of_mem {n c : Handle} (hn : p.Below root n) (hc : c ∈ p.childrenOf n) :
    p.Below root c := hn.child (hp.forest.mem_children_iff.mp hc)

/-- A chain of accesses has no function in it, if the name that it begins with has nothing
below it. -/
theorem functionFree_of_spells {n : Handle} {names : List String} (h : p.Spells n names)
    (hn : p.Below root n) (hleaf : p.kindOf? n = some .name → p.childrenOf n = []) :
    p.FunctionFree n := by
  induction h with
  | name kind =>
    refine hp.forest.functionFree kind (by simp) ?_
    rw [hleaf kind]
    exact fun c hc => absurd hc List.not_mem_nil
  | this kind =>
    refine hp.forest.functionFree kind (by simp) ?_
    rw [hp.children_this hn kind]
    exact fun c hc => absurd hc List.not_mem_nil
  | @getProp n target _ _ kind _ htarget _ ih =>
    obtain ⟨_, target', -, -, hchildren⟩ := hp.children_getProp hn kind
    refine hp.forest.functionFree kind (by simp) ?_
    intro c hc
    have hct : c = target := by
      rw [hchildren] at hc htarget
      rw [List.mem_singleton.mp hc]
      exact Option.some.inj htarget
    subst hct
    exact ih (hp.below_of_mem hn hc) (hp.children_name hn kind (by simp) (by simp) hc)

/-- An exact forward calls a chain of accesses with `this` and plain names. -/
theorem functionFree_of_forward {r : Registry} {fn call : Handle} {name : QualifiedName}
    (h : Forward.ExactForward p r fn call name) (hcall : p.Below root call)
    (hkind : p.kindOf? call = some .call) : p.FunctionFree call := by
  obtain ⟨params, callee, receiver, args, -, hchildren, hreceiver, hforwarded⟩ := h.args
  obtain ⟨_, called, hcallee, hcalled, -⟩ := h.target
  rw [hchildren] at hcallee
  cases hcallee
  have hleaf {c : Handle} (hc : c ∈ p.childrenOf call) (hname : p.kindOf? c = some .name) :
      p.childrenOf c = [] := hp.children_name hcall hkind (by simp) (by simp) hc hname
  refine hp.forest.functionFree hkind (by simp) ?_
  intro c hc
  have hbelow := hp.below_of_mem hcall hc
  have hc' := hc
  rw [hchildren] at hc'
  rcases List.mem_cons.mp hc' with rfl | hc'
  · exact hp.functionFree_of_spells hcalled hbelow (hleaf hc)
  · rcases List.mem_cons.mp hc' with rfl | hc'
    · exact hp.functionFree_of_spells (.this hreceiver) hbelow (hleaf hc)
    · obtain ⟨param, -, -, names, -, hspells⟩ := Program.forall₂_exists_of_mem hforwarded.flip hc'
      exact hp.functionFree_of_spells hspells hbelow (hleaf hc)

/-- The parameters of an exact forward are plain names. -/
theorem functionFree_of_forwarded {params : Handle} {args : List Handle}
    (h : Forward.Forwarded p (p.childrenOf params) args) (hparams : p.Below root params)
    (hkind : p.kindOf? params = some .paramList) : p.FunctionFree params := by
  refine hp.forest.functionFree hkind (by simp) ?_
  intro c hc
  obtain ⟨arg, -, -, names, hspells, -⟩ := Program.forall₂_exists_of_mem h hc
  exact hp.functionFree_of_spells hspells (hp.below_of_mem hparams hc)
    (hp.children_name hparams hkind (by simp) (by simp) hc)

end Parsed

end Program

namespace QualifiedName

/-- A name that can be split at an interior segment has at least three segments. -/
theorem three_le_of_splitOn {q : QualifiedName} {access : Access}
    {parts : QualifiedName × QualifiedName} (h : q.splitOn access = some parts) :
    3 ≤ q.names.length := by
  unfold splitOn at h
  split at h
  · next i hpositions =>
    have hi : i ∈ q.interiorPositions access := by rw [hpositions]; exact List.mem_singleton_self i
    unfold interiorPositions at hi
    rw [List.mem_filter] at hi
    have hbounds := hi.2
    simp only [Bool.and_eq_true, decide_eq_true_eq] at hbounds
    obtain ⟨⟨-, hpos⟩, hlt⟩ := hbounds
    unfold length at hlt
    omega
  · cases h

end QualifiedName

/-- The method of a forward has a class and a prototype before it. -/
theorem Forward.ExactForward.three_le_length {p : Program} {r : Registry} {fn call : Handle}
    {name : QualifiedName} (h : Forward.ExactForward p r fn call name) :
    3 ≤ name.names.length := by
  obtain ⟨_, called, -, -, hmethod⟩ := h.target
  unfold Forward.isSuperclassMethod at hmethod
  split at hmethod
  · cases hmethod
  · next hsplit => exact QualifiedName.three_le_of_splitOn hsplit

namespace Removal

section

variable {p : Program} (hp : p.Parsed)
include hp

/-- The nodes of an assignment that is a whole statement hang where its function does. -/
theorem AssignedIn.below {fn assign statement : Handle} (h : AssignedIn p fn assign statement)
    (hfn : p.Below root fn) : p.Below root assign ∧ p.Below root statement := by
  have hup {n above : Handle} (hn : p.Below root n) (hparent : p.parentOf n = some above) :
      p.Below root above := by
    cases hn with
    | here => rw [hp.root_parent] at hparent; cases hparent
    | child up link =>
      rw [link] at hparent
      cases hparent
      exact up
  have hassign := hup hfn h.fn_parent
  exact ⟨hassign, hup hassign h.assign_parent⟩

section Parts

variable {r : Registry} {tags : List String} {fn assign statement : Handle}
  {name : QualifiedName} (h : Forwarder p r tags fn assign statement name)
  (hfn : p.Below root fn)
include h hfn

/-- The parts of the statement of a forward. -/
theorem Forwarder.parts :
    ∃ target, p.childrenOf statement = [assign] ∧ p.childrenOf assign = [target, fn] ∧
      p.Spells target name.names := by
  obtain ⟨-, hstatement⟩ := h.assigned.below hp hfn
  obtain ⟨c, hc⟩ := hp.children_exprResult hstatement h.assigned.statement_kind
  have hassign := hp.forest.mem_children_iff.mpr h.assigned.assign_parent
  rw [hc, List.mem_singleton] at hassign
  subst hassign
  obtain ⟨name?, hname, hlong⟩ := hp.functionName_ok hfn h.assigned.fn_kind
  have hsame : name? = some name := by
    rw [h.named] at hname
    exact (Except.ok.inj hname).symm
  subst hsame
  obtain ⟨call, -, hforward⟩ := h.forwards
  rcases hlong name rfl with hshort | ⟨assign', target, hparent, -, hchildren, hspells⟩
  · have := hforward.three_le_length
    omega
  · rw [h.assigned.fn_parent] at hparent
    cases hparent
    exact ⟨target, hc, hchildren, hspells⟩

/-- No function hangs below that of a forward. -/
theorem Forwarder.functionFree : ∀ c ∈ p.childrenOf fn, p.FunctionFree c := by
  obtain ⟨call, ⟨body, inner, hlast, hinner, hinner_kind, hcall, hcall_kind⟩, hforward⟩ := h.forwards
  obtain ⟨params, _, _, args, hsecond, -, -, hforwarded⟩ := hforward.args
  obtain ⟨own, params', body', hparts, hown_kind, hparams_kind, hbody_kind⟩ :=
    hp.children_function hfn h.assigned.fn_kind
  have hparams' : params' = params := by
    rw [hparts] at hsecond
    exact Option.some.inj hsecond
  have hbody' : body' = body := by
    rw [hparts] at hlast
    exact Option.some.inj hlast
  subst hparams' hbody'
  intro c hc
  have hbelow := hp.below_of_mem hfn hc
  have hc' := hc
  rw [hparts] at hc'
  rcases List.mem_cons.mp hc' with rfl | hc'
  · refine hp.forest.functionFree hown_kind (by simp) ?_
    rw [hp.children_name hfn h.assigned.fn_kind (by simp) (by simp) hc hown_kind]
    exact fun c hc => absurd hc List.not_mem_nil
  · rcases List.mem_cons.mp hc' with rfl | hc'
    · exact hp.functionFree_of_forwarded hforwarded hbelow hparams_kind
    · obtain rfl := List.mem_singleton.mp hc'
      -- the body: one statement with the call and nothing else
      have hinner_mem : inner ∈ p.childrenOf c := by rw [hinner]; simp
      have hcall_mem : call ∈ p.childrenOf inner := by rw [hcall]; simp
      have hfree := hp.functionFree_of_forward hforward
        (hp.below_of_mem (hp.below_of_mem hbelow hinner_mem) hcall_mem) hcall_kind
      have hinner_free : p.FunctionFree inner := by
        have honly : ∀ d ∈ p.childrenOf inner, p.FunctionFree d := by
          rw [hcall]
          intro d hd
          rw [List.mem_singleton.mp hd]
          exact hfree
        rcases hinner_kind with hk | hk
        · exact hp.forest.functionFree hk (by simp) honly
        · exact hp.forest.functionFree hk (by simp) honly
      refine hp.forest.functionFree hbody_kind (by simp) ?_
      rw [hinner]
      intro d hd
      rw [List.mem_singleton.mp hd]
      exact hinner_free

/-- The statement of a forward has no other function in it. -/
theorem Forwarder.function_eq {m : Handle} (hm : p.Below statement m)
    (hkind : p.kindOf? m = some .function) : m = fn := by
  obtain ⟨hassign, -⟩ := h.assigned.below hp hfn
  obtain ⟨target, hchildren, hassigned, hspells⟩ := h.parts hp hfn
  have hsame {n : Handle} {kind : NodeKind} (hn : p.kindOf? n = some kind) (hmn : m = n) :
      kind = .function := by
    rw [hmn, hn] at hkind
    exact Option.some.inj hkind
  rcases hp.forest.eq_or_mem_below hm with hmn | ⟨c, hc, hcm⟩
  · cases hsame h.assigned.statement_kind hmn
  rw [hchildren, List.mem_singleton] at hc
  subst hc
  rcases hp.forest.eq_or_mem_below hcm with hmn | ⟨d, hd, hdm⟩
  · cases hsame h.assigned.assign_kind hmn
  have hd' := hd
  rw [hassigned] at hd'
  rcases List.mem_cons.mp hd' with rfl | hd'
  · have hleaf := hp.children_name hassign h.assigned.assign_kind (by simp) (by simp) hd
    exact absurd hkind
      (hp.functionFree_of_spells hspells (hp.below_of_mem hassign hd) hleaf m hdm)
  · obtain rfl := List.mem_singleton.mp hd'
    rcases hp.forest.eq_or_mem_below hdm with hmn | ⟨e, he, hem⟩
    · exact hmn
    · exact absurd hkind (h.functionFree hp hfn e he m hem)

/-- No other statement that assigns a function hangs below the statement of a forward. -/
theorem Forwarder.eq_of_below {fn' assign' statement' : Handle}
    (h' : AssignedIn p fn' assign' statement') (hbelow : p.Below statement statement') :
    statement' = statement := by
  have hfn' : fn' = fn := h.function_eq hp hfn
    ((hbelow.child h'.assign_parent).child h'.fn_parent) h'.fn_kind
  subst hfn'
  exact (h.assigned.unique h').2.symm

end Parts

end

/-! ## Taking one statement out -/

section

variable {p : Program} (hp : p.Parsed) {r : Registry} {tags : List String}
include hp

/-- The path of the script around a node does not depend on what is taken out elsewhere. -/
theorem scriptPath_without {done : List Handle} {n : Handle} (hn : n < p.size)
    (hclear : ∀ d ∈ done, ¬ p.Below d n) :
    ∃ path, p.scriptPath n = .ok path ∧ (p.without done).scriptPath n = .ok path := by
  have text {m : Handle} (hm : m < p.size) :
      ∃ text, p.text m = .ok text ∧ (p.without done).text m = .ok text := by
    obtain ⟨node, hnode, hm'⟩ := Program.node_of_lt hm
    refine ⟨node.text, by simp only [Program.text, hnode, except_ok_bind, except_pure], ?_⟩
    have hnode' := Program.node_without done hm'
    simp only [Program.text, hnode', except_ok_bind, except_pure]
  have hn' : n < (p.without done).size := by rwa [Program.size_without]
  obtain ⟨above, habove, hlt, habove'⟩ := hp.forest.enclosing_without done hn hclear [.script]
  unfold Program.scriptPath
  rw [Program.isKind_of_lt hn, Program.isKind_of_lt hn', Program.kindOf?_without, habove, habove']
  by_cases hkind : p.kindOf? n = some .script
  · obtain ⟨path, hpath, hpath'⟩ := text hn
    refine ⟨some path, ?_, ?_⟩
    · simp only [hkind, decide_true, except_ok_bind, if_true, hpath, except_pure]
    · simp only [hkind, decide_true, except_ok_bind, if_true, hpath', except_pure]
  · cases above with
    | none => exact ⟨none, by simp [hkind], by simp [hkind]⟩
    | some m =>
      obtain ⟨path, hpath, hpath'⟩ := text (hlt m rfl)
      exact ⟨some path, by simp [hkind, hpath], by simp [hkind, hpath']⟩

end

/-! ## Notes -/

theorem outcome_ask_bind {α β : Type} {q : Program → Except Fault α} {s : Removal} {a : α}
    (h : q s.program = .ok a) (f : α → Task Removal β) :
    (ask q >>= f).outcome s = (f a).outcome s := by
  refine Task.outcome_bind_ok ?_
  unfold ask
  rw [Task.outcome_get_bind, Task.outcome_ofExcept, h]

theorem outcome_ask_bind_error {α β : Type} {q : Program → Except Fault α} {s : Removal}
    {fault : Fault} (h : q s.program = .error fault) (f : α → Task Removal β) :
    (ask q >>= f).outcome s = (.error fault, s) := by
  refine Task.outcome_bind_error ?_
  unfold ask
  rw [Task.outcome_get_bind, Task.outcome_ofExcept, h]

theorem outcome_edit {t : Task Program Unit} {s : Removal} {q : Program}
    (h : t.outcome s.program = (.ok (), q)) :
    (edit t).outcome s = (.ok (), { s with program := q }) := by
  unfold edit
  rw [Task.outcome_get_bind, h]
  rfl

/-- What removal notes down besides its candidates and its log. -/
def notes (s : Removal) : List Handle × List Handle := (s.changedScopes, s.deletedFunctions)

theorem leaves_collect (n : Handle) (parent : Option Handle) :
    Task.Leaves notes (collect n parent) := by
  refine .get_bind fun s => .bind (Task.leaves_ofExcept _) fun name? => ?_
  cases name? with
  | none => exact Task.leaves_pure ()
  | some name => exact .bind (Task.leaves_modify fun _ => rfl) fun _ =>
      Task.leaves_modify fun _ => rfl

theorem leaves_dropRival (n : Handle) (parent : Option Handle) :
    Task.Leaves notes (dropRival n parent) := by
  refine .get_bind fun s => .bind (Task.leaves_ofExcept _) fun name? => ?_
  cases name? with
  | none => exact Task.leaves_pure ()
  | some name => exact .bind (Task.leaves_modify fun _ => rfl) fun _ =>
      Task.leaves_modify fun _ => rfl

/-- The notes on deleted functions and changed scopes grew at their ends. -/
structure Noted (s s' : Removal) (functions scopes : List Handle) : Prop where
  deleted : s'.deletedFunctions = s.deletedFunctions ++ functions
  changed : s'.changedScopes = s.changedScopes ++ scopes

theorem Noted.refl (s : Removal) : Noted s s [] [] :=
  ⟨(List.append_nil _).symm, (List.append_nil _).symm⟩

theorem Noted.trans {s₁ s₂ s₃ : Removal} {fs gs as bs : List Handle} (h : Noted s₁ s₂ fs as)
    (h' : Noted s₂ s₃ gs bs) : Noted s₁ s₃ (fs ++ gs) (as ++ bs) where
  deleted := by rw [h'.deleted, h.deleted, List.append_assoc]
  changed := by rw [h'.changed, h.changed, List.append_assoc]

/-- The sorts of nodes that are scopes. -/
def scopeKinds : List NodeKind := [.function, .script, .root]

theorem scopeOf_def (p : Program) (n : Handle) : scopeOf p n = do
    if scopeKinds.contains (← p.kind n) then return n
    return (← p.enclosing n scopeKinds).getD root := rfl

/-- The functions of a subtree are those of its nodes that are functions. -/
theorem functionsOf_eq {p : Program} (hp : p.Forest) {n : Handle} (hn : n < p.size) :
    functionsOf p n
      = .ok ((p.preOrder n).filter fun m => decide (p.kindOf? m = some .function)) := by
  have hfilter : ∀ ns : List Handle, (∀ m ∈ ns, m < p.size) → ∀ acc,
      ns.filterAuxM (p.isKind .function) acc = .ok
        ((ns.filter fun m => decide (p.kindOf? m = some .function)).reverse ++ acc) := by
    intro ns
    induction ns with
    | nil => exact fun _ acc => rfl
    | cons m ns ih =>
      intro hns acc
      simp only [List.filterAuxM, Program.isKind_of_lt (hns m (List.mem_cons_self ..)),
        except_ok_bind]
      rw [ih (fun k hk => hns k (List.mem_cons_of_mem _ hk))]
      by_cases hm : p.kindOf? m = some .function
      · simp [hm]
      · simp [hm]
  unfold functionsOf List.filterM
  simp only [hp.subtree_eq hn, except_ok_bind, except_pure,
    hfilter (p.preOrder n) (fun m hm => (hp.mem_preOrder_iff.mp hm).lt_size hn) [],
    List.append_nil, List.reverse_reverse]

/-- The scope of a parent is the nearest scope above its child. -/
theorem scopeOf_eq {p : Program} (hp : p.Forest) {n parent scope : Handle}
    (hparent : p.parentOf n = some parent) (h : p.Nearest scopeKinds n scope) :
    scopeOf p parent = .ok scope := by
  have hlt := hp.parent_lt_size hparent
  obtain ⟨k, hk, hkind⟩ := Program.kind_of_lt hlt
  rw [scopeOf_def]
  simp only [hk, except_ok_bind]
  rcases (hp.nearest_iff hparent).mp h with ⟨rfl, hsort⟩ | ⟨hsort, hnearest⟩
  · exact if_pos ((Program.isOneOf_iff hkind).mp hsort)
  · rw [if_neg (mt (Program.isOneOf_iff hkind).mpr hsort)]
    obtain ⟨above?, habove, hiff⟩ := hp.enclosing_eq scopeKinds hlt
    rw [habove, (hiff scope).mpr hnearest]
    rfl

/-- The scope of a node does not depend on what is taken out elsewhere. -/
theorem scopeOf_without {p : Program} (hp : p.Forest) {removed : List Handle} {n : Handle}
    (hn : n < p.size) (hclear : ∀ d ∈ removed, ¬ p.Below d n) :
    scopeOf (p.without removed) n = scopeOf p n := by
  have hn' : n < (p.without removed).size := by rwa [Program.size_without]
  obtain ⟨k, hk, hkind⟩ := Program.kind_of_lt hn
  obtain ⟨k', hk', hkind'⟩ := Program.kind_of_lt hn'
  rw [Program.kindOf?_without, hkind] at hkind'
  obtain rfl := Option.some.inj hkind'
  obtain ⟨above, habove, -, habove'⟩ := hp.enclosing_without removed hn hclear scopeKinds
  rw [scopeOf_def, scopeOf_def]
  simp only [hk, hk', except_ok_bind, habove, habove']

section Notes

variable {p : Program} {r : Registry} {tags : List String} {s : Removal}
  (hs : LooksAt p r tags s)
include hs

theorem outcome_note (level : Log.Level) (text : String) :
    ∃ s', (note level text).outcome s = (.ok (), s') ∧ LooksAt p r tags s' ∧ Noted s s' [] [] :=
  ⟨_, rfl, ⟨hs.program, hs.registry, hs.exclusions⟩, (List.append_nil _).symm,
    (List.append_nil _).symm⟩

/-- The functions of a subtree are noted, and nothing else changes. -/
theorem outcome_noteDeleted (hp : p.Forest) {n : Handle} (hn : n < p.size) :
    ∃ s', (noteDeleted n).outcome s = (.ok (), s') ∧ LooksAt p r tags s' ∧
      Noted s s' ((p.preOrder n).filter fun m => decide (p.kindOf? m = some .function)) [] := by
  unfold noteDeleted
  rw [outcome_ask_bind (q := (functionsOf · n)) (by rw [hs.program]; exact functionsOf_eq hp hn),
    Task.outcome_modify]
  exact ⟨_, rfl, ⟨hs.program, hs.registry, hs.exclusions⟩, rfl, (List.append_nil _).symm⟩

/-- The scope of a node is noted, and nothing else changes. -/
theorem outcome_noteChange {n scope : Handle} (hscope : scopeOf p n = .ok scope)
    (hlt : scope < p.size) :
    ∃ s', (noteChange n).outcome s = (.ok (), s') ∧ LooksAt p r tags s' ∧
      Noted s s' [] [scope] := by
  obtain ⟨kind, hkind, -⟩ := Program.kind_of_lt hlt
  unfold noteChange
  rw [outcome_ask_bind (q := (scopeOf · n)) (by rw [hs.program]; exact hscope),
    outcome_ask_bind (q := (·.kind scope)) (by rw [hs.program]; exact hkind)]
  exact ⟨_, rfl, ⟨hs.program, hs.registry, hs.exclusions⟩, (List.append_nil _).symm, rfl⟩

end Notes

section TakeOut

variable {p : Program} (hp : p.Parsed) {r : Registry} {tags : List String}
  {fn assign statement : Handle} {name : QualifiedName}
  (h : Forwarder p r tags fn assign statement name) (hfn : p.Below root fn)
  {done : List Handle} (hclear : ∀ d ∈ done, ¬ p.Below d fn)
include hp h hfn hclear

/-- The statement of a forward is found, also when others have been taken out. -/
theorem Forwarder.statementOf_eq : statementOf (p.without done) name fn = .ok statement := by
  obtain ⟨hassign, hstatement⟩ := h.assigned.below hp hfn
  have hkeep_fn : fn ∉ done := fun hmem => hclear fn hmem .here
  have hkeep_assign : assign ∉ done :=
    fun hmem => hclear assign hmem (Below.here.child h.assigned.fn_parent)
  have hlt {n : Handle} (hn : p.Below root n) : n < (p.without done).size := by
    rw [Program.size_without]
    exact hp.lt_size_of_below hn
  have hattached : ∃ b : Bool, (p.without done).isAttached statement = .ok b ∧ b = true := by
    obtain ⟨b, hb, hiff⟩ := (hp.forest.without done).isAttached_eq (hlt hstatement)
    refine ⟨b, hb, hiff.mpr (hstatement.without fun d hd hbelow => hclear d hd ?_)⟩
    exact (hbelow.child h.assigned.assign_parent).child h.assigned.fn_parent
  obtain ⟨b, hb, rfl⟩ := hattached
  unfold statementOf Program.grandparent
  simp only [Program.parent_of_lt (hlt hfn), Program.parent_of_lt (hlt hassign),
    Program.parentOf_without, if_neg hkeep_fn, if_neg hkeep_assign, h.assigned.fn_parent,
    h.assigned.assign_parent, except_ok_bind, Program.isKind_of_lt (hlt hstatement),
    Program.kindOf?_without, h.assigned.statement_kind, hb]
  rfl

/-- What is said of the statement of a forward is said of the whole program. -/
theorem Forwarder.describe_eq : ∃ record, describe p name statement = .ok record ∧
    describe (p.without done) name statement = .ok record := by
  obtain ⟨hassign, hstatement⟩ := h.assigned.below hp hfn
  have hkeep_assign : assign ∉ done :=
    fun hmem => hclear assign hmem (Below.here.child h.assigned.fn_parent)
  obtain ⟨-, hchildren, -, -⟩ := h.parts hp hfn
  obtain ⟨node, hnode, hn⟩ := Program.node_of_lt (hp.lt_size_of_below hstatement)
  obtain ⟨inner, hinner, hi⟩ := Program.node_of_lt (hp.lt_size_of_below hassign)
  obtain ⟨path, hpath, hpath'⟩ := scriptPath_without hp (hp.lt_size_of_below hstatement)
    fun d hd hbelow => hclear d hd
      ((hbelow.child h.assigned.assign_parent).child h.assigned.fn_parent)
  have hhead : node.children = [assign] := by
    rw [← hchildren]
    unfold Program.childrenOf
    rw [hn]
    rfl
  have hnode' := Program.node_without done hn
  have hinner' := Program.node_without done hi
  have hfilter : [assign].filter (· ∉ done) = [assign] := by
    rw [List.filter_cons_of_pos (by simpa using hkeep_assign), List.filter_nil]
  unfold describe
  simp only [hnode, hnode', hhead, hfilter, List.head?_cons, Program.present, except_ok_bind,
    hinner, hinner', hpath, hpath', except_pure]
  exact ⟨_, rfl, rfl⟩

/-- The function of a forward is the only one below its statement, also when other statements
have been taken out, and this one. -/
theorem Forwarder.functions_eq :
    ((p.without (done ++ [statement])).preOrder statement).filter
      (fun m => decide ((p.without (done ++ [statement])).kindOf? m = some .function)) = [fn] := by
  have hq := hp.forest.without (done ++ [statement])
  have hne {n : Handle} {kind : NodeKind} (hn : p.kindOf? n = some kind)
      (hkind : kind ≠ .exprResult) : n ≠ statement := by
    rintro rfl
    rw [h.assigned.statement_kind] at hn
    exact hkind (Option.some.inj hn).symm
  -- the links between the statement and its function are not cut by what is taken out
  have hkeep {n : Handle} (hn : p.Below n fn) (hs : n ≠ statement) :
      n ∉ done ++ [statement] := by
    intro hmem
    rcases List.mem_append.mp hmem with hmem | hmem
    · exact hclear n hmem hn
    · exact hs (List.mem_singleton.mp hmem)
  have hbelow : (p.without (done ++ [statement])).Below statement fn := by
    refine (Below.here.child (m := statement) (c := assign) ?_).child ?_
    · rw [Program.parentOf_without, if_neg (hkeep (Below.here.child h.assigned.fn_parent)
        (hne h.assigned.assign_kind (by simp)))]
      exact h.assigned.assign_parent
    · rw [Program.parentOf_without, if_neg (hkeep .here (hne h.assigned.fn_kind (by simp)))]
      exact h.assigned.fn_parent
  have honly : ∀ m, m ∈ ((p.without (done ++ [statement])).preOrder statement).filter
      (fun m => decide ((p.without (done ++ [statement])).kindOf? m = some .function)) ↔
        m ∈ [fn] := by
    intro m
    rw [List.mem_filter, hq.mem_preOrder_iff, decide_eq_true_iff, Program.kindOf?_without,
      List.mem_singleton]
    constructor
    · rintro ⟨hm, hkind⟩
      exact h.function_eq hp hfn hm.of_without hkind
    · rintro rfl
      exact ⟨hbelow, h.assigned.fn_kind⟩
  have hnodup := ((hq.preOrder_perm statement).nodup_iff.mpr (hq.nodup_postOrder statement)).filter
    fun m => decide ((p.without (done ++ [statement])).kindOf? m = some .function)
  exact List.perm_singleton.mp ((List.perm_ext_iff_of_nodup hnodup (List.nodup_singleton fn)).mpr honly)

/-- Taking out the statement of a forward gives what is known of it, and takes exactly this
statement out of what is left. The function is noted as deleted, and the nearest function or
script above the statement as changed. -/
theorem Forwarder.outcome_takeOut {s : Removal} (hs : LooksAt (p.without done) r tags s) :
    ∃ record scope s', (takeOut name fn).outcome s = (.ok record, s') ∧
      describe p name statement = .ok record ∧
      LooksAt (p.without (done ++ [statement])) r tags s' ∧ Noted s s' [fn] [scope] ∧
      p.Nearest [.function, .script] statement scope := by
  obtain ⟨hassign, hstatement⟩ := h.assigned.below hp hfn
  obtain ⟨record, hrecord, hrecord'⟩ := h.describe_eq hp hfn hclear
  have hkeep : statement ∉ done := fun hmem =>
    hclear statement hmem ((Below.here.child h.assigned.assign_parent).child h.assigned.fn_parent)
  have hroot : statement ≠ root := by
    rintro rfl
    have hkind := hp.kindOf?_root
    rw [h.assigned.statement_kind] at hkind
    cases hkind
  -- the statement hangs somewhere, and can be taken off there
  obtain ⟨parent, hparent⟩ : ∃ parent, p.parentOf statement = some parent := by
    cases hstatement with
    | here => exact absurd rfl hroot
    | child _ link => exact ⟨_, link⟩
  have hparent' : (p.without done).parentOf statement = some parent := by
    rw [Program.parentOf_without, if_neg hkeep]
    exact hparent
  have hstatement_lt : statement < (p.without done).size := by
    rw [Program.size_without]
    exact hp.lt_size_of_below hstatement
  have hdetach := (hp.forest.without done).detach_eq hparent'
  rw [Program.without_without] at hdetach
  have hq := hp.forest.without (done ++ [statement])
  have hstatement_lt' : statement < (p.without (done ++ [statement])).size := by
    rw [Program.size_without]
    exact hp.lt_size_of_below hstatement
  -- the scope is above the parent, where nothing has been taken out
  obtain ⟨scope, hnearest, hscope⟩ := hp.exists_scope hstatement hroot
    (by rw [h.assigned.statement_kind]; simp)
  have hscope' : scopeOf (p.without (done ++ [statement])) parent = .ok scope := by
    rw [scopeOf_without hp.forest (hp.forest.parent_lt_size hparent) fun d hd hbelow => ?_]
    · exact scopeOf_eq hp.forest hparent hscope
    · rcases List.mem_append.mp hd with hd | hd
      · exact hclear d hd
          (((hbelow.child hparent).child h.assigned.assign_parent).child h.assigned.fn_parent)
      · rw [List.mem_singleton.mp hd] at hbelow
        exact hp.forest.parent_above hparent hbelow
  have hscope_lt : scope < (p.without (done ++ [statement])).size := by
    rw [Program.size_without]
    exact hp.lt_size_of_below (hp.below_root_of_above hstatement hscope.below)
  have hedited : LooksAt (p.without (done ++ [statement])) r tags
      { s with program := p.without (done ++ [statement]) } := ⟨rfl, hs.registry, hs.exclusions⟩
  obtain ⟨s₁, hout₁, hs₁, hnoted₁⟩ := outcome_noteDeleted hedited hq hstatement_lt'
  obtain ⟨s₂, hout₂, hs₂, hnoted₂⟩ := outcome_noteChange hs₁ hscope' hscope_lt
  obtain ⟨s₃, hout₃, hs₃, hnoted₃⟩ := outcome_note hs₂ .info ("Removed super forward "
    ++ toString name ++ " (" ++ record.path.getD "None" ++ ":" ++ toString record.line ++ ")")
  rw [h.functions_eq hp hfn hclear] at hnoted₁
  have hnoted := (hnoted₁.trans hnoted₂).trans hnoted₃
  refine ⟨record, scope, s₃, ?_, hrecord, hs₃, ⟨hnoted.deleted, hnoted.changed⟩, hnearest⟩
  unfold takeOut
  rw [outcome_ask_bind (q := (statementOf · name fn))
      (by rw [hs.program]; exact h.statementOf_eq hp hfn hclear),
    outcome_ask_bind (q := (describe · name statement)) (by rw [hs.program]; exact hrecord'),
    outcome_ask_bind (a := parent) (by
      simp only [hs.program, Program.parent_of_lt hstatement_lt, hparent', Program.present,
        except_ok_bind]),
    Task.outcome_bind_ok (outcome_edit (by rw [hs.program]; exact hdetach)),
    Task.outcome_bind_ok hout₁, Task.outcome_bind_ok hout₂, Task.outcome_bind_ok hout₃]
  rfl

end TakeOut

end Removal

end SuperForward
