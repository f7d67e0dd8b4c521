/-
  Removing again.

  What removal leaves is a program of scripts. A function of it that is a forward was one
  before, unless statements were taken out of its own body: a body of several statements may
  have a single one left, and then the function may have become a forward. If this happens
  nowhere, a second removal finds nothing and changes nothing.
-/
import SuperForward.Proofs.Forward.Removing

namespace SuperForward

open SuperForward.Program (root Below)

/-! ## Forwards of what remains -/

section Remaining

variable {p : Program} (hp : p.Parsed) {removed : List Handle}
  (hr : p.AreStatements removed)
include hp hr

/-- An exact forward in what remains was one before. -/
theorem Forward.ExactForward.of_without {r : Registry} {fn call : Handle} {name : QualifiedName}
    (h : ExactForward (p.without removed) r fn call name) (hfn : p.Below root fn)
    (hfunction : p.kindOf? fn = some .function) (hcall : p.Below root call)
    (hkind : p.kindOf? call = some .call) : ExactForward p r fn call name := by
  -- functions and calls that remain have all their children, so each condition is about the same
  -- handles
  have hfn_children := hp.childrenOf_remaining hr hfn hfunction (by simp) (by simp) (by simp)
  have hcall_children := hp.childrenOf_remaining hr hcall hkind (by simp) (by simp) (by simp)
  have hbelow {c : Handle} (hc : c ∈ p.childrenOf call) : p.Below root c := below_child hp hcall hc
  refine ⟨?_, ?_, ?_⟩
  · obtain ⟨params, callee, receiver, args, hsecond, hchildren, hreceiver, hforwarded⟩ := h.args
    rw [hfn_children] at hsecond
    rw [hcall_children] at hchildren
    rw [Program.kindOf?_without] at hreceiver
    obtain ⟨own, params', body, hparts, -, hparams_kind, -⟩ := hp.children_function hfn hfunction
    have hparams : p.Below root params :=
      below_child hp hfn (List.mem_of_getElem? hsecond)
    rw [hparts] at hsecond
    obtain rfl : params' = params := Option.some.inj hsecond
    rw [hp.childrenOf_remaining hr hparams hparams_kind (by simp) (by simp) (by simp)] at hforwarded
    refine ⟨params', callee, receiver, args, by rw [hparts]; rfl, hchildren, hreceiver, ?_⟩
    refine Program.forall₂_imp_of_mem ?_ hforwarded
    rintro param hparam arg harg ⟨hname, names, hspells, hspells'⟩
    rw [Program.kindOf?_without] at hname
    refine ⟨hname, names, (hp.spells_remaining_iff hr (below_child hp hparams hparam)).mp hspells,
      (hp.spells_remaining_iff hr (hbelow ?_)).mp hspells'⟩
    rw [hchildren]
    exact List.mem_cons_of_mem _ (List.mem_cons_of_mem _ harg)
  · obtain ⟨callee, type, returns, hhead, htype, hreturns, hdefinite⟩ := h.result
    rw [hcall_children] at hhead
    refine ⟨callee, type, returns, hhead, ?_, hreturns, fun hd => ?_⟩
    · unfold typeOf? at htype ⊢
      rw [Program.nodes_without] at htype
      cases hnode : p.nodes[callee]? with
      | none =>
        rw [hnode] at htype
        cases htype
      | some node =>
        rw [hnode] at htype
        exact htype
    · obtain ⟨parent, hparent, hreturn⟩ := hdefinite hd
      rw [Program.parentOf_without] at hparent
      split at hparent
      · cases hparent
      · rw [Program.kindOf?_without] at hreturn
        exact ⟨parent, hparent, hreturn⟩
  · obtain ⟨callee, called, hhead, hspells, hmethod⟩ := h.target
    rw [hcall_children] at hhead
    have hmem : callee ∈ p.childrenOf call := List.mem_of_mem_head? (by rw [hhead]; rfl)
    exact ⟨callee, called, hhead, (hp.spells_remaining_iff hr (hbelow hmem)).mp hspells, hmethod⟩

end Remaining

namespace Removal

/-- Statements were taken out of the body of a function, and a single one is left there. -/
def Uncovered (p : Program) (removed : List Handle) (fn : Handle) : Prop :=
  ∃ body statement, (p.childrenOf fn).getLast? = some body ∧
    (∃ d ∈ removed, d ∈ p.childrenOf body) ∧ (p.without removed).childrenOf body = [statement]

section Remaining

variable {p : Program} {removed : List Handle}

theorem AssignedIn.of_without {fn assign statement : Handle}
    (h : AssignedIn (p.without removed) fn assign statement) :
    AssignedIn p fn assign statement := by
  have link {n m : Handle} (hn : (p.without removed).parentOf n = some m) :
      p.parentOf n = some m := by
    rw [Program.parentOf_without] at hn
    split at hn
    · cases hn
    · exact hn
  obtain ⟨hfn, hfn_parent, hassign, hassign_parent, hstatement⟩ := h
  rw [Program.kindOf?_without] at hfn hassign hstatement
  exact ⟨hfn, link hfn_parent, hassign, link hassign_parent, hstatement⟩

variable (hp : p.Parsed) (hr : p.AreStatements removed)
include hp hr

theorem AssignedIn.remaining {fn assign statement : Handle} (h : AssignedIn p fn assign statement)
    (hfn : (p.without removed).Below root fn) :
    AssignedIn (p.without removed) fn assign statement := by
  have hassign : assign ∉ removed := by
    intro hmem
    have hkind := hr assign hmem
    rw [h.assign_kind] at hkind
    cases hkind
  refine ⟨?_, ?_, ?_, ?_, ?_⟩
  · rw [Program.kindOf?_without]
    exact h.fn_kind
  · rw [hp.parentOf_remaining hr hfn]
    exact h.fn_parent
  · rw [Program.kindOf?_without]
    exact h.assign_kind
  · rw [Program.parentOf_without, if_neg hassign]
    exact h.assign_parent
  · rw [Program.kindOf?_without]
    exact h.statement_kind

/-- The only call in the body of a function was the only one before, unless statements were
taken out of the body. -/
theorem OnlyCall.of_without {fn call : Handle} (h : OnlyCall (p.without removed) fn call)
    (hfn : p.Below root fn) (hkind : p.kindOf? fn = some .function) :
    OnlyCall p fn call ∨ Uncovered p removed fn := by
  obtain ⟨body, statement, hlast, hbody, hstatement, hcall, hcall_kind⟩ := h
  rw [hp.childrenOf_remaining hr hfn hkind (by simp) (by simp) (by simp)] at hlast
  by_cases htaken : ∃ d ∈ removed, d ∈ p.childrenOf body
  · exact .inr ⟨body, statement, hlast, htaken, hbody⟩
  · left
    have hsame : (p.without removed).childrenOf body = p.childrenOf body := by
      rw [Program.childrenOf_without, List.filter_eq_self]
      intro c hc
      rw [decide_eq_true_iff]
      exact fun hmem => htaken ⟨c, hmem, hc⟩
    rw [hsame] at hbody
    rw [Program.kindOf?_without] at hstatement
    rw [Program.kindOf?_without] at hcall_kind
    have hbelow : p.Below root statement := by
      refine Forward.below_child hp (Forward.below_child hp hfn (List.mem_of_getLast? hlast)) ?_
      rw [hbody]
      exact List.mem_singleton_self _
    refine ⟨body, statement, hlast, hbody, hstatement, ?_, hcall_kind⟩
    rcases hstatement with hk | hk
    · rwa [hp.childrenOf_remaining hr hbelow hk (by simp) (by simp) (by simp)] at hcall
    · rwa [hp.childrenOf_remaining hr hbelow hk (by simp) (by simp) (by simp)] at hcall

/-- A forward in what remains was one before, unless statements were taken out of its body. -/
theorem Forwarder.of_without {r : Registry} {tags : List String} {fn assign statement : Handle}
    {name : QualifiedName} (h : Forwarder (p.without removed) r tags fn assign statement name)
    (hfn : (p.without removed).Below root fn) :
    Forwarder p r tags fn assign statement name ∨ Uncovered p removed fn := by
  have hassigned := h.assigned.of_without
  obtain ⟨call, honly, hforward⟩ := h.forwards
  rcases honly.of_without hp hr hfn.of_without hassigned.fn_kind with honly' | huncovered
  · left
    obtain ⟨hcall, hcall_kind⟩ : p.Below root call ∧ p.kindOf? call = some .call := by
      obtain ⟨body, inner, hlast, hbody, -, hinner, hkind⟩ := honly'
      refine ⟨?_, hkind⟩
      have hbody_below := Forward.below_child hp hfn.of_without (List.mem_of_getLast? hlast)
      refine Forward.below_child hp (Forward.below_child hp hbody_below (c := inner) ?_) ?_
      · rw [hbody]
        exact List.mem_singleton_self _
      · rw [hinner]
        exact List.mem_singleton_self _
    refine ⟨hassigned, ?_, ?_, call, honly',
      hforward.of_without hp hr hfn.of_without hassigned.fn_kind hcall hcall_kind⟩
    · rintro ⟨doc, hdoc, htags⟩
      exact h.unprotected ⟨doc, by rwa [Program.docOf?_without], htags⟩
    · rw [← hp.functionName_remaining hr hfn hassigned.fn_kind]
      exact h.named
  · exact .inr huncovered

end Remaining

/-! ## The second removal -/

section Again

variable {p : Program} (hp : p.Parsed) {r : Registry} {tags : List String} {taken : List Taken}
  (htaken : ∀ t : Taken, t ∈ taken ↔ Removable p r tags root t.fn t.statement t.name)
include hp htaken

/-- Of a name that is left to a single function, no function has been taken out. -/
theorem Removable.of_without {fn statement : Handle} {name : QualifiedName}
    (h : Removable (p.without (taken.map Taken.statement)) r tags root fn statement name) :
    Uncovered p (taken.map Taken.statement) fn := by
  have hr := areStatements_taken htaken
  obtain ⟨assign, hforward⟩ := h.forwarder
  rcases hforward.of_without hp hr h.within with hforward' | huncovered
  swap
  · exact huncovered
  exfalso
  have hfn := h.within.of_without
  -- nothing above the function was taken out
  have hattached {d : Handle} (hd : d ∈ taken.map Taken.statement) : ¬ p.Below d fn := by
    intro hbelow
    refine Program.not_below_of_mem_removed hp.root_parent hd ?_ hbelow h.within
    rintro rfl
    have hkind := hr _ hd
    rw [hp.kindOf?_root] at hkind
    cases hkind
  have hstatement : p.Below statement fn :=
    (Below.here.child hforward'.assigned.assign_parent).child hforward'.assigned.fn_parent
  -- so the function was not taken, although it was a forward: another one had its name
  refine hattached (List.mem_map_of_mem ((htaken ⟨fn, statement, name⟩).mpr
    ⟨hfn, ⟨assign, hforward'⟩, fun g hg hgname => ?_⟩)) hstatement
  by_cases hleft : (p.without (taken.map Taken.statement)).Below root g
  · obtain ⟨⟨a, st, hassigned⟩, hnamed⟩ := hgname
    refine h.alone g hleft ⟨⟨a, st, hassigned.remaining hp hr hleft⟩, ?_⟩
    rw [hp.functionName_remaining hr hleft hassigned.fn_kind]
    exact hnamed
  · -- the other one was taken out, but then it was alone with the name
    obtain ⟨d, hd, hbelow⟩ : ∃ d ∈ taken.map Taken.statement, p.Below d g := by
      by_contra hnone
      exact hleft (hg.without fun d hd hbelow => hnone ⟨d, hd, hbelow⟩)
    obtain ⟨t, ht, rfl⟩ := List.mem_map.mp hd
    have htremovable := (htaken t).mp ht
    obtain ⟨tassign, htforward⟩ := htremovable.forwarder
    obtain ⟨⟨a, st, hassigned⟩, hnamed⟩ := hgname
    have hgt : g = t.fn :=
      htforward.function_eq hp htremovable.within hbelow hassigned.fn_kind
    rw [hgt, htforward.named] at hnamed
    have hname : t.name = name := Option.some.inj (Except.ok.inj hnamed)
    have hfnt : fn = t.fn := by
      refine htremovable.alone fn hfn ⟨⟨assign, statement, hforward'.assigned⟩, ?_⟩
      rw [hname]
      exact hforward'.named
    rw [hgt, hfnt]

end Again

/-- Where nothing is to be removed, removal changes nothing. -/
theorem outcome_process_of_none {p : Program} (hp : p.Parsed) {r : Registry} {tags : List String}
    {start : Handle} (hstart : p.Below root start)
    (hnone : ∀ fn statement name, ¬ Removable p r tags start fn statement name) {s : Removal}
    (hs : LooksAt p r tags s) :
    ∃ s', (process start).outcome s = (.ok [], s') ∧ s'.program = s.program ∧
      notes s' = notes s := by
  have hempty : LooksAt p r tags { s with candidates := .empty } :=
    ⟨hs.program, hs.registry, hs.exclusions⟩
  obtain ⟨s₁, s₂, hout₁, hout₂, hs₂, -, hentries⟩ := outcome_walks hp hstart hempty rfl
  have hnil : s₂.candidates.entries = [] := by
    rw [List.eq_nil_iff_forall_not_mem]
    rintro ⟨name, fn⟩ hmem
    obtain ⟨statement, h⟩ := (hentries name fn).mp hmem
    exact hnone fn statement name h
  refine ⟨{ s₂ with candidates := .empty }, ?_, hs₂.program.trans hs.program.symm, ?_⟩
  · unfold process
    rw [Task.outcome_bind_ok (Task.outcome_modify _ _), Task.outcome_bind_ok hout₁,
      Task.outcome_bind_ok hout₂, Task.outcome_get_bind, hnil, List.mapM_nil]
    rfl
  · have h₁ := Program.leaves_traverse Removal.program leaves_collect start
      { s with candidates := .empty }
    have h₂ := Program.leaves_traverse Removal.program leaves_dropRival start s₁
    rw [hout₁] at h₁
    rw [hout₂] at h₂
    exact h₂.trans h₁

/-- A second removal finds nothing, and leaves the program and the notes as the first one left
them, exactly if no function whose body has lost statements has become a forward that can be
taken out. -/
theorem outcome_process_again (sources : List Source) (types : Handle → Option JsType)
    {p : Program} (hp : p = (Program.ofSources sources).1.withTypes types) {r : Registry}
    {tags : List String} {s : Removal} (hs : LooksAt p r tags s) :
    ∃ (taken : List Taken) (records : List Removed) (s' : Removal) (records' : List Removed)
      (s'' : Removal), (process root).outcome s = (.ok records, s') ∧
      (∀ t : Taken, t ∈ taken ↔ Removable p r tags root t.fn t.statement t.name) ∧
      (process root).outcome s' = (.ok records', s'') ∧
      ((records' = [] ∧ s''.program = s'.program ∧ s''.changedScopes = s'.changedScopes ∧
          s''.deletedFunctions = s'.deletedFunctions) ↔
        ∀ fn statement name, Uncovered p (taken.map Taken.statement) fn →
          ¬ Removable (p.without (taken.map Taken.statement)) r tags root fn statement name) := by
  have hparsed : p.Parsed := hp ▸ Program.parsed_ofSources sources types
  obtain ⟨taken, records, s', hout, htaken, -, -, hs'⟩ :=
    outcome_process_of_parsed hparsed .here hs
  have hparsed' := hparsed.without (areStatements_taken htaken)
  obtain ⟨taken', records', s'', hout', htaken', -, hrecords', hs''⟩ :=
    outcome_process_of_parsed hparsed' .here hs'
  refine ⟨taken, records, s', records', s'', hout, htaken, hout', ?_⟩
  constructor
  · rintro ⟨rfl, -⟩ fn statement name - h
    have hmem := (htaken' ⟨fn, statement, name⟩).mpr h
    have hnil : taken' = [] := List.forall₂_nil_right_iff.mp hrecords'
    rw [hnil] at hmem
    exact absurd hmem List.not_mem_nil
  · intro hcovered
    obtain ⟨t, hout'', hprogram, hnotes⟩ := outcome_process_of_none hparsed' .here
      (fun fn statement name h => hcovered fn statement name (h.of_without hparsed htaken) h) hs'
    rw [hout'] at hout''
    cases hout''
    exact ⟨rfl, hprogram, congrArg Prod.fst hnotes, congrArg Prod.snd hnotes⟩

/-- A script in which the body of a function holds a forward, and then a call that forwards. -/
def nestedScript : Source :=
  ⟨"a.js", "C.prototype.m = function() { B.prototype.k = function() { B.superClass_.k.call(this); }; C.superClass_.m.call(this); };"⟩

/-- The program of this script, where everything is known to be a function without a result. -/
def nestedProgram : Program :=
  (Program.ofSources [nestedScript]).1.withTypes fun _ => some (.function "m" .void false)

theorem outcome_process_again_nestedProgram :
    LooksAt nestedProgram .empty [] (.start nestedProgram .empty []) ∧
    ∃ (taken : List Taken) (records : List Removed) (s' : Removal) (records' : List Removed)
      (s'' : Removal), (process root).outcome (.start nestedProgram .empty []) = (.ok records, s') ∧
      (∀ t : Taken, t ∈ taken ↔
        Removable nestedProgram .empty [] root t.fn t.statement t.name) ∧
      (process root).outcome s' = (.ok records', s'') ∧
      ((records' = [] ∧ s''.program = s'.program ∧ s''.changedScopes = s'.changedScopes ∧
          s''.deletedFunctions = s'.deletedFunctions) ↔
        ∀ fn statement name, Uncovered nestedProgram (taken.map Taken.statement) fn →
          ¬ Removable (nestedProgram.without (taken.map Taken.statement)) .empty [] root fn
            statement name) :=
  ⟨⟨rfl, rfl, rfl⟩, outcome_process_again [nestedScript] _ rfl ⟨rfl, rfl, rfl⟩⟩

/-- The first removal leaves a single call in the body of the outer function, and the second
one takes that function out. -/
theorem removal_again_of_nestedProgram :
    ((process root).outcome (.start nestedProgram .empty [])).1.toOption
        = some [⟨"B.prototype.k", some "a.js", 1, 29, 88⟩] ∧
      ((process root).outcome ((process root).outcome (.start nestedProgram .empty [])).2).1.toOption
        = some [⟨"C.prototype.m", some "a.js", 1, 0, 119⟩] := by
  decide +kernel

end Removal

end SuperForward
