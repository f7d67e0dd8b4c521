/-
  What a renumbering leaves as it is when a program is typed: the same functions are declared
  with the same names, documentation and inferred results, and the same links are asked for.
-/
import SuperForward.Proofs.Program.Renumbering
import SuperForward.Proofs.Types.Announcing

namespace SuperForward

open SuperForward.Program (root Below Renumbering)

/-- The declaration with another number for its function. -/
def Declaration.renumber (f : Handle → Handle) (d : Declaration) : Declaration :=
  { d with fn := f d.fn }

namespace Typing

/-! ## Returned values -/

/-- In the node, or below it and outside of further functions, a value is returned. -/
inductive Returns (p : Program) : Handle → Prop
  | here {n : Handle} (kind : p.kindOf? n = some .returnStmt) (value : p.childrenOf n ≠ []) :
      Returns p n
  | inside {n c : Handle} (kind : p.kindOf? n ≠ some .function) (hc : c ∈ p.childrenOf n)
      (returns : Returns p c) : Returns p n

/-- A value is returned in a node that returns one, or else below a node that is no function. -/
theorem returns_iff {p : Program} {n : Handle} : Returns p n ↔
    (p.kindOf? n = some .returnStmt ∧ p.childrenOf n ≠ []) ∨
      p.kindOf? n ≠ some .function ∧ ∃ c ∈ p.childrenOf n, Returns p c := by
  constructor
  · intro h
    cases h with
    | here kind value => exact .inl ⟨kind, value⟩
    | inside kind hc returns => exact .inr ⟨kind, _, hc, returns⟩
  · rintro (⟨kind, value⟩ | ⟨kind, c, hc, returns⟩)
    · exact .here kind value
    · exact .inside kind hc returns

/-- The search for returned values has steps enough if it may visit every node once. -/
theorem returnsValueWithin_iff {p : Program} (hp : p.Forest) {steps : Nat} {ns : List Handle}
    (hns : ∀ n ∈ ns, n < p.size)
    (hsteps : (ns.map fun n => (p.postOrder n).length).sum ≤ steps) :
    ∃ b, returnsValueWithin p steps ns = .ok b ∧ (b = true ↔ ∃ n ∈ ns, Returns p n) := by
  have hlength (n : Handle) : (p.postOrder n).length
      = ((p.childrenOf n).map fun c => (p.postOrder c).length).sum + 1 := by
    rw [hp.postOrder_eq, List.length_append, List.length_flatMap]
    rfl
  -- one node is searched with each step, and the nodes below it are put in front of the others
  induction steps generalizing ns with
  | zero =>
    cases ns with
    | nil => exact ⟨false, rfl, by simp⟩
    | cons n ns =>
      rw [List.map_cons, List.sum_cons, hlength] at hsteps
      omega
  | succ steps ih =>
    cases ns with
    | nil => exact ⟨false, rfl, by simp⟩
    | cons n ns =>
      obtain ⟨hn, hns⟩ := List.forall_mem_cons.mp hns
      obtain ⟨node, hnode, -⟩ := Program.node_of_lt hn
      obtain ⟨hkind, -, hchildren, -, -⟩ := Program.node_fields hnode
      rw [List.map_cons, List.sum_cons, hlength] at hsteps
      have hreturns := @returns_iff p n
      simp only [hkind, hchildren, Option.some.injEq, ne_eq] at hreturns
      simp only [returnsValueWithin, hnode, except_ok_bind, List.exists_mem_cons_iff, hreturns]
      by_cases hhere : node.kind = .returnStmt ∧ node.children ≠ []
      · rw [if_pos (by simpa using hhere)]
        exact ⟨true, rfl, fun _ => .inl (.inl hhere), fun _ => rfl⟩
      rw [if_neg (by simpa using hhere)]
      by_cases hfn : node.kind = .function
      · rw [if_pos (by simpa using hfn)]
        obtain ⟨b, hb, hiff⟩ := ih hns (by omega)
        refine ⟨b, hb, hiff.trans ?_⟩
        simp [hfn]
      · rw [if_neg (by simpa using hfn)]
        obtain ⟨b, hb, hiff⟩ := @ih (node.children ++ ns)
          (List.forall_mem_append.mpr ⟨fun m hm => hp.lt_size_of_mem (hchildren ▸ hm), hns⟩) (by
            rw [List.map_append, List.sum_append, ← hchildren]
            omega)
        refine ⟨b, hb, hiff.trans ?_⟩
        rw [or_iff_right hhere, and_iff_right hfn]
        simp only [List.mem_append, or_and_right, exists_or]

/-- Anything is inferred of a function exactly if it returns a value somewhere in its body, and
nothing otherwise. -/
theorem inferred_eq {p : Program} (hp : p.Parsed) {fn : Handle} (hfn : p.Below root fn) :
    (inferred p fn = .unknown ∧ ∃ body, (p.childrenOf fn).getLast? = some body ∧
        ∃ c ∈ p.childrenOf body, Returns p c) ∨
      (inferred p fn = .void ∧ ¬ ∃ body, (p.childrenOf fn).getLast? = some body ∧
        ∃ c ∈ p.childrenOf body, Returns p c) := by
  unfold inferred inferredResult
  simp only [Program.lastChild, Program.children_of_lt (hp.lt_size_of_below hfn), except_ok_bind,
    except_pure]
  cases hlast : (p.childrenOf fn).getLast? with
  | none =>
    right
    refine ⟨rfl, ?_⟩
    rintro ⟨body, h, -⟩
    cases h
  | some body =>
    have hbody : body < p.size := hp.forest.lt_size_of_mem (List.mem_of_getLast? hlast)
    have hsteps : ((p.childrenOf body).map fun c => (p.postOrder c).length).sum ≤ p.size + 1 := by
      have hle := hp.forest.length_postOrder_le hbody
      rw [hp.forest.postOrder_eq, List.length_append, List.length_flatMap] at hle
      omega
    obtain ⟨b, hb, hiff⟩ := returnsValueWithin_iff hp.forest
      (fun c hc => hp.forest.lt_size_of_mem hc) hsteps
    simp only [Program.children_of_lt hbody, except_ok_bind, hb, Option.some.injEq,
      exists_eq_left']
    rw [← hiff]
    cases b with
    | true => exact .inl ⟨rfl, rfl⟩
    | false => exact .inr ⟨rfl, Bool.false_ne_true⟩

/-! ## What is asked about every node -/

/-- The answers to a question that is asked about several nodes. -/
theorem mem_of_mapM_ok {α β : Type} {g : α → Except Fault β} {xs : List α} {ys : List β}
    (h : xs.mapM g = .ok ys) {y : β} : y ∈ ys ↔ ∃ x ∈ xs, g x = .ok y := by
  induction xs generalizing ys with
  | nil =>
    cases h
    simp
  | cons x xs ih =>
    rw [List.mapM_cons] at h
    obtain ⟨z, hz, h⟩ := except_bind_eq_ok.mp h
    obtain ⟨zs, hzs, h⟩ := except_bind_eq_ok.mp h
    cases h
    rw [List.mem_cons, ih hzs]
    constructor
    · rintro (rfl | ⟨x', hx', h⟩)
      · exact ⟨x, List.mem_cons_self .., hz⟩
      · exact ⟨x', List.mem_cons_of_mem _ hx', h⟩
    · rintro ⟨x', hx', hy⟩
      rcases List.mem_cons.mp hx' with rfl | hx'
      · rw [hz] at hy
        exact .inl (Except.ok.inj hy).symm
      · exact .inr ⟨x', hx', hy⟩

/-- What is found in the whole program is what is found at some node. -/
theorem mem_of_askAll {p : Program} (hp : p.Parsed) {β : Type}
    {g : Handle → Except Fault (Option β)} {ys : List β}
    (h : (do return (← (← p.subtree root).mapM g).filterMap id) = .ok ys) {y : β} :
    y ∈ ys ↔ ∃ n, p.Below root n ∧ g n = .ok (some y) := by
  simp only [subtree_root hp, except_ok_bind] at h
  obtain ⟨zs, hzs, h⟩ := except_bind_eq_ok.mp h
  cases h
  rw [List.mem_filterMap]
  simp only [id, exists_eq_right, mem_of_mapM_ok hzs, hp.forest.mem_preOrder_iff]

theorem mem_inheritsOf {p : Program} (hp : p.Parsed) {called : List (String × String)}
    (h : inheritsOf p = .ok called) {l : String × String} :
    l ∈ called ↔ ∃ n, p.Below root n ∧ inheritsAt p n = .ok (some l) := mem_of_askAll hp h

/-- A declaration is made at the node of its function. -/
theorem fn_of_declarationAt {p : Program} {n : Handle} {d : Declaration}
    (h : declarationAt p n = .ok (some d)) : d.fn = n := by
  unfold declarationAt at h
  obtain ⟨isFunction, -, h⟩ := except_bind_eq_ok.mp h
  split at h
  · cases h
  · obtain ⟨name?, -, h⟩ := except_bind_eq_ok.mp h
    split at h
    · obtain ⟨doc, -, h⟩ := except_bind_eq_ok.mp h
      cases h
      rfl
    · cases h

theorem mem_declarationsOf {p : Program} (hp : p.Parsed) {ds : List Declaration}
    (h : declarationsOf p = .ok ds) {d : Declaration} :
    d ∈ ds ↔ p.Below root d.fn ∧ declarationAt p d.fn = .ok (some d) := by
  rw [mem_of_askAll hp h]
  constructor
  · rintro ⟨n, hn, hd⟩
    rw [fn_of_declarationAt hd]
    exact ⟨hn, hd⟩
  · rintro ⟨hn, hd⟩
    exact ⟨d.fn, hn, hd⟩

/-- What is declared is about functions of the program. -/
theorem isOf_of_mem {p : Program} (hp : p.Parsed) {ds : List Declaration}
    (hds : declarationsOf p = .ok ds) : ∀ d ∈ ds, Declaration.IsOf d p := by
  obtain ⟨ds', hds', hof⟩ := declarationsOf_ok hp
  rw [hds] at hds'
  cases hds'
  exact hof

/-! ## Renumbering -/

section

variable {p q : Program} {f : Handle → Handle} (h : Renumbering p q f) (hp : p.Parsed)
  (hq : q.Parsed) {n : Handle}
include h hp

theorem returns_renumbered (hn : p.Below root n) (hr : Returns p n) : Returns q (f n) := by
  induction hr with
  | here kind value =>
    refine .here ((h.kindOf? hn).trans kind) ?_
    rw [h.childrenOf hn (hp.ne_root_of_kind kind (by simp))]
    simpa using value
  | inside kind hc _ ih =>
    refine .inside (fun h' => kind ((h.kindOf? hn).symm.trans h')) ?_
      (ih (hn.child (hp.forest.mem_children_iff.mp hc)))
    exact (h.mem_children hn).mpr (List.mem_map_of_mem hc)

include hq

theorem returns_renumbered_iff (hn : p.Below root n) : Returns q (f n) ↔ Returns p n := by
  refine ⟨fun hr => ?_, returns_renumbered h hp hn⟩
  obtain ⟨g, hg, hback⟩ := h.exists_symm hp hq
  have hr' := returns_renumbered hg hq (h.below hn) hr
  rwa [hback n hn] at hr'

/-- The same is inferred of a function. -/
theorem inferred_renumbered (hn : p.Below root n) (hkind : p.kindOf? n = some .function) :
    inferred q (f n) = inferred p n := by
  have hroot := hp.ne_root_of_kind hkind (by simp)
  have hsame : (∃ body, (q.childrenOf (f n)).getLast? = some body ∧
        ∃ c ∈ q.childrenOf body, Returns q c) ↔
      ∃ body, (p.childrenOf n).getLast? = some body ∧ ∃ c ∈ p.childrenOf body, Returns p c := by
    rw [h.childrenOf hn hroot, List.getLast?_map]
    cases hlast : (p.childrenOf n).getLast? with
    | none => simp
    | some body =>
      have hbody : p.Below root body :=
        hn.child (hp.forest.mem_children_iff.mp (List.mem_of_getLast? hlast))
      simp only [Option.map_some, Option.some.injEq, exists_eq_left', h.mem_children hbody,
        List.mem_map, exists_exists_and_eq_and]
      refine exists_congr fun c => and_congr_right fun hc => ?_
      exact returns_renumbered_iff h hp hq (hbody.child (hp.forest.mem_children_iff.mp hc))
  rcases inferred_eq hp hn with ⟨hval, hret⟩ | ⟨hval, hret⟩ <;>
    rcases inferred_eq hq (h.below hn) with ⟨hval', hret'⟩ | ⟨hval', hret'⟩
  · rw [hval, hval']
  · exact absurd (hsame.mpr hret) hret'
  · exact absurd (hsame.mp hret') hret
  · rw [hval, hval']

/-- The same link is asked for. -/
theorem inheritsAt_renumbered (hn : p.Below root n) : inheritsAt q (f n) = inheritsAt p n := by
  obtain ⟨node, node', hnode, hnode', hk, -, -, -, -, -, -, hchildren⟩ := h.exists_node hp hn
  obtain ⟨hkind, -, hcs, -, -⟩ := Program.node_fields hnode
  have hname {c : Handle} (hc : c ∈ node.children) : q.qualifiedName (f c) = p.qualifiedName c :=
    h.qualifiedName hp hq (hn.child (hp.forest.mem_children_iff.mp (hcs ▸ hc)))
  unfold inheritsAt
  simp only [hnode, hnode', hk, except_ok_bind]
  by_cases hcall : node.kind = .call
  · rw [hcall] at hkind ⊢
    rw [hchildren (hp.ne_root_of_kind hkind (by simp))]
    match hlist : node.children with
    | [] | [_] | [_, _] | _ :: _ :: _ :: _ :: _ => rfl
    | [callee, child, parent] =>
      rw [hlist] at hname
      simp only [List.map_cons, List.map_nil, hname (c := callee) (by simp),
        hname (c := child) (by simp), hname (c := parent) (by simp)]
  · generalize node.kind = kind at hcall
    cases kind <;> first | rfl | exact absurd rfl hcall

/-- The same function is declared. -/
theorem declarationAt_renumbered (hn : p.Below root n) :
    declarationAt q (f n) = (declarationAt p n).map (Option.map (Declaration.renumber f)) := by
  unfold declarationAt
  rw [Program.isKind_of_lt (hq.lt_size_of_below (h.below hn)),
    Program.isKind_of_lt (hp.lt_size_of_below hn), h.kindOf? hn]
  simp only [except_ok_bind]
  by_cases hkind : p.kindOf? n = some .function
  · obtain ⟨name?, hname, -⟩ := hp.functionName_ok hn hkind
    obtain ⟨doc, hdoc⟩ := docOfFunction_ok hp hn
    simp only [hkind, decide_true, Bool.not_true, Bool.false_eq_true, if_false,
      h.functionName hp hq hn hkind, h.docOfFunction hp hn, hname, hdoc, except_ok_bind]
    cases name? <;> rfl
  · simp only [hkind, decide_false, Bool.not_false, if_true]
    rfl

/-- The same functions are declared in the whole program. -/
theorem mem_declarationsOf_renumbered {ds ds' : List Declaration}
    (hds : declarationsOf p = .ok ds) (hds' : declarationsOf q = .ok ds') {d' : Declaration} :
    d' ∈ ds' ↔ ∃ d ∈ ds, d.renumber f = d' := by
  rw [mem_declarationsOf hq hds']
  constructor
  · rintro ⟨hbelow, hd'⟩
    obtain ⟨n, hn, hnfn⟩ := h.surjective hp hq hbelow
    rw [← hnfn, declarationAt_renumbered h hp hq hn] at hd'
    obtain ⟨d?, hd, -⟩ := declarationAt_ok hp hn
    rw [hd] at hd'
    obtain ⟨d, rfl, hsame⟩ := Option.map_eq_some_iff.mp (Except.ok.inj hd')
    have hfn := fn_of_declarationAt hd
    exact ⟨d, (mem_declarationsOf hp hds).mpr ⟨hfn ▸ hn, hfn ▸ hd⟩, hsame⟩
  · rintro ⟨d, hd, rfl⟩
    obtain ⟨hn, hd⟩ := (mem_declarationsOf hp hds).mp hd
    refine ⟨h.below hn, ?_⟩
    show declarationAt q (f d.fn) = _
    rw [declarationAt_renumbered h hp hq hn, hd]
    rfl

/-- The same links are asked for in the whole program. -/
theorem mem_inheritsOf_renumbered {called called' : List (String × String)}
    (hcalled : inheritsOf p = .ok called) (hcalled' : inheritsOf q = .ok called')
    {l : String × String} : l ∈ called' ↔ l ∈ called := by
  rw [mem_inheritsOf hp hcalled, mem_inheritsOf hq hcalled']
  constructor
  · rintro ⟨m, hm, hl⟩
    obtain ⟨n, hn, rfl⟩ := h.surjective hp hq hm
    exact ⟨n, hn, (inheritsAt_renumbered h hp hq hn).symm.trans hl⟩
  · rintro ⟨n, hn, hl⟩
    exact ⟨f n, h.below hn, (inheritsAt_renumbered h hp hq hn).trans hl⟩

end

end Typing

end SuperForward
