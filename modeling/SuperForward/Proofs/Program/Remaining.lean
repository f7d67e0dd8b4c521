/-
  What remains of a program of scripts when expression statements are taken out of it.

  Statements stand in scripts, in blocks, and below nodes without a sort of their own. Nodes of
  any other sort keep their children, so that what remains is a program of scripts again, in
  which every node spells the name that it spelled before.
-/
import SuperForward.Proofs.Program.Naming
import SuperForward.Proofs.Program.Without

namespace SuperForward

/-! ## Remaining shapes -/

namespace Sketch

/-- What a node that has lost statements keeps of what others look at: its sort, and that
nothing hangs below it. -/
structure Keeps (s s' : Sketch) : Prop where
  kind : s'.kind = s.kind
  leaf : s.children = [] → s'.children = []

/-- Children that are kept one by one fit as before. -/
theorem Fits.keeps {kind : NodeKind} {text : String} {cs cs' : List Sketch}
    (h : Fits kind text cs) (hcs : List.Forall₂ Keeps cs cs') : Fits kind text cs' := by
  -- what fits is said of the number and of the kinds of children, and both are kept one by one
  cases kind
  case function =>
    obtain ⟨name, params, body, rfl, hname, hparams, hbody⟩ := h
    obtain ⟨name', _, h₁, hrest₁, rfl⟩ := List.forall₂_cons_left_iff.mp hcs
    obtain ⟨params', _, h₂, hrest₂, rfl⟩ := List.forall₂_cons_left_iff.mp hrest₁
    obtain ⟨body', _, h₃, hrest₃, rfl⟩ := List.forall₂_cons_left_iff.mp hrest₂
    obtain rfl := List.forall₂_nil_left_iff.mp hrest₃
    exact ⟨name', params', body', rfl, h₁.kind.trans hname, h₂.kind.trans hparams,
      h₃.kind.trans hbody⟩
  case paramList =>
    intro c' hc'
    obtain ⟨c, hc, hkeeps⟩ := Program.forall₂_exists_of_mem hcs.flip hc'
    rcases h c hc with ⟨hname, hnil⟩ | hother
    · exact .inl ⟨hkeeps.kind.trans hname, hkeeps.leaf hnil⟩
    · exact .inr (hkeeps.kind.trans hother)
  case assign =>
    obtain ⟨target, value, rfl⟩ := h
    obtain ⟨target', _, -, hrest₁, rfl⟩ := List.forall₂_cons_left_iff.mp hcs
    obtain ⟨value', _, -, hrest₂, rfl⟩ := List.forall₂_cons_left_iff.mp hrest₁
    obtain rfl := List.forall₂_nil_left_iff.mp hrest₂
    exact ⟨target', value', rfl⟩
  case exprResult =>
    obtain ⟨c, rfl⟩ := h
    obtain ⟨c', _, -, hrest, rfl⟩ := List.forall₂_cons_left_iff.mp hcs
    obtain rfl := List.forall₂_nil_left_iff.mp hrest
    exact ⟨c', rfl⟩
  case returnStmt =>
    show cs'.length ≤ 1
    rw [← hcs.length_eq]
    exact h
  case call =>
    obtain ⟨c, cs, rfl⟩ := List.exists_cons_of_ne_nil h
    obtain ⟨c', _, -, -, rfl⟩ := List.forall₂_cons_left_iff.mp hcs
    exact List.cons_ne_nil _ _
  case getProp =>
    obtain ⟨hsegment, target, rfl⟩ := h
    obtain ⟨target', _, -, hrest, rfl⟩ := List.forall₂_cons_left_iff.mp hcs
    obtain rfl := List.forall₂_nil_left_iff.mp hrest
    exact ⟨hsegment, target', rfl⟩
  case this =>
    obtain rfl : cs = [] := h
    exact List.forall₂_nil_left_iff.mp hcs
  case name => exact h
  case root => exact h
  case script => exact h
  all_goals exact trivial

end Sketch

namespace Program

/-- What is shown by those of a list that are kept. -/
theorem exists_forall₂_filter {α β : Type} {R Q : α → β → Prop} {T : β → β → Prop}
    (keep : α → Bool) {ns : List α} {ss : List β} (h : List.Forall₂ R ns ss)
    (hstep : ∀ n, ∀ s ∈ ss, R n s → ∃ s', Q n s' ∧ T s s') :
    ∃ kept ss', kept.Sublist ss ∧ List.Forall₂ Q (ns.filter keep) ss' ∧
      List.Forall₂ T kept ss' ∧ ((∀ n ∈ ns, keep n = true) → kept = ss) := by
  induction h with
  | nil => exact ⟨[], [], .slnil, .nil, .nil, fun _ => rfl⟩
  | @cons n s ns ss hns _ ih =>
    obtain ⟨kept, ss', hsublist, hshow, hkept, hall⟩ :=
      ih fun m t ht => hstep m t (List.mem_cons_of_mem _ ht)
    obtain ⟨s', hs', ht⟩ := hstep n s (List.mem_cons_self ..) hns
    by_cases hn : keep n = true
    · refine ⟨s :: kept, s' :: ss', hsublist.cons_cons s, ?_, .cons ht hkept, fun hns => ?_⟩
      · rw [List.filter_cons_of_pos hn]
        exact .cons hs' hshow
      · rw [hall fun m hm => hns m (List.mem_cons_of_mem _ hm)]
    · refine ⟨kept, ss', hsublist.cons s, ?_, hkept, fun hns => ?_⟩
      · rw [List.filter_cons_of_neg hn]
        exact hshow
      · exact absurd (hns n (List.mem_cons_self ..)) hn

/-- A node shows in what remains what those of its children show that are left. -/
theorem Shows.without_children {p : Program} {removed : List Handle} {n : Handle} {s : Sketch}
    {cs : List Sketch} (h : p.Shows n s)
    (hcs : List.Forall₂ (p.without removed).Shows
      ((p.childrenOf n).filter fun c => decide (c ∉ removed)) cs) :
    (p.without removed).Shows n (.mk s.kind s.text s.doc s.extent cs) := by
  obtain ⟨node, hnode, hkind, htext, hdoc, hextent, -⟩ := shows_iff.mp h
  have hchildren : p.childrenOf n = node.children := by
    unfold Program.childrenOf
    rw [hnode]
    rfl
  rw [hchildren] at hcs
  refine shows_iff.mpr ⟨{ node with
    parent := if n ∈ removed then none else node.parent
    children := node.children.filter (· ∉ removed) }, ?_, hkind, htext, hdoc, hextent, hcs⟩
  rw [nodes_without, hnode, Option.map_some]

/-- The handles are those of expression statements. -/
def AreStatements (p : Program) (removed : List Handle) : Prop :=
  ∀ d ∈ removed, p.kindOf? d = some .exprResult

/-- Of the regular nodes, only blocks and nodes without a sort of their own have any of the
handles among their children. -/
def Spares (p : Program) (removed : List Handle) : Prop :=
  ∀ {n : Handle} {s : Sketch}, p.Shows n s → s.Regular → s.kind ≠ .block → s.kind ≠ .other →
    ∀ c ∈ p.childrenOf n, c ∉ removed

theorem AreStatements.spares {p : Program} {removed : List Handle} (hr : p.AreStatements removed) :
    p.Spares removed := by
  intro n s hs hregular hblock hother c hc hmem
  have hexpr := hr c hmem
  obtain ⟨t, ht, hct⟩ := hs.child hc
  rw [hct.kindOf?] at hexpr
  rcases hregular.shaped.statements t ht (Option.some.inj hexpr) with hk | hk
  · exact hblock hk
  · exact hother hk

section Spared

variable {p : Program} {removed : List Handle} (hr : p.Spares removed)
include hr

/-- What a regular node shows when children of blocks and the like are taken out below it. -/
theorem Shows.remaining {n : Handle} {s : Sketch} (h : p.Shows n s) (hs : s.Regular) :
    ∃ s', (p.without removed).Shows n s' ∧ s'.Regular ∧ s.Keeps s' := by
  induction s using Sketch.induction_on generalizing n with
  | step s ih =>
    have hchildren := h.childrenOf
    obtain ⟨kept, cs', hsublist, hshow, hkept, hall⟩ :=
      exists_forall₂_filter (fun c => decide (c ∉ removed)) (Q := fun c c' =>
        (p.without removed).Shows c c' ∧ c'.Regular) hchildren
        fun c t ht hct => by
          obtain ⟨t', hshow, hregular, hkeeps⟩ := ih t ht hct (hs.child ht)
          exact ⟨t', ⟨hshow, hregular⟩, hkeeps⟩
    have hshaped := hs.shaped
    have hsource : ∀ c' ∈ cs', ∃ c ∈ s.children, c.Keeps c' := by
      intro c' hc'
      obtain ⟨c, hc, hkeeps⟩ := forall₂_exists_of_mem hkept.flip hc'
      exact ⟨c, hsublist.subset hc, hkeeps⟩
    refine ⟨.mk s.kind s.text s.doc s.extent cs',
      h.without_children (hshow.imp fun _ _ h => h.1),
      Sketch.regular_of_children ⟨?_, ?_, ?_⟩ ?_, rfl, ?_⟩
    · -- a node that can lose children may have any
      by_cases hopen : s.kind = .block ∨ s.kind = .other
      · show Sketch.Fits s.kind s.text cs'
        rcases hopen with hk | hk <;> rw [hk] <;> exact trivial
      · obtain ⟨hblock, hother⟩ := not_or.mp hopen
        have hkeep : kept = s.children := by
          refine hall fun c hc => ?_
          rw [decide_eq_true_iff]
          exact hr h hs hblock hother c hc
        rw [hkeep] at hkept
        exact hshaped.fits.keeps hkept
    · intro c' hc' hname
      obtain ⟨c, hc, hkeeps⟩ := hsource c' hc'
      exact (hshaped.names c hc (hkeeps.kind.symm.trans hname)).imp_left hkeeps.leaf
    · intro c' hc' hexpr
      obtain ⟨c, hc, hkeeps⟩ := hsource c' hc'
      exact hshaped.statements c hc (hkeeps.kind.symm.trans hexpr)
    · intro c' hc'
      obtain ⟨m, -, -, hregular⟩ := forall₂_exists_of_mem hshow.flip hc'
      exact hregular
    · intro hnil
      rw [hnil] at hsublist
      rw [List.sublist_nil.mp hsublist] at hkept
      exact List.forall₂_nil_left_iff.mp hkept

/-- What a script shows when children of blocks and the like are taken out of it. -/
theorem Shows.remaining_script {n : Handle} {s : Sketch} (h : p.Shows n s) (hs : s.IsScript) :
    ∃ s', (p.without removed).Shows n s' ∧ s'.IsScript := by
  obtain ⟨kept, cs', hsublist, hshow, hkept, -⟩ :=
    exists_forall₂_filter (fun c => decide (c ∉ removed)) (Q := fun c c' =>
      (p.without removed).Shows c c' ∧ c'.Regular) h.childrenOf
      fun c t ht hct => by
        obtain ⟨t', hshow, hregular, hkeeps⟩ := hct.remaining hr (hs.regular t ht)
        exact ⟨t', ⟨hshow, hregular⟩, hkeeps⟩
  refine ⟨.mk s.kind s.text s.doc s.extent cs',
    h.without_children (hshow.imp fun _ _ h => h.1), hs.kind, ?_, ?_⟩
  · intro c' hc'
    obtain ⟨m, -, -, hregular⟩ := forall₂_exists_of_mem hshow.flip hc'
    exact hregular
  · intro c' hc' hname
    obtain ⟨c, hc, hkeeps⟩ := forall₂_exists_of_mem hkept.flip hc'
    exact hs.ne_name c (hsublist.subset hc) (hkeeps.kind.symm.trans hname)

/-- What remains of a program of scripts is one again. -/
theorem Parsed.without_spared (hp : p.Parsed) : (p.without removed).Parsed := by
  obtain ⟨scripts, hroot, hscripts⟩ := hp.shows
  obtain ⟨kept, cs', -, hshow, -, -⟩ :=
    exists_forall₂_filter (Q := fun c c' => (p.without removed).Shows c c' ∧ c'.IsScript)
      (T := fun _ _ => True) (fun c => decide (c ∉ removed)) hroot.childrenOf
      fun c t ht hct => by
        obtain ⟨t', h⟩ := hct.remaining_script hr (hscripts t ht)
        exact ⟨t', h, trivial⟩
  refine .of_shows (hp.forest.without removed) ?_
    (hroot.without_children (hshow.imp fun _ _ h => h.1)) fun s hs => ?_
  · rw [parentOf_without, hp.root_parent]
    split <;> rfl
  · obtain ⟨m, -, -, hscript⟩ := forall₂_exists_of_mem hshow.flip hs
    exact hscript

end Spared

section Remaining

variable {p : Program} {removed : List Handle} (hr : p.AreStatements removed)
include hr

namespace Parsed

variable (hp : p.Parsed)
include hp

/-- What remains is a program of scripts. -/
theorem without : (p.without removed).Parsed := hp.without_spared hr.spares

/-! ## What stays -/

/-- Only blocks, scripts and nodes without a sort of their own lose children. -/
theorem childrenOf_remaining {n : Handle} {kind : NodeKind} (hn : p.Below root n)
    (hkind : p.kindOf? n = some kind) (hblock : kind ≠ .block) (hother : kind ≠ .other)
    (hscript : kind ≠ .script) : (p.without removed).childrenOf n = p.childrenOf n := by
  rw [childrenOf_without, List.filter_eq_self]
  intro c hc
  rw [decide_eq_true_iff]
  intro hmem
  have hexpr := hr c hmem
  rcases hp.shows_of_below hn with ⟨rfl, -⟩ | ⟨s, hs, hs'⟩
  · obtain ⟨scripts, hroot, hscripts⟩ := hp.shows
    obtain ⟨t, ht, hct⟩ := hroot.child hc
    rw [hct.kindOf?, (hscripts t ht).kind] at hexpr
    cases hexpr
  · rw [hs.kindOf?] at hkind
    obtain ⟨t, ht, hct⟩ := hs.child hc
    rw [hct.kindOf?] at hexpr
    rcases hs' with hs' | hs'
    · exact hscript ((Option.some.inj hkind).symm.trans hs'.kind)
    · rcases hs'.shaped.statements t ht (Option.some.inj hexpr) with hk | hk
      · exact hblock ((Option.some.inj hkind).symm.trans hk)
      · exact hother ((Option.some.inj hkind).symm.trans hk)

/-- A node spells in what remains what it spelled before. -/
theorem spells_remaining_iff {n : Handle} {names : List String} (hn : p.Below root n) :
    (p.without removed).Spells n names ↔ p.Spells n names := by
  have head {m : Handle} (hm : p.Below root m) (hkind : p.kindOf? m = some .getProp) :
      (p.without removed).childrenOf m = p.childrenOf m :=
    hp.childrenOf_remaining hr hm hkind (by simp) (by simp) (by simp)
  have below {m target : Handle} (hm : p.Below root m)
      (htarget : (p.childrenOf m).head? = some target) : p.Below root target :=
    hm.child (hp.forest.mem_children_iff.mp (List.mem_of_mem_head? (by rw [htarget]; rfl)))
  -- along the chain of accesses, each of which keeps its children
  constructor
  · intro h
    induction h with
    | name kind htext nonempty =>
      rw [kindOf?_without] at kind
      rw [textOf?_without] at htext
      exact .name kind htext nonempty
    | this kind =>
      rw [kindOf?_without] at kind
      exact .this kind
    | getProp kind htext htarget _ ih =>
      rw [kindOf?_without] at kind
      rw [textOf?_without] at htext
      rw [head hn kind] at htarget
      exact .getProp kind htext htarget (ih (below hn htarget))
  · intro h
    induction h with
    | name kind htext nonempty =>
      exact .name (by rwa [kindOf?_without]) (by rwa [textOf?_without]) nonempty
    | this kind => exact .this (by rwa [kindOf?_without])
    | getProp kind htext htarget _ ih =>
      refine .getProp (by rwa [kindOf?_without]) (by rwa [textOf?_without]) ?_
        (ih (below hn htarget))
      rwa [head hn kind]

/-- A node has in what remains the name that it had before. -/
theorem qualifiedName_remaining {n : Handle} (hn : (p.without removed).Below root n) :
    (p.without removed).qualifiedName n = p.qualifiedName n := by
  have hn₀ := hn.of_without
  rcases (hp.without hr).qualifiedName_eq hn with ⟨q, hq, heq⟩ | ⟨hnone, heq⟩
  · rw [hp.spells_remaining_iff hr hn₀] at hq
    rcases hp.qualifiedName_eq hn₀ with ⟨q', hq', heq'⟩ | ⟨hnone', -⟩
    · have hsame := hq.unique hq'
      obtain ⟨names, _, _⟩ := q
      obtain ⟨names', _, _⟩ := q'
      simp only at hsame
      subst hsame
      rw [heq, heq']
    · exact absurd hq (hnone' _)
  · rcases hp.qualifiedName_eq hn₀ with ⟨q', hq', -⟩ | ⟨-, heq'⟩
    · exact absurd ((hp.spells_remaining_iff hr hn₀).mpr hq') (hnone _)
    · rw [heq, heq']

/-- What is attached in what remains is no statement that was taken out. -/
theorem not_mem_of_below_remaining {n : Handle} (hn : (p.without removed).Below root n) :
    n ∉ removed := by
  intro hmem
  refine not_below_of_mem_removed hp.root_parent hmem ?_ .here hn
  rintro rfl
  have hkind := hr _ hmem
  rw [hp.kindOf?_root] at hkind
  cases hkind

/-- What is attached in what remains has the parent that it had before. -/
theorem parentOf_remaining {n : Handle} (hn : (p.without removed).Below root n) :
    (p.without removed).parentOf n = p.parentOf n := by
  rw [parentOf_without, if_neg (hp.not_mem_of_below_remaining hr hn)]

/-- A function carries in what remains the name that it carried before. -/
theorem ownName_remaining {fn : Handle} (hfn : (p.without removed).Below root fn)
    (hkind : p.kindOf? fn = some .function) :
    (p.without removed).ownName fn = p.ownName fn := by
  have hfn₀ := hfn.of_without
  obtain ⟨name, params, body, hchildren, -, -, -⟩ := hp.children_function hfn₀ hkind
  have hsame := hp.childrenOf_remaining hr hfn₀ hkind (by simp) (by simp) (by simp)
  have hlt := hp.lt_size_of_below hfn₀
  have hname : name < p.size :=
    hp.forest.lt_size_of_mem (by rw [hchildren]; simp : name ∈ p.childrenOf fn)
  obtain ⟨node, hnode, hn⟩ := node_of_lt hname
  have hnode' := node_without removed hn
  unfold ownName firstChild childAt
  simp only [children_of_lt hlt, children_of_lt (show fn < (p.without removed).size by
    rwa [size_without]), hsame, hchildren, except_ok_bind, except_pure, List.getElem?_cons_zero,
    hnode, hnode']

/-- A function is bound in what remains to the name that it was bound to before. -/
theorem functionName_remaining {fn : Handle} (hfn : (p.without removed).Below root fn)
    (hkind : p.kindOf? fn = some .function) :
    (p.without removed).functionName fn = p.functionName fn := by
  have hfn₀ := hfn.of_without
  have hp' := hp.without hr
  have hlt := hp.lt_size_of_below hfn₀
  unfold functionName
  rw [parent_of_lt hlt, parent_of_lt (hp'.lt_size_of_below hfn), hp.parentOf_remaining hr hfn,
    except_ok_bind, except_ok_bind]
  cases hparent : p.parentOf fn with
  | none => exact hp.ownName_remaining hr hfn hkind
  | some above =>
    have habove : (p.without removed).Below root above := by
      cases hfn with
      | here =>
        rw [hp.root_parent] at hparent
        cases hparent
      | child up link =>
        rw [parentOf_without] at link
        split at link
        · cases link
        · rw [hparent] at link
          cases link
          exact up
    obtain ⟨node, hnode, hn⟩ := node_of_lt (hp.lt_size_of_below habove.of_without)
    obtain ⟨hk, -, hchildren, -, -⟩ := node_fields hnode
    have hnode' := node_without removed hn
    simp only [hnode, hnode', except_ok_bind, hp.ownName_remaining hr hfn hkind,
      hp.qualifiedName_remaining hr habove]
    by_cases hassign : node.kind = .assign
    · -- an assignment keeps its sides
      rw [hassign] at hk
      have hsame := hp.childrenOf_remaining hr habove.of_without hk (by simp) (by simp) (by simp)
      rw [childrenOf_without, hchildren] at hsame
      rw [hsame]
      obtain ⟨target, value, hboth⟩ := hp.children_assign habove.of_without hk
      have htarget : (p.without removed).Below root target := by
        refine habove.child ((hp'.forest.mem_children_iff).mp ?_)
        rw [childrenOf_without, hchildren, hsame, ← hchildren, hboth]
        exact List.mem_cons_self ..
      rw [← hchildren, hboth]
      simp only [qualifiedNameOf, List.head?_cons, present, except_ok_bind,
        hp.qualifiedName_remaining hr htarget]
      rfl
    · simp only [show (node.kind == NodeKind.assign) = false by simp [hassign], Bool.false_and,
        Bool.false_eq_true, if_false]

end Parsed

end Remaining

end Program

end SuperForward
