/-
  Which nodes documentation comments are on.

  Each statement of a script has the documentation that the text has before it, on its assignment
  if it is nothing else; no other node has any, and no comment is on two nodes. The last is
  counted: the documentation in the sketch of a phrase is taken from its tokens, from each token
  at most once, for a statement begins with the first token of its phrase and no part of a phrase
  that comes first is a statement.
-/
import SuperForward.Proofs.Program.Reaching
import SuperForward.Proofs.Program.Rendering
import SuperForward.Proofs.Program.Without
import SuperForward.Proofs.Script.Documentation
import SuperForward.Proofs.Script.Lookahead

namespace SuperForward

open SuperForward.Script

namespace Script

/-! ## Documentation is that of tokens -/

theorem Tree.docBefore?_eq (x : Tree) : x.docBefore? = x.tokens.head?.bind Token.doc? := by
  rw [docBefore?, firstToken?_eq]
  rfl

/-- The tokens with which the statements inside a phrase may begin. -/
def Tree.claimable (x : Tree) : List Token := if x.isStatement then x.tokens else x.tokens.tail

theorem Tree.claimable_sublist (x : Tree) : x.claimable.Sublist x.tokens := by
  unfold claimable
  split
  · exact .refl _
  · exact List.tail_sublist _

/-- The rules that extend nothing begin with something that has tokens and is no statement. -/
theorem Rule.exists_first_item {r : Rule} (hr : r ∉ extendingRules) :
    (∃ p is, r.items = .one p :: is ∧ p ≠ .phrase .statement ∧ p ≠ .phrase .block) ∨
      r.items = [.list .param .nonempty] := by
  cases r <;> first
    | exact absurd (by decide) hr
    | exact .inr rfl
    | exact .inl ⟨_, _, rfl, by simp, by simp⟩

/-- The first part of a phrase has tokens and is no statement. -/
theorem Formable.first_part {c : Category} {r : Rule} {parts : List Tree}
    (h : Formable c (.node r parts)) :
    ∃ y ys, parts = y :: ys ∧ y.isStatement = false ∧ y.tokens ≠ [] := by
  obtain ⟨hr, hitems⟩ | ⟨-, d, y, ys, rfl, hy, hnot, -⟩ := h.parts
  · obtain ⟨p, is, heq, hstatement, hblock⟩ | heq := Rule.exists_first_item hr
    · rw [heq] at hitems
      obtain ⟨y, ys, rfl, hy, -⟩ := itemsFit_one.mp hitems
      exact ⟨y, ys, rfl, hy.not_isStatement hstatement hblock, hy.tokens_ne_nil⟩
    · rw [heq] at hitems
      obtain ⟨ys, zs, rfl, hys, -⟩ := hitems
      obtain ⟨hempty, -⟩ | ⟨y, ys, rfl, hy, -⟩ := hys
      · cases hempty
      · refine ⟨y, ys ++ zs, rfl, Formable.not_isStatement hy (by simp) (by simp), ?_⟩
        exact Formable.tokens_ne_nil hy
  · exact ⟨y, ys, rfl, hnot, hy.tokens_ne_nil⟩

theorem docsOfAll_subperm {xs : List Tree}
    (h : ∀ x ∈ xs, x.docs.Subperm (x.claimable.filterMap Token.doc?)) :
    (Tree.docsOfAll xs).Subperm ((Tree.tokensOfAll xs).filterMap Token.doc?) := by
  induction xs with
  | nil => exact .refl _
  | cons x xs ih =>
    obtain ⟨hx, hxs⟩ := List.forall_mem_cons.mp h
    rw [Tree.docsOfAll, Tree.tokensOfAll, List.filterMap_append]
    exact (hx.trans (x.claimable_sublist.filterMap _).subperm).append (ih hxs)

/-- The statements inside a phrase have their documentation from different tokens. -/
theorem Formable.docs_subperm {c : Category} {x : Tree} (h : Formable c x) :
    x.docs.Subperm (x.claimable.filterMap Token.doc?) := by
  induction x using Tree.induction_on generalizing c with
  | leaf t => exact List.nil_subperm
  | node r parts ih =>
    have hparts : ∀ y ∈ parts, y.docs.Subperm (y.claimable.filterMap Token.doc?) := by
      intro y hy
      rcases h.leaf_or_formable hy with ⟨t, rfl⟩ | ⟨d, hy'⟩
      · exact List.nil_subperm
      · exact ih y hy hy'
    obtain ⟨y, ys, rfl, hnot, hne⟩ := h.first_part
    obtain ⟨t, ts, htokens⟩ := List.exists_cons_of_ne_nil hne
    obtain ⟨hy, hys⟩ := List.forall_mem_cons.mp hparts
    have hall : (Tree.node r (y :: ys)).tokens = t :: (ts ++ Tree.tokensOfAll ys) := by
      rw [Tree.tokens, Tree.tokensOfAll, htokens]
      rfl
    -- the first token of the phrase is left for its own comment: the first part claims all but
    -- that one
    have hinside : (Tree.docsOfAll (y :: ys)).Subperm
        ((ts ++ Tree.tokensOfAll ys).filterMap Token.doc?) := by
      rw [Tree.claimable, hnot, htokens] at hy
      rw [Tree.docsOfAll, List.filterMap_append]
      exact hy.append (docsOfAll_subperm hys)
    rw [Tree.docs, Tree.claimable, hall]
    cases hr : r.isStatement with
    | false =>
      rw [if_neg (by simp), List.append_nil, if_neg (by simp [Tree.isStatement, hr])]
      exact hinside
    | true =>
      rw [if_pos rfl, if_pos (show (Tree.node r (y :: ys)).isStatement = true from hr),
        Tree.docBefore?_eq, hall, List.head?_cons, Option.bind_some, List.filterMap_cons]
      cases t.doc? with
      | none => exact (List.append_nil _).symm ▸ hinside
      | some d =>
        exact (List.perm_append_singleton d _).subperm.trans ((List.subperm_cons d).mpr hinside)

/-- The scripts of a text have their documentation from different comments. -/
theorem pairwise_docs_of_read {text : String} {statements : List Tree}
    (h : read text = .ok statements) :
    (Tree.docsOfAll statements).Pairwise fun d e => d.start ≠ e.start := by
  obtain ⟨ls, hcut, htokens⟩ := exists_cutInto_of_read h
  have hformed := Program.mem_statements (Program.statementsStand_of_read h).1
  have hsubperm := docsOfAll_subperm fun x hx => Formable.docs_subperm (hformed x hx)
  rw [← htokens] at hsubperm
  have hstarts := (pairwise_docs hcut.ne_nil (s := .origin) (List.forall_mem_nil _)).imp
    fun h => Nat.ne_of_lt h
  obtain ⟨ds, hperm, hsublist⟩ := hsubperm
  exact (hperm.pairwise_iff fun h => h.symm).mp (hstarts.sublist hsublist)

end Script

/-! ## Sketches of statements -/

namespace Sketch

theorem extent_document (s : Sketch) (d : DocComment) : (s.document d).extent = s.extent := by
  rcases document_eq s d with heq | ⟨text, doc, e, c, cs, rfl, -, heq⟩
  · rw [heq]
    cases s
    rfl
  · rw [heq]
    rfl

/-- What documentation goes to: the assignment of a statement that is nothing else, or the
statement. -/
def target : Sketch → Sketch
  | .mk .exprResult text doc extent (c :: cs) =>
    if c.kind = .assign then c else .mk .exprResult text doc extent (c :: cs)
  | s => s

theorem doc_setDoc (s : Sketch) (d : DocComment) : (s.setDoc d).doc = some d := by
  cases s
  rfl

theorem target_eq (s : Sketch) : s.target = s ∨ s.kind = .exprResult ∧ s.target ∈ s.children := by
  obtain ⟨kind, text, doc, e, cs⟩ := s
  cases kind
  case exprResult =>
    cases cs with
    | nil => exact .inl rfl
    | cons c cs =>
      rw [target]
      split
      · exact .inr ⟨rfl, List.mem_cons_self ..⟩
      · exact .inl rfl
  all_goals exact .inl rfl

theorem doc_target_document (s : Sketch) (d : DocComment) : (s.document d).target.doc = some d := by
  obtain ⟨kind, text, doc, e, cs⟩ := s
  cases kind
  case exprResult =>
    cases cs with
    | nil => rfl
    | cons c cs =>
      rw [document]
      split
      · next hassign => rw [target, if_pos ((kind_setDoc c d).trans hassign), doc_setDoc]
      · next hassign => rw [target, if_neg hassign, Sketch.doc]
  all_goals rfl

/-- The documentation of a statement is that before its phrase. -/
theorem doc_target {c : Category} {y : Tree} (h : Formable c y) (hy : y.isStatement = true) :
    (ofTree y).target.doc = y.docBefore? := by
  cases y with
  | leaf t => cases hy
  | node r parts =>
    have hr : r.isStatement = true := hy
    rw [ofTree, documented, if_pos hr]
    cases (Script.Tree.node r parts).docBefore? with
    | some d => exact doc_target_document _ d
    | none =>
      simp only
      rcases target_eq (ofRule (.node r parts) r (piecesOf parts)) with heq | ⟨hkind, hmem⟩
      · rw [heq]
        rcases rendered_ofRule h with ⟨hdoc, -⟩ | ⟨hnot, -⟩
        · exact hdoc
        · exact absurd (hr.symm.trans hnot) (by simp)
      · rcases eq_of_kind_exprResult hkind with rfl | ⟨hnot, -⟩
        · exact doc_eq_none_of_expressionStatement h hmem
        · exact absurd (hr.symm.trans hnot) (by simp)

/-- The node of a statement has the place of its phrase. -/
theorem extent_of_statement {y : Tree} (hy : y.isStatement = true) :
    (ofTree y).extent = y.extent := by
  cases y with
  | leaf t => cases hy
  | node r parts =>
    have hrule : (ofRule (.node r parts) r (piecesOf parts)).extent
        = (Script.Tree.node r parts).extent := by
      cases r <;> first
        | rfl
        | cases hy
    rw [ofTree]
    rcases documented_eq (.node r parts) r (piecesOf parts) with heq | ⟨d, -, heq⟩
    · rw [heq, hrule]
    · rw [heq, extent_document, hrule]

end Sketch

namespace Program

/-- The documentation on the nodes below one, in the order of the walk, is that in its sketch. -/
theorem Shows.filterMap_docOf? {p : Program} (hp : p.Forest) {n : Handle} {s : Sketch}
    (h : p.Shows n s) : (p.postOrder n).filterMap p.docOf? = s.docs := by
  induction s using Sketch.induction_on generalizing n with
  | step s ih =>
    have hchildren (ns : List Handle) (ss : List Sketch) (hall : List.Forall₂ p.Shows ns ss)
        (hss : ∀ s ∈ ss, ∀ {n : Handle}, p.Shows n s →
          (p.postOrder n).filterMap p.docOf? = s.docs) :
        (ns.flatMap p.postOrder).filterMap p.docOf? = Sketch.docsOfAll ss := by
      induction hall with
      | nil => rfl
      | cons hn _ ih =>
        obtain ⟨hs, hss⟩ := List.forall_mem_cons.mp hss
        rw [List.flatMap_cons, List.filterMap_append, hs hn, ih hss, Sketch.docsOfAll]
    rw [hp.postOrder_eq, List.filterMap_append, hchildren _ _ h.childrenOf ih, Sketch.docs_eq,
      List.filterMap_cons, h.docOf?]
    cases s.doc <;> rfl

/-- Of two nodes below one whose documentation begins at the same offset, both are the same, if
the documentation in its sketch begins at different offsets. -/
theorem Shows.eq_of_start_eq {p : Program} (hp : p.Forest) {script : Handle} {s : Sketch}
    (h : p.Shows script s) (hstarts : s.docs.Pairwise fun d e => d.start ≠ e.start)
    {m m' : Handle} (hm : p.Below script m) (hm' : p.Below script m') {d d' : DocComment}
    (hd : p.docOf? m = some d) (hd' : p.docOf? m' = some d') (hsame : d.start = d'.start) :
    m = m' := by
  rw [← h.filterMap_docOf? hp, List.pairwise_filterMap] at hstarts
  by_contra hne
  have hsymm : Std.Symm fun a b : Handle => ∀ d, p.docOf? a = some d → ∀ e, p.docOf? b = some e →
      d.start ≠ e.start := ⟨fun a b h d hd e he => (h e he d hd).symm⟩
  exact hstarts.forall (hp.mem_postOrder_iff.mpr hm) (hp.mem_postOrder_iff.mpr hm') hne d hd d' hd'
    hsame

/-- The node that gets the documentation of a statement shows what it goes to. -/
theorem Shows.target {p : Program} {n : Handle} {s : Sketch} (h : p.Shows n s) :
    p.Shows (p.docTarget n) s.target := by
  obtain ⟨kind, text, doc, e, ss⟩ := s
  obtain ⟨node, hnode, hkind, -, -, -, hchildren⟩ := shows_iff.mp h
  have hself (hnot : kind ≠ .exprResult) : p.docTarget n = n := by
    unfold docTarget
    rw [hnode]
    simp [show node.kind = kind from hkind, hnot]
  cases kind
  case exprResult =>
    unfold docTarget
    rw [hnode]
    simp only [show node.kind = .exprResult from hkind]
    cases hnodes : node.children with
    | nil =>
      rw [hnodes, List.forall₂_nil_left_iff] at hchildren
      obtain rfl : ss = [] := hchildren
      exact h
    | cons m ms =>
      rw [hnodes, List.forall₂_cons_left_iff] at hchildren
      obtain ⟨s, ss', hm, -, heq⟩ := hchildren
      obtain rfl : ss = s :: ss' := heq
      have hk : (p.nodes[m]?.map (·.kind)) = some s.kind := hm.kindOf?
      simp only [List.head?_cons, hk, Sketch.target, Option.some.injEq]
      split
      · exact hm
      · exact h
  all_goals
    rw [hself (by simp)]
    exact h

/-! ## Statements of sources -/

/-- The node is that of a statement of a source: below the script that was made for the source,
it shows a statement inside the text. -/
def IsStatementOf (p : Program) (sources : List Source) (source : Source) (n : Handle) : Prop :=
  ∃ (script : Handle) (statements : List Tree) (x y : Tree),
    p.IsScriptOf sources source script ∧ Script.read source.text = .ok statements ∧
      x ∈ statements ∧ y.Inside x ∧ y.isStatement = true ∧ p.Below script n ∧
      p.Shows n (Sketch.ofTree y)

/-- What hangs at the root are the scripts of the sources that can be read, in their order. -/
structure HasScripts (p : Program) (sources : List Source) : Prop where
  /-- Each source that can be read has its script, behind those of the sources before it. -/
  each : ∀ {before after : List Source} {source : Source} {statements : List Tree},
    sources = before ++ source :: after → Script.read source.text = .ok statements →
    ∃ script, (p.childrenOf root)[(scriptsOf before).length]? = some script ∧
      p.IsScriptOf sources source script
  only : ∀ script ∈ p.childrenOf root, ∃ source, p.IsScriptOf sources source script

/-- Documentation is on the nodes of statements, or on their assignments, and only there. -/
structure ExactlyDocumented (p : Program) (sources : List Source) : Prop where
  scripts : p.HasScripts sources
  /-- Every statement inside the text of a script has a node. -/
  complete : ∀ {source : Source} {script : Handle} {statements : List Tree} {x y : Tree},
    p.IsScriptOf sources source script → Script.read source.text = .ok statements →
    x ∈ statements → y.Inside x → y.isStatement = true →
    ∃ n, p.Below script n ∧ p.Shows n (Sketch.ofTree y)
  /-- A statement has the documentation that the text has before the place of its node, and has
  none if the text has none. -/
  exact : ∀ {source : Source} {n : Handle}, p.IsStatementOf sources source n →
    ∃ offset, p.startOf? n = some offset ∧ ∀ doc, p.docOf? (p.docTarget n) = some doc ↔
      Script.DocumentedAt source.text.toList offset doc
  /-- No other node has documentation. -/
  only : ∀ {m : Handle} {doc : DocComment}, p.docOf? m = some doc →
    ∃ source n, p.IsStatementOf sources source n ∧ m = p.docTarget n
  /-- No comment of a script is on two nodes. -/
  once : ∀ {source : Source} {script m m' : Handle} {doc doc' : DocComment},
    p.IsScriptOf sources source script → p.Below script m → p.Below script m' →
    p.docOf? m = some doc → p.docOf? m' = some doc' → doc.start = doc'.start → m = m'

/-- The script of a source shows the statements of the source. -/
theorem IsScriptOf.shows_statements {sources : List Source} {source : Source} {script : Handle}
    (h : (ofSources sources).1.IsScriptOf sources source script) {statements : List Tree}
    (hread : Script.read source.text = .ok statements) :
    (ofSources sources).1.Shows script
      (scriptSketch source.path source.text.length statements) := by
  rw [← withTypes_ofSources sources] at h ⊢
  obtain ⟨statements', hread', hshows⟩ := h.shows
  rw [hread] at hread'
  cases hread'
  exact hshows

theorem exists_source {sources : List Source} {i : Nat} (h : i < (scriptsOf sources).length) :
    ∃ before source after, sources = before ++ source :: after ∧
      (∃ statements, Script.read source.text = .ok statements) ∧ (scriptsOf before).length = i := by
  induction sources generalizing i with
  | nil => exact absurd h (Nat.not_lt_zero i)
  | cons s rest ih =>
    unfold scriptsOf at h
    rw [List.filterMap_cons] at h
    cases hread : Script.read s.text with
    | error e =>
      rw [hread] at h
      obtain ⟨before, source, after, rfl, hsource, rfl⟩ := ih h
      refine ⟨s :: before, source, after, rfl, hsource, ?_⟩
      unfold scriptsOf
      rw [List.filterMap_cons, hread]
    | ok statements =>
      rw [hread] at h
      cases i with
      | zero => exact ⟨[], s, rest, rfl, ⟨statements, hread⟩, rfl⟩
      | succ i =>
        obtain ⟨before, source, after, rfl, hsource, rfl⟩ := ih (Nat.lt_of_succ_lt_succ h)
        refine ⟨s :: before, source, after, rfl, hsource, ?_⟩
        unfold scriptsOf
        rw [List.filterMap_cons, hread]
        rfl

/-- The program of some sources has their scripts. -/
theorem hasScripts_ofSources (sources : List Source) :
    (ofSources sources).1.HasScripts sources := by
  have hlength : ((ofSources sources).1.childrenOf root).length = (scriptsOf sources).length :=
    (composed_ofSources sources).shows.childrenOf.length_eq
  constructor
  · rintro before after source statements rfl hread
    have hlt : (scriptsOf before).length
        < ((ofSources (before ++ source :: after)).1.childrenOf root).length := by
      rw [hlength]
      simp only [scriptsOf, List.filterMap_append, List.filterMap_cons, hread, List.length_append,
        List.length_cons]
      omega
    have hget := List.getElem?_eq_getElem hlt
    exact ⟨_, hget, before, after, rfl, ⟨statements, hread⟩, hget⟩
  · intro script hscript
    obtain ⟨i, hi, hget⟩ := List.getElem_of_mem hscript
    obtain ⟨before, source, after, hsources, hread, hbefore⟩ := exists_source (hlength ▸ hi)
    refine ⟨source, before, after, hsources, hread, ?_⟩
    rw [hbefore, List.getElem?_eq_getElem hi, hget]

/-- Every node is below the root. -/
theorem below_root_ofSources {sources : List Source} {n : Handle}
    (hn : n < (ofSources sources).1.size) : (ofSources sources).1.Below root n := by
  obtain ⟨top, htop, hbelow, hnone⟩ := (composed_ofSources sources).forest.exists_top hn
  rwa [whole_ofSources sources top htop hnone] at hbelow

/-- Every node but the root is below the script of a source. -/
theorem exists_script {sources : List Source} {n : Handle} (hn : n < (ofSources sources).1.size)
    (hroot : n ≠ root) : ∃ source script, (ofSources sources).1.IsScriptOf sources source script ∧
      (ofSources sources).1.Below script n := by
  obtain rfl | ⟨script, hscript, hbelow⟩ := (below_root_ofSources hn).eq_or_child
  · exact absurd rfl hroot
  obtain ⟨source, hsource⟩ := (hasScripts_ofSources sources).only script
    ((composed_ofSources sources).forest.mem_children_iff.mpr hscript)
  exact ⟨source, script, hsource, hbelow⟩

/-! ## Statements inside a text -/

section

variable {text : String} {statements : List Tree} (hread : Script.read text = .ok statements)
include hread

theorem formable_of_read {x : Tree} (hx : x ∈ statements) : Formable .statement x :=
  mem_statements (statementsStand_of_read hread).1 x hx

/-- The statements of a script are rendered in its sketch. -/
theorem rendered_statements : Sketch.Rendered (Sketch.ofTrees statements) statements := by
  refine Sketch.rendered_ownOf fun x hx hnode => ?_
  obtain ⟨depth, hformed⟩ := formable_of_read hread hx
  obtain ⟨r, parts, d, rfl, hr, -⟩ := Sketch.formed_statement hformed
  cases r <;> first
    | exact absurd hr (by decide)
    | cases hnode

/-- A script has the documentation of its statements. -/
theorem docs_scriptSketch_perm (path : String) (length : Nat) :
    (scriptSketch path length statements).docs.Perm (Tree.docsOfAll statements) := by
  rw [Sketch.docs_eq]
  exact (List.append_nil _).symm ▸ (rendered_statements hread).docs_perm
    fun x hx => Sketch.docs_perm (formable_of_read hread hx)

/-- A script has its documentation from different comments. -/
theorem pairwise_docs_scriptSketch (path : String) (length : Nat) :
    (scriptSketch path length statements).docs.Pairwise fun d e => d.start ≠ e.start :=
  ((docs_scriptSketch_perm hread path length).pairwise_iff fun h => h.symm).mpr
    (Script.pairwise_docs_of_read hread)

variable {x y : Tree} (hx : x ∈ statements) (hinside : y.Inside x) (hy : y.isStatement = true)
include hx hinside hy

/-- A statement inside a text begins with one of its tokens, which has its documentation. -/
theorem exists_first_token : ∃ t ∈ (Script.scan text.toList).tokens,
    y.extent.start = t.start ∧ y.docBefore? = t.doc? := by
  obtain ⟨c, hformable⟩ := (formable_of_read hread hx).of_inside hinside hy
  obtain ⟨t, ts, htokens, -⟩ := hformable.first
  obtain ⟨u, hlast⟩ : ∃ u, y.tokens.getLast? = some u :=
    ⟨_, List.getLast?_eq_some_getLast (by rw [htokens]; exact List.cons_ne_nil t ts)⟩
  refine ⟨t, ?_, ?_, ?_⟩
  · obtain ⟨ls, hcut, hall⟩ := Script.exists_cutInto_of_read hread
    rw [hcut.scan_eq, hall]
    refine Tree.mem_tokensOfAll.mpr ⟨x, hx, hinside.mem_tokens ?_⟩
    rw [htokens]
    exact List.mem_cons_self ..
  · unfold Tree.extent
    rw [Tree.firstToken?_eq, Tree.lastToken?_eq, hlast, htokens]
    rfl
  · rw [Tree.docBefore?_eq, htokens]
    rfl

end

/-! ## The program of some sources -/

/-- Where a sketch is shown, so is every part of it. -/
theorem Shows.exists_below {p : Program} (hp : p.Forest) {n : Handle} {s t : Sketch}
    (h : p.Shows n s) (hwithin : Sketch.Within t s) : ∃ m, p.Below n m ∧ p.Shows m t := by
  induction hwithin generalizing n with
  | here => exact ⟨n, .here, h⟩
  | child hc _ ih =>
    obtain ⟨m, hm, hshows⟩ := forall₂_exists_of_mem h.childrenOf.flip hc
    obtain ⟨k, hk, hshows⟩ := ih hshows
    exact ⟨k, (Below.here.child (hp.mem_children_iff.mp hm)).trans hk, hshows⟩

theorem Shows.below_docTarget {p : Program} (hp : p.Forest) {n : Handle} {s : Sketch}
    (h : p.Shows n s) : p.Below n (p.docTarget n) := by
  rcases docTarget_eq h with ⟨htarget, -⟩ | ⟨c, cs, -, -, hchildren, -, -, -, htarget, -⟩
  · rw [htarget]
    exact .here
  · rw [htarget]
    refine Below.here.child (hp.mem_children_iff.mp ?_)
    rw [hchildren]
    exact List.mem_cons_self ..

/-- In the program of some sources, documentation is exactly where the sources have it. -/
theorem exactlyDocumented_ofSources (sources : List Source) :
    (ofSources sources).1.ExactlyDocumented sources := by
  have hforest := (composed_ofSources sources).forest
  have hcomplete {source : Source} {script : Handle} {statements : List Tree} {x y : Tree}
      (hscript : (ofSources sources).1.IsScriptOf sources source script)
      (hread : Script.read source.text = .ok statements) (hx : x ∈ statements)
      (hinside : y.Inside x) (hy : y.isStatement = true) :
      ∃ n, (ofSources sources).1.Below script n ∧
        (ofSources sources).1.Shows n (Sketch.ofTree y) := by
    obtain ⟨c, hc, hwithin⟩ := (rendered_statements hread).exists_within hy
      (fun x hx hinside => Sketch.within_of_inside (formable_of_read hread hx) hy hinside) hx hinside
    exact (hscript.shows_statements hread).exists_below hforest (.child hc hwithin)
  have honce {source : Source} {script m m' : Handle} {doc doc' : DocComment}
      (hscript : (ofSources sources).1.IsScriptOf sources source script)
      (hm : (ofSources sources).1.Below script m) (hm' : (ofSources sources).1.Below script m')
      (hdoc : (ofSources sources).1.docOf? m = some doc)
      (hdoc' : (ofSources sources).1.docOf? m' = some doc') (hstart : doc.start = doc'.start) :
      m = m' := by
    obtain ⟨-, -, -, ⟨statements, hread⟩, -⟩ := id hscript
    exact (hscript.shows_statements hread).eq_of_start_eq hforest
      (pairwise_docs_scriptSketch hread _ _) hm hm' hdoc hdoc' hstart
  refine ⟨hasScripts_ofSources sources, hcomplete, ?_, ?_, honce⟩
  · rintro source n ⟨script, statements, x, y, hscript, hread, hx, hinside, hy, -, hshows⟩
    obtain ⟨t, ht, hstart, hdoc⟩ := exists_first_token hread hx hinside hy
    obtain ⟨c, hformable⟩ := (formable_of_read hread hx).of_inside hinside hy
    refine ⟨t.start, ?_, fun doc => ?_⟩
    · rw [hshows.startOf?, Sketch.extent_of_statement hy, hstart]
    · rw [hshows.target.docOf?, Sketch.doc_target hformable hy, hdoc]
      exact Script.doc?_eq_some_iff ht (statementsStand_of_read hread).2
  · intro m doc hdoc
    have hm : m < (ofSources sources).1.size := by
      rw [lt_size_iff]
      obtain ⟨node, hnode, -⟩ := Option.bind_eq_some_iff.mp hdoc
      exact ⟨node, hnode⟩
    have hroot : m ≠ root := by
      rintro rfl
      rw [(composed_ofSources sources).shows.docOf?] at hdoc
      cases hdoc
    obtain ⟨source, script, hscript, hbelow⟩ := exists_script hm hroot
    obtain ⟨-, -, -, ⟨statements, hread⟩, -⟩ := id hscript
    have hshows := hscript.shows_statements hread
    -- the documentation is that of a statement inside the text, and its node has it too
    have hmem : doc ∈ (scriptSketch source.path source.text.length statements).docs := by
      rw [← hshows.filterMap_docOf? hforest]
      exact List.mem_filterMap.mpr ⟨m, hforest.mem_postOrder_iff.mpr hbelow, hdoc⟩
    obtain ⟨x, hx, hmem⟩ := Tree.mem_docsOfAll.mp
      ((docs_scriptSketch_perm hread _ _).mem_iff.mp hmem)
    obtain ⟨y, hinside, hy, hbefore⟩ := Tree.exists_statement_of_mem_docs hmem
    obtain ⟨n, hn, hstatement⟩ := hcomplete hscript hread hx hinside hy
    obtain ⟨c, hformable⟩ := (formable_of_read hread hx).of_inside hinside hy
    refine ⟨source, n, ⟨script, statements, x, y, hscript, hread, hx, hinside, hy, hn,
      hstatement⟩, ?_⟩
    refine honce hscript hbelow (hn.trans (hstatement.below_docTarget hforest)) hdoc ?_ rfl
    rw [hstatement.target.docOf?, Sketch.doc_target hformable hy, hbefore]

end Program

end SuperForward
