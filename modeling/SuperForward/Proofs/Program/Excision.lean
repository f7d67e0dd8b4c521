/-
  Scripts that statements are taken out of.

  A node that shows a sketch shows, when expression statements that are listed below it are
  taken out, a sketch that has lost them, and what it has lost is what these statements showed.

  The node of an expression statement knows which part of the text the statement takes up,
  together with the documentation of its assignment. When such parts are removed from the text
  of a script and what is left is read again, then this gives, places apart, what the script
  shows once the statements have been taken out of the program.
-/
import SuperForward.Proofs.Program.Enclosing
import SuperForward.Proofs.Program.Losing
import SuperForward.Proofs.Program.Naming
import SuperForward.Proofs.Program.Rendering
import SuperForward.Proofs.Script.Excised

namespace SuperForward.Program

/-- The node lists statements. -/
def Lists (p : Program) (n : Handle) : Prop :=
  ∃ kind text, p.kindOf? n = some kind ∧ p.textOf? n = some text ∧ Sketch.lists kind text = true

instance (p : Program) (n : Handle) : Decidable (p.Lists n) :=
  decidable_of_iff
    ((p.kindOf? n).any fun kind => (p.textOf? n).any fun text => Sketch.lists kind text) (by
      unfold Lists
      cases p.kindOf? n <;> cases p.textOf? n <;> simp)

/-- Some expression statements, none of them below another, and listed where they are below a
node. -/
structure Statements (p : Program) (top : Handle) (removed : List Handle) : Prop where
  kind : ∀ m ∈ removed, p.kindOf? m = some .exprResult
  listed : ∀ m ∈ removed, p.Below top m → ∀ n, p.parentOf m = some n → p.Lists n
  alone : ∀ d ∈ removed, ∀ m ∈ removed, p.Below d m → m = d

/-- What is taken out below some nodes, and what these nodes lose by it. -/
structure Loss (p : Program) (removed : List Handle) (ns ms : List Handle)
    (gone : List Sketch) : Prop where
  shows : List.Forall₂ p.Shows ms gone
  nodup : ms.Nodup
  mem : ∀ m, m ∈ ms ↔ m ∈ removed ∧ ∃ n ∈ ns, p.Below n m

variable {p : Program} (hp : p.Forest) {top : Handle} {removed : List Handle}
  (hremoved : p.Statements top removed)
include hp hremoved

/-- Siblings lose what they lose one by one, and those that are taken out. -/
theorem exists_losesAll {n : Handle} {ns : List Handle} {ss : List Sketch} {kind : NodeKind}
    {text : String} (hn : p.Below top n) (hkind : p.kindOf? n = some kind)
    (htext : p.textOf? n = some text) (hns : ∀ c ∈ ns, p.parentOf c = some n) (hnodup : ns.Nodup)
    (hshows : List.Forall₂ p.Shows ns ss)
    (ih : ∀ s ∈ ss, ∀ c, p.Shows c s → c ∉ removed → p.parentOf c = some n →
      ∃ gone s₀ ms, Sketch.Loses s gone s₀ ∧ (p.without removed).Shows c s₀ ∧
        p.Loss removed [c] ms gone) :
    ∃ gone ss₀ ms, Sketch.LosesAll Sketch.Loses (Sketch.lists kind text) ss gone ss₀ ∧
      List.Forall₂ (p.without removed).Shows (ns.filter (· ∉ removed)) ss₀ ∧
      p.Loss removed ns ms gone := by
  induction hshows with
  | nil => exact ⟨[], [], [], .nil _, .nil, ⟨.nil, .nil, by simp⟩⟩
  | @cons c s ns ss hc hrest ihs =>
    obtain ⟨hparent, hns⟩ := List.forall_mem_cons.mp hns
    obtain ⟨hnot, hnodup⟩ := List.nodup_cons.mp hnodup
    obtain ⟨more, ss₀, ms', hloses, hshow₀, hloss⟩ :=
      ihs hns hnodup fun t ht => ih t (List.mem_cons_of_mem _ ht)
    -- what hangs below this node does not hang below the others
    have hapart {m : Handle} (hm : p.Below c m) (hm' : m ∈ ms') : False := by
      obtain ⟨-, d, hd, hdm⟩ := (hloss.mem m).mp hm'
      exact hnot (hp.child_eq_of_below hparent (hns d hd) hm hdm ▸ hd)
    by_cases hc' : c ∈ removed
    · have hlists : Sketch.lists kind text = true := by
        obtain ⟨kind', text', hkind', htext', hl⟩ :=
          hremoved.listed c hc' (hn.child hparent) n hparent
        rw [hkind] at hkind'
        rw [htext] at htext'
        cases hkind'
        cases htext'
        exact hl
      have hexpr : s.kind = .exprResult := by
        have := hremoved.kind c hc'
        rw [hc.kindOf?] at this
        exact Option.some.inj this
      rw [hlists] at hloses ⊢
      refine ⟨s :: more, ss₀, c :: ms', .drop hexpr hloses, ?_, .cons hc hloss.shows, ?_, ?_⟩
      · rw [List.filter_cons_of_neg (by simpa using hc')]
        exact hshow₀
      · exact List.nodup_cons.mpr ⟨fun h => hapart .here h, hloss.nodup⟩
      · intro m
        rw [List.mem_cons, hloss.mem]
        constructor
        · rintro (rfl | ⟨hm, d, hd, hdm⟩)
          · exact ⟨hc', m, List.mem_cons_self .., .here⟩
          · exact ⟨hm, d, List.mem_cons_of_mem _ hd, hdm⟩
        · rintro ⟨hm, d, hd, hdm⟩
          rcases List.mem_cons.mp hd with rfl | hd
          · exact .inl (hremoved.alone d hc' m hm hdm)
          · exact .inr ⟨hm, d, hd, hdm⟩
    · obtain ⟨gone, s₀, ms, hlose, hshow, hloss'⟩ := ih s (List.mem_cons_self ..) c hc hc' hparent
      refine ⟨gone ++ more, s₀ :: ss₀, ms ++ ms', .keep hlose hloses, ?_,
        List.rel_append hloss'.shows hloss.shows, ?_, ?_⟩
      · rw [List.filter_cons_of_pos (by simpa using hc')]
        exact .cons hshow hshow₀
      · refine List.nodup_append'.mpr ⟨hloss'.nodup, hloss.nodup, fun m hm hm' => ?_⟩
        obtain ⟨-, d, hd, hdm⟩ := (hloss'.mem m).mp hm
        exact hapart (List.mem_singleton.mp hd ▸ hdm) hm'
      · intro m
        rw [List.mem_append, hloss'.mem, hloss.mem]
        simp only [List.mem_cons, List.not_mem_nil, or_false, exists_eq_or_imp, exists_eq_left]
        constructor
        · rintro (⟨hm, h⟩ | ⟨hm, h⟩)
          · exact ⟨hm, .inl h⟩
          · exact ⟨hm, .inr h⟩
        · rintro ⟨hm, h | h⟩
          · exact .inl ⟨hm, h⟩
          · exact .inr ⟨hm, h⟩

/-- A node that is not taken out loses what is taken out below it. -/
theorem Shows.exists_loses {n : Handle} {s : Sketch} (h : p.Shows n s) (htop : p.Below top n)
    (hn : n ∉ removed) :
    ∃ gone s₀ ms, Sketch.Loses s gone s₀ ∧ (p.without removed).Shows n s₀ ∧
      p.Loss removed [n] ms gone := by
  induction s using Sketch.induction_on generalizing n with
  | step s ih =>
    obtain ⟨node, hnode, hkind, htext, hdoc, hextent, hchildren⟩ := shows_iff.mp h
    have hof : p.childrenOf n = node.children := by
      unfold Program.childrenOf
      rw [hnode]
      rfl
    rw [← hof] at hchildren
    obtain ⟨gone, ss₀, ms, hloses, hshow, hloss⟩ := exists_losesAll hp hremoved htop h.kindOf?
      h.textOf? (fun c hc => hp.mem_children_iff.mp hc) (hp.nodup_children n) hchildren
      fun t ht c hc hc' hparent => ih t ht hc (htop.child hparent) hc'
    obtain ⟨kind, text, doc, e, cs⟩ := s
    refine ⟨gone, .mk kind text doc e ss₀, ms, .mk hloses, ?_, hloss.shows, hloss.nodup, ?_⟩
    · rw [shows_iff]
      refine ⟨{ node with
        parent := if n ∈ removed then none else node.parent
        children := node.children.filter (· ∉ removed) },
        by rw [nodes_without, hnode]; rfl, hkind, htext, hdoc, hextent, ?_⟩
      rw [hof] at hshow
      exact hshow
    · intro m
      -- below the node is what is below its children, since the node itself stays
      rw [hloss.mem]
      refine and_congr_right fun hm => ⟨?_, ?_⟩
      · rintro ⟨c, hc, hcm⟩
        exact ⟨n, List.mem_singleton_self n, (Below.child .here (hp.mem_children_iff.mp hc)).trans hcm⟩
      · rintro ⟨d, hd, hdm⟩
        obtain rfl := List.mem_singleton.mp hd
        rcases hp.eq_or_mem_below hdm with rfl | h
        · exact absurd hm hn
        · exact h

end SuperForward.Program

namespace SuperForward

open SuperForward.Script
open SuperForward.Text (Span removeSpans)

/-! ## The part of a text that a statement takes up -/

namespace Sketch

/-- The part of the text that a statement takes up, from the documentation of what stands first
below it. -/
def span (s : Sketch) : Span :=
  ⟨match s.children.head?.bind Sketch.doc with
    | some doc => min s.extent.start doc.start
    | none => s.extent.start,
    s.extent.stop⟩

/-- Assignments have no documentation of their own. -/
theorem doc_of_kind_assign {x : Tree} (h : (ofTree x).kind = .assign) : (ofTree x).doc = none := by
  induction x using Tree.induction_on with
  | leaf t =>
    rw [ofTree_leaf, ofToken]
    cases t.kind <;> rfl
  | node r parts ih =>
    rw [ofTree] at h ⊢
    rw [kind_documented] at h
    unfold documented
    cases r
    -- parentheses hand on what is inside of them; no other rule makes an assignment but its own
    case parenthesized =>
      show (ofRule _ .parenthesized (piecesOf parts)).doc = none
      rw [ofRule] at h ⊢
      generalize hss : ownOf (piecesOf parts) = ss at h ⊢
      rcases ss with _ | ⟨s, _ | ⟨t, ts⟩⟩
      · rfl
      · obtain ⟨y, hy, -, rfl⟩ := @mem_ownOf parts s (by rw [hss]; simp)
        exact ih y hy h
      · rfl
    case declarator => cases parts <;> rfl
    case getProp => rcases parts with _ | ⟨a, _ | ⟨b, _ | ⟨c, _ | ⟨d, ds⟩⟩⟩⟩ <;> rfl
    case call => rcases parts with _ | ⟨a, _ | ⟨b, _ | ⟨c, cs⟩⟩⟩ <;> rfl
    case assign =>
      rcases parts with _ | ⟨a, _ | ⟨b, _ | ⟨c, _ | ⟨d, ds⟩⟩⟩⟩
      case cons.cons.cons.nil =>
        show (ofRule _ .assign (piecesOf [a, b, c])).doc = none
        simp only [piecesOf, ofRule]
        split <;> rfl
      all_goals rfl
    all_goals first | rfl | cases h

/-- The documentation of the only assignment in a statement is that before the statement. -/
theorem doc_eq_docBefore {y : Tree} {t : Token} {c : Sketch}
    (hc : (ofTree (.node .expressionStatement [y, .leaf t])).children = [c])
    (hassign : c.kind = .assign) :
    c.doc = (Script.Tree.node .expressionStatement [y, .leaf t]).docBefore? := by
  cases hdoc : (Script.Tree.node .expressionStatement [y, .leaf t]).docBefore? with
  | some d => exact doc_of_assign hdoc (by rw [hc]; simp) hassign ⟨c, hc⟩
  | none =>
    rw [ofTree, documented, hdoc] at hc
    obtain ⟨z, -, -, rfl⟩ := @mem_ownOf [y, .leaf t] c (by
      show c ∈ (ofRule (.node .expressionStatement [y, .leaf t]) .expressionStatement
        (piecesOf [y, .leaf t])).children
      rw [show (ofRule (.node .expressionStatement [y, .leaf t]) .expressionStatement
        (piecesOf [y, .leaf t])).children = [c] from hc]
      simp)
    exact doc_of_kind_assign hassign

/-- What the node of a statement knows of its part of the text is where its tokens are. -/
theorem span_ofTree {y : Tree} {t : Token} {c : Sketch}
    (hc : (ofTree (.node .expressionStatement [y, .leaf t])).children = [c])
    (hassign : c.kind = .assign) :
    (ofTree (.node .expressionStatement [y, .leaf t])).span
      = cutSpan (Script.Tree.node .expressionStatement [y, .leaf t]).tokens := by
  have hdoc := doc_eq_docBefore hc hassign
  have hextent := extent_expressionStatement [y, .leaf t]
  generalize hx : Script.Tree.node .expressionStatement [y, .leaf t] = x at hc hdoc hextent ⊢
  obtain ⟨first, hfirst⟩ : ∃ first, x.tokens.head? = some first := by
    subst hx
    cases y.tokens <;> simp [Tree.tokens, Tree.tokensOfAll]
  obtain ⟨last, hlast⟩ : ∃ last, x.tokens.getLast? = some last := by
    subst hx
    exact ⟨t, by simp [Tree.tokens, Tree.tokensOfAll]⟩
  rw [Tree.extent, Tree.firstToken?_eq, Tree.lastToken?_eq, hfirst, hlast] at hextent
  rw [Tree.docBefore?, Tree.firstToken?_eq, hfirst] at hdoc
  unfold span cutSpan
  rw [hc, hextent, hfirst, hlast, List.head?_cons, Option.bind_some, hdoc]
  rfl

end Sketch

/-! ## Removing statements from the text of a script -/

/-- No documentation comment that stands before a part of the text, nothing but comments and
blanks in between, is outside the part. -/
def DocumentedWithin (text : String) (s : Span) : Prop :=
  ∀ t ∈ (scan text.toList).tokens, s.start ≤ t.start → ∀ c ∈ t.comments,
    DocComment.isDocComment c.text = true → s.start ≤ c.start

instance (text : String) (s : Span) : Decidable (DocumentedWithin text s) :=
  inferInstanceAs (Decidable (∀ t ∈ (scan text.toList).tokens, s.start ≤ t.start →
    ∀ c ∈ t.comments, DocComment.isDocComment c.text = true → s.start ≤ c.start))

/-- Where every part that is cut takes the documentation before it with it, none is left over. -/
theorem settled_of_documentedWithin {text : String}
    (hread : (scan text.toList).ending = .endOfText) {spans : List Span}
    (h : ∀ s ∈ spans, DocumentedWithin text s) : Settled text spans := by
  rintro t - - - ⟨u, hu, hlt, hcut, c, hc, hdoc, hnot⟩
  obtain ⟨s, hs, hcovers⟩ := List.any_eq_true.mp (hcut u hu (Nat.le_refl _) hlt)
  obtain ⟨hstart, hstop⟩ := Span.covers_iff.mp hcovers
  have hle := h s hs u hu hstart c hc hdoc
  obtain ⟨ls, hls⟩ := exists_cutInto_iff.mpr hread
  rw [hls.scan_eq] at hu
  have hbefore := start_lt_of_mem_comments hls.ne_nil hu hc
  rw [List.any_eq_true.mpr ⟨s, hs, Span.covers_iff.mpr ⟨hle, by omega⟩⟩] at hnot
  cases hnot

namespace Program

/-! ## Asking a program -/

/-- The part of the text that a statement takes up, as its node and the node of its expression
have it. -/
def spanOf (p : Program) (n : Handle) : Span :=
  let e := (p.nodes[n]?.map fun node => (⟨node.start, node.stop, node.line⟩ : Extent)).getD default
  ⟨match (p.childrenOf n).head?.bind p.docOf? with
    | some doc => min e.start doc.start
    | none => e.start, e.stop⟩

theorem Shows.spanOf_eq {p : Program} {n : Handle} {s : Sketch} (h : p.Shows n s) :
    p.spanOf n = s.span := by
  have hdoc : (p.childrenOf n).head?.bind p.docOf? = s.children.head?.bind Sketch.doc := by
    have hall := h.childrenOf
    generalize p.childrenOf n = ns at hall
    generalize s.children = ss at hall
    cases hall with
    | nil => rfl
    | cons head _ => exact head.docOf?
  obtain ⟨node, hnode, -, -, -, hextent, -⟩ := shows_iff.mp h
  unfold spanOf Sketch.span
  rw [hdoc, hnode, Option.map_some, Option.getD_some, hextent]

/-- The nearest script above a node is the one that it is below. -/
theorem Parsed.nearest_script {p : Program} (hp : p.Parsed) {script n : Handle}
    (hroot : p.parentOf script = some root) (hkind : p.kindOf? script = some .script)
    (hn : p.Below script n) (hne : n ≠ script) : p.Nearest [.script] n script := by
  refine ⟨hne.symm, hn, ⟨.script, List.mem_singleton_self _, hkind⟩, ?_⟩
  rintro m - hm ⟨k, hk, hmkind⟩
  rw [List.mem_singleton.mp hk] at hmkind
  have hbelow : p.Below root n := (Below.here.child hroot).trans hn
  have hmroot := hp.parentOf_of_script (hp.below_root_of_above hbelow hm) hmkind
  obtain rfl := hp.forest.child_eq_of_below hmroot hroot hm hn
  exact .here

/-- The path of a node below a script is that of the script. -/
theorem Parsed.scriptPath_of_below {p : Program} (hp : p.Parsed) {script n : Handle}
    {path : String} (hroot : p.parentOf script = some root)
    (hkind : p.kindOf? script = some .script) (htext : p.textOf? script = some path)
    (hn : p.Below script n) : p.scriptPath n = .ok (some path) := by
  have hscript : script < p.size := lt_size_of_parentOf hroot
  have htext' : p.text script = .ok path := by
    obtain ⟨node, hnode, -⟩ := node_of_lt hscript
    rw [(node_fields hnode).2.1] at htext
    cases htext
    simp only [Program.text, hnode, except_ok_bind, except_pure]
  unfold scriptPath
  rw [isKind_of_lt (hn.lt_size hscript)]
  by_cases hns : n = script
  · subst hns
    simp only [hkind, decide_true, except_ok_bind, if_true, htext', except_pure]
  · have hnearest := hp.nearest_script hroot hkind hn hns
    have hnot : p.kindOf? n ≠ some .script := by
      intro hnkind
      have hnroot := hp.parentOf_of_script ((Below.here.child hroot).trans hn) hnkind
      exact hns (hp.forest.child_eq_of_below hnroot hroot .here hn)
    obtain ⟨above?, habove, hiff⟩ := hp.forest.enclosing_eq [.script] (hn.lt_size hscript)
    rw [(hiff script).mpr hnearest] at habove
    simp only [hnot, decide_false, except_ok_bind, habove, htext', except_pure]
    rfl

/-! ## Taking statements out of a script -/

/-- Taking statements out of a script is the same as removing their parts from its text. -/
theorem Shows.exists_excised {p : Program} (hp : p.Forest) {script : Handle}
    {removed : List Handle} (hremoved : p.Statements script removed)
    (hassign : ∀ m ∈ removed, ∃ c, p.childrenOf m = [c] ∧ p.kindOf? c = some .assign)
    {path text : String} {statements : List Tree} (hread : Script.read text = .ok statements)
    (h : p.Shows script (scriptSketch path text.length statements)) :
    ∃ gone ms s₀, p.Loss removed [script] ms gone ∧ (p.without removed).Shows script s₀ ∧
      ∀ spans, spans.Perm (gone.map Sketch.span) → Settled text spans →
        ∃ new statements', removeSpans text spans = .ok (new, spans.length) ∧
          Script.read new = .ok statements' ∧
          s₀.unplaced = (scriptSketch path new.length statements').unplaced := by
  have hscript : script ∉ removed := by
    intro hmem
    have hkind := hremoved.kind script hmem
    rw [h.kindOf?] at hkind
    cases hkind
  obtain ⟨gone, s₀, ms, hloses, hshow, hloss⟩ := h.exists_loses hp hremoved .here hscript
  refine ⟨gone, ms, s₀, hloss, hshow, fun spans hspans hsettled => ?_⟩
  -- the statements are listed, so that what the script loses is what its text is pruned of
  have hstand := (statementsStand_of_read hread).1
  have htokens := TakesRepeated.tokens_eq (fun h => Stands.tokens_eq h) hstand
  rw [List.append_nil] at htokens
  have hformed := mem_statements hstand
  have hprunable : ∀ x ∈ statements, Sketch.Prunable x := by
    intro x hx
    obtain ⟨depth, hx'⟩ := hformed x hx
    refine Sketch.prunable_of_formed hx' fun t ht => spelled_of_mem_scan (l := text.toList) ?_
    rw [htokens]
    exact Sketch.mem_tokensOfAll hx ht
  obtain ⟨left, rfl, hlosesAll⟩ := Sketch.Loses.of_fresh hloses
  obtain ⟨ys, pruned, hprunes, hperm, hleft⟩ := Sketch.exists_pruned_ownOf hprunable
    (fun _ => ⟨rfl, Sketch.listed_statements hformed⟩) hlosesAll
  have hys := hprunes.mem_gone fun x _ _ _ h => h.mem_gone
  have hspan : ∀ y ∈ ys, (Sketch.ofTree y).span = cutSpan y.tokens := by
    intro y hy
    obtain ⟨x, t, rfl⟩ := hys y hy
    have hmem := hperm.symm.subset (List.mem_map_of_mem (f := Sketch.ofTree) hy)
    obtain ⟨m, hm, hmy⟩ := Program.forall₂_exists_of_mem hloss.shows.flip hmem
    obtain ⟨c, hc, hkind⟩ := hassign m ((hloss.mem m).mp hm).1
    have hall := hmy.childrenOf
    rw [hc] at hall
    obtain ⟨c', _, hc', hnil, heq⟩ := List.forall₂_cons_left_iff.mp hall
    rw [List.forall₂_nil_left_iff.mp hnil] at heq
    rw [hc'.kindOf?] at hkind
    exact Sketch.span_ofTree heq (Option.some.inj hkind)
  have hspans' : spans.Perm (ys.map fun y => cutSpan y.tokens) := by
    refine hspans.trans ((hperm.map Sketch.span).trans ?_)
    rw [List.map_map]
    exact List.Perm.of_eq (List.map_congr_left hspan)
  obtain ⟨new, statements', hremove, hread', hrelabel⟩ :=
    exists_read_excised hread hprunes hspans' hsettled
  refine ⟨new, statements', ?_, hread', ?_⟩
  · rw [hremove, hspans'.length_eq, List.length_map]
  · -- the statements that are kept begin with tokens that have their documentation
    have hformed' := mem_statements (hstand.again (fun h => congrArg _ h) hprunes)
    have hrelabeled : List.Forall₂ Sketch.Relabeled pruned statements' :=
      Program.forall₂_imp_of_mem (fun x hx x' _ h => Sketch.relabeled Token.Akin.sameWord h
        fun r parts hinside hr t ht t' htt' => by
          obtain ⟨c, hc⟩ := Formable.of_inside (hformed' x hx) hinside hr
          exact htt'.doc (hc.starts_statement hr t ht)) (Sketch.forall₂_of_prunesAll hrelabel)
    rw [scriptSketch, Sketch.unplaced_fresh, Sketch.unplaced_fresh, hleft,
      Sketch.unplaced_ownOf hrelabeled]
    rfl

end Program

end SuperForward
