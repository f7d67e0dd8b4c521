/-
  Expression statements in the order of the text.

  The sketch of a phrase has its nodes in the order in which their phrases stand in the text:
  where several nodes hang below one, every expression statement in an earlier one ends before
  those in a later one begin. In a program that shows such sketches, of two expression
  statements that are not one inside the other the first in the order of the walk is the first
  in the text.
-/
import SuperForward.Proofs.Program.Losing

namespace SuperForward

open SuperForward.Script

namespace Script

namespace Tree

/-- Every token of some phrases ends before those of some others begin. -/
def AllBefore (xs ys : List Tree) : Prop :=
  ∀ t ∈ tokensOfAll xs, ∀ u ∈ tokensOfAll ys, t.stop ≤ u.start

/-- The expression statements inside a phrase have tokens. -/
def Proper (x : Tree) : Prop :=
  ∀ parts, (Tree.node .expressionStatement parts).Inside x →
    (Tree.node .expressionStatement parts).tokens ≠ []

theorem tokens_sublist {x : Tree} {xs : List Tree} (h : x ∈ xs) :
    x.tokens.Sublist (tokensOfAll xs) := by
  induction xs with
  | nil => exact absurd h List.not_mem_nil
  | cons y ys ih =>
    rcases List.mem_cons.mp h with rfl | h
    · exact List.sublist_append_left ..
    · exact (ih h).trans (List.sublist_append_right ..)

theorem Proper.part {r : Rule} {parts : List Tree} (h : Proper (.node r parts)) {y : Tree}
    (hy : y ∈ parts) : y.Proper :=
  fun parts hparts => h parts (.part hy hparts)

/-- The extent of a phrase that has tokens goes from the first of them to the last. -/
theorem exists_extent {x : Tree} (h : x.tokens ≠ []) : ∃ t ∈ x.tokens, ∃ u ∈ x.tokens,
    x.extent.start = t.start ∧ x.extent.stop = u.stop := by
  obtain ⟨t, ht⟩ : ∃ t, x.tokens.head? = some t := ⟨_, List.head?_eq_some_head h⟩
  obtain ⟨u, hu⟩ : ∃ u, x.tokens.getLast? = some u := ⟨_, List.getLast?_eq_some_getLast h⟩
  refine ⟨t, List.mem_of_mem_head? ht, u, List.mem_of_getLast? hu, ?_⟩
  unfold extent
  rw [firstToken?_eq, lastToken?_eq, ht, hu]
  exact ⟨rfl, rfl⟩

end Tree

end Script

namespace Sketch

/-! ## Sketches in order -/

/-- Every expression statement in the first sketch ends before those in the second begin. -/
def Precedes (s t : Sketch) : Prop :=
  ∀ a b, Within a s → Within b t → a.kind = .exprResult → b.kind = .exprResult →
    a.extent.stop ≤ b.extent.start

/-- Wherever several nodes hang below one, the expression statements in them stand in the order
of the nodes. -/
def InOrder (s : Sketch) : Prop := ∀ t, Within t s → t.children.Pairwise Precedes

/-- Sketches that stand side by side, in order and each in order itself. -/
def AllInOrder (ss : List Sketch) : Prop := ss.Pairwise Precedes ∧ ∀ s ∈ ss, s.InOrder

theorem inOrder_iff {s : Sketch} : s.InOrder ↔ AllInOrder s.children := by
  constructor
  · exact fun h => ⟨h s .here, fun c hc t ht => h t (.child hc ht)⟩
  · rintro ⟨hpair, hchildren⟩
    exact forall_within hpair hchildren

/-- What has no statements in it precedes everything. -/
theorem precedes_of_bare {s : Sketch} (hkind : s.kind ≠ .exprResult) (hbare : s.children = [])
    (t : Sketch) : Precedes s t := by
  intro a b ha _ hka _
  cases ha with
  | here => exact absurd hka hkind
  | child hc => rw [hbare] at hc; exact absurd hc List.not_mem_nil

theorem inOrder_of_bare {s : Sketch} (hbare : s.children = []) : s.InOrder := by
  rw [inOrder_iff, hbare]
  exact ⟨.nil, List.forall_mem_nil _⟩

/-- Documentation does not change the order. -/
theorem InOrder.document {s : Sketch} (h : s.InOrder) (d : DocComment) :
    (s.document d).InOrder := by
  have hset {s : Sketch} (h : s.InOrder) : (s.setDoc d).InOrder := by
    rw [inOrder_iff, children_setDoc]
    exact inOrder_iff.mp h
  rcases document_eq s d with heq | ⟨text, doc, e, c, cs, rfl, hassign, heq⟩
  · exact heq ▸ hset h
  · obtain ⟨hpair, hchildren⟩ := inOrder_iff.mp h
    obtain ⟨hfirst, hrest⟩ := List.pairwise_cons.mp hpair
    obtain ⟨hc, hcs⟩ := List.forall_mem_cons.mp hchildren
    rw [heq, inOrder_iff]
    refine ⟨List.pairwise_cons.mpr ⟨fun t ht a b ha hb hka hkb => ?_, hrest⟩,
      List.forall_mem_cons.mpr ⟨hset hc, hcs⟩⟩
    -- the documented assignment is no statement itself
    cases ha with
    | here => rw [kind_setDoc, hassign] at hka; cases hka
    | child hd ha =>
      rw [children_setDoc] at hd
      exact hfirst t ht a b (.child hd ha) hb hka hkb

/-! ## Sketches that are made of phrases in order -/

/-- The sketches are those of some of the phrases, one after the other: of a phrase itself or of
the phrases inside it. Nodes without statements may stand between them, and a node may gather
the sketches of the phrases inside one phrase. -/
inductive Drawn : List Sketch → List Tree → Prop
  | nil : Drawn [] []
  | skip {cs : List Sketch} {x : Tree} {xs : List Tree} (h : Drawn cs xs) : Drawn cs (x :: xs)
  | own {cs : List Sketch} {x : Tree} {xs : List Tree} (h : Drawn cs xs) :
      Drawn (ofTree x :: cs) (x :: xs)
  | inner {cs : List Sketch} {x : Tree} {xs : List Tree} (h : Drawn cs xs) :
      Drawn (inside x ++ cs) (x :: xs)
  | bare {s : Sketch} {cs : List Sketch} {xs : List Tree} (hkind : s.kind ≠ .exprResult)
      (hbare : s.children = []) (h : Drawn cs xs) : Drawn (s :: cs) xs
  | gathered {s : Sketch} {cs : List Sketch} {x : Tree} {xs : List Tree}
      (hkind : s.kind ≠ .exprResult) (hchildren : s.children = inside x) (h : Drawn cs xs) :
      Drawn (s :: cs) (x :: xs)

theorem Strung.drawn {cs : List Sketch} {xs : List Tree} (h : Strung cs xs) : Drawn cs xs := by
  induction h with
  | nil => exact .nil
  | skip _ ih => exact .skip ih
  | own _ ih => exact .own ih
  | inner _ ih => exact .inner ih

theorem drawn_ownOf (xs : List Tree) : Drawn (ownOf (piecesOf xs)) xs := (strung_ownOf xs).drawn

/-- A statement in sketches that are made of some phrases is made for one of them. -/
theorem Drawn.madeIn {cs : List Sketch} {xs : List Tree} (h : Drawn cs xs) {c s : Sketch}
    (hc : c ∈ cs) (hs : Within s c) (hkind : s.kind = .exprResult) : ∃ x ∈ xs, s.MadeIn x := by
  have later {x : Tree} {xs : List Tree} (h : ∃ y ∈ xs, s.MadeIn y) :
      ∃ y ∈ x :: xs, s.MadeIn y :=
    h.imp fun y hy => ⟨List.mem_cons_of_mem _ hy.1, hy.2⟩
  -- by where the sketch comes from; nodes that belong to no phrase are no statements
  induction h with
  | nil => exact absurd hc List.not_mem_nil
  | skip _ ih => exact later (ih hc)
  | own _ ih =>
    rcases List.mem_cons.mp hc with rfl | hc
    · exact ⟨_, List.mem_cons_self .., .inl hs⟩
    · exact later (ih hc)
  | inner _ ih =>
    rcases List.mem_append.mp hc with hc | hc
    · exact ⟨_, List.mem_cons_self .., .inr ⟨c, hc, hs⟩⟩
    · exact later (ih hc)
  | bare hbareKind hbare _ ih =>
    rcases List.mem_cons.mp hc with rfl | hc
    · cases hs with
      | here => exact absurd hkind hbareKind
      | child hd => rw [hbare] at hd; exact absurd hd List.not_mem_nil
    · exact ih hc
  | gathered hgatheredKind hchildren _ ih =>
    rcases List.mem_cons.mp hc with rfl | hc
    · cases hs with
      | here => exact absurd hkind hgatheredKind
      | child hd hs =>
        rw [hchildren] at hd
        exact ⟨_, List.mem_cons_self .., .inr ⟨_, hd, hs⟩⟩
    · exact later (ih hc)

/-- Statements that are made for some phrases precede those that are made for later ones. -/
theorem precedes_of_madeIn {s t : Sketch} {xs ys : List Tree} (hbefore : Tree.AllBefore xs ys)
    (hxs : ∀ x ∈ xs, x.Proper) (hys : ∀ y ∈ ys, y.Proper)
    (hs : ∀ a, Within a s → a.kind = .exprResult → ∃ x ∈ xs, a.MadeIn x)
    (ht : ∀ b, Within b t → b.kind = .exprResult → ∃ y ∈ ys, b.MadeIn y) : Precedes s t := by
  intro a b ha hb hka hkb
  obtain ⟨x, hx, hmade⟩ := hs a ha hka
  obtain ⟨y, hy, hmade'⟩ := ht b hb hkb
  obtain ⟨parts, hparts, rfl⟩ := hmade.expressionStatement hka
  obtain ⟨parts', hparts', rfl⟩ := hmade'.expressionStatement hkb
  obtain ⟨-, -, u, hu, -, hstop⟩ := Tree.exists_extent (hxs x hx parts hparts)
  obtain ⟨t, ht, -, -, hstart, -⟩ := Tree.exists_extent (hys y hy parts' hparts')
  rw [extent_expressionStatement, extent_expressionStatement, hstop, hstart]
  exact hbefore u (Tree.mem_tokensOfAll.mpr ⟨x, hx, hparts.mem_tokens hu⟩) t
    (Tree.mem_tokensOfAll.mpr ⟨y, hy, hparts'.mem_tokens ht⟩)

/-- Sketches that are made of phrases in order stand in order. -/
theorem Drawn.allInOrder {cs : List Sketch} {xs : List Tree} (h : Drawn cs xs)
    (hxs : ∀ x ∈ xs, (ofTree x).InOrder ∧ AllInOrder (inside x)) (hproper : ∀ x ∈ xs, x.Proper)
    (htokens : (Tree.tokensOfAll xs).Pairwise fun t u => t.stop ≤ u.start) : AllInOrder cs := by
  -- what stands for the first phrase precedes what is drawn from the others
  have hbefore {x : Tree} {xs : List Tree}
      (htokens : (Tree.tokensOfAll (x :: xs)).Pairwise fun t u => t.stop ≤ u.start) :
      Tree.AllBefore [x] xs := by
    rw [Tree.tokensOfAll, List.pairwise_append] at htokens
    intro t ht u hu
    rw [Tree.mem_tokensOfAll] at ht
    obtain ⟨y, hy, ht⟩ := ht
    rw [List.mem_singleton.mp hy] at ht
    exact htokens.2.2 t ht u hu
  have hfirst {s : Sketch} {cs : List Sketch} {x : Tree} {xs : List Tree} (h : Drawn cs xs)
      (htokens : (Tree.tokensOfAll (x :: xs)).Pairwise fun t u => t.stop ≤ u.start)
      (hproper : ∀ y ∈ x :: xs, y.Proper)
      (hs : ∀ a, Within a s → a.kind = .exprResult → a.MadeIn x) : ∀ c ∈ cs, Precedes s c := by
    intro c hc
    refine precedes_of_madeIn (hbefore htokens) ?_
      (fun y hy => hproper y (List.mem_cons_of_mem _ hy))
      (fun a ha hk => ⟨x, List.mem_singleton_self x, hs a ha hk⟩)
      (fun b hb hk => h.madeIn hc hb hk)
    exact List.forall_mem_singleton.mpr (hproper x (List.mem_cons_self ..))
  induction h with
  | nil => exact ⟨.nil, List.forall_mem_nil _⟩
  | skip _ ih =>
    exact ih (fun y hy => hxs y (List.mem_cons_of_mem _ hy))
      (fun y hy => hproper y (List.mem_cons_of_mem _ hy)) (List.pairwise_append.mp htokens).2.1
  | own h ih =>
    obtain ⟨hpair, hall⟩ := ih (fun y hy => hxs y (List.mem_cons_of_mem _ hy))
      (fun y hy => hproper y (List.mem_cons_of_mem _ hy)) (List.pairwise_append.mp htokens).2.1
    exact ⟨List.pairwise_cons.mpr ⟨hfirst h htokens hproper fun a ha _ => .inl ha, hpair⟩,
      List.forall_mem_cons.mpr ⟨(hxs _ (List.mem_cons_self ..)).1, hall⟩⟩
  | inner h ih =>
    obtain ⟨hpair, hall⟩ := ih (fun y hy => hxs y (List.mem_cons_of_mem _ hy))
      (fun y hy => hproper y (List.mem_cons_of_mem _ hy)) (List.pairwise_append.mp htokens).2.1
    obtain ⟨hpair', hall'⟩ := (hxs _ (List.mem_cons_self ..)).2
    refine ⟨List.pairwise_append.mpr ⟨hpair', hpair, fun s hs => ?_⟩, fun s hs => ?_⟩
    · exact hfirst h htokens hproper fun a ha _ => .inr ⟨s, hs, ha⟩
    · exact (List.mem_append.mp hs).elim (hall' s) (hall s)
  | bare hkind hbare _ ih =>
    obtain ⟨hpair, hall⟩ := ih hxs hproper htokens
    exact ⟨List.pairwise_cons.mpr ⟨fun t _ => precedes_of_bare hkind hbare t, hpair⟩,
      List.forall_mem_cons.mpr ⟨inOrder_of_bare hbare, hall⟩⟩
  | gathered hkind hchildren h ih =>
    obtain ⟨hpair, hall⟩ := ih (fun y hy => hxs y (List.mem_cons_of_mem _ hy))
      (fun y hy => hproper y (List.mem_cons_of_mem _ hy)) (List.pairwise_append.mp htokens).2.1
    refine ⟨List.pairwise_cons.mpr ⟨hfirst h htokens hproper fun a ha hk => ?_, hpair⟩,
      List.forall_mem_cons.mpr ⟨?_, hall⟩⟩
    · cases ha with
      | here => exact absurd hk hkind
      | child hd ha => exact .inr ⟨_, hchildren ▸ hd, ha⟩
    · rw [inOrder_iff, hchildren]
      exact (hxs _ (List.mem_cons_self ..)).2

/-! ## Phrases that the grammar forms -/

/-- Of two parts of a function one is a token, or they are its parameters and its body. -/
def ParamsFirst (parts : List Tree) : Prop :=
  parts.Pairwise fun y z => (∃ t, y = .leaf t) ∨ (∃ t, z = .leaf t) ∨
    (∃ ps, y = .node .params ps) ∧ ∃ r qs, z = .node r qs ∧ r ≠ .params

theorem ParamsFirst.after_params {ps : List Tree} {xs : List Tree}
    (h : ParamsFirst (.node .params ps :: xs)) : ∀ z ∈ xs, ¬ ∃ qs, z = .node .params qs := by
  rintro z hz ⟨qs, rfl⟩
  rcases (List.pairwise_cons.mp h).1 _ hz with ⟨t, ht⟩ | ⟨t, ht⟩ | ⟨-, r, _, hr, hne⟩
  · cases ht
  · cases ht
  · cases hr
    exact hne rfl

theorem ParamsFirst.after_body {r : Rule} {ps : List Tree} {xs : List Tree}
    (h : ParamsFirst (.node r ps :: xs)) (hr : r ≠ .params) : ∀ z ∈ xs, ∃ t, z = .leaf t := by
  intro z hz
  rcases (List.pairwise_cons.mp h).1 _ hz with ⟨t, ht⟩ | ht | ⟨⟨qs, hqs⟩, -⟩
  · cases ht
  · exact ht
  · cases hqs
    exact absurd rfl hr

theorem strung_body (xs : List Tree) : Strung (functionParts (piecesOf xs)).2 xs := by
  induction xs with
  | nil => exact .nil
  | cons x xs ih =>
    cases x with
    | leaf t =>
      rw [piecesOf, functionParts_leaf rfl]
      exact .skip ih
    | node r ps =>
      by_cases hr : r = .params
      · subst hr
        rw [piecesOf, functionParts_params rfl]
        exact .skip ih
      · rw [piecesOf, functionParts_node rfl hr]
        exact .own (strung_nil xs)

theorem params_eq_nil {xs : List Tree} (h : ∀ x ∈ xs, ¬ ∃ ps, x = .node .params ps) :
    (functionParts (piecesOf xs)).1 = [] := by
  induction xs with
  | nil => rfl
  | cons x xs ih =>
    obtain ⟨hx, hxs⟩ := List.forall_mem_cons.mp h
    cases x with
    | leaf t =>
      rw [piecesOf, functionParts_leaf rfl]
      exact ih hxs
    | node r ps =>
      rw [piecesOf, functionParts_node rfl (by rintro rfl; exact hx ⟨ps, rfl⟩)]
      exact ih hxs

/-- The parameter list and the body of a function are made of its parts in order. -/
theorem drawn_functionParts {parts : List Tree} (h : ParamsFirst parts) (e : Extent) :
    Drawn (fresh .paramList "" e (functionParts (piecesOf parts)).1 ::
      (functionParts (piecesOf parts)).2) parts := by
  induction parts with
  | nil => exact .bare (by simp [fresh, kind]) rfl .nil
  | cons x xs ih =>
    cases x with
    | leaf t =>
      rw [piecesOf, functionParts_leaf rfl]
      exact .skip (ih (List.pairwise_cons.mp h).2)
    | node r ps =>
      by_cases hr : r = .params
      · subst hr
        rw [piecesOf, functionParts_params rfl]
        exact .gathered (by simp [fresh, kind]) rfl (strung_body xs).drawn
      · rw [piecesOf, functionParts_node rfl hr, params_eq_nil]
        · exact .bare (by simp [fresh, kind]) rfl (.own (strung_nil xs).drawn)
        · rintro z hz ⟨qs, rfl⟩
          obtain ⟨t, ht⟩ := h.after_body hr _ hz
          cases ht

/-- The parameters of a function and its body are made of its parts in order. -/
theorem strung_functionParts {parts : List Tree} (h : ParamsFirst parts) :
    Strung ((functionParts (piecesOf parts)).1 ++ (functionParts (piecesOf parts)).2) parts := by
  induction parts with
  | nil => exact .nil
  | cons x xs ih =>
    cases x with
    | leaf t =>
      rw [piecesOf, functionParts_leaf rfl]
      exact .skip (ih (List.pairwise_cons.mp h).2)
    | node r ps =>
      by_cases hr : r = .params
      · subst hr
        rw [piecesOf, functionParts_params rfl]
        exact .inner (strung_body xs)
      · rw [piecesOf, functionParts_node rfl hr, params_eq_nil]
        · exact .own (strung_nil xs)
        · rintro z hz ⟨qs, rfl⟩
          obtain ⟨t, ht⟩ := h.after_body hr _ hz
          cases ht

/-- What hangs below the node of a rule is made of the parts of the phrase in order; parentheses
may leave the node of a part. -/
theorem drawn_ofRule {x : Tree} {r : Rule} {parts : List Tree}
    (hparams : r = .functionDeclaration ∨ r = .functionExpression → ParamsFirst parts) :
    Drawn (ofRule x r (piecesOf parts)).children parts ∨
      ∃ y ∈ parts, ofRule x r (piecesOf parts) = ofTree y := by
  have hmade := madeBy_ofRule x r parts
  generalize ofRule x r (piecesOf parts) = t at hmade
  cases hmade with
  | node _ hstrung => exact .inl hstrung.drawn
  | held _ hy => exact .inr ⟨_, hy, rfl⟩
  | function hr =>
    refine .inl (.bare ?_ ?_ (drawn_functionParts (hparams hr) _))
    · unfold functionNameNode
      split <;> simp [fresh, kind]
    · unfold functionNameNode
      split <;> rfl

/-- The sketch of a phrase is in order if those of its parts are. -/
theorem inOrder_node {r : Rule} {parts : List Tree}
    (hparts : ∀ y ∈ parts, (ofTree y).InOrder ∧ AllInOrder (inside y))
    (hproper : ∀ y ∈ parts, y.Proper)
    (hparams : r = .functionDeclaration ∨ r = .functionExpression → ParamsFirst parts)
    (htokens : (Tree.tokensOfAll parts).Pairwise fun t u => t.stop ≤ u.start) :
    (ofTree (.node r parts)).InOrder ∧ AllInOrder (inside (.node r parts)) := by
  refine ⟨?_, (drawn_ownOf parts).allInOrder hparts hproper htokens⟩
  have hrule : (ofRule (.node r parts) r (piecesOf parts)).InOrder := by
    rcases drawn_ofRule (x := .node r parts) hparams with h | ⟨y, hy, heq⟩
    · exact inOrder_iff.mpr (h.allInOrder hparts hproper htokens)
    · rw [heq]
      exact (hparts y hy).1
  rw [ofTree]
  rcases documented_eq (.node r parts) r (piecesOf parts) with heq | ⟨d, -, heq⟩
  · rwa [heq]
  · rw [heq]
    exact hrule.document d

/-- A function has at most one list of parameters, which stands before its only body. -/
theorem paramsFirst_of_fits {d : Nat} {r : Rule} {parts : List Tree}
    (hr : r = .functionDeclaration ∨ r = .functionExpression)
    (h : itemsFit (Formed d) r.items parts) : ParamsFirst parts := by
  have hleaf {kind : TokenKind} {y : Tree} (hy : Part.Fits (Formed d) (.token kind) y)
      (zs : List Tree) (hzs : ParamsFirst zs) : ParamsFirst (y :: zs) := by
    obtain ⟨t, rfl, -⟩ := hy
    exact List.pairwise_cons.mpr ⟨fun _ _ => .inl ⟨t, rfl⟩, hzs⟩
  -- declarations and expressions end alike, with the parentheses and the body
  have htail {xs : List Tree} (h : itemsFit (Formed d) [.mark .lparen,
      .optional [.phrase .params], .mark .rparen, .phrase .functionBody] xs) : ParamsFirst xs := by
    obtain ⟨y, ys, rfl, hy, hys⟩ := itemsFit_one.mp h
    have hend {zs : List Tree}
        (h : itemsFit (Formed d) [.mark .rparen, .phrase .functionBody] zs) :
        ParamsFirst zs ∧
          ∀ z ∈ zs, (∃ t, z = .leaf t) ∨ ∃ r qs, z = .node r qs ∧ r ≠ .params := by
      obtain ⟨u, us, rfl, hu, hus⟩ := itemsFit_one.mp h
      obtain ⟨b, _, rfl, hb, rfl⟩ := itemsFit_one.mp hus
      obtain ⟨r, ps, -, rfl, hr, -⟩ :=
        formed_by_rule (show Formed d .functionBody b from hb) (fun _ => rfl) rfl fun _ _ => rfl
      obtain rfl : r = .functionBody := List.mem_singleton.mp hr
      refine ⟨hleaf hu _ (List.pairwise_singleton ..), List.forall_mem_cons.mpr ⟨?_,
        List.forall_mem_singleton.mpr (.inr ⟨_, _, rfl, by simp⟩)⟩⟩
      obtain ⟨t, ht, -⟩ := hu
      exact .inl ⟨t, ht⟩
    refine hleaf hy ys ?_
    rcases itemsFit_optional.mp hys with hys | ⟨p, zs, rfl, hp, hzs⟩
    · exact (hend hys).1
    · obtain ⟨r, ps, -, rfl, hr, -⟩ :=
        formed_by_rule (show Formed d .params p from hp) (fun _ => rfl) rfl fun _ _ => rfl
      obtain rfl : r = .params := List.mem_singleton.mp hr
      obtain ⟨hfirst, hrest⟩ := hend hzs
      exact List.pairwise_cons.mpr
        ⟨fun z hz => (hrest z hz).elim (.inr ∘ .inl) fun h => .inr (.inr ⟨⟨ps, rfl⟩, h⟩), hfirst⟩
  rcases hr with rfl | rfl
  · obtain ⟨y, ys, rfl, hy, hys⟩ := itemsFit_one.mp h
    obtain ⟨z, zs, rfl, hz, hzs⟩ := itemsFit_one.mp hys
    exact hleaf hy _ (hleaf hz _ (htail hzs))
  · obtain ⟨y, ys, rfl, hy, hys⟩ := itemsFit_one.mp h
    rcases itemsFit_optional.mp hys with hzs | ⟨z, zs, rfl, hz, hzs⟩
    · exact hleaf hy _ (htail hzs)
    · exact hleaf hy _ (hleaf hz _ (htail hzs))

/-- A phrase that the grammar forms is made of tokens and of phrases that it forms, and its
parameters stand before its body. -/
theorem parts_of_formed {depth : Nat} {c : Category} {r : Rule} {parts : List Tree}
    (h : Formed depth c (.node r parts)) :
    (∀ y ∈ parts, (∃ t, y = .leaf t) ∨ ∃ d c, Formed d c y) ∧
      (r = .functionDeclaration ∨ r = .functionExpression → ParamsFirst parts) := by
  rcases formed_parts h with ⟨-, d, hitems⟩ | ⟨hr, d, d', c', y, ys, rfl, -, hy, hitems⟩
  · exact ⟨leaf_or_formed hitems, fun hr => paramsFirst_of_fits hr hitems⟩
  · refine ⟨List.forall_mem_cons.mpr ⟨.inr ⟨d', c', hy⟩, leaf_or_formed hitems⟩, ?_⟩
    rintro (rfl | rfl) <;> exact absurd hr (by decide)

/-- The expression statements in a phrase that the grammar forms end with a semicolon. -/
theorem exists_semicolon_of_formed {depth : Nat} {c : Category} {x : Tree} (h : Formed depth c x)
    {parts : List Tree} (hinside : (Script.Tree.node .expressionStatement parts).Inside x) :
    ∃ y t, parts = [y, .leaf t] ∧ t.kind = .mark .semicolon := by
  induction x using Tree.induction_on generalizing depth c with
  | leaf t => cases hinside
  | node r ps ih =>
    cases hinside with
    | here =>
      rcases formed_parts h with ⟨-, d, hitems⟩ | ⟨hr, -⟩
      · obtain ⟨y, _, rfl, -, hys⟩ := itemsFit_one.mp hitems
        obtain ⟨_, _, rfl, ⟨t, rfl, ht⟩, rfl⟩ := itemsFit_one.mp hys
        exact ⟨y, t, rfl, ht⟩
      · exact absurd hr (by decide)
    | part hy hinside =>
      rcases (parts_of_formed h).1 _ hy with ⟨t, rfl⟩ | ⟨d, c', hy'⟩
      · cases hinside
      · exact ih _ hy hy' hinside

theorem proper_of_formed {depth : Nat} {c : Category} {x : Tree} (h : Formed depth c x) :
    x.Proper := by
  intro parts hinside
  obtain ⟨y, t, rfl, -⟩ := exists_semicolon_of_formed h hinside
  simp [Tree.tokens, Tree.tokensOfAll]

/-- The sketch of a phrase that the grammar forms is in order. -/
theorem inOrder_of_formed {depth : Nat} {c : Category} {x : Tree} (h : Formed depth c x)
    (htokens : x.tokens.Pairwise fun t u => t.stop ≤ u.start) :
    (ofTree x).InOrder ∧ AllInOrder (inside x) := by
  have hleaf (t : Token) :
      (ofTree (.leaf t)).InOrder ∧ AllInOrder (inside (.leaf t)) := by
    refine ⟨inOrder_of_bare ?_, .nil, List.forall_mem_nil _⟩
    rw [ofTree_leaf, ofToken]
    cases t.kind <;> rfl
  induction x using Tree.induction_on generalizing depth c with
  | leaf t => exact hleaf t
  | node r parts ih =>
    obtain ⟨hparts, hparams⟩ := parts_of_formed h
    have htokens' : (Tree.tokensOfAll parts).Pairwise fun t u => t.stop ≤ u.start := htokens
    have hpart {y : Tree} (hy : y ∈ parts) : y.tokens.Pairwise fun t u => t.stop ≤ u.start :=
      htokens'.sublist (Tree.tokens_sublist hy)
    refine inOrder_node (fun y hy => ?_) (fun y hy => (proper_of_formed h).part hy) hparams htokens'
    rcases hparts y hy with ⟨t, rfl⟩ | ⟨d, c', hy'⟩
    · exact hleaf t
    · exact ih y hy hy' (hpart hy)

end Sketch

/-! ## Scripts -/

namespace Script

/-- The tokens of a text that can be read are those of its statements. -/
theorem exists_cutInto_of_read {text : String} {statements : List Tree}
    (h : read text = .ok statements) : ∃ ls, CutInto text.toList ls ∧
      tokensFrom .origin ls = Tree.tokensOfAll statements := by
  obtain ⟨hstand, hending⟩ := Program.statementsStand_of_read h
  obtain ⟨ls, hls⟩ := exists_cutInto_iff.mpr hending
  refine ⟨ls, hls, ?_⟩
  have htokens := TakesRepeated.tokens_eq (fun h => Stands.tokens_eq h) hstand
  rwa [List.append_nil, hls.scan_eq] at htokens

end Script

/-- The sketch of a script that can be read is in order. -/
theorem Program.inOrder_scriptSketch {path text : String} {length : Nat} {statements : List Tree}
    (h : Script.read text = .ok statements) : (scriptSketch path length statements).InOrder := by
  obtain ⟨ls, hls, htokens⟩ := Script.exists_cutInto_of_read h
  have hpair := Script.pairwise_tokensFrom hls.ne_nil .origin
  rw [htokens] at hpair
  have hformed := Program.mem_statements (Program.statementsStand_of_read h).1
  refine Sketch.inOrder_iff.mpr ((Sketch.drawn_ownOf statements).allInOrder (fun x hx => ?_)
    (fun x hx => ?_) hpair)
  · obtain ⟨depth, hx'⟩ := hformed x hx
    exact Sketch.inOrder_of_formed hx' (hpair.sublist (Tree.tokens_sublist hx))
  · obtain ⟨depth, hx'⟩ := hformed x hx
    exact Sketch.proper_of_formed hx'

namespace Program

/-! ## Nodes one after the other -/

/-- Somewhere the first node hangs below an earlier child than the second. -/
def Before (p : Program) (a b : Handle) : Prop :=
  ∃ n c d, [c, d].Sublist (p.childrenOf n) ∧ p.Below c a ∧ p.Below d b

/-- What the walk visits first is inside what it visits later, or stands before it. -/
theorem Forest.pairwise_postOrder {p : Program} (hp : p.Forest) (n : Handle) :
    (p.postOrder n).Pairwise fun a b => p.Below b a ∨ p.Before a b := by
  refine hp.induction_on (motive := fun n =>
    (p.postOrder n).Pairwise fun a b => p.Below b a ∨ p.Before a b) n fun n ih => ?_
  rw [hp.postOrder_eq, List.pairwise_append]
  refine ⟨List.pairwise_flatMap.mpr ⟨ih, ?_⟩, List.pairwise_singleton .., ?_⟩
  · refine List.pairwise_iff_forall_sublist.mpr fun {c d} hcd a ha b hb => ?_
    exact .inr ⟨n, c, d, hcd, hp.mem_postOrder_iff.mp ha, hp.mem_postOrder_iff.mp hb⟩
  · intro a ha b hb
    rw [List.mem_singleton.mp hb]
    obtain ⟨c, hc, ha⟩ := List.mem_flatMap.mp ha
    exact .inl ((Below.here.child (hp.mem_children_iff.mp hc)).trans (hp.mem_postOrder_iff.mp ha))

section

variable {p : Program} (hp : p.Forest) {a b : Handle}
include hp

/-- What is above the first node only stands before what is above the second only. -/
theorem Before.of_below (h : p.Before a b) {x y : Handle} (hxa : p.Below x a) (hyb : p.Below y b)
    (hxb : ¬ p.Below x b) (hya : ¬ p.Below y a) : p.Before x y := by
  obtain ⟨n, c, d, hcd, hca, hdb⟩ := h
  have hc := hp.mem_children_iff.mp (hcd.subset (List.mem_cons_self ..))
  have hd := hp.mem_children_iff.mp (hcd.subset (List.mem_cons_of_mem _ (List.mem_cons_self ..)))
  -- above the child is the node itself, with both children below it
  have hbelow {x c : Handle} (h : p.Below x c) (hc : p.parentOf c = some n) (hne : ¬ p.Below x n) :
      p.Below c x := by
    cases h with
    | here => exact .here
    | child above link =>
      rw [hc] at link
      cases link
      exact absurd above hne
  refine ⟨n, c, d, hcd, ?_, ?_⟩
  · rcases hca.comparable hxa with h | h
    · exact h
    · exact hbelow h hc fun hn => hxb ((hn.child hd).trans hdb)
  · rcases hdb.comparable hyb with h | h
    · exact h
    · exact hbelow h hd fun hn => hya ((hn.child hc).trans hca)

/-- Of two expression statements in a script whose sketch is in order, the one that stands
before the other ends before the other begins. -/
theorem Before.stop_le_start (h : p.Before a b) {script : Handle} {s : Sketch}
    (hs : p.Shows script s) (horder : s.InOrder) (ha : p.Below script a) (hb : p.Below script b)
    {t u : Sketch} (ht : p.Shows a t) (hu : p.Shows b u) (hkt : t.kind = .exprResult)
    (hku : u.kind = .exprResult) : t.extent.stop ≤ u.extent.start := by
  obtain ⟨n, c, d, hcd, hca, hdb⟩ := h
  have hc := hp.mem_children_iff.mp (hcd.subset (List.mem_cons_self ..))
  have hd := hp.mem_children_iff.mp (hcd.subset (List.mem_cons_of_mem _ (List.mem_cons_self ..)))
  -- the node above both is in the script, for no child of it is above both
  have hn : p.Below script n := by
    have hnot : ¬ p.Below c script := by
      intro hcs
      have hsame := hp.child_eq_of_below hc hd (hcs.trans hb) hdb
      have hnodup := (hp.nodup_children n).sublist hcd
      rw [hsame] at hnodup
      exact absurd (List.mem_singleton_self d) (List.nodup_cons.mp hnodup).1
    rcases hca.comparable ha with h | h
    · exact absurd h hnot
    · cases h with
      | here => exact absurd .here hnot
      | child above link =>
        rw [hc] at link
        cases link
        exact above
  obtain ⟨v, hv, hwithin⟩ := hs.below hp hn
  have hpair : (p.childrenOf n).Pairwise fun c d =>
      ∃ c' d', p.Shows c c' ∧ p.Shows d d' ∧ Sketch.Precedes c' d' :=
    pairwise_of_forall₂ hv.childrenOf.flip (horder v hwithin) fun {c' d' c d} hprecedes hc hd =>
      ⟨c', d', hc, hd, hprecedes⟩
  obtain ⟨c', d', hc', hd', hprecedes⟩ := List.pairwise_iff_forall_sublist.mp hpair hcd
  obtain ⟨t', ht', hwt⟩ := hc'.below hp hca
  obtain ⟨u', hu', hwu⟩ := hd'.below hp hdb
  have hkind {n : Handle} {s t : Sketch} (hs : p.Shows n s) (ht : p.Shows n t) :
      s.kind = t.kind := Option.some.inj (hs.kindOf?.symm.trans ht.kindOf?)
  have hextent {n : Handle} {s t : Sketch} (hs : p.Shows n s) (ht : p.Shows n t) :
      s.extent = t.extent := by
    obtain ⟨node, hnode, -, -, -, hs, -⟩ := shows_iff.mp hs
    obtain ⟨node', hnode', -, -, -, ht, -⟩ := shows_iff.mp ht
    rw [hnode] at hnode'
    cases hnode'
    exact hs.symm.trans ht
  rw [hextent ht ht', hextent hu hu']
  exact hprecedes t' u' hwt hwu ((hkind ht' ht).trans hkt) ((hkind hu' hu).trans hku)

end

end Program

end SuperForward
