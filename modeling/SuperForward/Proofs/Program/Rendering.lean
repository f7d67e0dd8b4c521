/-
  Every statement has its node, and every documentation comment its statement.

  What hangs below the node of a phrase renders the parts of the phrase: each part in which a
  statement stands has its own sketch there, or the sketches of the phrases inside it, once.
  So a statement inside a phrase has its sketch inside that of the phrase, and the documentation
  in a sketch is, up to order, that of the statements inside the phrase.
-/
import SuperForward.Proofs.Program.Ordering
import SuperForward.Proofs.Script.Rearranging

namespace SuperForward

open SuperForward.Script

namespace Script

namespace Tree

/-! ## Statements inside phrases -/

/-- A rule of statements has formed the phrase. -/
def isStatement : Tree → Bool
  | .leaf _ => false
  | .node r _ => r.isStatement

/-- No statement stands in the phrase. -/
def Silent (x : Tree) : Prop := ∀ y : Tree, y.Inside x → y.isStatement = false

theorem silent_leaf (t : Token) : (Tree.leaf t).Silent := by
  intro y hy
  cases hy
  rfl

theorem silent_node {r : Rule} {parts : List Tree} (hr : r.isStatement = false)
    (hparts : ∀ y ∈ parts, y.Silent) : (Tree.node r parts).Silent := by
  intro y hy
  cases hy with
  | here => exact hr
  | part hx h => exact hparts _ hx y h

mutual

/-- The documentation of the statements inside a phrase; that of a statement comes after that of
the statements inside it. -/
def docs : Tree → List DocComment
  | .leaf _ => []
  | .node r parts =>
    docsOfAll parts ++ if r.isStatement then (Tree.node r parts).docBefore?.toList else []

/-- The documentation of the statements inside several phrases. -/
def docsOfAll : List Tree → List DocComment
  | [] => []
  | x :: xs => x.docs ++ docsOfAll xs

end

theorem mem_docsOfAll {xs : List Tree} {d : DocComment} :
    d ∈ docsOfAll xs ↔ ∃ x ∈ xs, d ∈ x.docs := by
  induction xs with
  | nil => simp [docsOfAll]
  | cons x xs ih => simp [docsOfAll, ih]

/-- Documentation inside a phrase is that before a statement inside it. -/
theorem exists_statement_of_mem_docs {x : Tree} {d : DocComment} (h : d ∈ x.docs) :
    ∃ y : Tree, y.Inside x ∧ y.isStatement = true ∧ y.docBefore? = some d := by
  induction x using Tree.induction_on with
  | leaf t => exact absurd h List.not_mem_nil
  | node r parts ih =>
    rw [docs] at h
    rcases List.mem_append.mp h with h | h
    · obtain ⟨x, hx, hd⟩ := mem_docsOfAll.mp h
      obtain ⟨y, hy, hstatement⟩ := ih x hx hd
      exact ⟨y, .part hx hy, hstatement⟩
    · split at h
      · next hr => exact ⟨_, .here, hr, Option.mem_toList.mp h⟩
      · exact absurd h List.not_mem_nil

theorem Silent.docs_eq_nil {x : Tree} (h : x.Silent) : x.docs = [] := by
  rw [List.eq_nil_iff_forall_not_mem]
  intro d hd
  obtain ⟨y, hy, hstatement, -⟩ := exists_statement_of_mem_docs hd
  rw [h y hy] at hstatement
  cases hstatement

end Tree

/-- The rules of all other categories form no statements. -/
theorem Category.not_isStatement_of_mem_rules {c : Category} (hstatement : c ≠ .statement)
    (hblock : c ≠ .block) {r : Rule} (h : r ∈ c.rules) : r.isStatement = false := by
  have hall : (Category.all.all fun c =>
      c == .statement || c == .block || c.rules.all fun r => !r.isStatement) = true := by
    decide
  have hc := List.all_eq_true.mp hall c (Category.mem_all c)
  simp only [Bool.or_eq_true, beq_iff_eq, hstatement, hblock, false_or] at hc
  exact Bool.not_eq_true' _ |>.mp (List.all_eq_true.mp hc r h)

theorem not_isStatement_of_extending {r : Rule} (h : r ∈ extendingRules) :
    r.isStatement = false := by
  have hall : ∀ r ∈ extendingRules, r.isStatement = false := by decide
  exact hall r h

/-- Only where a statement or a block is asked for, a statement is formed. -/
theorem Formable.not_isStatement {c : Category} {x : Tree} (h : Formable c x)
    (hstatement : c ≠ .statement) (hblock : c ≠ .block) : x.isStatement = false := by
  obtain ⟨depth, h⟩ := h
  induction depth generalizing c with
  | zero => exact h.elim
  | succ depth ih =>
    replace h : FormedPhrase (Formed depth) c x := h
    cases h with
    | token => rfl
    | through predicted inner =>
      have hnarrower := Category.narrower_of_predict predicted
      refine ih ?_ ?_ inner <;> rintro rfl <;> cases c <;> cases hnarrower
    | rule predicted =>
      exact Category.not_isStatement_of_mem_rules hstatement hblock
        (Category.rule_mem_of_predict predicted)
    | extended _ extension =>
      exact not_isStatement_of_extending (Category.extension_eq extension).1

/-- A statement begins with a token that a statement may begin with. -/
theorem Formable.starts_statement {c : Category} {x : Tree} (h : Formable c x)
    (hx : x.isStatement = true) :
    ∀ t ∈ x.tokens.head?, Category.statement.startsWith t.kind = true := by
  obtain ⟨t, ts, htokens, hstarts⟩ := h.first
  rw [htokens]
  rintro _ ⟨⟩
  by_cases hstatement : c = .statement
  · exact hstatement ▸ hstarts
  by_cases hblock : c = .block
  · subst hblock
    rw [eq_of_beq hstarts]
    rfl
  · rw [h.not_isStatement hstatement hblock] at hx
    cases hx

theorem Part.Fits.not_isStatement {p : Part} {x : Tree} (h : p.Fits Formable x)
    (hstatement : p ≠ .phrase .statement) (hblock : p ≠ .phrase .block) :
    x.isStatement = false := by
  cases p with
  | token kind =>
    obtain ⟨t, rfl, -⟩ := h
    rfl
  | phrase c =>
    exact Formable.not_isStatement h (fun hc => hstatement (hc ▸ rfl)) fun hc => hblock (hc ▸ rfl)

/-- What a phrase is made of: what its rule asks for, after an expression if the rule extends
one. -/
theorem Formable.parts {c : Category} {r : Rule} {parts : List Tree}
    (h : Formable c (.node r parts)) :
    (r ∉ extendingRules ∧ itemsFit Formable r.items parts) ∨
      r ∈ extendingRules ∧ ∃ d y ys, parts = y :: ys ∧ Formable d y ∧ y.isStatement = false ∧
        itemsFit Formable r.items ys := by
  obtain ⟨depth, h⟩ := h
  induction depth generalizing c with
  | zero => exact h.elim
  | succ depth ih =>
    have hfits {xs : List Tree} (h : itemsFit (Formed depth) r.items xs) :
        itemsFit Formable r.items xs :=
      itemsFit_mono (fun _ _ _ hx => ⟨depth, hx⟩) h
    replace h : FormedPhrase (Formed depth) c (.node r parts) := h
    cases h with
    | through _ inner => exact ih inner
    | rule predicted items =>
      exact .inl ⟨Sketch.Category.not_extending (Category.rule_mem_of_predict predicted), hfits items⟩
    | extended inner extension items =>
      obtain ⟨hr, hc⟩ := Category.extension_eq extension
      have hinner : Formable c _ := ⟨depth + 1, inner⟩
      refine .inr ⟨hr, c, _, _, rfl, hinner, hinner.not_isStatement ?_ ?_, hfits items⟩ <;>
        rintro rfl <;> obtain ⟨_, _, h⟩ | h := hc <;> cases h

/-- A phrase that is formed of single tokens has no statements in it. -/
theorem Formable.silent_parts {c : Category} {r : Rule} {parts : List Tree}
    (h : Formable c (.node r parts)) (hr : r ∉ extendingRules)
    (htokens : ∀ p ∈ r.items.flatMap Item.asks, ∃ kind, p = .token kind) :
    ∀ y ∈ parts, y.Silent := by
  obtain ⟨-, hitems⟩ | ⟨hr', -⟩ := h.parts
  · intro y hy
    obtain ⟨p, hp, hfit⟩ := itemsFit_mem hitems y hy
    obtain ⟨kind, rfl⟩ := htokens p hp
    obtain ⟨t, rfl, -⟩ := hfit
    exact Tree.silent_leaf t
  · exact absurd hr' hr

/-- A word or a mark that is a phrase of its own has no statements in it. -/
theorem Formable.silent_of_single {c : Category} {x : Tree} (h : Formable c x)
    (hplain : c.isExtended = false) (hnarrower : c.narrower? = none) (hrules : c.rules = []) :
    x.Silent := by
  obtain ⟨t, rfl, -⟩ := h.eq_leaf hplain hnarrower hrules
  exact Tree.silent_leaf t

/-- The name of a property has no statements in it. -/
theorem Formable.silent_propertyName {c : Category} {parts : List Tree}
    (h : Formable c (.node .propertyName parts)) : (Tree.node .propertyName parts).Silent := by
  refine Tree.silent_node rfl ?_
  obtain ⟨-, hitems⟩ | ⟨hr, -⟩ := h.parts
  · obtain ⟨y, _, rfl, hy, rfl⟩ := itemsFit_one.mp hitems
    exact List.forall_mem_singleton.mpr (Formable.silent_of_single hy rfl rfl rfl)
  · exact absurd hr (by decide)

theorem Formable.eq_propertyName {x : Tree} (h : Formable .propertyName x) :
    ∃ parts, x = .node .propertyName parts := by
  obtain ⟨t, -, ht⟩ | ⟨d, hd, -⟩ | ⟨r, hr, parts, rfl, -⟩ := h.eq_plain rfl
  · cases ht
  · cases hd
  · exact ⟨parts, by rw [List.mem_singleton.mp hr]⟩

/-- A phrase that the grammar forms is made of tokens and of phrases that it forms. -/
theorem Formable.leaf_or_formable {c : Category} {r : Rule} {parts : List Tree}
    (h : Formable c (.node r parts)) {y : Tree} (hy : y ∈ parts) :
    (∃ t, y = .leaf t) ∨ ∃ d, Formable d y := by
  have hpart {xs : List Tree} (hxs : itemsFit Formable r.items xs) (hy : y ∈ xs) :
      (∃ t, y = .leaf t) ∨ ∃ d, Formable d y := by
    obtain ⟨p, -, hfit⟩ := itemsFit_mem hxs y hy
    cases p with
    | token kind =>
      obtain ⟨t, rfl, -⟩ := hfit
      exact .inl ⟨t, rfl⟩
    | phrase d => exact .inr ⟨d, hfit⟩
  obtain ⟨-, hitems⟩ | ⟨-, d, z, zs, rfl, hz, -, hitems⟩ := h.parts
  · exact hpart hitems hy
  · rcases List.mem_cons.mp hy with rfl | hy
    · exact .inr ⟨d, hz⟩
    · exact hpart hitems hy

/-- A statement inside a phrase that the grammar forms is formed by it. -/
theorem Formable.of_inside {c : Category} {x y : Tree} (h : Formable c x) (hinside : y.Inside x)
    (hy : y.isStatement = true) : ∃ d, Formable d y := by
  induction hinside generalizing c with
  | here => exact ⟨c, h⟩
  | part hz hinside ih =>
    rcases h.leaf_or_formable hz with ⟨t, rfl⟩ | ⟨d, hz'⟩
    · cases hinside
      cases hy
    · exact ih hz'

/-- Parts without a node of their own have no statements in them. -/
theorem Formable.silent_of_not_makesNode {c : Category} {r : Rule} {parts : List Tree}
    (h : Formable c (.node r parts)) :
    ∀ y ∈ parts, y.makesNode = false → y.Silent := by
  intro y hy hnode
  rcases h.leaf_or_formable hy with ⟨t, rfl⟩ | ⟨d, hy'⟩
  · exact Tree.silent_leaf t
  · cases y with
    | leaf t => exact Tree.silent_leaf t
    | node r parts =>
      cases r <;> first
        | exact hy'.silent_propertyName
        | cases hnode

end Script

/-! ## Sketches that render phrases -/

namespace Sketch

/-- The sketches render the phrases, one after the other: a phrase in which a statement stands
has its own sketch or, if it is no statement itself, those of the phrases inside it. Nodes
without documentation may stand between them or gather the sketches of the phrases inside one
phrase. -/
inductive Rendered : List Sketch → List Tree → Prop
  | nil : Rendered [] []
  | silent {cs : List Sketch} {x : Tree} {xs : List Tree} (hx : x.Silent) (h : Rendered cs xs) :
      Rendered cs (x :: xs)
  | own {cs : List Sketch} {x : Tree} {xs : List Tree} (h : Rendered cs xs) :
      Rendered (ofTree x :: cs) (x :: xs)
  | inner {cs : List Sketch} {x : Tree} {xs : List Tree} (hx : x.isStatement = false)
      (h : Rendered cs xs) : Rendered (inside x ++ cs) (x :: xs)
  | bare {s : Sketch} {cs : List Sketch} {xs : List Tree} (hdoc : s.doc = none)
      (hbare : s.children = []) (h : Rendered cs xs) : Rendered (s :: cs) xs
  | gathered {s : Sketch} {cs : List Sketch} {x : Tree} {xs : List Tree}
      (hx : x.isStatement = false) (hdoc : s.doc = none) (hchildren : s.children = inside x)
      (h : Rendered cs xs) : Rendered (s :: cs) (x :: xs)

theorem rendered_nil {xs : List Tree} (h : ∀ x ∈ xs, x.Silent) : Rendered [] xs := by
  induction xs with
  | nil => exact .nil
  | cons x xs ih =>
    obtain ⟨hx, hxs⟩ := List.forall_mem_cons.mp h
    exact .silent hx (ih hxs)

theorem Rendered.append {cs ds : List Sketch} {xs ys : List Tree} (h : Rendered cs xs)
    (h' : Rendered ds ys) : Rendered (cs ++ ds) (xs ++ ys) := by
  induction h with
  | nil => exact h'
  | silent hx _ ih => exact .silent hx ih
  | own _ ih => exact .own ih
  | inner hx _ ih => exact List.append_assoc .. ▸ .inner hx ih
  | bare hdoc hbare _ ih => exact .bare hdoc hbare ih
  | gathered hx hdoc hchildren _ ih => exact .gathered hx hdoc hchildren ih

theorem rendered_ownOf {xs : List Tree} (h : ∀ x ∈ xs, x.makesNode = false → x.Silent) :
    Rendered (ownOf (piecesOf xs)) xs := by
  induction xs with
  | nil => exact .nil
  | cons x xs ih =>
    obtain ⟨hx, hxs⟩ := List.forall_mem_cons.mp h
    rw [piecesOf, ownOf]
    split
    · exact .own (ih hxs)
    · next hnode => exact .silent (hx (Bool.eq_false_iff.mpr hnode)) (ih hxs)

/-- After its parameters, a function has its body. -/
theorem rendered_body {xs : List Tree} (h : ParamsFirst xs)
    (hparams : ∀ x ∈ xs, ¬ ∃ ps, x = .node .params ps) :
    Rendered (functionParts (piecesOf xs)).2 xs := by
  induction xs with
  | nil => exact .nil
  | cons x xs ih =>
    obtain ⟨hx, hxs⟩ := List.forall_mem_cons.mp hparams
    cases x with
    | leaf t =>
      rw [piecesOf, functionParts_leaf rfl]
      exact .silent (Tree.silent_leaf t) (ih (List.pairwise_cons.mp h).2 hxs)
    | node r ps =>
      have hr : r ≠ .params := by
        rintro rfl
        exact hx ⟨ps, rfl⟩
      rw [piecesOf, functionParts_node rfl hr]
      refine .own (rendered_nil fun z hz => ?_)
      obtain ⟨t, rfl⟩ := h.after_body hr z hz
      exact Tree.silent_leaf t

/-- The parameter list and the body of a function render its parts. -/
theorem rendered_functionParts {parts : List Tree} (h : ParamsFirst parts) (e : Extent) :
    Rendered (fresh .paramList "" e (functionParts (piecesOf parts)).1 ::
      (functionParts (piecesOf parts)).2) parts := by
  induction parts with
  | nil => exact .bare rfl rfl .nil
  | cons x xs ih =>
    cases x with
    | leaf t =>
      rw [piecesOf, functionParts_leaf rfl]
      exact .silent (Tree.silent_leaf t) (ih (List.pairwise_cons.mp h).2)
    | node r ps =>
      by_cases hr : r = .params
      · subst hr
        rw [piecesOf, functionParts_params rfl]
        exact .gathered rfl rfl rfl
          (rendered_body (List.pairwise_cons.mp h).2 h.after_params)
      · have hleaves : ∀ z ∈ xs, z.Silent := by
          intro z hz
          obtain ⟨t, rfl⟩ := h.after_body hr z hz
          exact Tree.silent_leaf t
        rw [piecesOf, functionParts_node rfl hr, params_eq_nil]
        · exact .bare rfl rfl (.own (rendered_nil hleaves))
        · rintro z hz ⟨qs, rfl⟩
          obtain ⟨t, ht⟩ := h.after_body hr _ hz
          cases ht

section Rules

variable {x : Tree} {c : Category} {parts : List Tree}

/-- Parentheses around one expression leave the node of that expression. -/
theorem rendered_parenthesized (h : Formable c (.node .parenthesized parts)) :
    ((ofRule x .parenthesized (piecesOf parts)).doc = none ∧
        Rendered (ofRule x .parenthesized (piecesOf parts)).children parts) ∨
      ∃ y ∈ parts, y.isStatement = false ∧
        ofRule x .parenthesized (piecesOf parts) = ofTree y ∧ Rendered [ofTree y] parts := by
  have hown := rendered_ownOf h.silent_of_not_makesNode
  rw [ofRule]
  generalize hss : ownOf (piecesOf parts) = ss at hown
  rcases ss with _ | ⟨s, _ | ⟨t, ts⟩⟩
  · exact .inl ⟨rfl, hown⟩
  · obtain ⟨y, hy, -, rfl⟩ := @mem_ownOf parts s (by rw [hss]; exact List.mem_singleton_self s)
    refine .inr ⟨y, hy, ?_, rfl, hown⟩
    obtain ⟨-, hitems⟩ | ⟨hr, -⟩ := h.parts
    · obtain ⟨p, hp, hfit⟩ := itemsFit_mem hitems y hy
      have hasks : ∀ p ∈ Rule.parenthesized.items.flatMap Item.asks,
          p ≠ .phrase .statement ∧ p ≠ .phrase .block := by
        decide
      exact hfit.not_isStatement (hasks p hp).1 (hasks p hp).2
    · exact absurd hr (by decide)
  · exact .inl ⟨rfl, hown⟩

/-- The node of a function has a bare name, and the parameters and the body of the phrase. -/
theorem rendered_function (hparams : ParamsFirst parts) :
    Rendered (function x (piecesOf parts)).children parts := by
  refine .bare ?_ ?_ (rendered_functionParts hparams _) <;> unfold functionNameNode <;> split <;>
    rfl

/-- The name of a declared variable is its text, so that it has no node of its own. -/
theorem rendered_declarator (h : Formable c (.node .declarator parts)) :
    (ofRule x .declarator (piecesOf parts)).doc = none ∧
      Rendered (ofRule x .declarator (piecesOf parts)).children parts := by
  obtain ⟨-, hitems⟩ | ⟨hr, -⟩ := h.parts
  · obtain ⟨y, ys, rfl, ⟨t, rfl, -⟩, -⟩ := itemsFit_one.mp hitems
    refine ⟨rfl, .silent (Tree.silent_leaf t) (rendered_ownOf fun z hz => ?_)⟩
    exact h.silent_of_not_makesNode z (List.mem_cons_of_mem _ hz)
  · exact absurd hr (by decide)

/-- The name of a property is the text of its node. -/
theorem rendered_getProp (h : Formable c (.node .getProp parts)) :
    (ofRule x .getProp (piecesOf parts)).doc = none ∧
      Rendered (ofRule x .getProp (piecesOf parts)).children parts := by
  obtain ⟨hr, -⟩ | ⟨-, d, a, _, rfl, -, -, hitems⟩ := h.parts
  · exact absurd (by decide) hr
  obtain ⟨dot, _, rfl, -, hitems⟩ := itemsFit_one.mp hitems
  obtain ⟨name, _, rfl, hname, rfl⟩ := itemsFit_one.mp hitems
  obtain ⟨ps, rfl⟩ := Formable.eq_propertyName hname
  have htwo : Rendered (ownOf (piecesOf [a, dot])) [a, dot] := rendered_ownOf fun z hz =>
    h.silent_of_not_makesNode z (List.mem_append_left _ hz)
  have hthree := htwo.append (.silent (Formable.silent_propertyName hname) .nil)
  rw [List.append_nil] at hthree
  exact ⟨rfl, hthree⟩

/-- The arguments of a call stand beside the node of what is called. -/
theorem rendered_call (h : Formable c (.node .call parts)) :
    (ofRule x .call (piecesOf parts)).doc = none ∧
      Rendered (ofRule x .call (piecesOf parts)).children parts := by
  obtain ⟨hr, -⟩ | ⟨-, d, a, _, rfl, -, -, hitems⟩ := h.parts
  · exact absurd (by decide) hr
  obtain ⟨b, _, rfl, hb, rfl⟩ := itemsFit_one.mp hitems
  have harguments := Formable.not_isStatement hb (by simp) (by simp)
  have hboth : Rendered (ofTree a :: (inside b ++ [])) [a, b] := .own (.inner harguments .nil)
  rw [List.append_nil] at hboth
  exact ⟨rfl, hboth⟩

/-- The mark of an assignment has no node, so that both its sides are left. -/
theorem rendered_assign (h : Formable c (.node .assign parts)) :
    (ofRule x .assign (piecesOf parts)).doc = none ∧
      Rendered (ofRule x .assign (piecesOf parts)).children parts := by
  obtain ⟨hr, -⟩ | ⟨-, d, a, _, rfl, -, -, hitems⟩ := h.parts
  · exact absurd (by decide) hr
  obtain ⟨o, _, rfl, ho, hitems⟩ := itemsFit_one.mp hitems
  obtain ⟨b, _, rfl, -, rfl⟩ := itemsFit_one.mp hitems
  have hsilent : o.Silent := Formable.silent_of_single ho rfl rfl rfl
  have hboth : Rendered [ofTree a, ofTree b] [a, o, b] := .own (.silent hsilent (.own .nil))
  simp only [piecesOf, ofRule]
  split <;> exact ⟨rfl, hboth⟩

/-- What hangs below the node of a rule renders the parts of the phrase, and the node has no
documentation from the rule; parentheses leave the node of what they hold. -/
theorem rendered_ofRule {r : Rule} (h : Formable c (.node r parts)) :
    ((ofRule x r (piecesOf parts)).doc = none ∧
        Rendered (ofRule x r (piecesOf parts)).children parts) ∨
      r.isStatement = false ∧ ∃ y ∈ parts, y.isStatement = false ∧
        ofRule x r (piecesOf parts) = ofTree y ∧ Rendered [ofTree y] parts := by
  have hown := rendered_ownOf h.silent_of_not_makesNode
  have hparams : r = .functionDeclaration ∨ r = .functionExpression → ParamsFirst parts :=
    (parts_of_formed h.choose_spec).2
  have hleaves (hr : r ∉ extendingRules)
      (htokens : ∀ p ∈ r.items.flatMap Item.asks, ∃ kind, p = .token kind) :
      Rendered [] parts :=
    rendered_nil (h.silent_parts hr htokens)
  cases r
  case parenthesized => exact (rendered_parenthesized h).imp_right fun h => ⟨rfl, h⟩
  case functionDeclaration => exact .inl ⟨rfl, rendered_function (hparams (.inl rfl))⟩
  case functionExpression => exact .inl ⟨rfl, rendered_function (hparams (.inr rfl))⟩
  case declarator => exact .inl (rendered_declarator h)
  case name => exact .inl ⟨rfl, hleaves (by decide) (by simp [Rule.items, Item.asks])⟩
  case simpleParam => exact .inl ⟨rfl, hleaves (by decide) (by simp [Rule.items, Item.asks])⟩
  case this => exact .inl ⟨rfl, hleaves (by decide) (by simp [Rule.items, Item.asks])⟩
  case number => exact .inl ⟨rfl, hleaves (by decide) (by simp [Rule.items, Item.asks])⟩
  case string => exact .inl ⟨rfl, hleaves (by decide) (by simp [Rule.items, Item.asks])⟩
  case template => exact .inl ⟨rfl, hleaves (by decide) (by simp [Rule.items, Item.asks])⟩
  case getProp => exact .inl (rendered_getProp h)
  case call => exact .inl (rendered_call h)
  case assign => exact .inl (rendered_assign h)
  -- all other rules put every node of their parts below their own
  all_goals exact .inl ⟨rfl, hown⟩

end Rules

/-! ## Documentation in sketches -/

mutual

/-- The documentation in a sketch; that of the topmost node comes last. -/
def docs : Sketch → List DocComment
  | .mk _ _ doc _ children => docsOfAll children ++ doc.toList

/-- The documentation in several sketches. -/
def docsOfAll : List Sketch → List DocComment
  | [] => []
  | s :: ss => s.docs ++ docsOfAll ss

end

theorem docs_eq (s : Sketch) : s.docs = docsOfAll s.children ++ s.doc.toList := by
  cases s
  rfl

theorem docsOfAll_append (ss ts : List Sketch) :
    docsOfAll (ss ++ ts) = docsOfAll ss ++ docsOfAll ts := by
  induction ss with
  | nil => rfl
  | cons s ss ih => rw [List.cons_append, docsOfAll, docsOfAll, ih, List.append_assoc]

/-- Expressions and other phrases that are no statements make nodes without documentation. -/
theorem doc_eq_none {c : Category} {x : Tree} (h : Formable c x) (hx : x.isStatement = false) :
    (ofTree x).doc = none := by
  have hleaf (t : Token) : (ofTree (.leaf t)).doc = none := by
    rw [ofTree_leaf, ofToken]
    cases t.kind <;> rfl
  induction x using Tree.induction_on generalizing c with
  | leaf t => exact hleaf t
  | node r parts ih =>
    have hrule : ofTree (.node r parts) = ofRule (.node r parts) r (piecesOf parts) := by
      rw [ofTree, documented, show r.isStatement = false from hx]
      rfl
    rw [hrule]
    rcases rendered_ofRule h with ⟨hdoc, -⟩ | ⟨-, y, hy, hnot, heq, -⟩
    · exact hdoc
    · rw [heq]
      rcases h.leaf_or_formable hy with ⟨t, rfl⟩ | ⟨d, hy'⟩
      · exact hleaf t
      · exact ih y hy hy' hnot

/-- What is below an expression statement has no documentation from the parts. -/
theorem doc_eq_none_of_expressionStatement {c : Category} {parts : List Tree}
    (h : Formable c (.node .expressionStatement parts)) {s : Sketch}
    (hs : s ∈ ownOf (piecesOf parts)) : s.doc = none := by
  obtain ⟨y, hy, -, rfl⟩ := mem_ownOf hs
  obtain ⟨-, hitems⟩ | ⟨hr, -⟩ := h.parts
  · obtain ⟨p, hp, hfit⟩ := itemsFit_mem hitems y hy
    have hasks : ∀ p ∈ Rule.expressionStatement.items.flatMap Item.asks,
        p ≠ .phrase .statement ∧ p ≠ .phrase .block := by
      decide
    have hnot := hfit.not_isStatement (hasks p hp).1 (hasks p hp).2
    rcases h.leaf_or_formable hy with ⟨t, rfl⟩ | ⟨d, hy'⟩
    · rw [ofTree_leaf, ofToken]
      cases t.kind <;> rfl
    · exact doc_eq_none hy' hnot
  · exact absurd hr (by decide)

/-- Documentation that a statement gets is added to what is in its sketch. -/
theorem docs_document {s : Sketch} (hdoc : s.doc = none)
    (hchildren : s.kind = .exprResult → ∀ c ∈ s.children, c.doc = none) (d : DocComment) :
    (s.document d).docs.Perm (d :: s.docs) := by
  have hset {s : Sketch} (hdoc : s.doc = none) : (s.setDoc d).docs.Perm (d :: s.docs) := by
    obtain ⟨kind, text, doc, e, cs⟩ := s
    cases hdoc
    rw [setDoc, docs, docs]
    exact (List.perm_append_singleton d _).trans (List.append_nil _ ▸ .refl _)
  rcases document_eq s d with heq | ⟨text, doc, e, c, cs, rfl, -, heq⟩
  · rw [heq]
    exact hset hdoc
  · rw [heq, docs, docs, docsOfAll, docsOfAll]
    exact ((hset (hchildren rfl c (List.mem_cons_self ..))).append_right _).append_right _

/-- The documentation in sketches that render phrases is that of the statements inside the
phrases. -/
theorem Rendered.docs_perm {cs : List Sketch} {xs : List Tree} (h : Rendered cs xs)
    (hxs : ∀ x ∈ xs, (ofTree x).docs.Perm x.docs ∧
      (x.isStatement = false → (docsOfAll (inside x)).Perm x.docs)) :
    (docsOfAll cs).Perm (Tree.docsOfAll xs) := by
  induction h with
  | nil => exact .refl _
  | silent hx _ ih =>
    rw [Tree.docsOfAll, hx.docs_eq_nil]
    exact ih (List.forall_mem_cons.mp hxs).2
  | own _ ih =>
    obtain ⟨⟨hown, -⟩, hrest⟩ := List.forall_mem_cons.mp hxs
    exact hown.append (ih hrest)
  | inner hx _ ih =>
    obtain ⟨⟨-, hinside⟩, hrest⟩ := List.forall_mem_cons.mp hxs
    rw [docsOfAll_append]
    exact (hinside hx).append (ih hrest)
  | bare hdoc hbare _ ih =>
    rw [docsOfAll, docs_eq, hdoc, hbare]
    exact ih hxs
  | gathered hx hdoc hchildren _ ih =>
    obtain ⟨⟨-, hinside⟩, hrest⟩ := List.forall_mem_cons.mp hxs
    rw [docsOfAll, docs_eq, hdoc, hchildren, Option.toList_none, List.append_nil]
    exact (hinside hx).append (ih hrest)

/-- The documentation in the sketch of a phrase is that of the statements inside the phrase. -/
theorem docs_perm {c : Category} {x : Tree} (h : Formable c x) :
    (ofTree x).docs.Perm x.docs ∧
      (x.isStatement = false → (docsOfAll (inside x)).Perm x.docs) := by
  have hleaf (t : Token) : (ofTree (.leaf t)).docs.Perm (Tree.leaf t).docs ∧
      ((Tree.leaf t).isStatement = false →
        (docsOfAll (inside (.leaf t))).Perm (Tree.leaf t).docs) := by
    refine ⟨?_, fun _ => .refl _⟩
    rw [ofTree_leaf, ofToken]
    cases t.kind <;> exact .refl _
  induction x using Tree.induction_on generalizing c with
  | leaf t => exact hleaf t
  | node r parts ih =>
    have hparts : ∀ y ∈ parts, (ofTree y).docs.Perm y.docs ∧
        (y.isStatement = false → (docsOfAll (inside y)).Perm y.docs) := by
      intro y hy
      rcases h.leaf_or_formable hy with ⟨t, rfl⟩ | ⟨d, hy'⟩
      · exact hleaf t
      · exact ih y hy hy'
    have hrule : (ofRule (.node r parts) r (piecesOf parts)).docs.Perm (Tree.docsOfAll parts) := by
      rcases rendered_ofRule h with ⟨hdoc, hrendered⟩ | ⟨-, y, -, -, heq, hrendered⟩
      · rw [docs_eq, hdoc]
        exact (List.append_nil _).symm ▸ hrendered.docs_perm hparts
      · rw [heq]
        have := hrendered.docs_perm hparts
        rwa [docsOfAll, docsOfAll, List.append_nil] at this
    have hinside : (docsOfAll (inside (.node r parts))).Perm (Tree.docsOfAll parts) :=
      (rendered_ownOf h.silent_of_not_makesNode).docs_perm hparts
    rw [Tree.docs, ofTree, documented]
    -- a statement has its own comment besides those of its parts, and it is put at the end here
    cases hr : r.isStatement with
    | false =>
      rw [if_neg (by simp), if_neg (by simp), List.append_nil]
      exact ⟨hrule, fun _ => hinside⟩
    | true =>
      rw [if_pos rfl, if_pos rfl]
      refine ⟨?_, fun hnot => absurd (hr.symm.trans hnot) (by simp)⟩
      cases (Script.Tree.node r parts).docBefore? with
      | none => exact (List.append_nil _).symm ▸ hrule
      | some d =>
        have hdocument := docs_document (s := ofRule (.node r parts) r (piecesOf parts)) ?_ ?_ d
        · exact (hdocument.trans (hrule.cons d)).trans (List.perm_append_singleton d _).symm
        · rcases rendered_ofRule h with ⟨hdoc, -⟩ | ⟨hnot, -⟩
          · exact hdoc
          · rw [hr] at hnot
            cases hnot
        · intro hkind s hs
          rcases eq_of_kind_exprResult hkind with rfl | ⟨hnot, -⟩
          · exact doc_eq_none_of_expressionStatement h hs
          · rw [hr] at hnot
            cases hnot

/-! ## Sketches of statements -/

/-- No statement makes an assignment of its own. -/
theorem kind_ne_assign {y : Tree} (hy : y.isStatement = true) : (ofTree y).kind ≠ .assign := by
  cases y with
  | leaf t => cases hy
  | node r parts =>
    rw [ofTree, kind_documented]
    cases r <;> first
      | (intro h; cases h)
      | cases hy

/-- Documentation changes nothing but an assignment below a statement. -/
theorem within_document {s t c : Sketch} (hc : c ∈ t.children) (h : Within s c)
    (hkind : s.kind ≠ .assign) (d : DocComment) : Within s (t.document d) := by
  rcases document_eq t d with heq | ⟨text, doc, e, c₀, cs, rfl, hassign, heq⟩
  · rw [heq]
    exact .child (by rwa [children_setDoc]) h
  · rw [heq]
    rcases List.mem_cons.mp hc with rfl | hc
    · cases h with
      | here => exact absurd hassign hkind
      | child hd h =>
        exact .child (List.mem_cons_self ..) (.child (by rwa [children_setDoc]) h)
    · exact .child (List.mem_cons_of_mem _ hc) h

/-- Where phrases are rendered, a statement inside one of them has its sketch. -/
theorem Rendered.exists_within {cs : List Sketch} {xs : List Tree} (h : Rendered cs xs) {y : Tree}
    (hy : y.isStatement = true)
    (hxs : ∀ x ∈ xs, y.Inside x → Within (ofTree y) (ofTree x) ∧
      (x.isStatement = false → ∃ s ∈ inside x, Within (ofTree y) s))
    {x : Tree} (hx : x ∈ xs) (hinside : y.Inside x) : ∃ c ∈ cs, Within (ofTree y) c := by
  -- by how each phrase is rendered; one that is silent has no statement inside
  induction h with
  | nil => exact absurd hx List.not_mem_nil
  | silent hsilent _ ih =>
    rcases List.mem_cons.mp hx with rfl | hx
    · rw [hsilent y hinside] at hy
      cases hy
    · exact ih (List.forall_mem_cons.mp hxs).2 hx
  | own _ ih =>
    obtain ⟨hfirst, hrest⟩ := List.forall_mem_cons.mp hxs
    rcases List.mem_cons.mp hx with rfl | hx
    · exact ⟨_, List.mem_cons_self .., (hfirst hinside).1⟩
    · obtain ⟨c, hc, hwithin⟩ := ih hrest hx
      exact ⟨c, List.mem_cons_of_mem _ hc, hwithin⟩
  | inner hnot _ ih =>
    obtain ⟨hfirst, hrest⟩ := List.forall_mem_cons.mp hxs
    rcases List.mem_cons.mp hx with rfl | hx
    · obtain ⟨s, hs, hwithin⟩ := (hfirst hinside).2 hnot
      exact ⟨s, List.mem_append_left _ hs, hwithin⟩
    · obtain ⟨c, hc, hwithin⟩ := ih hrest hx
      exact ⟨c, List.mem_append_right _ hc, hwithin⟩
  | bare _ _ _ ih =>
    obtain ⟨c, hc, hwithin⟩ := ih hxs hx
    exact ⟨c, List.mem_cons_of_mem _ hc, hwithin⟩
  | gathered hnot _ hchildren _ ih =>
    obtain ⟨hfirst, hrest⟩ := List.forall_mem_cons.mp hxs
    rcases List.mem_cons.mp hx with rfl | hx
    · obtain ⟨s, hs, hwithin⟩ := (hfirst hinside).2 hnot
      exact ⟨_, List.mem_cons_self .., .child (hchildren ▸ hs) hwithin⟩
    · obtain ⟨c, hc, hwithin⟩ := ih hrest hx
      exact ⟨c, List.mem_cons_of_mem _ hc, hwithin⟩

/-- A statement inside a phrase has its sketch inside that of the phrase. -/
theorem within_of_inside {c : Category} {x y : Tree} (h : Formable c x)
    (hy : y.isStatement = true) (hinside : y.Inside x) : Within (ofTree y) (ofTree x) ∧
      (x.isStatement = false → ∃ s ∈ inside x, Within (ofTree y) s) := by
  induction x using Tree.induction_on generalizing c with
  | leaf t =>
    cases hinside
    cases hy
  | node r parts ih =>
    cases hinside with
    | here => exact ⟨.here, fun hnot => absurd (hy.symm.trans hnot) (by simp)⟩
    | part hz hinside =>
      have hparts : ∀ w ∈ parts, y.Inside w → Within (ofTree y) (ofTree w) ∧
          (w.isStatement = false → ∃ s ∈ inside w, Within (ofTree y) s) := by
        intro w hw hyw
        rcases h.leaf_or_formable hw with ⟨t, rfl⟩ | ⟨d, hw'⟩
        · cases hyw
          cases hy
        · exact ih w hw hw' hyw
      refine ⟨?_, fun _ => (rendered_ownOf h.silent_of_not_makesNode).exists_within hy hparts hz
        hinside⟩
      rw [show ofTree (.node r parts) = documented (.node r parts) r (piecesOf parts) from rfl]
      -- the comment of the phrase may be put at a child, but never at a statement
      rcases rendered_ofRule h with ⟨-, hrendered⟩ | ⟨hnot, w, -, -, heq, hrendered⟩
      · obtain ⟨s, hs, hwithin⟩ := hrendered.exists_within hy hparts hz hinside
        rcases documented_eq (.node r parts) r (piecesOf parts) with heq | ⟨d, -, heq⟩ <;> rw [heq]
        · exact .child hs hwithin
        · exact within_document hs hwithin (kind_ne_assign hy) d
      · obtain ⟨s, hs, hwithin⟩ := hrendered.exists_within hy hparts hz hinside
        rw [List.mem_singleton.mp hs] at hwithin
        rcases documented_eq (.node r parts) r (piecesOf parts) with heq' | ⟨d, hr, -⟩
        · rwa [heq', heq]
        · rw [hnot] at hr
          cases hr

end Sketch

end SuperForward
