/-
  The shape of what phrases make.

  Which children a node has depends on its sort: a function has a name, a list of parameters
  and a body, an assignment has two sides, an expression statement has one expression, and so
  on. Only declared variables have an initialiser below their name. Texts of names and of
  properties are single segments of dotted names.

  The shape follows from the rules of the grammar alone, by induction on how phrases nest.
-/
import SuperForward.Proofs.Program.Sketch
import SuperForward.Proofs.Script.Phrase
import SuperForward.Proofs.Script.Reading
import SuperForward.Proofs.Script.Spelling

namespace SuperForward

open SuperForward.Script

namespace Sketch

/-! ## Shapes -/

/-- A sketch is, or hangs somewhere below, another one. -/
inductive Within (t : Sketch) : Sketch → Prop
  | here : Within t t
  | child {s c : Sketch} (hc : c ∈ s.children) (h : Within t c) : Within t s

/-- What holds of a node and of everything in its children holds of everything in it. -/
theorem forall_within {P : Sketch → Prop} {s : Sketch} (h : P s)
    (hcs : ∀ c ∈ s.children, ∀ t, Within t c → P t) : ∀ t, Within t s → P t := by
  intro t ht
  cases ht with
  | here => exact h
  | child hc ht => exact hcs _ hc t ht

/-- A name without anything below it, or something else than a name; and no expression
statement. -/
structure Plain (s : Sketch) : Prop where
  name : s.kind = .name → s.children = []
  ne_exprResult : s.kind ≠ .exprResult

/-- A parameter is a plain name, or a name with something added. -/
def IsParam (s : Sketch) : Prop := (s.kind = .name ∧ s.children = []) ∨ s.kind = .other

/-- The text and the children that a node of a sort has. -/
def Fits : NodeKind → String → List Sketch → Prop
  | .function, _, cs => ∃ name params body, cs = [name, params, body] ∧
      name.kind = .name ∧ params.kind = .paramList ∧ body.kind = .block
  | .paramList, _, cs => ∀ c ∈ cs, c.IsParam
  | .assign, _, cs => ∃ target value, cs = [target, value]
  | .exprResult, _, cs => ∃ c, cs = [c]
  | .returnStmt, _, cs => cs.length ≤ 1
  | .call, _, cs => cs ≠ []
  | .getProp, text, cs => IsSegment text ∧ ∃ target, cs = [target]
  | .name, text, _ => text = "" ∨ IsSegment text
  | .this, _, cs => cs = []
  | .root, _, _ | .script, _, _ => False
  | _, _, _ => True

/-- A node has the text and the children that its sort demands. Names with something below
them and expression statements stand only in certain places. -/
structure Shaped (s : Sketch) : Prop where
  fits : Fits s.kind s.text s.children
  names : ∀ c ∈ s.children, c.kind = .name → c.children = [] ∨ s.kind = .var ∨ s.kind = .other
  statements : ∀ c ∈ s.children, c.kind = .exprResult → s.kind = .block ∨ s.kind = .other

/-- All nodes have their shape. -/
def Regular (s : Sketch) : Prop := ∀ t, Within t s → Shaped t

theorem Regular.shaped {s : Sketch} (h : s.Regular) : s.Shaped := h s .here

theorem Regular.child {s c : Sketch} (h : s.Regular) (hc : c ∈ s.children) : c.Regular :=
  fun t ht => h t (.child hc ht)

theorem regular_of_children {s : Sketch} (h : s.Shaped) (hcs : ∀ c ∈ s.children, c.Regular) :
    s.Regular := forall_within h hcs

/-- Plain nodes may stand anywhere. -/
theorem regular_fresh {kind : NodeKind} {text : String} {e : Extent} {cs : List Sketch}
    (hfits : Fits kind text cs) (hplain : ∀ c ∈ cs, c.Plain) (hcs : ∀ c ∈ cs, c.Regular) :
    (fresh kind text e cs).Regular := by
  refine regular_of_children ⟨hfits, ?_, ?_⟩ hcs
  · intro c hc hname
    exact .inl ((hplain c hc).name hname)
  · intro c hc hexpr
    exact absurd hexpr (hplain c hc).ne_exprResult

/-- A node above one plain node. -/
theorem regular_fresh_singleton {kind : NodeKind} {text : String} {e : Extent} {c : Sketch}
    (hfits : Fits kind text [c]) (hplain : c.Plain) (hc : c.Regular) :
    (fresh kind text e [c]).Regular := by
  refine regular_fresh hfits ?_ ?_
  · intro s hs
    rw [List.mem_singleton.mp hs]
    exact hplain
  · intro s hs
    rw [List.mem_singleton.mp hs]
    exact hc

theorem regular_leaf {kind : NodeKind} {text : String} {e : Extent} (h : Fits kind text []) :
    (fresh kind text e []).Regular :=
  regular_fresh h (fun _ h => absurd h List.not_mem_nil) (fun _ h => absurd h List.not_mem_nil)

/-- A node without a sort of its own may stand above anything. -/
theorem regular_other {text : String} {e : Extent} {cs : List Sketch}
    (hcs : ∀ c ∈ cs, c.Regular) : (fresh .other text e cs).Regular :=
  regular_of_children ⟨trivial, fun _ _ _ => .inr (.inr rfl), fun _ _ _ => .inr rfl⟩ hcs

/-! ## Documentation does not matter -/

theorem kind_setDoc (s : Sketch) (d : DocComment) : (s.setDoc d).kind = s.kind := by
  cases s; rfl

theorem children_setDoc (s : Sketch) (d : DocComment) : (s.setDoc d).children = s.children := by
  cases s; rfl

theorem regular_setDoc {s : Sketch} (h : s.Regular) (d : DocComment) : (s.setDoc d).Regular := by
  cases s with
  | mk kind text doc e cs =>
    have hs := h.shaped
    exact regular_of_children ⟨hs.fits, hs.names, hs.statements⟩ fun c hc => h.child hc

/-- An expression statement that is documented differs in its assignment or not at all. -/
theorem document_eq (s : Sketch) (d : DocComment) :
    s.document d = s.setDoc d ∨ ∃ text doc e c cs, s = .mk .exprResult text doc e (c :: cs) ∧
      c.kind = .assign ∧ s.document d = .mk .exprResult text doc e (c.setDoc d :: cs) := by
  obtain ⟨kind, text, doc, e, cs⟩ := s
  cases kind
  case exprResult =>
    cases cs with
    | nil => exact .inl rfl
    | cons c cs =>
      rw [document]
      by_cases hc : c.kind = .assign
      · rw [if_pos hc]
        exact .inr ⟨text, doc, e, c, cs, rfl, hc, rfl⟩
      · rw [if_neg hc]
        exact .inl rfl
  all_goals exact .inl rfl

theorem kind_document (s : Sketch) (d : DocComment) : (s.document d).kind = s.kind := by
  rcases document_eq s d with h | ⟨text, doc, e, c, cs, rfl, -, h⟩
  · rw [h, kind_setDoc]
  · rw [h]
    rfl

theorem children_document {s : Sketch} (d : DocComment) (h : s.kind ≠ .exprResult) :
    (s.document d).children = s.children := by
  rcases document_eq s d with h' | ⟨text, doc, e, c, cs, rfl, -, -⟩
  · rw [h', children_setDoc]
  · exact absurd rfl h

theorem regular_document {s : Sketch} (h : s.Regular) (d : DocComment) :
    (s.document d).Regular := by
  rcases document_eq s d with h' | ⟨text, doc, e, c, cs, rfl, hc, h'⟩
  · rw [h']
    exact regular_setDoc h d
  · rw [h']
    have hs := h.shaped
    obtain ⟨_, hcs⟩ : ∃ c', c :: cs = [c'] := hs.fits
    obtain ⟨-, rfl⟩ := List.cons.inj hcs
    refine regular_of_children ⟨⟨_, rfl⟩, ?_, ?_⟩ ?_
    · intro c' hc' hname
      rw [List.mem_singleton.mp hc', kind_setDoc, hc] at hname
      cases hname
    · intro c' hc' hexpr
      rw [List.mem_singleton.mp hc', kind_setDoc, hc] at hexpr
      cases hexpr
    · intro c' hc'
      rw [List.mem_singleton.mp hc']
      exact regular_setDoc (h.child (List.mem_cons_self ..)) d

/-! ## Parts -/

/-- What holds of the sketch of a part of a phrase that has a node. -/
theorem mem_ownOf {xs : List Tree} {s : Sketch} (h : s ∈ ownOf (piecesOf xs)) :
    ∃ x ∈ xs, x.makesNode = true ∧ s = ofTree x := by
  rw [ownOf_piecesOf] at h
  obtain ⟨x, hx, rfl⟩ := List.mem_map.mp h
  obtain ⟨hx, hnode⟩ := List.mem_filter.mp hx
  exact ⟨x, hx, hnode, rfl⟩

theorem ofTree_leaf (t : Token) : ofTree (.leaf t) = ofToken t := rfl

theorem regular_ofToken {t : Token} (h : t.Spelled) : (ofToken t).Regular := by
  unfold ofToken
  cases hkind : t.kind with
  | name => exact regular_leaf (.inr (h.isSegment (.inl hkind)))
  | number => exact regular_leaf trivial
  | string => exact regular_leaf trivial
  | template => exact regular_leaf trivial
  | keyword w => exact regular_leaf trivial
  | mark m => exact regular_leaf trivial

theorem plain_ofToken (t : Token) : (ofToken t).Plain := by
  unfold ofToken
  cases t.kind <;> exact ⟨fun _ => rfl, by simp [fresh, kind]⟩

/-- A category of expressions. -/
def IsExpression (c : Category) : Prop :=
  (∃ rank lead, c = .expression rank lead) ∨ (∃ lead, c = .primary lead) ∨ c = .newTarget

/-- What the grammar says about the nodes that a phrase of a category makes. -/
structure Lawful (c : Category) (x : Tree) : Prop where
  regular : (ofTree x).Regular
  inside : ∀ s ∈ inside x, s.Regular
  plain : c ≠ .declarator → c ≠ .statement → (ofTree x).Plain
  ne_name : c = .statement → (ofTree x).kind ≠ .name
  ne_exprResult : c = .declarator → (ofTree x).kind ≠ .exprResult
  makesNode : IsExpression c → x.makesNode = true
  body : c = .functionBody → (ofTree x).kind = .block ∧ ∃ parts, x = .node .functionBody parts
  arguments : c = .arguments → ∀ s ∈ Sketch.inside x, s.Plain
  params : c = .params → (∃ parts, x = .node .params parts) ∧ ∀ s ∈ Sketch.inside x, s.IsParam
  param : c = .param → (ofTree x).IsParam
  propertyName : c = .propertyName → IsSegment x.headText ∧ x.makesNode = false
  word : c = .propertyWord → ∃ t, x = .leaf t ∧ (t.kind = .name ∨ ∃ w, t.kind = .keyword w)

section Parts

variable {is : List Item} {parts : List Tree}

theorem Lawful.plain_part {p : Part} {x : Tree} (h : p.Fits Lawful x)
    (hp : p ≠ .phrase .declarator ∧ p ≠ .phrase .statement) : (ofTree x).Plain := by
  cases p with
  | token kind =>
    obtain ⟨t, rfl, -⟩ := h
    exact plain_ofToken t
  | phrase c =>
    have hx : Lawful c x := h
    exact hx.plain (fun h => hp.1 (h ▸ rfl)) (fun h => hp.2 (h ▸ rfl))

theorem Lawful.regular_part {p : Part} {x : Tree} (h : p.Fits Lawful x)
    (htokens : ∀ t ∈ x.tokens, t.Spelled) : (ofTree x).Regular := by
  cases p with
  | token kind =>
    obtain ⟨t, rfl, -⟩ := h
    exact regular_ofToken (htokens t (List.mem_singleton_self t))
  | phrase c => exact Lawful.regular h

theorem mem_tokensOfAll {xs : List Tree} {x : Tree} (hx : x ∈ xs) {t : Token}
    (ht : t ∈ x.tokens) : t ∈ Tree.tokensOfAll xs := by
  induction xs with
  | nil => exact absurd hx List.not_mem_nil
  | cons y ys ih =>
    rw [Tree.tokensOfAll, List.mem_append]
    rcases List.mem_cons.mp hx with rfl | hx
    · exact .inl ht
    · exact .inr (ih hx)

/-- The nodes of parts are regular. -/
theorem regular_ownOf (hparts : ∀ x ∈ parts, ∃ p : Part, p.Fits Lawful x)
    (htokens : ∀ t ∈ Tree.tokensOfAll parts, t.Spelled) :
    ∀ s ∈ ownOf (piecesOf parts), s.Regular := by
  intro s hs
  obtain ⟨x, hx, -, rfl⟩ := mem_ownOf hs
  obtain ⟨p, hp⟩ := hparts x hx
  exact Lawful.regular_part hp fun t ht => htokens t (mem_tokensOfAll hx ht)

/-- The nodes of parts are plain, unless statements or declared variables are asked for. -/
theorem plain_ownOf (h : itemsFit Lawful is parts)
    (his : .phrase .declarator ∉ is.flatMap Item.asks ∧ .phrase .statement ∉ is.flatMap Item.asks) :
    ∀ s ∈ ownOf (piecesOf parts), s.Plain := by
  intro s hs
  obtain ⟨x, hx, -, rfl⟩ := mem_ownOf hs
  obtain ⟨p, hp, hfit⟩ := itemsFit_mem h x hx
  exact Lawful.plain_part hfit ⟨fun h => his.1 (h ▸ hp), fun h => his.2 (h ▸ hp)⟩

end Parts

/-- The sketch of a phrase that is documented, and is regular if it is without that. -/
theorem documented_eq (x : Tree) (r : Rule) (ps : List Piece) :
    documented x r ps = ofRule x r ps ∨
      ∃ d, r.isStatement = true ∧ documented x r ps = (ofRule x r ps).document d := by
  unfold documented
  cases r.isStatement with
  | false => exact .inl rfl
  | true =>
    simp only [if_true]
    cases x.docBefore? with
    | none => exact .inl rfl
    | some d => exact .inr ⟨d, trivial, rfl⟩

theorem regular_documented {x : Tree} {r : Rule} {ps : List Piece}
    (h : (ofRule x r ps).Regular) : (documented x r ps).Regular := by
  rcases documented_eq x r ps with h' | ⟨d, -, h'⟩
  · rw [h']
    exact h
  · rw [h']
    exact regular_document h d

theorem kind_documented (x : Tree) (r : Rule) (ps : List Piece) :
    (documented x r ps).kind = (ofRule x r ps).kind := by
  rcases documented_eq x r ps with h' | ⟨d, -, h'⟩
  · rw [h']
  · rw [h', kind_document]

/-- Marks and words make no nodes. -/
theorem makesNode_leaf {t : Token}
    (h : (∃ w, t.kind = .keyword w) ∨ ∃ m, t.kind = .mark m) : (Tree.leaf t).makesNode = false := by
  unfold Tree.makesNode
  rcases h with ⟨w, h⟩ | ⟨m, h⟩ <;> simp [h]

/-! ## Rules -/

section Rules

variable {is : List Item} {parts : List Tree} (htokens : ∀ t ∈ Tree.tokensOfAll parts, t.Spelled)
include htokens

omit htokens in
theorem ownOf_cons_node {x : Tree} {xs : List Tree} (h : x.makesNode = true) :
    ownOf (piecesOf (x :: xs)) = ofTree x :: ownOf (piecesOf xs) := by
  rw [piecesOf, ownOf, if_pos h]

omit htokens in
theorem ownOf_cons_skip {x : Tree} {xs : List Tree} (h : x.makesNode = false) :
    ownOf (piecesOf (x :: xs)) = ownOf (piecesOf xs) := by
  rw [piecesOf, ownOf, if_neg (by simp [h])]

omit htokens in
theorem skip_of_fits {kind : TokenKind} {x : Tree} (h : (Part.token kind).Fits Lawful x)
    (hkind : (∃ w, kind = .keyword w) ∨ ∃ m, kind = .mark m) : x.makesNode = false := by
  obtain ⟨t, rfl, rfl⟩ := h
  exact makesNode_leaf hkind

omit htokens in
/-- The node of an expression statement. -/
theorem ownOf_expressionStatement (h : itemsFit Lawful Rule.expressionStatement.items parts) :
    ∃ x, Lawful (.expression .sequence .atStatement) x ∧
      ownOf (piecesOf parts) = [ofTree x] := by
  simp only [Rule.items, itemsFit_one, itemsFit_nil] at h
  obtain ⟨x, _, rfl, hx, y, _, rfl, hy, rfl⟩ := h
  have hx' : Lawful (.expression .sequence .atStatement) x := hx
  refine ⟨x, hx', ?_⟩
  rw [ownOf_cons_node (hx'.makesNode (.inl ⟨_, _, rfl⟩)),
    ownOf_cons_skip (skip_of_fits hy (.inr ⟨_, rfl⟩))]
  rfl

omit htokens in
/-- The nodes of a return statement: what is returned, if anything is. -/
theorem ownOf_returnStatement (h : itemsFit Lawful Rule.returnStatement.items parts) :
    ownOf (piecesOf parts) = [] ∨
      ∃ x, Lawful .anyExpression x ∧ ownOf (piecesOf parts) = [ofTree x] := by
  simp only [Rule.items, itemsFit_one, itemsFit_optional, itemsFit_nil] at h
  obtain ⟨k, _, rfl, hk, ⟨y, _, rfl, hy, rfl⟩ | ⟨x, _, rfl, hx, y, _, rfl, hy, rfl⟩⟩ := h
  · left
    rw [ownOf_cons_skip (skip_of_fits hk (.inl ⟨_, rfl⟩)),
      ownOf_cons_skip (skip_of_fits hy (.inr ⟨_, rfl⟩))]
    rfl
  · right
    have hx' : Lawful .anyExpression x := hx
    refine ⟨x, hx', ?_⟩
    rw [ownOf_cons_skip (skip_of_fits hk (.inl ⟨_, rfl⟩)),
      ownOf_cons_node (hx'.makesNode (.inl ⟨_, _, rfl⟩)),
      ownOf_cons_skip (skip_of_fits hy (.inr ⟨_, rfl⟩))]
    rfl

/-- Statements between braces. -/
theorem regular_block {e : Extent}
    (h : itemsFit Lawful [.mark .lbrace, .repeated [.phrase .statement], .mark .rbrace] parts) :
    (fresh .block "" e (ownOf (piecesOf parts))).Regular := by
  have hregular := regular_ownOf (fun x hx => (itemsFit_mem h x hx).imp fun _ h => h.2) htokens
  refine regular_of_children ⟨trivial, ?_, fun _ _ _ => .inl rfl⟩ hregular
  intro s hs hname
  obtain ⟨x, hx, hnode, rfl⟩ := mem_ownOf hs
  obtain ⟨p, hp, hfit⟩ := itemsFit_mem h x hx
  simp only [List.flatMap_cons, List.flatMap_nil, Item.asks, List.singleton_append, List.append_nil,
    List.mem_cons, List.not_mem_nil, or_false] at hp
  rcases hp with rfl | rfl | rfl
  · rw [skip_of_fits hfit (.inr ⟨_, rfl⟩)] at hnode
    cases hnode
  · exact absurd hname (Lawful.ne_name hfit rfl)
  · rw [skip_of_fits hfit (.inr ⟨_, rfl⟩)] at hnode
    cases hnode

omit htokens in
theorem headText_cons_leaf (r : Rule) (t : Token) (xs : List Tree) :
    (Script.Tree.node r (.leaf t :: xs)).headText = t.text := by
  simp [Tree.headText, Tree.firstToken?, Tree.firstTokenOfAll?]

omit htokens in
/-- What is made of the last parts of a function: its parameters, if it has any, and its body. -/
theorem functionParts_of_fits {p : Part} (hp : ∃ m, p = .token (.mark m)) {q : Part}
    (hq : ∃ m, q = .token (.mark m))
    (h : itemsFit Lawful [.one p, .optional [.phrase .params], .one q, .phrase .functionBody]
      parts) :
    ∃ params body, functionParts (piecesOf parts) = (params, [body]) ∧
      (∀ s ∈ params, s.IsParam ∧ s.Regular) ∧ body.kind = .block ∧ body.Regular := by
  obtain ⟨m, rfl⟩ := hp
  obtain ⟨m', rfl⟩ := hq
  have hbody {b : Tree} (hb : Lawful .functionBody b) :
      functionParts (piecesOf [b]) = ([], [ofTree b]) := by
    obtain ⟨-, ps, rfl⟩ := hb.body rfl
    rw [piecesOf, functionParts_node rfl (by simp)]
    rfl
  simp only [itemsFit_one, itemsFit_optional, itemsFit_nil] at h
  obtain ⟨_, _, rfl, ⟨t, rfl, -⟩, ⟨_, _, rfl, ⟨t', rfl, -⟩, b, _, rfl, hb, rfl⟩ |
    ⟨x, _, rfl, hx, _, _, rfl, ⟨t', rfl, -⟩, b, _, rfl, hb, rfl⟩⟩ := h
  · have hb' : Lawful .functionBody b := hb
    refine ⟨[], ofTree b, ?_, by simp, (hb'.body rfl).1, hb'.regular⟩
    rw [piecesOf, functionParts_leaf rfl, piecesOf, functionParts_leaf rfl, hbody hb']
  · have hx' : Lawful .params x := hx
    have hb' : Lawful .functionBody b := hb
    obtain ⟨⟨ps, rfl⟩, hparams⟩ := hx'.params rfl
    refine ⟨inside (.node .params ps), ofTree b, ?_, ?_, (hb'.body rfl).1, hb'.regular⟩
    · rw [piecesOf, functionParts_leaf rfl, piecesOf, functionParts_params rfl, piecesOf,
        functionParts_leaf rfl, hbody hb']
    · exact fun s hs => ⟨hparams s hs, hx'.inside s hs⟩

/-- A function has a name, a list of parameters and a body. -/
theorem regular_function {params : List Sketch} {body : Sketch}
    (h : functionParts (piecesOf parts) = (params, [body]))
    (hparams : ∀ s ∈ params, s.IsParam ∧ s.Regular) (hkind : body.kind = .block)
    (hbody : body.Regular) (x : Tree) : (function x (piecesOf parts)).Regular := by
  have hname : (functionNameNode x (functionName? (piecesOf parts))).Regular ∧
      (functionNameNode x (functionName? (piecesOf parts))).kind = .name ∧
      (functionNameNode x (functionName? (piecesOf parts))).children = [] := by
    cases hfound : functionName? (piecesOf parts) with
    | none => exact ⟨regular_leaf (.inl rfl), rfl, rfl⟩
    -- the name is one of the tokens, so it is spelled as the lexer cuts names off
    | some t =>
      refine ⟨regular_leaf (.inr ?_), rfl, rfl⟩
      obtain ⟨piece, hpiece, hleaf⟩ := List.exists_of_findSome?_eq_some hfound
      rw [piecesOf_eq_map] at hpiece
      obtain ⟨y, hy, rfl⟩ := List.mem_map.mp hpiece
      cases y with
      | node => cases hleaf
      | leaf t' =>
        simp only at hleaf
        split at hleaf
        · next hkind =>
          cases hleaf
          have hspelled : t.Spelled :=
            htokens t (mem_tokensOfAll hy (List.mem_singleton_self t))
          exact hspelled.isSegment (.inl hkind)
        · cases hleaf
  have hlist {e : Extent} : (fresh .paramList "" e params).Regular := by
    refine regular_fresh (fun s hs => (hparams s hs).1) ?_ (fun s hs => (hparams s hs).2)
    intro s hs
    rcases (hparams s hs).1 with ⟨hk, hc⟩ | hk
    · exact ⟨fun _ => hc, by simp [hk]⟩
    · exact ⟨by simp [hk], by simp [hk]⟩
  unfold function
  rw [h]
  refine regular_fresh ⟨_, _, _, rfl, hname.2.1, rfl, hkind⟩ ?_ ?_
  · intro s hs
    simp only [List.mem_cons, List.not_mem_nil, or_false] at hs
    rcases hs with rfl | rfl | rfl
    · exact ⟨fun _ => hname.2.2, by simp [hname.2.1]⟩
    · exact ⟨by simp [fresh, kind], by simp [fresh, kind]⟩
    · exact ⟨by simp [hkind], by simp [hkind]⟩
  · intro s hs
    simp only [List.mem_cons, List.not_mem_nil, or_false] at hs
    rcases hs with rfl | rfl | rfl
    · exact hname.1
    · exact hlist
    · exact hbody

/-- The first token of a phrase that begins with a name. -/
theorem isSegment_headText {r : Rule} (h : itemsFit Lawful (.ident :: is) parts) :
    IsSegment (Script.Tree.node r parts).headText := by
  obtain ⟨_, ys, rfl, ⟨t, rfl, ht⟩, -⟩ := itemsFit_one.mp h
  rw [headText_cons_leaf]
  have hspelled : t.Spelled := htokens t (by simp [Tree.tokensOfAll, Tree.tokens])
  exact hspelled.isSegment (.inl ht)

omit htokens in
/-- An expression statement has the expression below it. -/
theorem regular_expressionStatement (h : itemsFit Lawful Rule.expressionStatement.items parts)
    (x : Tree) : (ofRule x .expressionStatement (piecesOf parts)).Regular := by
  obtain ⟨y, hy, hown⟩ := ownOf_expressionStatement h
  rw [ofRule, hown]
  exact regular_fresh_singleton ⟨_, rfl⟩ (hy.plain (by simp) (by simp)) hy.regular

omit htokens in
/-- A return statement has what it returns below it. -/
theorem regular_returnStatement (h : itemsFit Lawful Rule.returnStatement.items parts)
    (x : Tree) : (ofRule x .returnStatement (piecesOf parts)).Regular := by
  rw [ofRule]
  rcases ownOf_returnStatement h with hown | ⟨y, hy, hown⟩
  · rw [hown]
    exact regular_leaf (Nat.zero_le _)
  · rw [hown]
    exact regular_fresh_singleton (Nat.le_refl _) (hy.plain (by simp) (by simp)) hy.regular

/-- Below the declaration of variables names may have something below them. -/
theorem regular_varStatement (h : itemsFit Lawful Rule.varStatement.items parts) (x : Tree) :
    (ofRule x .varStatement (piecesOf parts)).Regular := by
  refine regular_of_children ⟨trivial, fun _ _ _ => .inr (.inl rfl), ?_⟩
    (regular_ownOf (fun x hx => (itemsFit_mem h x hx).imp fun _ h => h.2) htokens)
  intro s hs hexpr
  obtain ⟨y, hy, hnode, rfl⟩ := mem_ownOf hs
  obtain ⟨p, hp, hfit⟩ := itemsFit_mem h y hy
  simp only [Rule.items, List.flatMap_cons, List.flatMap_nil, Item.asks, List.cons_append,
    List.nil_append, List.append_nil, List.mem_cons, List.not_mem_nil, or_false] at hp
  rcases hp with rfl | rfl | rfl | rfl
  · exact absurd hexpr (Lawful.plain_part hfit (by simp)).ne_exprResult
  · exact absurd hexpr (Lawful.ne_exprResult hfit rfl)
  · exact absurd hexpr (Lawful.plain_part hfit (by simp)).ne_exprResult
  · exact absurd hexpr (Lawful.plain_part hfit (by simp)).ne_exprResult

/-- A declared variable has its first value below its name. -/
theorem regular_declarator (h : itemsFit Lawful Rule.declarator.items parts) :
    (ofRule (.node .declarator parts) .declarator (piecesOf parts)).Regular := by
  have hregular := regular_ownOf (fun x hx => (itemsFit_mem h x hx).imp fun _ h => h.2) htokens
  have hsegment := isSegment_headText (r := .declarator) htokens h
  have hplain := plain_ownOf h (by decide)
  obtain ⟨y, ys, rfl, -, -⟩ := itemsFit_one.mp h
  have hskip : ∀ s ∈ ownOf (piecesOf ys), s ∈ ownOf (piecesOf (y :: ys)) := by
    intro s hs
    rw [piecesOf, ownOf]
    split
    · exact List.mem_cons_of_mem _ hs
    · exact hs
  exact regular_fresh (.inr hsegment) (fun s hs => hplain s (hskip s hs))
    (fun s hs => hregular s (hskip s hs))

/-- A function declaration always has a name. -/
theorem regular_functionDeclaration (h : itemsFit Lawful Rule.functionDeclaration.items parts)
    (x : Tree) : (ofRule x .functionDeclaration (piecesOf parts)).Regular := by
  simp only [Rule.items] at h
  obtain ⟨_, ys, hys, ⟨k, rfl, -⟩, h⟩ := itemsFit_one.mp h
  obtain ⟨_, zs, hzs, ⟨t, rfl, -⟩, h⟩ := itemsFit_one.mp h
  obtain ⟨params, body, hparts, hparams, hkind, hbody⟩ :=
    functionParts_of_fits ⟨_, rfl⟩ ⟨_, rfl⟩ h
  refine regular_function htokens ?_ hparams hkind hbody x
  rw [hys, hzs, piecesOf, functionParts_leaf rfl, piecesOf, functionParts_leaf rfl, hparts]

/-- A function expression has a name or none. -/
theorem regular_functionExpression (h : itemsFit Lawful Rule.functionExpression.items parts)
    (x : Tree) : (ofRule x .functionExpression (piecesOf parts)).Regular := by
  simp only [Rule.items] at h
  obtain ⟨_, ys, hys, ⟨k, rfl, -⟩, h⟩ := itemsFit_one.mp h
  rcases itemsFit_optional.mp h with h | ⟨_, zs, hzs, ⟨t, rfl, -⟩, h⟩
  · obtain ⟨params, body, hparts, hparams, hkind, hbody⟩ :=
      functionParts_of_fits ⟨_, rfl⟩ ⟨_, rfl⟩ h
    refine regular_function htokens ?_ hparams hkind hbody x
    rw [hys, piecesOf, functionParts_leaf rfl, hparts]
  · obtain ⟨params, body, hparts, hparams, hkind, hbody⟩ :=
      functionParts_of_fits ⟨_, rfl⟩ ⟨_, rfl⟩ h
    refine regular_function htokens ?_ hparams hkind hbody x
    rw [hys, hzs, piecesOf, functionParts_leaf rfl, piecesOf, functionParts_leaf rfl, hparts]

/-- Parentheses around one expression are that expression. -/
theorem regular_parenthesized (h : itemsFit Lawful Rule.parenthesized.items parts) (x : Tree) :
    (ofRule x .parenthesized (piecesOf parts)).Regular := by
  have hregular := regular_ownOf (fun x hx => (itemsFit_mem h x hx).imp fun _ h => h.2) htokens
  rw [ofRule]
  generalize ownOf (piecesOf parts) = ss at hregular ⊢
  rcases ss with _ | ⟨s, _ | ⟨_, _⟩⟩
  · exact regular_other hregular
  · exact hregular s (List.mem_singleton_self s)
  · exact regular_other hregular

/-- A phrase of a rule that extends none has regular nodes. -/
theorem regular_ofRule {r : Rule} (hr : r ∉ extendingRules) (h : itemsFit Lawful r.items parts)
    (x : Tree) (hx : x = .node r parts) : (ofRule x r (piecesOf parts)).Regular := by
  have hother (word : String) : (fresh .other word x.extent (ownOf (piecesOf parts))).Regular :=
    regular_other (regular_ownOf (fun x hx => (itemsFit_mem h x hx).imp fun _ h => h.2) htokens)
  cases r
  case expressionStatement => exact regular_expressionStatement h x
  case returnStatement => exact regular_returnStatement h x
  case block => exact regular_block htokens h
  case functionBody => exact regular_block htokens h
  case varStatement => exact regular_varStatement htokens h x
  case declarator => exact hx ▸ regular_declarator htokens h
  case functionDeclaration => exact regular_functionDeclaration htokens h x
  case functionExpression => exact regular_functionExpression htokens h x
  case parenthesized => exact regular_parenthesized htokens h x
  case name => exact regular_leaf (.inr (hx ▸ isSegment_headText htokens h))
  case simpleParam => exact regular_leaf (.inr (hx ▸ isSegment_headText htokens h))
  case this => exact regular_leaf rfl
  case number => exact regular_leaf trivial
  case string => exact regular_leaf trivial
  case template => exact regular_leaf trivial
  case getProp => exact absurd (by decide) hr
  case call => exact absurd (by decide) hr
  case assign => exact absurd (by decide) hr
  case getElem => exact absurd (by decide) hr
  -- the other rules make nodes without a sort of their own
  all_goals exact hother _

end Rules

/-! ## Rules that extend expressions -/

/-- Nodes whose sort is neither of the two are plain. -/
theorem plain_of_kind {s : Sketch} (hname : s.kind ≠ .name) (hexpr : s.kind ≠ .exprResult) :
    s.Plain := ⟨fun h => absurd h hname, hexpr⟩

section Extending

variable {c : Category} {x : Tree} {r : Rule} {xs : List Tree} (hx : Lawful c x)
  (hplain : (ofTree x).Plain) (hnode : x.makesNode = true)
include hx hplain hnode

/-- A property: the dot makes no node, and neither does the name of the property. -/
theorem regular_getProp (h : itemsFit Lawful Rule.getProp.items xs) (y : Tree) :
    (ofRule y .getProp (piecesOf (x :: xs))).Regular ∧
      (ofRule y .getProp (piecesOf (x :: xs))).Plain := by
  simp only [Rule.items, itemsFit_one, itemsFit_nil] at h
  obtain ⟨d, _, rfl, hd, n, _, rfl, hn, rfl⟩ := h
  have hdot : d.makesNode = false := skip_of_fits hd (.inr ⟨_, rfl⟩)
  have hown : ownOf [(⟨x, ofTree x, Sketch.inside x⟩ : Piece), ⟨d, ofTree d, Sketch.inside d⟩]
      = [ofTree x] := by
    rw [ownOf, if_pos hnode, ownOf, if_neg (by simp [hdot]), ownOf]
  simp only [piecesOf, ofRule, hown]
  exact ⟨regular_fresh_singleton ⟨(Lawful.propertyName hn rfl).1, _, rfl⟩ hplain hx.regular,
    plain_of_kind (by simp [fresh, kind]) (by simp [fresh, kind])⟩

omit hnode in
/-- A call: the arguments stand directly below it. -/
theorem regular_call (h : itemsFit Lawful Rule.call.items xs) (y : Tree) :
    (ofRule y .call (piecesOf (x :: xs))).Regular ∧
      (ofRule y .call (piecesOf (x :: xs))).Plain := by
  simp only [Rule.items, itemsFit_one, itemsFit_nil] at h
  obtain ⟨args, _, rfl, hargs, rfl⟩ := h
  have hargs' : Lawful .arguments args := hargs
  refine ⟨regular_fresh (List.cons_ne_nil _ _) ?_ ?_,
    plain_of_kind (by simp [ofRule, piecesOf, fresh, kind])
      (by simp [ofRule, piecesOf, fresh, kind])⟩
  · intro s hs
    rcases List.mem_cons.mp hs with rfl | hs
    · exact hplain
    · exact hargs'.arguments rfl s hs
  · intro s hs
    rcases List.mem_cons.mp hs with rfl | hs
    · exact hx.regular
    · exact hargs'.inside s hs

omit hnode in
/-- An assignment, or an assignment with an operation: both sides are expressions. -/
theorem regular_assign (h : itemsFit Lawful Rule.assign.items xs) (y : Tree) :
    (ofRule y .assign (piecesOf (x :: xs))).Regular ∧
      (ofRule y .assign (piecesOf (x :: xs))).Plain := by
  simp only [Rule.items, itemsFit_one, itemsFit_nil] at h
  obtain ⟨o, _, rfl, ho, v, _, rfl, hv, rfl⟩ := h
  have hv' : Lawful .oneExpression v := hv
  have hboth : ∀ s ∈ [ofTree x, ofTree v], s.Regular ∧ s.Plain := by
    intro s hs
    simp only [List.mem_cons, List.not_mem_nil, or_false] at hs
    rcases hs with rfl | rfl
    · exact ⟨hx.regular, hplain⟩
    · exact ⟨hv'.regular, hv'.plain (by simp) (by simp)⟩
  simp only [piecesOf, ofRule]
  split
  · exact ⟨regular_fresh ⟨_, _, rfl⟩ (fun s hs => (hboth s hs).2) (fun s hs => (hboth s hs).1),
      plain_of_kind (by simp [fresh, kind]) (by simp [fresh, kind])⟩
  · exact ⟨regular_other fun s hs => (hboth s hs).1,
      plain_of_kind (by simp [fresh, kind]) (by simp [fresh, kind])⟩

/-- The node of an extended expression is regular and plain. -/
theorem regular_ofRule_extension (hr : r ∈ extendingRules) (h : itemsFit Lawful r.items xs)
    (htokens : ∀ t ∈ Tree.tokensOfAll (x :: xs), t.Spelled) :
    (ofRule (.node r (x :: xs)) r (piecesOf (x :: xs))).Regular ∧
      (ofRule (.node r (x :: xs)) r (piecesOf (x :: xs))).Plain := by
  have htokens' : ∀ t ∈ Tree.tokensOfAll xs, t.Spelled := by
    intro t ht
    exact htokens t (by rw [Tree.tokensOfAll]; exact List.mem_append_right _ ht)
  have hregular : ∀ s ∈ ownOf (piecesOf (x :: xs)), s.Regular := by
    rw [ownOf_cons_node hnode]
    intro s hs
    rcases List.mem_cons.mp hs with rfl | hs
    · exact hx.regular
    · exact regular_ownOf (fun y hy => (itemsFit_mem h y hy).imp fun _ h => h.2) htokens' s hs
  have hother (text : String) :
      (fresh .other text (Script.Tree.node r (x :: xs)).extent (ownOf (piecesOf (x :: xs)))).Regular ∧
      (fresh .other text (Script.Tree.node r (x :: xs)).extent (ownOf (piecesOf (x :: xs)))).Plain :=
    ⟨regular_other hregular, plain_of_kind (by simp [fresh, kind]) (by simp [fresh, kind])⟩
  simp only [extendingRules, List.mem_cons, List.not_mem_nil, or_false] at hr
  rcases hr with rfl | rfl | rfl | rfl | rfl | rfl | rfl | rfl
  · exact regular_getProp hx hplain hnode h _
  · -- an element: what stands between the brackets is an expression
    refine ⟨regular_fresh trivial ?_ hregular,
      plain_of_kind (by simp [ofRule, fresh, kind]) (by simp [ofRule, fresh, kind])⟩
    rw [ownOf_cons_node hnode]
    intro s hs
    rcases List.mem_cons.mp hs with rfl | hs
    · exact hplain
    · exact plain_ownOf h (by decide) s hs
  · exact regular_call hx hplain h _
  · exact hother _
  · exact hother _
  · exact hother _
  · exact regular_assign hx hplain h _
  · exact hother _

end Extending

theorem not_isStatement_of_extending {r : Rule} (hr : r ∈ extendingRules) :
    r.isStatement = false := by
  revert r
  decide

theorem makesNode_node {r : Rule} {xs : List Tree} (hr : r ≠ .propertyName) :
    (Script.Tree.node r xs).makesNode = true := by
  cases r <;> first | rfl | exact absurd rfl hr

/-- An expression stays lawful when it is extended. -/
theorem lawful_extension {c : Category} {x : Tree} {r : Rule} {xs : List Tree}
    (hc : (∃ limit lead, c = .expression limit lead) ∨ c = .newTarget) (hr : r ∈ extendingRules)
    (hx : Lawful c x) (h : itemsFit Lawful r.items xs)
    (htokens : ∀ t ∈ Tree.tokensOfAll (x :: xs), t.Spelled) : Lawful c (.node r (x :: xs)) := by
  have hc' : IsExpression c := hc.imp id .inr
  have hne : c ≠ .declarator ∧ c ≠ .statement ∧ c ≠ .functionBody ∧ c ≠ .arguments ∧
      c ≠ .params ∧ c ≠ .param ∧ c ≠ .propertyName ∧ c ≠ .propertyWord := by
    rcases hc with ⟨_, _, rfl⟩ | rfl <;> simp
  obtain ⟨h₁, h₂, h₃, h₄, h₅, h₆, h₇, h₈⟩ := hne
  have hnode := hx.makesNode hc'
  obtain ⟨hregular, hplain⟩ := regular_ofRule_extension hx (hx.plain h₁ h₂) hnode hr h htokens
  have heq : ofTree (.node r (x :: xs)) = ofRule (.node r (x :: xs)) r (piecesOf (x :: xs)) := by
    rw [ofTree, documented, not_isStatement_of_extending hr]
    rfl
  rw [← heq] at hregular hplain
  refine ⟨hregular, ?_, fun _ _ => hplain, fun h => absurd h h₂, fun h => absurd h h₁, ?_,
    fun h => absurd h h₃, fun h => absurd h h₄, fun h => absurd h h₅, fun h => absurd h h₆,
    fun h => absurd h h₇, fun h => absurd h h₈⟩
  · intro s hs
    rw [inside, ownOf_cons_node hnode] at hs
    rcases List.mem_cons.mp hs with rfl | hs
    · exact hx.regular
    · refine regular_ownOf (fun y hy => (itemsFit_mem h y hy).imp fun _ h => h.2) ?_ s hs
      intro t ht
      exact htokens t (by rw [Tree.tokensOfAll]; exact List.mem_append_right _ ht)
  · intro _
    refine makesNode_node ?_
    rintro rfl
    exact absurd hr (by decide)

theorem plain_document {s : Sketch} (h : s.Plain) (d : DocComment) : (s.document d).Plain where
  name := by
    intro hname
    rw [children_document d h.ne_exprResult]
    exact h.name (by rw [← hname, kind_document])
  ne_exprResult := by
    rw [kind_document]
    exact h.ne_exprResult

theorem plain_documented {x : Tree} {r : Rule} {ps : List Piece} (h : (ofRule x r ps).Plain) :
    (documented x r ps).Plain := by
  rcases documented_eq x r ps with h' | ⟨d, -, h'⟩
  · rw [h']
    exact h
  · rw [h']
    exact plain_document h d

/-- Most rules make plain nodes. -/
theorem plain_ofRule {r : Rule} {parts : List Tree} (hr : r ∉ extendingRules)
    (hd : r ≠ .declarator) (he : r ≠ .expressionStatement) (h : itemsFit Lawful r.items parts)
    (x : Tree) : (ofRule x r (piecesOf parts)).Plain := by
  cases r
  case declarator => exact absurd rfl hd
  case expressionStatement => exact absurd rfl he
  case name => exact ⟨fun _ => rfl, by simp [ofRule, fresh, kind]⟩
  case simpleParam => exact ⟨fun _ => rfl, by simp [ofRule, fresh, kind]⟩
  case parenthesized =>
    have hplain := plain_ownOf h (by decide)
    rw [ofRule]
    generalize ownOf (piecesOf parts) = ss at hplain ⊢
    rcases ss with _ | ⟨s, _ | ⟨_, _⟩⟩
    · exact plain_of_kind (by simp [parenthesized, fresh, kind])
        (by simp [parenthesized, fresh, kind])
    · exact hplain s (List.mem_singleton_self s)
    · exact plain_of_kind (by simp [parenthesized, fresh, kind])
        (by simp [parenthesized, fresh, kind])
  case getProp => exact absurd (by decide) hr
  case call => exact absurd (by decide) hr
  case assign => exact absurd (by decide) hr
  all_goals
    exact plain_of_kind (by simp [ofRule, function, fresh, kind])
      (by simp [ofRule, function, fresh, kind])

/-- Statements are no names. -/
theorem kind_ofRule_statement {r : Rule} {parts : List Tree} (hr : r ∈ statementRules) (x : Tree) :
    (ofRule x r (piecesOf parts)).kind ≠ .name := by
  cases r
  all_goals first
    | (exact absurd hr (by decide))
    | (simp [ofRule, function, fresh, kind])

theorem kind_ofRule_declarator (parts : List Tree) (x : Tree) :
    (ofRule x .declarator (piecesOf parts)).kind ≠ .exprResult := by
  cases parts <;> simp [piecesOf, ofRule, fresh, kind]

theorem Category.not_extending {c : Category} {r : Rule} (hr : r ∈ c.rules) :
    r ∉ extendingRules := by
  revert r
  cases c <;> simp only [Category.rules] <;> decide

theorem Category.eq_of_declarator {c : Category} (h : Rule.declarator ∈ c.rules) :
    c = .declarator := by
  revert h
  cases c <;> simp [Category.rules, statementRules, primaryRules]

theorem Category.eq_of_expressionStatement {c : Category}
    (h : Rule.expressionStatement ∈ c.rules) : c = .statement := by
  revert h
  cases c <;> simp [Category.rules, statementRules, primaryRules]

theorem Category.eq_of_propertyName {c : Category} (h : Rule.propertyName ∈ c.rules) :
    c = .propertyName := by
  revert h
  cases c <;> simp [Category.rules, statementRules, primaryRules]

/-- The parts of parameters are parameters. -/
theorem isParam_inside_params {parts : List Tree} (h : itemsFit Lawful Rule.params.items parts) :
    ∀ s ∈ Sketch.inside (.node .params parts), s.IsParam := by
  intro s hs
  obtain ⟨y, hy, hnode, rfl⟩ := mem_ownOf hs
  obtain ⟨p, hp, hfit⟩ := itemsFit_mem h y hy
  simp only [Rule.items, List.flatMap_cons, List.flatMap_nil, Item.asks, List.append_nil,
    List.mem_cons, List.not_mem_nil, or_false] at hp
  rcases hp with rfl | rfl
  · exact Lawful.param hfit rfl
  · rw [skip_of_fits hfit (.inr ⟨_, rfl⟩)] at hnode
    cases hnode

/-- The name of a property is one word. -/
theorem isSegment_propertyName {parts : List Tree}
    (h : itemsFit Lawful Rule.propertyName.items parts)
    (htokens : ∀ t ∈ Tree.tokensOfAll parts, t.Spelled) :
    IsSegment (Script.Tree.node .propertyName parts).headText := by
  simp only [Rule.items, itemsFit_one, itemsFit_nil] at h
  obtain ⟨y, _, rfl, hy, rfl⟩ := h
  obtain ⟨t, rfl, ht⟩ := Lawful.word hy rfl
  rw [headText_cons_leaf]
  have hspelled : t.Spelled := htokens t (by simp [Tree.tokensOfAll, Tree.tokens])
  exact hspelled.isSegment ht

/-- A phrase of a rule that extends none is lawful. -/
theorem lawful_rule {c : Category} {r : Rule} {parts : List Tree} (hr : r ∈ c.rules)
    (h : itemsFit Lawful r.items parts) (htokens : ∀ t ∈ Tree.tokensOfAll parts, t.Spelled) :
    Lawful c (.node r parts) where
  regular := regular_documented (regular_ofRule htokens (Category.not_extending hr) h _ rfl)
  inside := regular_ownOf (fun x hx => (itemsFit_mem h x hx).imp fun _ h => h.2) htokens
  plain := by
    intro hd hs
    refine plain_documented (plain_ofRule (Category.not_extending hr) ?_ ?_ h _)
    · rintro rfl
      exact hd (Category.eq_of_declarator hr)
    · rintro rfl
      exact hs (Category.eq_of_expressionStatement hr)
  -- the fields from here on are about one category each, and name the rule it has to be
  ne_name := by
    rintro rfl
    rw [ofTree, kind_documented]
    exact kind_ofRule_statement hr _
  ne_exprResult := by
    rintro rfl
    obtain rfl : r = .declarator := List.mem_singleton.mp hr
    rw [ofTree, kind_documented]
    exact kind_ofRule_declarator parts _
  makesNode := by
    intro hc
    refine makesNode_node ?_
    rintro rfl
    obtain rfl := Category.eq_of_propertyName hr
    rcases hc with ⟨_, _, hc⟩ | ⟨_, hc⟩ | hc <;> cases hc
  body := by
    rintro rfl
    obtain rfl : r = .functionBody := List.mem_singleton.mp hr
    exact ⟨rfl, parts, rfl⟩
  arguments := by
    rintro rfl
    obtain rfl : r = .arguments := List.mem_singleton.mp hr
    exact plain_ownOf h (by decide)
  params := by
    rintro rfl
    obtain rfl : r = .params := List.mem_singleton.mp hr
    exact ⟨⟨parts, rfl⟩, isParam_inside_params h⟩
  param := by
    rintro rfl
    simp only [Category.rules, List.mem_cons, List.not_mem_nil, or_false] at hr
    rcases hr with rfl | rfl | rfl
    · exact .inr rfl
    · exact .inr rfl
    · exact .inl ⟨rfl, rfl⟩
  propertyName := by
    rintro rfl
    obtain rfl : r = .propertyName := List.mem_singleton.mp hr
    exact ⟨isSegment_propertyName h htokens, rfl⟩
  word := by
    rintro rfl
    exact absurd hr List.not_mem_nil

/-- A token that is a phrase by itself is lawful. -/
theorem lawful_token {c : Category} {t : Token} (h : c.acceptsToken t.kind = true)
    (ht : t.Spelled) : Lawful c (.leaf t) := by
  have hnot {d : Category} (hd : ∀ kind, d.acceptsToken kind = false) : c ≠ d := by
    rintro rfl
    rw [hd] at h
    cases h
  refine ⟨regular_ofToken ht, ?_, fun _ _ => plain_ofToken t, ?_, ?_, ?_, ?_, ?_, ?_, ?_, ?_, ?_⟩
  · intro s hs
    exact absurd hs List.not_mem_nil
  · exact fun hc => absurd hc (hnot fun _ => rfl)
  · exact fun hc => absurd hc (hnot fun _ => rfl)
  · rintro (⟨_, _, hc⟩ | ⟨_, hc⟩ | hc)
    · exact absurd hc (hnot fun _ => rfl)
    · exact absurd hc (hnot fun _ => rfl)
    · exact absurd hc (hnot fun _ => rfl)
  · exact fun hc => absurd hc (hnot fun _ => rfl)
  · exact fun hc => absurd hc (hnot fun _ => rfl)
  · exact fun hc => absurd hc (hnot fun _ => rfl)
  · exact fun hc => absurd hc (hnot fun _ => rfl)
  · exact fun hc => absurd hc (hnot fun _ => rfl)
  · rintro rfl
    refine ⟨t, rfl, ?_⟩
    cases hkind : t.kind with
    | name => exact .inl rfl
    | keyword w => exact .inr ⟨w, rfl⟩
    | number => simp [hkind, Category.acceptsToken] at h
    | string => simp [hkind, Category.acceptsToken] at h
    | template => simp [hkind, Category.acceptsToken] at h
    | mark m => simp [hkind, Category.acceptsToken] at h

/-- A phrase of a narrower category is lawful in the wider one. -/
theorem Lawful.through {c d : Category} {x : Tree} (hcd : c.narrower? = some d)
    (h : Lawful d x) : Lawful c x := by
  have hd : d ≠ .declarator ∧ d ≠ .statement ∧ (IsExpression c → IsExpression d) := by
    cases c <;> simp only [Category.narrower?, reduceCtorEq] at hcd
    case expression => cases hcd; exact ⟨by simp, by simp, fun _ => .inr (.inl ⟨_, rfl⟩)⟩
    case argument => cases hcd; exact ⟨by simp, by simp, fun _ => .inl ⟨_, _, rfl⟩⟩
    case propertyKey =>
      cases hcd
      refine ⟨by simp, by simp, ?_⟩
      rintro (⟨_, _, hc⟩ | ⟨_, hc⟩ | hc) <;> cases hc
  have hnot {e : Category} (he : e.narrower? = none) : c ≠ e := by
    rintro rfl
    rw [he] at hcd
    cases hcd
  exact ⟨h.regular, h.inside, fun _ _ => h.plain hd.1 hd.2.1,
    fun hc => absurd hc (hnot rfl), fun hc => absurd hc (hnot rfl),
    fun hc => h.makesNode (hd.2.2 hc), fun hc => absurd hc (hnot rfl),
    fun hc => absurd hc (hnot rfl), fun hc => absurd hc (hnot rfl),
    fun hc => absurd hc (hnot rfl), fun hc => absurd hc (hnot rfl),
    fun hc => absurd hc (hnot rfl)⟩

/-- What the grammar forms is lawful. -/
theorem lawful_of_formed {depth : Nat} {c : Category} {x : Tree} (h : Formed depth c x)
    (htokens : ∀ t ∈ x.tokens, t.Spelled) : Lawful c x := by
  induction depth generalizing c x with
  | zero => exact h.elim
  | succ depth ih =>
    have hitems {is : List Item} {xs : List Tree} (hfit : itemsFit (Formed depth) is xs)
        (ht : ∀ t ∈ Tree.tokensOfAll xs, t.Spelled) : itemsFit Lawful is xs :=
      itemsFit_mono (fun x hx c hc => ih hc fun t htx => ht t (mem_tokensOfAll hx htx)) hfit
    replace h : FormedPhrase (Formed depth) c x := h
    induction h with
    | token accepted => exact lawful_token accepted (htokens _ (List.mem_singleton_self _))
    | through predicted inner =>
      obtain h' | ⟨_, -, h'⟩ | ⟨d, hd, h'⟩ := Category.predict_eq predicted
      · cases h'
      · cases h'
      · cases h'
        exact (ih inner htokens).through hd
    | rule predicted items =>
      obtain h' | ⟨r, hr, h'⟩ | ⟨d, -, h'⟩ := Category.predict_eq predicted
      · cases h'
      · cases h'
        exact lawful_rule hr (hitems items htokens) htokens
      · cases h'
    | extended _ extension items ihx =>
      obtain ⟨hr, hc⟩ := Category.extension_eq extension
      have hx := ihx fun t ht => htokens t (List.mem_append_left _ ht)
      have hxs := hitems items fun t ht => htokens t (List.mem_append_right _ ht)
      exact lawful_extension hc hr hx hxs htokens

end Sketch

end SuperForward
