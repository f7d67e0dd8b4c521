/-
  Where the nodes of a program come from.

  The node of an expression statement was made for a phrase that is an expression statement of
  one of the scripts. Its place is that of the phrase, and the documentation comment before the
  phrase is on its assignment.
-/
import SuperForward.Proofs.Program.Parsed
import SuperForward.Proofs.Script.Lexemes

namespace SuperForward

open SuperForward.Script

/-! ## Phrases inside phrases -/

namespace Script

namespace Tree

/-- A phrase is another one, or stands somewhere inside it. -/
inductive Inside (y : Tree) : Tree → Prop
  | here : Inside y y
  | part {rule : Rule} {parts : List Tree} {x : Tree} (hx : x ∈ parts) (h : Inside y x) :
      Inside y (.node rule parts)

theorem mem_tokensOfAll {xs : List Tree} {t : Token} :
    t ∈ tokensOfAll xs ↔ ∃ x ∈ xs, t ∈ x.tokens := by
  induction xs with
  | nil => simp [tokensOfAll]
  | cons x xs ih => simp [tokensOfAll, ih]

theorem Inside.mem_tokens {x y : Tree} (h : Inside y x) {t : Token} (ht : t ∈ y.tokens) :
    t ∈ x.tokens := by
  induction h with
  | here => exact ht
  | part hx _ ih => exact mem_tokensOfAll.mpr ⟨_, hx, ih⟩

end Tree

end Script

/-! ## Sketches of expression statements -/

namespace Sketch

theorem Within.trans {s t u : Sketch} (hst : Within s t) (htu : Within t u) : Within s u := by
  induction htu with
  | here => exact hst
  | child hc _ ih => exact .child hc ih

/-! ## What the rules make -/

/-- The sketches are those of some of the phrases, one after the other: of a phrase itself or of
the phrases inside it. -/
inductive Strung : List Sketch → List Tree → Prop
  | nil : Strung [] []
  | skip {cs : List Sketch} {x : Tree} {xs : List Tree} (h : Strung cs xs) : Strung cs (x :: xs)
  | own {cs : List Sketch} {x : Tree} {xs : List Tree} (h : Strung cs xs) :
      Strung (ofTree x :: cs) (x :: xs)
  | inner {cs : List Sketch} {x : Tree} {xs : List Tree} (h : Strung cs xs) :
      Strung (inside x ++ cs) (x :: xs)

theorem strung_nil (xs : List Tree) : Strung [] xs := by
  induction xs with
  | nil => exact .nil
  | cons x xs ih => exact .skip ih

theorem strung_ownOf (xs : List Tree) : Strung (ownOf (piecesOf xs)) xs := by
  induction xs with
  | nil => exact .nil
  | cons x xs ih =>
    rw [piecesOf, ownOf]
    split
    · exact .own ih
    · exact .skip ih

theorem Strung.append {cs ds : List Sketch} {xs ys : List Tree} (h : Strung cs xs)
    (h' : Strung ds ys) : Strung (cs ++ ds) (xs ++ ys) := by
  induction h with
  | nil => exact h'
  | skip _ ih => exact .skip ih
  | own _ ih => exact .own ih
  | inner _ ih => exact List.append_assoc .. ▸ .inner ih

/-- Every sketch is that of one of the phrases or of a phrase inside one. -/
theorem Strung.mem {cs : List Sketch} {xs : List Tree} (h : Strung cs xs) {c : Sketch}
    (hc : c ∈ cs) : ∃ x ∈ xs, c = ofTree x ∨ c ∈ inside x := by
  have later {x : Tree} {xs : List Tree} (h : ∃ y ∈ xs, c = ofTree y ∨ c ∈ inside y) :
      ∃ y ∈ x :: xs, c = ofTree y ∨ c ∈ inside y :=
    h.imp fun y hy => ⟨List.mem_cons_of_mem _ hy.1, hy.2⟩
  induction h with
  | nil => exact absurd hc List.not_mem_nil
  | skip _ ih => exact later (ih hc)
  | own _ ih =>
    rcases List.mem_cons.mp hc with rfl | hc
    · exact ⟨_, List.mem_cons_self .., .inl rfl⟩
    · exact later (ih hc)
  | inner _ ih =>
    rcases List.mem_append.mp hc with hc | hc
    · exact ⟨_, List.mem_cons_self .., .inr hc⟩
    · exact later (ih hc)

/-- The sort of the node that a rule makes, if it has a sort of its own; functions aside. -/
def sortOf : Rule → NodeKind
  | .expressionStatement => .exprResult
  | .returnStatement => .returnStmt
  | .block | .functionBody => .block
  | .varStatement => .var
  | .declarator | .name | .simpleParam => .name
  | .this => .this
  | .number => .number
  | .string | .template => .string
  | .getProp => .getProp
  | .getElem => .getElem
  | .call => .call
  | .assign => .assign
  | _ => .other

/-- What a rule makes of a phrase `x` and its parts: a node at the place of the phrase, with
sketches of its parts below it; the node that parentheses leave; or a function. -/
inductive MadeBy (x : Tree) (r : Rule) (parts : List Tree) : Sketch → Prop
  | node {kind : NodeKind} {text : String} {cs : List Sketch}
      (hkind : kind = sortOf r ∨ kind = .other) (h : Strung cs parts) :
      MadeBy x r parts (fresh kind text x.extent cs)
  | held {y : Tree} (hr : r = .parenthesized) (hy : y ∈ parts) : MadeBy x r parts (ofTree y)
  | function (hr : r = .functionDeclaration ∨ r = .functionExpression) :
      MadeBy x r parts (function x (piecesOf parts))

theorem madeBy_ofRule (x : Tree) (r : Rule) (parts : List Tree) :
    MadeBy x r parts (ofRule x r (piecesOf parts)) := by
  have hown := strung_ownOf parts
  have hother (word : String) :
      MadeBy x r parts (fresh .other word x.extent (ownOf (piecesOf parts))) :=
    .node (.inr rfl) hown
  -- most rules make one node over all parts; the others look at the first parts, and are
  -- followed part by part
  cases r
  case parenthesized =>
    rw [ofRule]
    generalize hss : ownOf (piecesOf parts) = ss at hown
    rcases ss with _ | ⟨s, _ | ⟨t, ts⟩⟩
    · exact .node (.inr rfl) hown
    · obtain ⟨y, hy, -, rfl⟩ := @mem_ownOf parts s (by rw [hss]; exact List.mem_singleton_self s)
      exact .held rfl hy
    · exact .node (.inr rfl) hown
  case functionDeclaration => exact .function (.inl rfl)
  case functionExpression => exact .function (.inr rfl)
  case declarator =>
    cases parts with
    | nil => exact hother _
    | cons y ys => exact .node (.inl rfl) (.skip (strung_ownOf ys))
  case getProp =>
    rcases parts with _ | ⟨a, _ | ⟨b, _ | ⟨c, _ | ⟨d, ds⟩⟩⟩⟩
    case cons.cons.cons.nil =>
      have htwo := (strung_ownOf [a, b]).append (.skip .nil : Strung [] [c])
      rw [List.append_nil] at htwo
      exact .node (.inl rfl) htwo
    all_goals exact hother _
  case call =>
    rcases parts with _ | ⟨a, _ | ⟨b, _ | ⟨c, cs⟩⟩⟩
    case cons.cons.nil =>
      have hboth : Strung (ofTree a :: (inside b ++ [])) [a, b] := .own (.inner .nil)
      rw [List.append_nil] at hboth
      exact .node (.inl rfl) hboth
    all_goals exact hother _
  case assign =>
    rcases parts with _ | ⟨a, _ | ⟨b, _ | ⟨c, _ | ⟨d, ds⟩⟩⟩⟩
    case cons.cons.cons.nil =>
      have hboth : Strung [ofTree a, ofTree c] [a, b, c] := .own (.skip (.own .nil))
      simp only [piecesOf, ofRule]
      split
      · exact .node (.inl rfl) hboth
      · exact .node (.inr rfl) hboth
    all_goals exact hother _
  case name => exact .node (.inl rfl) (strung_nil parts)
  case simpleParam => exact .node (.inl rfl) (strung_nil parts)
  case this => exact .node (.inl rfl) (strung_nil parts)
  case number => exact .node (.inl rfl) (strung_nil parts)
  case string => exact .node (.inl rfl) (strung_nil parts)
  case template => exact .node (.inl rfl) (strung_nil parts)
  case expressionStatement => exact .node (.inl rfl) hown
  case returnStatement => exact .node (.inl rfl) hown
  case block => exact .node (.inl rfl) hown
  case functionBody => exact .node (.inl rfl) hown
  case varStatement => exact .node (.inl rfl) hown
  case getElem => exact .node (.inl rfl) hown
  all_goals exact hother _

/-! ## What stands in what is made -/

/-- A sketch is in one of those that are made for a phrase or for the phrases inside it. -/
def MadeIn (s : Sketch) (x : Tree) : Prop :=
  Within s (ofTree x) ∨ ∃ t ∈ inside x, Within s t

theorem MadeIn.of_ownOf {s t : Sketch} {parts : List Tree} (hs : Within s t)
    (ht : t ∈ ownOf (piecesOf parts)) : ∃ y ∈ parts, s.MadeIn y := by
  obtain ⟨y, hy, -, rfl⟩ := mem_ownOf ht
  exact ⟨y, hy, .inl hs⟩

/-- What a function has below it: its name and its parameters, and what its parts make. -/
theorem of_within_functionParts {s t : Sketch} {parts : List Tree} (hs : Within s t)
    (ht : t ∈ (functionParts (piecesOf parts)).1 ∨ t ∈ (functionParts (piecesOf parts)).2) :
    ∃ y ∈ parts, s.MadeIn y := by
  induction parts with
  | nil => rcases ht with ht | ht <;> exact absurd ht List.not_mem_nil
  | cons x xs ih =>
    have hlater (h : t ∈ (functionParts (piecesOf xs)).1 ∨ t ∈ (functionParts (piecesOf xs)).2) :
        ∃ y ∈ x :: xs, s.MadeIn y := by
      obtain ⟨y, hy, hmade⟩ := ih h
      exact ⟨y, List.mem_cons_of_mem _ hy, hmade⟩
    cases x with
    | leaf token =>
      rw [piecesOf, functionParts_leaf rfl] at ht
      exact hlater ht
    | node rule parts =>
      by_cases hrule : rule = .params
      · subst hrule
        rw [piecesOf, functionParts_params rfl] at ht
        rcases ht with ht | ht
        · exact ⟨_, List.mem_cons_self .., .inr ⟨t, ht, hs⟩⟩
        · exact hlater (.inr ht)
      · rw [piecesOf, functionParts_node rfl hrule] at ht
        rcases ht with ht | ht
        · exact hlater (.inl ht)
        · rw [List.mem_singleton] at ht
          subst ht
          exact ⟨_, List.mem_cons_self .., .inl hs⟩

/-- What stands below the node of a rule comes from the parts of the phrase, names and
parameter lists aside. -/
theorem of_within_child {s c : Sketch} {x : Tree} {rule : Rule} {parts : List Tree}
    (hc : c ∈ (ofRule x rule (piecesOf parts)).children) (h : Within s c)
    (hname : s.kind ≠ .name) (hparams : s.kind ≠ .paramList) : ∃ y ∈ parts, s.MadeIn y := by
  have hmade := madeBy_ofRule x rule parts
  generalize ofRule x rule (piecesOf parts) = t at hc hmade
  cases hmade with
  | node _ hstrung =>
    obtain ⟨y, hy, rfl | hinside⟩ := hstrung.mem hc
    · exact ⟨y, hy, .inl h⟩
    · exact ⟨y, hy, .inr ⟨c, hinside, h⟩⟩
  | held _ hy => exact ⟨_, hy, .inl (.child hc h)⟩
  | function =>
    simp only [function, fresh, children, List.mem_cons] at hc
    rcases hc with rfl | rfl | hc
    · unfold functionNameNode at h
      split at h
      · cases h with
        | here => exact absurd rfl hname
        | child hc _ => exact absurd hc List.not_mem_nil
      · cases h with
        | here => exact absurd rfl hname
        | child hc _ => exact absurd hc List.not_mem_nil
    · cases h with
      | here => exact absurd rfl hparams
      | child hc h => exact of_within_functionParts h (.inl hc)
    · exact of_within_functionParts h (.inr hc)

/-- Only expression statements make nodes of their sort, and parentheses leave them. -/
theorem eq_of_kind_exprResult {x : Tree} {rule : Rule} {parts : List Tree}
    (h : (ofRule x rule (piecesOf parts)).kind = .exprResult) :
    rule = .expressionStatement ∨
      rule.isStatement = false ∧ ∃ y ∈ parts, (ofRule x rule (piecesOf parts)).MadeIn y := by
  have hmade := madeBy_ofRule x rule parts
  generalize ofRule x rule (piecesOf parts) = t at h hmade
  cases hmade with
  | @node kind _ _ hkind _ =>
    obtain rfl : kind = .exprResult := h
    refine .inl ?_
    rcases hkind with hkind | hkind
    · cases rule <;> first | rfl | cases hkind
    · cases hkind
  | held hr hy =>
    rw [hr]
    exact .inr ⟨rfl, _, hy, .inl .here⟩
  | function => cases h

/-- What a documented sketch has in it: itself, an assignment that got the documentation, or
what stood below it before. -/
theorem of_within_document {s t : Sketch} {d : DocComment} (h : Within s (t.document d)) :
    s = t.document d ∨ s.kind = .assign ∨ ∃ c ∈ t.children, Within s c := by
  have hset {u : Sketch} (h : Within s (u.setDoc d)) :
      s = u.setDoc d ∨ ∃ c ∈ u.children, Within s c := by
    cases h with
    | here => exact .inl rfl
    | child hc h => exact .inr ⟨_, by rwa [children_setDoc] at hc, h⟩
  rcases document_eq t d with heq | ⟨text, doc, e, c, cs, rfl, hassign, heq⟩
  · rw [heq] at h ⊢
    exact (hset h).imp_right .inr
  · rw [heq] at h ⊢
    cases h with
    | here => exact .inl rfl
    | child hc h =>
      right
      rcases List.mem_cons.mp hc with rfl | hc
      · rcases hset h with rfl | ⟨u, hu, h⟩
        · exact .inl ((kind_setDoc c d).trans hassign)
        · exact .inr ⟨c, List.mem_cons_self .., .child hu h⟩
      · exact .inr ⟨_, List.mem_cons_of_mem _ hc, h⟩

/-- The sketch of an expression statement is that of a phrase which is one. -/
theorem MadeIn.expressionStatement {s : Sketch} {x : Tree} (h : s.MadeIn x)
    (hkind : s.kind = .exprResult) :
    ∃ parts, (Script.Tree.node .expressionStatement parts).Inside x ∧
      s = ofTree (.node .expressionStatement parts) := by
  -- the phrase is the one whose rule is that of statements; any other rule hands the sketch on
  -- from one of its parts
  induction x using Tree.induction_on with
  | leaf t =>
    rcases h with h | ⟨u, hu, -⟩
    · rw [ofTree_leaf] at h
      unfold ofToken at h
      cases ht : t.kind <;> rw [ht] at h <;> cases h <;> first
        | cases hkind
        | exact absurd ‹_ ∈ _› List.not_mem_nil
    · exact absurd hu List.not_mem_nil
  | node rule parts ih =>
    have hpart (h : ∃ y ∈ parts, s.MadeIn y) : ∃ qs,
        (Script.Tree.node .expressionStatement qs).Inside (.node rule parts) ∧
          s = ofTree (.node .expressionStatement qs) := by
      obtain ⟨y, hy, hmade⟩ := h
      obtain ⟨qs, hqs, hs⟩ := ih y hy hmade
      exact ⟨qs, .part hy hqs, hs⟩
    have hchild {c : Sketch} (hc : c ∈ (ofRule (.node rule parts) rule (piecesOf parts)).children)
        (h : Within s c) : ∃ y ∈ parts, s.MadeIn y :=
      of_within_child hc h (by rw [hkind]; simp) (by rw [hkind]; simp)
    rcases h with h | ⟨u, hu, h⟩
    swap
    · exact hpart (MadeIn.of_ownOf h hu)
    have htop (heq : s = documented (.node rule parts) rule (piecesOf parts))
        (hrule : rule = .expressionStatement) : ∃ qs,
        (Script.Tree.node .expressionStatement qs).Inside (.node rule parts) ∧
          s = ofTree (.node .expressionStatement qs) := by
      subst hrule
      exact ⟨parts, .here, heq⟩
    rw [ofTree] at h
    rcases documented_eq (.node rule parts) rule (piecesOf parts) with heq | ⟨d, hstatement, heq⟩
    · rw [heq] at h htop
      cases h with
      | here =>
        rcases eq_of_kind_exprResult hkind with hrule | ⟨-, hmade⟩
        · exact htop rfl hrule
        · exact hpart hmade
      | child hc h => exact hpart (hchild hc h)
    · rw [heq] at h htop
      -- the comment changes the sketch itself or the assignment below it, and nothing further
      -- inside
      rcases of_within_document h with rfl | hassign | ⟨c, hc, h⟩
      · rw [kind_document] at hkind
        rcases eq_of_kind_exprResult hkind with hrule | ⟨hother, -⟩
        · exact htop rfl hrule
        · rw [hstatement] at hother
          cases hother
      · rw [hkind] at hassign
        cases hassign
      · exact hpart (hchild hc h)

/-- The place of an expression statement is that of its phrase. -/
theorem extent_expressionStatement (parts : List Tree) :
    (ofTree (.node .expressionStatement parts)).extent
      = (Script.Tree.node .expressionStatement parts).extent := by
  rw [ofTree]
  rcases documented_eq (.node .expressionStatement parts) .expressionStatement (piecesOf parts) with
    heq | ⟨d, -, heq⟩
  · rw [heq]
    rfl
  · rw [heq]
    rcases document_eq (ofRule (.node .expressionStatement parts) .expressionStatement
      (piecesOf parts)) d with h | ⟨text, doc, e, c, cs, h, -, h'⟩
    · rw [h]
      rfl
    · rw [h']
      exact (congrArg Sketch.extent h).symm

/-- The documentation comment before an expression statement that is an assignment is on the
assignment. -/
theorem doc_of_assign {parts : List Tree} {d : DocComment}
    (hdoc : (Script.Tree.node .expressionStatement parts).docBefore? = some d) {c : Sketch}
    (hc : c ∈ (ofTree (.node .expressionStatement parts)).children) (hassign : c.kind = .assign)
    (honly : ∃ c', (ofTree (.node .expressionStatement parts)).children = [c']) :
    c.doc = some d := by
  have heq : ofTree (.node .expressionStatement parts) = document d
      (fresh .exprResult "" (Script.Tree.node .expressionStatement parts).extent
        (ownOf (piecesOf parts))) := by
    rw [ofTree, documented, hdoc]
    rfl
  rw [heq] at hc honly
  generalize ownOf (piecesOf parts) = cs at hc honly
  cases cs with
  | nil => exact absurd hc List.not_mem_nil
  | cons c₀ cs =>
    rw [fresh, document] at hc honly
    split at hc
    · next h =>
      rw [if_pos h] at honly
      obtain ⟨c', honly⟩ := honly
      rw [honly, List.mem_singleton] at hc
      have hhead : c₀.setDoc d = c' := (List.cons.inj honly).1
      rw [hc, ← hhead]
      cases c₀
      rfl
    · next h =>
      rw [if_neg h] at honly
      obtain ⟨c', honly⟩ := honly
      rw [honly, List.mem_singleton] at hc
      have hhead : c₀ = c' := (List.cons.inj honly).1
      exact absurd (hhead ▸ hc ▸ hassign) h

end Sketch

/-! ## Nodes of expression statements -/

namespace Program

/-- What hangs below a node shows a part of what the node shows. -/
theorem Shows.below {p : Program} (hp : p.Forest) {n m : Handle} {s : Sketch} (h : p.Shows n s)
    (hm : p.Below n m) : ∃ t, p.Shows m t ∧ Sketch.Within t s := by
  induction hm with
  | here => exact ⟨s, h, .here⟩
  | child _ link ih =>
    obtain ⟨t, ht, hwithin⟩ := ih
    obtain ⟨u, hu, hshow⟩ := ht.child (hp.mem_children_iff.mpr link)
    exact ⟨u, hshow, (Sketch.Within.child hu .here).trans hwithin⟩

/-- The offset at which a node begins. -/
def startOf? (p : Program) (n : Handle) : Option Nat := p.nodes[n]?.map (·.start)

theorem Shows.startOf? {p : Program} {n : Handle} {s : Sketch} (h : p.Shows n s) :
    p.startOf? n = some s.extent.start := by
  obtain ⟨node, hnode, -, -, -, hextent, -⟩ := shows_iff.mp h
  unfold Program.startOf?
  rw [hnode, Option.map_some, ← hextent]

theorem Shows.docOf? {p : Program} {n : Handle} {s : Sketch} (h : p.Shows n s) :
    p.docOf? n = s.doc := by
  obtain ⟨node, hnode, -, -, hdoc, -⟩ := shows_iff.mp h
  unfold Program.docOf?
  rw [hnode, Option.bind_some, hdoc]

/-- The node is the script of one of some sources: the child of the root that was made for it. -/
def IsScriptOf (p : Program) (sources : List Source) (source : Source) (n : Handle) : Prop :=
  ∃ before after, sources = before ++ source :: after ∧
    (∃ statements, Script.read source.text = .ok statements) ∧
    (p.childrenOf root)[(scriptsOf before).length]? = some n

/-- The script of a source shows the statements of the source. -/
theorem IsScriptOf.shows {sources : List Source} {types : Handle → Option JsType}
    {source : Source} {n : Handle}
    (h : ((ofSources sources).1.withTypes types).IsScriptOf sources source n) :
    ∃ statements, Script.read source.text = .ok statements ∧
      ((ofSources sources).1.withTypes types).Shows n
        (scriptSketch source.path source.text.length statements) := by
  obtain ⟨before, after, hsources, ⟨statements, hread⟩, hn⟩ := h
  refine ⟨statements, hread, ?_⟩
  have hall : List.Forall₂ ((ofSources sources).1.withTypes types).Shows
      (((ofSources sources).1.withTypes types).childrenOf root) (scriptsOf sources) :=
    (composed_ofSources sources).shows.withTypes.childrenOf
  have hscript : (scriptsOf sources)[(scriptsOf before).length]?
      = some (scriptSketch source.path source.text.length statements) := by
    have hcons : scriptsOf sources = scriptsOf before ++
        scriptSketch source.path source.text.length statements :: scriptsOf after := by
      rw [hsources]
      simp only [scriptsOf, List.filterMap_append, List.filterMap_cons, hread]
    rw [hcons, List.getElem?_append_right (Nat.le_refl _), Nat.sub_self]
    rfl
  obtain ⟨hlength, hget⟩ := List.forall₂_iff_get.mp hall
  obtain ⟨hi, hn⟩ := List.getElem?_eq_some_iff.mp hn
  obtain ⟨hj, hscript⟩ := List.getElem?_eq_some_iff.mp hscript
  have hpair := hget _ hi hj
  rw [List.get_eq_getElem, List.get_eq_getElem, hn, hscript] at hpair
  exact hpair

/-- An expression statement of a script shows a phrase of the script. -/
theorem Shows.exprResult_of_script {p : Program} (hp : p.Forest) {script n : Handle}
    {path : String} {length : Nat} {statements : List Tree}
    (h : p.Shows script (scriptSketch path length statements)) (hn : p.Below script n)
    (hkind : p.kindOf? n = some .exprResult) :
    ∃ x ∈ statements, ∃ parts, (Script.Tree.node .expressionStatement parts).Inside x ∧
      p.Shows n (Sketch.ofTree (.node .expressionStatement parts)) := by
  obtain ⟨t, ht, hwithin⟩ := h.below hp hn
  have hk : t.kind = .exprResult := by
    rw [ht.kindOf?] at hkind
    exact Option.some.inj hkind
  cases hwithin with
  | here => cases hk
  | child hc hwithin =>
    obtain ⟨x, hx, hmade⟩ := Sketch.MadeIn.of_ownOf hwithin hc
    obtain ⟨parts, hparts, rfl⟩ := hmade.expressionStatement hk
    exact ⟨x, hx, parts, hparts, ht⟩

end Program

end SuperForward
