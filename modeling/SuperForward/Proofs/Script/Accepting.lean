/-
  Greedy phrases are read.

  The tokens of a phrase predict how the phrase begins, so a greedy phrase is taken off the head
  of its tokens wherever nothing follows that could extend it.
-/
import SuperForward.Proofs.Script.Following

namespace SuperForward.Script

/-! ## How phrases begin -/

theorem Category.startsWith_of_narrower {c d : Category} (h : c.narrower? = some d)
    {kind : TokenKind} (hd : d.startsWith kind = true) : c.startsWith kind = true := by
  cases c with
  | expression rank lead =>
    cases h
    exact (Bool.or_eq_true _ _).mpr (.inl hd)
  | argument =>
    cases h
    exact (Bool.or_eq_true _ _).mpr (.inr hd)
  | propertyKey =>
    cases h
    exact (Bool.or_eq_true _ _).mpr (.inr hd)
  | _ => cases h

/-- Every category. -/
def Category.all : List Category :=
  [.statement, .block, .functionBody, .declarator, .params, .param, .forInit, .switchCase,
    .catchClause, .finallyClause, .newTarget, .arguments, .argument, .property, .propertyKey,
    .propertyName, .declarationWord, .propertyWord, .assignOperator, .binaryOperator,
    .unaryOperator, .updateOperator] ++
  [Lead.anywhere, .atStatement].flatMap fun lead => .primary lead ::
    Rank.all.map fun rank => .expression rank lead

theorem Category.mem_all (c : Category) : c ∈ all := by
  cases c with
  | expression rank lead => cases rank <;> cases lead <;> decide
  | primary lead => cases lead <;> decide
  | _ => decide

theorem Category.startsWith_of_accepts {c : Category} {kind : TokenKind}
    (h : c.acceptsToken kind = true) : c.startsWith kind = true := by
  have hall : (all.all fun c => TokenKind.all.all fun kind =>
      !c.acceptsToken kind || c.startsWith kind) = true := by
    decide
  have := List.all_eq_true.mp (List.all_eq_true.mp hall c (mem_all c)) kind (TokenKind.mem_all kind)
  rw [h] at this
  exact this

/-- Phrases of the category may begin with the rule, which is one of its rules. -/
def Category.mayBegin : Category → Rule → Bool
  | .expression rank _, _ => Rank.unary.fits rank
  | .primary .atStatement, .object | .primary .atStatement, .functionExpression => false
  | _, _ => true

theorem Category.mayBegin_of_predict {c : Category} {ahead : List TokenKind} {r : Rule}
    (h : c.predict ahead = some (.rule r)) : c.mayBegin r = true := by
  cases c with
  | expression rank lead => exact (fits_of_predict h).2
  | primary lead =>
    cases ahead with
    | nil => cases h
    | cons kind rest =>
      have hall : ∀ kind ∈ TokenKind.all,
          (primaryRule? lead kind).all (Category.primary lead).mayBegin = true := by
        cases lead <;> decide
      obtain ⟨r', hr', heq⟩ := Option.map_eq_some_iff.mp h
      cases heq
      have := hall kind (TokenKind.mem_all kind)
      rw [hr'] at this
      exact this
  | _ => rfl

/-- The categories with the rules that their phrases may begin with. -/
def Category.beginnings : List (Category × Rule) :=
  all.flatMap fun c => (c.rules.filter c.mayBegin).map fun r => (c, r)

/-- What holds of every category with the rules that its phrases may begin with. -/
theorem Category.of_predict (test : Category → Rule → Bool)
    (hall : (beginnings.all fun e => test e.1 e.2) = true) {c : Category}
    {ahead : List TokenKind} {r : Rule} (h : c.predict ahead = some (.rule r)) :
    test c r = true := by
  refine List.all_eq_true.mp hall (c, r) (List.mem_flatMap.mpr ⟨c, mem_all c, ?_⟩)
  exact List.mem_map_of_mem (List.mem_filter.mpr ⟨rule_mem_of_predict h, mayBegin_of_predict h⟩)

/-- A phrase of a rule begins as its category says. -/
theorem Category.startsWith_of_items {c : Category} {ahead : List TokenKind} {r : Rule}
    (h : c.predict ahead = some (.rule r)) {next : Option TokenKind}
    (hnext : itemsNext r.items Option.isNone next = true) : next.any c.startsWith = true := by
  have hall : (beginnings.all fun e => nextKinds.all fun next =>
      !itemsNext e.2.items Option.isNone next || next.any e.1.startsWith) = true := by
    decide
  exact of_all_nextKinds (of_predict (fun c r => nextKinds.all fun next =>
    !itemsNext r.items Option.isNone next || next.any c.startsWith) hall h) hnext

/-- The rules that only a later token tells from others. -/
def lateRules : List Rule := [.forInStatement, .defaultParam, .pair]

/-- What a rule begins with predicts the rule. -/
theorem Category.predict_of_items {c : Category} {ahead : List TokenKind} {r : Rule}
    (h : c.predict ahead = some (.rule r)) (hr : r ∉ lateRules) {kind : TokenKind}
    (hnext : itemsNext r.items Option.isNone (some kind) = true) :
    c.predict [kind] = some (.rule r) := by
  have hall : (beginnings.all fun e => decide (e.2 ∈ lateRules) || nextKinds.all fun next =>
      !itemsNext e.2.items Option.isNone next ||
        next.any fun kind => e.1.predict [kind] == some (.rule e.2)) = true := by
    decide
  have := of_predict (fun c r => decide (r ∈ lateRules) || nextKinds.all fun next =>
    !itemsNext r.items Option.isNone next ||
      next.any fun kind => c.predict [kind] == some (.rule r)) hall h
  rcases (Bool.or_eq_true _ _).mp this with hlate | this
  · exact absurd (of_decide_eq_true hlate) hr
  · exact eq_of_beq (of_all_nextKinds this hnext)

/-- Of three categories, more than the first token may be looked at. -/
theorem Category.predict_first {c : Category} (hstatement : c ≠ .statement) (hparam : c ≠ .param)
    (hproperty : c ≠ .property) (kind : TokenKind) (rest : List TokenKind) :
    c.predict (kind :: rest) = c.predict [kind] := by
  cases c <;> first | rfl | contradiction

theorem isForIn_cons {kind : TokenKind} (h : kind ≠ .keyword .forKw) (rest : List TokenKind) :
    isForIn (kind :: rest) = false := by
  unfold isForIn
  split
  · next heq => cases heq; exact absurd rfl h
  · rfl

theorem Category.predict_statement {kind : TokenKind} {rest : List TokenKind} :
    Category.statement.predict (kind :: rest) = if isForIn (kind :: rest) = true then
      some (.rule .forInStatement) else (statementRule? kind).map .rule := rfl

/-- A phrase begins with a token that its category may begin with. -/
theorem Formed.first {depth : Nat} {c : Category} {x : Tree} (h : Formed depth c x) :
    ∃ t ts, x.tokens = t :: ts ∧ c.startsWith t.kind = true := by
  induction depth generalizing c x with
  | zero => exact h.elim
  | succ depth ih =>
    induction h with
    | @token t accepted => exact ⟨t, [], rfl, Category.startsWith_of_accepts accepted⟩
    | through predicted inner =>
      obtain ⟨t, ts, htokens, ht⟩ := ih inner
      exact ⟨t, ts, htokens, Category.startsWith_of_narrower
        (Category.narrower_of_predict predicted) ht⟩
    | @rule r ahead xs predicted items =>
      have hnext := itemsFit_next (fun h => ih h) r.groups_ne_nil items
        (show Option.isNone (nextKind? []) = true from rfl)
      rw [List.append_nil] at hnext
      have hstart := Category.startsWith_of_items predicted hnext
      cases hxs : Tree.tokensOfAll xs with
      | nil => rw [hxs] at hstart; cases hstart
      | cons t ts => rw [hxs] at hstart; exact ⟨t, ts, hxs, hstart⟩
    | @extended x r kind xs _ _ _ ih' =>
      obtain ⟨t, ts, htokens, ht⟩ := ih'
      refine ⟨t, ts ++ Tree.tokensOfAll xs, ?_, ht⟩
      rw [Tree.tokens, Tree.tokensOfAll, htokens, List.cons_append]

/-! ## The tokens of a phrase predict it -/

/-- Phrases of the category may be extended. -/
def Category.isExtended : Category → Bool
  | .expression .. | .newTarget => true
  | _ => false

section Predict

variable {c : Category} {ahead : List TokenKind} {r : Rule} {xs : List Tree}

/-- A phrase of a category that nothing extends is a token, a phrase of a narrower category, or a
node of a rule of the category. -/
theorem Formable.eq_plain {x : Tree} (h : Formable c x) (hplain : c.isExtended = false) :
    (∃ t, x = .leaf t ∧ c.acceptsToken t.kind = true) ∨
      (∃ d, c.narrower? = some d ∧ Formable d x) ∨
      ∃ r ∈ c.rules, ∃ xs, x = .node r xs ∧ itemsFit Formable r.items xs := by
  cases formable_iff.mp h with
  | @token t accepted => exact .inl ⟨t, rfl, accepted⟩
  | through predicted inner =>
    exact .inr (.inl ⟨_, Category.narrower_of_predict predicted, inner⟩)
  | rule predicted items =>
    exact .inr (.inr ⟨_, Category.rule_mem_of_predict predicted, _, rfl, items⟩)
  | extended _ extension =>
    obtain ⟨-, ⟨_, _, rfl⟩ | rfl⟩ := Category.extension_eq extension <;> cases hplain

/-- A phrase of a category without rules is a token. -/
theorem Formable.eq_leaf {x : Tree} (h : Formable c x) (hplain : c.isExtended = false)
    (hnarrower : c.narrower? = none) (hrules : c.rules = []) :
    ∃ t, x = .leaf t ∧ c.acceptsToken t.kind = true := by
  rcases h.eq_plain hplain with ht | ⟨d, hd, -⟩ | ⟨r, hr, -⟩
  · exact ht
  · rw [hnarrower] at hd
    cases hd
  · rw [hrules] at hr
    cases hr

theorem aheadOf_cons (t : Token) (ts : List Token) :
    aheadOf (t :: ts) = t.kind :: (ts.take 4).map (·.kind) := rfl

/-- The key of a property is a single token. -/
theorem Formable.tokens_propertyKey {x : Tree} (h : Formable .propertyKey x) :
    ∃ t, x.tokens = [t] := by
  rcases h.eq_plain rfl with ⟨t, rfl, -⟩ | ⟨d, hd, h⟩ | ⟨r, hr, -⟩
  · exact ⟨t, rfl⟩
  · cases hd
    rcases h.eq_plain rfl with ⟨t, rfl, -⟩ | ⟨d, hd, h⟩ | ⟨r, hr, xs, rfl, hxs⟩
    · exact ⟨t, rfl⟩
    · cases hd
    · cases List.mem_singleton.mp hr
      obtain ⟨y, ys, rfl, hy, hys⟩ := itemsFit_one.mp hxs
      cases itemsFit_nil.mp hys
      obtain ⟨t, rfl, -⟩ := hy.eq_leaf rfl rfl rfl
      exact ⟨t, rfl⟩
  · cases hr

/-- What follows the name of a declared variable, if anything of the declaration does. -/
theorem Formable.tokens_declarator {x : Tree} (h : Formable .declarator x) :
    ∃ t ts, x.tokens = t :: ts ∧ t.kind = .name ∧ ∀ t' ∈ ts.head?, t'.kind = .mark .assign := by
  rcases h.eq_plain rfl with ⟨t, -, ht⟩ | ⟨d, hd, h⟩ | ⟨r, hr, xs, rfl, hxs⟩
  · cases ht
  · cases hd
  · cases List.mem_singleton.mp hr
    obtain ⟨_, ys, rfl, ⟨t, rfl, ht⟩, hys⟩ := itemsFit_one.mp hxs
    obtain ⟨zs, ws, rfl, hzs, hws⟩ := hys
    cases itemsFit_nil.mp hws
    refine ⟨t, _, rfl, ht, fun t' ht' => ?_⟩
    rcases hzs with rfl | ⟨_, vs, rfl, ⟨u, rfl, hu⟩, -⟩
    · cases ht'
    · cases ht'
      exact hu

/-- What begins a loop over names is told by five tokens. -/
theorem isForIn_eq_false {t u : Token} {ts : List Token}
    (h : ∀ a b c rest, ts = a :: b :: c :: rest →
      Category.declarationWord.acceptsToken a.kind = true → b.kind = .name → c.kind ≠ .keyword .inKw) :
    isForIn (aheadOf (t :: u :: ts)) = false := by
  match ts, h with
  | a :: b :: c :: rest, h =>
    show isForIn (t.kind :: u.kind :: a.kind :: b.kind :: c.kind :: _) = false
    unfold isForIn
    split
    · next heq =>
      simp only [List.cons.injEq] at heq
      obtain ⟨-, -, hword, hname, hin, -⟩ := heq
      rw [← Bool.not_eq_true, ← hword]
      exact fun hdeclares => h a b c rest rfl hdeclares hname hin
    · rfl
  | [], _ | [_], _ | [_, _], _ =>
    show isForIn (t.kind :: u.kind :: _) = false
    unfold isForIn
    split
    · next heq => simp at heq
    · rfl

theorem Category.not_declares_of_startsExpression {kind : TokenKind}
    (h : startsExpression .sequence .anywhere kind = true) :
    Category.declarationWord.acceptsToken kind = false := by
  have hall : ∀ kind ∈ TokenKind.all, startsExpression .sequence .anywhere kind = true →
      Category.declarationWord.acceptsToken kind = false := by
    decide
  exact hall kind (TokenKind.mem_all kind) h

/-- What a loop begins with, up to its first semicolon: no word `in` follows the name of a
variable that is declared there. -/
theorem Formable.tokens_forInit {x : Tree} (h : Formable .forInit x) {t : Token}
    (ht : t.kind = .mark .semicolon) {a b c : Token} {ts rest : List Token}
    (htokens : x.tokens ++ t :: ts = a :: b :: c :: rest)
    (hdeclares : Category.declarationWord.acceptsToken a.kind = true) :
    c.kind ≠ .keyword .inKw := by
  rcases h.eq_plain rfl with ⟨t, -, ht⟩ | ⟨d, hd, h⟩ | ⟨r, hr, xs, rfl, hxs⟩
  · cases ht
  · cases hd
  · simp only [Category.rules, List.mem_cons, List.not_mem_nil, or_false] at hr
    rcases hr with rfl | rfl
    · -- variables are declared
      obtain ⟨_, ys, rfl, hword, hys⟩ := itemsFit_one.mp hxs
      obtain ⟨u, rfl, -⟩ := Formable.eq_leaf (c := .declarationWord) hword rfl rfl rfl
      obtain ⟨zs, _, rfl, hzs, hnil⟩ := hys
      cases itemsFit_nil.mp hnil
      rcases hzs with ⟨he, -⟩ | ⟨d, ds, rfl, hd, hds⟩
      · cases he
      obtain ⟨v, vs, hdtokens, -, hnext⟩ := Formable.tokens_declarator hd
      simp only [Tree.tokens, Tree.tokensOfAll, hdtokens, List.append_nil, List.append_assoc,
        List.cons_append, List.nil_append, List.cons.injEq] at htokens
      obtain ⟨-, -, htokens⟩ := htokens
      cases vs with
      | cons w vs =>
        obtain ⟨rfl, -⟩ := List.cons.inj htokens
        rw [hnext w rfl]
        simp
      | nil =>
        cases hds with
        | none =>
          obtain ⟨rfl, -⟩ := List.cons.inj htokens
          rw [ht]
          simp
        | trail comma _ =>
          obtain ⟨rfl, -⟩ := List.cons.inj htokens
          rw [comma]
          simp
        | more comma _ _ =>
          obtain ⟨rfl, -⟩ := List.cons.inj htokens
          rw [comma]
          simp
    · -- an expression stands there
      obtain ⟨y, ys, rfl, ⟨depth, hy⟩, hys⟩ := itemsFit_one.mp hxs
      obtain ⟨u, us, hytokens, hstart⟩ := hy.first
      simp only [Tree.tokens, Tree.tokensOfAll, hytokens, List.append_assoc,
        List.cons_append] at htokens
      obtain ⟨rfl, -⟩ := List.cons.inj htokens
      rw [Category.not_declares_of_startsExpression hstart] at hdeclares
      cases hdeclares

/-- A loop that does not go over names does not look as if it did. -/
theorem isForIn_of_forStatement {xs : List Tree}
    (hxs : itemsFit Formable Rule.forStatement.items xs) (rest : List Token) :
    isForIn (aheadOf (Tree.tokensOfAll xs ++ rest)) = false := by
  obtain ⟨_, ys, rfl, ⟨t, rfl, -⟩, hys⟩ := itemsFit_one.mp hxs
  obtain ⟨_, zs, rfl, ⟨u, rfl, -⟩, hzs⟩ := itemsFit_one.mp hys
  refine isForIn_eq_false fun a b c rest' htokens hdeclares hname => ?_
  rcases itemsFit_optional.mp hzs with hzs | ⟨x, ws, rfl, hx, hws⟩
  · obtain ⟨_, ws, rfl, ⟨v, rfl, hv⟩, hws⟩ := itemsFit_one.mp hzs
    obtain ⟨rfl, -⟩ := List.cons.inj htokens
    rw [hv] at hdeclares
    cases hdeclares
  · obtain ⟨_, vs, rfl, ⟨v, rfl, hv⟩, -⟩ := itemsFit_one.mp hws
    have htokens' : x.tokens ++ v :: (Tree.tokensOfAll vs ++ rest) = a :: b :: c :: rest' := by
      rw [← htokens]
      simp [Tree.tokensOfAll, Tree.tokens]
    exact Formable.tokens_forInit hx hv htokens' hdeclares

theorem isForIn_of_forInStatement {xs : List Tree}
    (hxs : itemsFit Formable Rule.forInStatement.items xs) (rest : List Token) :
    isForIn (aheadOf (Tree.tokensOfAll xs ++ rest)) = true := by
  obtain ⟨_, as, rfl, ⟨t, rfl, ht⟩, has⟩ := itemsFit_one.mp hxs
  obtain ⟨_, bs, rfl, ⟨u, rfl, hu⟩, hbs⟩ := itemsFit_one.mp has
  obtain ⟨_, cs, rfl, hword, hcs⟩ := itemsFit_one.mp hbs
  obtain ⟨a, rfl, ha⟩ := Formable.eq_leaf (c := .declarationWord) hword rfl rfl rfl
  obtain ⟨_, ds, rfl, ⟨b, rfl, hb⟩, hds⟩ := itemsFit_one.mp hcs
  obtain ⟨_, es, rfl, ⟨d, rfl, hd⟩, hes⟩ := itemsFit_one.mp hds
  show isForIn (t.kind :: u.kind :: a.kind :: b.kind :: d.kind :: _) = true
  rw [ht, hu, hb, hd]
  exact ha

/-- A parameter shows its rule with the token after its name. -/
theorem predict_param {xs : List Tree} (hr : r ∈ Category.param.rules)
    (hxs : itemsFit Formable r.items xs) {rest : List Token}
    (hfollow : nextKind? rest ≠ some (.mark .assign)) :
    Category.param.predict (aheadOf (Tree.tokensOfAll xs ++ rest)) = some (.rule r) := by
  have hpredict (kinds : List TokenKind) : Category.param.predict (.name :: kinds)
      = if kinds.head? = some (.mark .assign) then some (.rule .defaultParam)
        else some (.rule .simpleParam) := rfl
  simp only [Category.rules, List.mem_cons, List.not_mem_nil, or_false] at hr
  rcases hr with rfl | rfl | rfl
  · obtain ⟨_, as, rfl, ⟨t, rfl, ht⟩, -⟩ := itemsFit_one.mp hxs
    show Category.param.predict (t.kind :: _) = _
    rw [ht]
    rfl
  · obtain ⟨_, as, rfl, ⟨t, rfl, ht⟩, has⟩ := itemsFit_one.mp hxs
    obtain ⟨_, bs, rfl, ⟨u, rfl, hu⟩, -⟩ := itemsFit_one.mp has
    show Category.param.predict (t.kind :: u.kind :: _) = _
    rw [ht, hpredict, List.head?_cons, hu, if_pos rfl]
  · obtain ⟨_, as, rfl, ⟨t, rfl, ht⟩, has⟩ := itemsFit_one.mp hxs
    cases itemsFit_nil.mp has
    show Category.param.predict (t.kind :: (rest.take 4).map (·.kind)) = _
    have hnext : ((rest.take 4).map (·.kind)).head? ≠ some (.mark .assign) := by
      cases rest with
      | nil => simp
      | cons u rest => exact hfollow
    rw [ht, hpredict, if_neg hnext]

/-- A property shows its rule with the token after its key. -/
theorem predict_property {xs : List Tree} (hr : r ∈ Category.property.rules)
    (hxs : itemsFit Formable r.items xs) {rest : List Token}
    (hfollow : nextKind? rest ≠ some (.mark .colon)) :
    Category.property.predict (aheadOf (Tree.tokensOfAll xs ++ rest)) = some (.rule r) := by
  have hpredict (kind : TokenKind) (kinds : List TokenKind) :
      Category.property.predict (kind :: kinds)
        = if kind = .name ∧ kinds.head? ≠ some (.mark .colon) then some (.rule .shorthand)
          else if Category.property.startsWith kind = true then some (.rule .pair)
          else none := rfl
  simp only [Category.rules, List.mem_cons, List.not_mem_nil, or_false] at hr
  rcases hr with rfl | rfl
  · obtain ⟨_, as, rfl, ⟨t, rfl, ht⟩, has⟩ := itemsFit_one.mp hxs
    cases itemsFit_nil.mp has
    have hnext : ((rest.take 4).map (·.kind)).head? ≠ some (.mark .colon) := by
      cases rest with
      | nil => simp
      | cons u rest => exact hfollow
    show Category.property.predict (t.kind :: (rest.take 4).map (·.kind)) = _
    rw [hpredict, if_pos ⟨ht, hnext⟩]
  · obtain ⟨key, as, rfl, hkey, has⟩ := itemsFit_one.mp hxs
    obtain ⟨_, bs, rfl, ⟨u, rfl, hu⟩, -⟩ := itemsFit_one.mp has
    obtain ⟨t, htokens⟩ := Formable.tokens_propertyKey hkey
    have hstart : Category.property.startsWith t.kind = true := by
      obtain ⟨depth, hkey⟩ := hkey
      obtain ⟨t', ts, htokens', hstart⟩ := hkey.first
      rw [htokens] at htokens'
      cases htokens'
      exact hstart
    rw [Tree.tokensOfAll, htokens]
    show Category.property.predict (t.kind :: u.kind :: _) = _
    rw [hpredict, if_neg (by simp [hu]), if_pos hstart]

/-- The tokens of a phrase that begins with a rule predict the rule. -/
theorem Category.predict_tokens (h : c.predict ahead = some (.rule r)) {xs : List Tree}
    (hxs : itemsFit Formable r.items xs) {rest : List Token}
    (hparam : c = .param → nextKind? rest ≠ some (.mark .assign))
    (hproperty : c = .property → nextKind? rest ≠ some (.mark .colon)) :
    c.predict (aheadOf (Tree.tokensOfAll xs ++ rest)) = some (.rule r) := by
  have hmem := rule_mem_of_predict h
  obtain ⟨depth, hdepth⟩ := itemsFit_bounded hxs
  have hnext := itemsFit_next (fun h => h.first) r.groups_ne_nil hdepth
    (show Option.isNone (nextKind? []) = true from rfl)
  rw [List.append_nil] at hnext
  obtain ⟨t, ts, htokens⟩ : ∃ t ts, Tree.tokensOfAll xs = t :: ts := by
    have hstart := startsWith_of_items h hnext
    cases hts : Tree.tokensOfAll xs with
    | nil => rw [hts] at hstart; cases hstart
    | cons t ts => exact ⟨t, ts, rfl⟩
  -- rules other than those of loops, parameters and properties are told by their first token
  have hfirst : r ∉ lateRules → c.predict [t.kind] = some (.rule r) := by
    intro hr
    rw [htokens] at hnext
    exact predict_of_items h hr hnext
  by_cases hc : c = .param ∨ c = .property
  · rcases hc with rfl | rfl
    · exact predict_param hmem hxs (hparam rfl)
    · exact predict_property hmem hxs (hproperty rfl)
  obtain ⟨hnotParam, hnotProperty⟩ := not_or.mp hc
  by_cases hstatement : c = .statement
  · subst hstatement
    -- the two kinds of loops begin alike, and the parser looks further ahead to tell them apart
    by_cases hforIn : r = .forInStatement
    · subst hforIn
      have hisForIn := isForIn_of_forInStatement hxs rest
      rw [htokens, List.cons_append, aheadOf_cons] at hisForIn ⊢
      rw [predict_statement, if_pos hisForIn]
    · have hr : r ∉ lateRules :=
        (show ∀ r ∈ Category.statement.rules, r ≠ .forInStatement → r ∉ lateRules by decide) r hmem
          hforIn
      have hrule : statementRule? t.kind = some r := by
        have := hfirst hr
        rw [predict_statement, if_neg (by cases t.kind <;> simp [isForIn])] at this
        obtain ⟨r', hr', heq⟩ := Option.map_eq_some_iff.mp this
        cases heq
        exact hr'
      have hisForIn : isForIn (aheadOf (Tree.tokensOfAll xs ++ rest)) = false := by
        by_cases hfor : t.kind = .keyword .forKw
        · rw [hfor] at hrule
          cases hrule
          exact isForIn_of_forStatement hxs rest
        · rw [htokens]
          exact isForIn_cons hfor _
      rw [htokens, List.cons_append, aheadOf_cons] at hisForIn ⊢
      rw [predict_statement, if_neg (by rw [hisForIn]; decide), hrule]
      rfl
  · have hr : r ∉ lateRules := by
      have hall := of_predict (fun c r => decide
        (c = .statement ∨ c = .param ∨ c = .property ∨ r ∉ lateRules)) (by decide) h
      simpa [hstatement, hnotParam, hnotProperty] using of_decide_eq_true hall
    rw [htokens, List.cons_append, aheadOf_cons,
      predict_first hstatement hnotParam hnotProperty, hfirst hr]

end Predict

theorem Category.predict_of_accepts {c : Category} {kind : TokenKind}
    (h : c.acceptsToken kind = true) (rest : List TokenKind) :
    c.predict (kind :: rest) = some .token := by
  cases c <;> exact if_pos h

theorem Category.predict_of_narrower {c d : Category} (h : c.narrower? = some d)
    {kind : TokenKind} (hd : d.startsWith kind = true) (rest : List TokenKind) :
    c.predict (kind :: rest) = some (.through d) := by
  have hall : (all.all fun c => c.narrower?.all fun d => TokenKind.all.all fun kind =>
      !d.startsWith kind || c.predict [kind] == some (.through d)) = true := by
    decide
  have hc := List.all_eq_true.mp hall c (mem_all c)
  rw [h] at hc
  have hkind := List.all_eq_true.mp hc kind (TokenKind.mem_all kind)
  rw [hd] at hkind
  rw [predict_first (by rintro rfl; cases h) (by rintro rfl; cases h) (by rintro rfl; cases h)]
  exact eq_of_beq hkind

/-! ## What may follow the phrases of a rule -/

/-- The token takes nothing away from the end of an expression that is so tight. -/
def Rank.admits : Rank → TokenKind → Bool
  | .member, _ | .update, _ => true
  | rank, kind => rank.follows kind

/-- The token takes nothing away from the end of a phrase of the category that is so tight. -/
def Category.admitsAfter : Category → Rank → TokenKind → Bool
  | .expression .., rank, kind => rank.admits kind
  | .newTarget, _, _ => true
  | c, _, kind => c.follows kind

theorem Rank.admits_of_follows {limit rank : Rank} (hfits : rank.fits limit = true)
    {kind : TokenKind} (h : limit.follows kind = true) : rank.admits kind = true := by
  have hall : ∀ limit ∈ all, ∀ rank ∈ all, ∀ kind ∈ TokenKind.all, rank.fits limit = true →
      limit.follows kind = true → rank.admits kind = true := by
    decide
  exact hall limit (mem_all limit) rank (mem_all rank) kind (TokenKind.mem_all kind) hfits h

/-- What extends an expression takes nothing away from its end. -/
theorem Rank.admits_of_extending {rank left : Rank} {kind : TokenKind} {r : Rule}
    (hkind : kind.extendingRule? = some r) (hleft : r.leftRank? = some left)
    (hfits : rank.fits left = true) : rank.admits kind = true := by
  have hall : ∀ rank ∈ all, ∀ kind ∈ TokenKind.all, (kind.extendingRule?.all fun r =>
      r.leftRank?.all fun left => !rank.fits left || rank.admits kind) = true := by
    decide
  have := hall rank (mem_all rank) kind (TokenKind.mem_all kind)
  rw [hkind, Option.all_some, hleft, Option.all_some, hfits] at this
  exact this

theorem Rank.extension_of_follows {limit : Rank} {kind : TokenKind}
    (h : limit.follows kind = true) (rank : Rank) (lead : Lead) :
    (Category.expression limit lead).extension rank kind = none := by
  cases hextension : (Category.expression limit lead).extension rank kind with
  | none => rfl
  | some r =>
    obtain ⟨hkind, ⟨left, hleft, -⟩, hrank⟩ := Category.extension_expression.mp hextension
    have hreach : (Category.expression limit.reach .anywhere).extension .member kind = some r := by
      refine Category.extension_expression.mpr ⟨hkind, ⟨left, hleft, by cases left <;> rfl⟩, ?_⟩
      exact fits_trans hrank (by cases limit <;> rfl)
    rw [follows, hreach] at h
    cases h

/-- What follows a phrase of the category may follow the narrower phrase that it is. -/
theorem Category.follows_of_narrower {c d : Category} (h : c.narrower? = some d) {rank : Rank}
    {kind : TokenKind} (hadmits : c.admitsAfter rank kind = true) : d.follows kind = true := by
  cases c with
  | expression limit lead => cases h; rfl
  | argument => cases h; exact hadmits
  | propertyKey => cases h; rfl
  | _ => cases h

theorem Category.extendingRule_of_extension {c : Category} {rank : Rank} {kind : TokenKind}
    {r : Rule} (h : c.extension rank kind = some r) : kind.extendingRule? = some r := by
  rcases (extension_eq h).2 with ⟨limit, lead, rfl⟩ | rfl <;>
    exact (Option.filter_eq_some_iff.mp h).1

theorem Category.extension_congr {kind kind' : TokenKind}
    (h : kind.extendingRule? = kind'.extendingRule?) (c : Category) (rank : Rank) :
    c.extension rank kind = c.extension rank kind' := by
  cases c <;> first | rfl | simp only [extension, h]

/-- What extends a phrase takes nothing away from its end, and what follows the extended phrase
takes nothing away from the end of what extends it. -/
theorem Category.admits_of_extension {c : Category} {rank : Rank} {kind : TokenKind} {r : Rule}
    (h : c.extension rank kind = some r) : c.admitsAfter rank kind = true ∧
      ∀ next, c.admitsAfter r.rank next = true → r.rank.admits next = true := by
  rcases (extension_eq h).2 with ⟨limit, lead, rfl⟩ | rfl
  · obtain ⟨hkind, ⟨left, hleft, hfits⟩, -⟩ := extension_expression.mp h
    exact ⟨Rank.admits_of_extending hkind hleft hfits, fun next hnext => hnext⟩
  · cases extension_newTarget h
    exact ⟨rfl, fun next _ => rfl⟩

/-- The rules that may end without something that they could end with. -/
def openRules : List Rule := [.ifStatement, .newExpression]

theorem Category.itemsAllow_of_predict {c : Category} {ahead : List TokenKind} {r : Rule}
    (h : c.predict ahead = some (.rule r)) (hr : r ∉ openRules) :
    itemsAllow Category.follows r.items (fun next => next.all (c.admitsAfter r.rank)) = true := by
  have hall : (beginnings.all fun e => decide (e.2 ∈ openRules) ||
      itemsAllow Category.follows e.2.items fun next => next.all (e.1.admitsAfter e.2.rank)) = true := by
    decide
  have := of_predict (fun c r => decide (r ∈ openRules) ||
    itemsAllow Category.follows r.items fun next => next.all (c.admitsAfter r.rank)) hall h
  simpa [hr] using this

theorem Rule.itemsAllow_of_extending {r : Rule} (h : r ∈ extendingRules) :
    itemsAllow Category.follows r.items (fun next => next.all r.rank.admits) = true := by
  revert h
  revert r
  decide

/-- What follows the phrase that a rule extends shows the rule. -/
theorem Rule.extendingRule_of_items {r : Rule} (h : r ∈ extendingRules)
    {next : Option TokenKind} (hnext : itemsNext r.items Option.isNone next = true) :
    next.bind TokenKind.extendingRule? = some r := by
  have hall : ∀ r ∈ extendingRules, (nextKinds.all fun next =>
      !itemsNext r.items Option.isNone next ||
        next.bind TokenKind.extendingRule? == some r) = true := by
    decide
  exact eq_of_beq (of_all_nextKinds (hall r h) hnext)

/-- What follows the phrase that a rule extends begins with a token that shows the rule. -/
theorem Rule.first_of_extending {P : Category → Tree → Prop}
    (hP : ∀ {c x}, P c x → ∃ t ts, x.tokens = t :: ts ∧ c.startsWith t.kind = true) {r : Rule}
    (hr : r ∈ extendingRules) {xs : List Tree} (h : itemsFit P r.items xs) :
    ∃ t ts, Tree.tokensOfAll xs = t :: ts ∧ t.kind.extendingRule? = some r := by
  have hbegins := extendingRule_of_items hr (itemsFit_next hP r.groups_ne_nil h
    (show Option.isNone (nextKind? []) = true from rfl))
  rw [List.append_nil] at hbegins
  cases hxs : Tree.tokensOfAll xs with
  | nil => rw [hxs] at hbegins; cases hbegins
  | cons t ts => rw [hxs] at hbegins; exact ⟨t, ts, rfl, hbegins⟩

/-! ## Greedy phrases are read -/

theorem mem_nextKind? {ts : List Token} {kind : TokenKind} :
    kind ∈ nextKind? ts ↔ ∃ t ∈ ts.head?, t.kind = kind := by
  simp [nextKind?]

section Takes

variable {depth : Nat}

theorem tokens_ne_nil_of_items {is : List Item} {xs : List Tree}
    (h : itemsFit (Formed depth) is xs) : ∀ x ∈ xs, x.tokens ≠ [] := by
  intro x hx
  obtain ⟨p, -, hp⟩ := itemsFit_mem h x hx
  cases p with
  | token kind =>
    obtain ⟨t, rfl, -⟩ := hp
    exact List.cons_ne_nil t []
  | phrase c =>
    obtain ⟨t, ts, htokens, -⟩ := Formed.first hp
    rw [htokens]
    exact List.cons_ne_nil t ts

/-- The parts of a greedy node are greedy before what the node does not want. -/
theorem Tree.Greedy.parts {r : Rule} {xs : List Tree} (h : (Tree.node r xs).Greedy)
    (hne : ∀ x ∈ xs, x.tokens ≠ []) {rest : List Token}
    (hwants : ∀ kind ∈ nextKind? rest, (Tree.node r xs).wants kind = false) :
    GreedyBefore xs rest := by
  refine GreedyBefore.before h hne fun t ht => ?_
  exact ((Bool.or_eq_false_iff).mp (hwants t.kind (mem_nextKind?.mpr ⟨t, ht, rfl⟩))).2

variable (ih : ∀ (c : Category) (x : Tree) (rest : List Token), Formed depth c x →
  GreedyBefore [x] rest → (∀ kind ∈ nextKind? rest, c.follows kind = true) →
    Stands c (x.tokens ++ rest) x rest)
include ih

/-- The parts of an `if` are taken, if no `else` follows that it wants. -/
theorem takes_ifStatement {xs : List Tree}
    (hxs : itemsFit (Formed depth) Rule.ifStatement.items xs) {rest : List Token}
    (hgreedy : GreedyBefore xs rest) (hnext : ∀ kind ∈ nextKind? rest,
      Category.statement.follows kind = true ∧ Rule.ifStatement.wants xs.length kind = false) :
    TakesItems Stands Rule.ifStatement.items (Tree.tokensOfAll xs ++ rest) xs rest := by
  refine itemsFit_takes_optional (fun h => h.first) (fun _ _ _ => greedyBefore_append.mp) ih
    [.token (.keyword .ifKw), .token (.mark .lparen), .phrase .anyExpression,
      .token (.mark .rparen), .phrase .statement]
    [.token (.keyword .elseKw), .phrase .statement]
    (fun next => next.all fun kind => Category.statement.follows kind && kind != .keyword .elseKw)
    (fun next => next.all Category.statement.follows) (List.cons_ne_nil _ _) hxs
    (by decide) (by decide) (by decide) hgreedy ?_ ?_
  · cases hrest : nextKind? rest with
    | none => rfl
    | some kind => exact (hnext kind hrest).1
  · intro hlength
    cases hrest : nextKind? rest with
    | none => exact ⟨rfl, rfl⟩
    | some kind =>
      obtain ⟨hfollows, hwants⟩ := hnext kind hrest
      rw [hlength] at hwants
      have helse : kind ≠ .keyword .elseKw := by
        rintro rfl
        cases hwants
      constructor
      · show (Category.statement.follows kind && kind != .keyword .elseKw) = true
        rw [hfollows, bne_iff_ne.mpr helse]
        rfl
      · show (kind == .keyword .elseKw) = false
        exact beq_eq_false_iff_ne.mpr helse

/-- The parts of a `new` are taken, if no member access and no arguments follow that it wants. -/
theorem takes_newExpression {xs : List Tree}
    (hxs : itemsFit (Formed depth) Rule.newExpression.items xs) {rest : List Token}
    (hgreedy : GreedyBefore xs rest)
    (hnext : ∀ kind ∈ nextKind? rest, Rule.newExpression.wants xs.length kind = false) :
    TakesItems Stands Rule.newExpression.items (Tree.tokensOfAll xs ++ rest) xs rest := by
  refine itemsFit_takes_optional (fun h => h.first) (fun _ _ _ => greedyBefore_append.mp) ih
    [.token (.keyword .newKw), .phrase .newTarget] [.phrase .arguments]
    (fun next => next.all fun kind => kind != .mark .dot && kind != .mark .lparen)
    (fun _ => true) (List.cons_ne_nil _ _) hxs
    (by decide) (by decide) (by decide) hgreedy rfl ?_
  intro hlength
  cases hrest : nextKind? rest with
  | none => exact ⟨rfl, rfl⟩
  | some kind =>
    have hwants := hnext kind hrest
    rw [hlength] at hwants
    have hdot : kind ≠ .mark .dot := by
      rintro rfl
      cases hwants
    have hlparen : kind ≠ .mark .lparen := by
      rintro rfl
      cases hwants
    constructor
    · show (kind != .mark .dot && kind != .mark .lparen) = true
      rw [bne_iff_ne.mpr hdot, bne_iff_ne.mpr hlparen]
      rfl
    · show (kind == .mark .lparen) = false
      exact beq_eq_false_iff_ne.mpr hlparen

/-- The parts of a node are taken, whatever follows that the node does not want. -/
theorem takes_items {c : Category} {ahead : List TokenKind} {r : Rule}
    (h : c.predict ahead = some (.rule r)) {xs : List Tree}
    (hxs : itemsFit (Formed depth) r.items xs) (hgreedy : (Tree.node r xs).Greedy)
    {rest : List Token} (hnext : ∀ kind ∈ nextKind? rest,
      c.admitsAfter r.rank kind = true ∧ (Tree.node r xs).wants kind = false) :
    TakesItems Stands r.items (Tree.tokensOfAll xs ++ rest) xs rest := by
  have hparts := hgreedy.parts (tokens_ne_nil_of_items hxs) fun kind hkind => (hnext kind hkind).2
  have hwants : ∀ kind ∈ nextKind? rest, r.wants xs.length kind = false := fun kind hkind =>
    ((Bool.or_eq_false_iff).mp (hnext kind hkind).2).1
  by_cases hif : r = .ifStatement
  · subst hif
    obtain rfl : c = .statement := by
      have := of_decide_eq_true (Category.of_predict
        (fun c r => decide (r = .ifStatement → c = .statement)) (by decide) h)
      exact this rfl
    exact takes_ifStatement ih hxs hparts fun kind hkind =>
      ⟨(hnext kind hkind).1, hwants kind hkind⟩
  by_cases hnew : r = .newExpression
  · subst hnew
    exact takes_newExpression ih hxs hparts hwants
  have hadmits : (nextKind? rest).all (c.admitsAfter r.rank) = true := by
    cases hrest : nextKind? rest with
    | none => rfl
    | some kind => exact (hnext kind hrest).1
  exact itemsFit_takes (fun h => h.first) (fun _ _ _ => greedyBefore_append.mp) ih r.groups_ne_nil hxs
    (Category.itemsAllow_of_predict h (by simp [openRules, hif, hnew])) hparts hadmits

/-- What is formed is taken off the head of its tokens, and may be extended from there. -/
theorem FormedPhrase.takes {c : Category} {x : Tree} (h : FormedPhrase (Formed depth) c x)
    (hgreedy : x.Greedy) {rest : List Token}
    (hnext : ∀ kind ∈ nextKind? rest,
      c.admitsAfter x.rank kind = true ∧ x.wants kind = false) {z : Tree} {rest' : List Token}
    (hextended : TakesExtended Stands c x rest z rest') :
    TakesPhrase Stands c (x.tokens ++ rest) z rest' := by
  induction h generalizing rest with
  | @token t accepted =>
    cases hextended with
    | stop => exact .token (Category.predict_of_accepts accepted _) accepted
    | step hextension =>
      obtain ⟨kind, -, hkind⟩ := Option.bind_eq_some_iff.mp hextension
      obtain ⟨-, ⟨_, _, rfl⟩ | rfl⟩ := Category.extension_eq hkind <;> cases accepted
  | @through d ahead x predicted inner =>
    have hnarrower := Category.narrower_of_predict predicted
    obtain ⟨t, ts, htokens, hstart⟩ := inner.first
    have hpredict : c.predict (aheadOf (x.tokens ++ rest)) = some (.through d) := by
      rw [htokens, List.cons_append, aheadOf_cons]
      exact Category.predict_of_narrower hnarrower hstart _
    refine .through hpredict (ih _ _ _ inner (greedyBefore_singleton.mpr ⟨hgreedy, ?_⟩) ?_) hextended
    · exact fun t ht => (hnext t.kind (mem_nextKind?.mpr ⟨t, ht, rfl⟩)).2
    · exact fun kind hkind => Category.follows_of_narrower hnarrower (hnext kind hkind).1
  | @rule r ahead xs predicted items =>
    have hpredict : c.predict (aheadOf (Tree.tokensOfAll xs ++ rest)) = some (.rule r) := by
      refine Category.predict_tokens predicted (itemsFit_mono (fun x _ c hx => ⟨depth, hx⟩) items)
        ?_ ?_
      · rintro rfl hassign
        cases (hnext _ hassign).1
      · rintro rfl hcolon
        cases (hnext _ hcolon).1
    exact .rule hpredict (takes_items ih predicted items hgreedy hnext) hextended
  | @extended x r kind xs inner extension items ih' =>
    have hextending := (Category.extension_eq extension).1
    have hne : ∀ y ∈ x :: xs, y.tokens ≠ [] := by
      obtain ⟨t, ts, htokens, -⟩ := Formed.first (show Formed (depth + 1) c x from inner)
      refine List.forall_mem_cons.mpr ⟨?_, tokens_ne_nil_of_items items⟩
      rw [htokens]
      exact List.cons_ne_nil t ts
    obtain ⟨hx, hbefore, hxs⟩ := hgreedy.parts hne fun kind hkind => (hnext kind hkind).2
    -- what follows the phrase shows the rule, as the token does that stood there first
    obtain ⟨first, ts, htokens, hrule⟩ := Rule.first_of_extending (fun h => h.first) hextending items
    have hmid : nextKind? (Tree.tokensOfAll xs ++ rest) = some first.kind := by
      rw [htokens]
      rfl
    have hextension : c.extension x.rank first.kind = some r := by
      rw [← extension, Category.extension_congr]
      rw [hrule, Category.extendingRule_of_extension extension]
    obtain ⟨hadmits, hafter⟩ := Category.admits_of_extension hextension
    rw [Tree.tokens, Tree.tokensOfAll, List.append_assoc]
    refine ih' hx (fun kind hkind => ?_) (.step ?_ ?_ hextended)
    · cases hmid.symm.trans hkind
      refine ⟨hadmits, hbefore first ?_⟩
      rw [htokens]
      rfl
    · rw [extension?, hmid]
      exact hextension
    · refine itemsFit_takes (fun h => h.first) (fun _ _ _ => greedyBefore_append.mp) ih
        r.groups_ne_nil items (Rule.itemsAllow_of_extending hextending) hxs ?_
      cases hrest : nextKind? rest with
      | none => rfl
      | some kind => exact hafter kind (hnext kind hrest).1

end Takes

/-- What follows a phrase takes nothing away from its end, and does not extend it. -/
theorem Category.admits_of_follows {c : Category} {x : Tree} (h : Formable c x)
    {kind : TokenKind} (hfollows : c.follows kind = true) :
    c.admitsAfter x.rank kind = true ∧ c.extension x.rank kind = none := by
  cases c with
  | expression limit lead =>
    exact ⟨Rank.admits_of_follows (rank_of_expression h) hfollows,
      Rank.extension_of_follows hfollows x.rank lead⟩
  | newTarget =>
    refine ⟨rfl, ?_⟩
    cases hextension : Category.newTarget.extension x.rank kind with
    | none => rfl
    | some r =>
      -- only a dot shows a member access
      have hrule := extendingRule_of_extension hextension
      cases extension_newTarget hextension
      have hall : ∀ kind ∈ TokenKind.all, kind.extendingRule? = some .getProp →
          Category.newTarget.follows kind = false := by
        decide
      rw [hall kind (TokenKind.mem_all kind) hrule] at hfollows
      cases hfollows
  | _ => exact ⟨hfollows, rfl⟩

/-- A greedy phrase is taken off the head of its tokens wherever nothing follows that could
extend it or that it wants. -/
theorem Formed.stands {depth : Nat} {c : Category} {x : Tree} (h : Formed depth c x)
    {rest : List Token} (hgreedy : GreedyBefore [x] rest)
    (hfollows : ∀ kind ∈ nextKind? rest, c.follows kind = true) :
    Stands c (x.tokens ++ rest) x rest := by
  induction depth generalizing c x rest with
  | zero => exact h.elim
  | succ depth ih =>
    obtain ⟨hx, hwants⟩ := greedyBefore_singleton.mp hgreedy
    refine stands_iff.mpr (FormedPhrase.takes (fun _ _ _ h hg hf => ih h hg hf) h hx
      (fun kind hkind => ⟨?_, ?_⟩) (.stop ?_))
    · exact (Category.admits_of_follows ⟨depth + 1, h⟩ (hfollows kind hkind)).1
    · obtain ⟨t, ht, rfl⟩ := mem_nextKind?.mp hkind
      exact hwants t ht
    · rw [extension?]
      cases hrest : nextKind? rest with
      | none => rfl
      | some kind =>
        exact (Category.admits_of_follows ⟨depth + 1, h⟩ (hfollows kind hrest)).2

theorem Item.fits_repeated {P : Category → Tree → Prop} {c : Category} {xs : List Tree} :
    (Item.repeated [.phrase c]).Fits P xs ↔ ∀ x ∈ xs, P c x := by
  constructor
  · rintro ⟨groups, rfl, hgroups⟩ x hx
    obtain ⟨g, hg, hxg⟩ := List.mem_flatten.mp hx
    obtain ⟨y, _, rfl, hy, rfl⟩ := hgroups g hg
    rw [List.mem_singleton.mp hxg]
    exact hy
  · intro h
    refine ⟨xs.map fun x => [x], ?_, fun g hg => ?_⟩
    · rw [← List.flatMap_def, List.flatMap_singleton']
    · obtain ⟨x, hx, rfl⟩ := List.mem_map.mp hg
      exact ⟨x, [], rfl, h x hx, rfl⟩

/-- Greedy statements, one after the other, are taken off all of their tokens. -/
theorem StatementsStand.of_formable {xs : List Tree} (hxs : ∀ x ∈ xs, Formable .statement x)
    (hgreedy : GreedyBefore xs []) : StatementsStand (Tree.tokensOfAll xs) xs [] := by
  obtain ⟨depth, hfits⟩ := (Item.fits_repeated.mpr hxs).bounded
  have hallows : Item.allows Category.follows (.repeated [.phrase .statement]) Option.isNone
      = true := by
    decide
  have hitem := hfits.takes (fun h => h.first) (fun _ _ _ => greedyBefore_append.mp)
    (fun _ _ _ h hg hf => h.stands hg hf) hallows (by simp) hgreedy rfl
  rw [List.append_nil] at hitem
  cases hitem with
  | repeated h => exact h

end SuperForward.Script
