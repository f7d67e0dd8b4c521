/-
  Phrases that the rules form are the phrases that the grammar derives.

  The rules know how tight an expression is, the grammar has a symbol for each level; the rules
  extend an expression on its left, the grammar has alternatives that begin with the symbol
  itself; the rules have comma-separated lists. That the alternatives of each symbol are those
  of its rules is checked one by one, the rest is induction.
-/
import SuperForward.Proofs.Script.Language
import SuperForward.Proofs.Script.Reading

namespace SuperForward.Script

/-! ## Phrases without a bound on their depth -/

/-- A phrase of a category, however deep its phrases nest. -/
def Formable (c : Category) (x : Tree) : Prop := ∃ depth, Formed depth c x

theorem FormedPhrase.mono {P Q : Category → Tree → Prop} (hPQ : ∀ c x, P c x → Q c x)
    {c : Category} {x : Tree} (h : FormedPhrase P c x) : FormedPhrase Q c x := by
  induction h with
  | token accepted => exact .token accepted
  | through predicted inner => exact .through predicted (hPQ _ _ inner)
  | rule predicted items => exact .rule predicted (itemsFit_mono (fun x _ c => hPQ c x) items)
  | extended _ extension items ih =>
    exact .extended ih extension (itemsFit_mono (fun x _ c => hPQ c x) items)

theorem Formed.mono {depth depth' : Nat} (h : depth ≤ depth') {c : Category} {x : Tree}
    (hx : Formed depth c x) : Formed depth' c x := by
  induction depth generalizing depth' c x with
  | zero => exact hx.elim
  | succ depth ih =>
    obtain ⟨depth', rfl⟩ : ∃ d, depth' = d + 1 := ⟨depth' - 1, by omega⟩
    exact FormedPhrase.mono (fun _ _ hx => ih (by omega) hx) hx

section Bounded

variable {depth depth' : Nat} (h : depth ≤ depth')
include h

theorem itemsFit_formed_mono {is : List Item} {xs : List Tree} (hxs : itemsFit (Formed depth) is xs) :
    itemsFit (Formed depth') is xs :=
  itemsFit_mono (fun _ _ _ hx => hx.mono h) hxs

theorem partsFit_formed_mono {ps : List Part} {xs : List Tree} (hxs : partsFit (Formed depth) ps xs) :
    partsFit (Formed depth') ps xs :=
  partsFit_mono (fun _ _ _ hx => hx.mono h) hxs

end Bounded

theorem Part.Fits.bounded {p : Part} {x : Tree} (h : p.Fits Formable x) :
    ∃ depth, p.Fits (Formed depth) x := by
  cases p with
  | token kind => exact ⟨0, h⟩
  | phrase c => exact h

theorem partsFit_bounded {ps : List Part} {xs : List Tree} (h : partsFit Formable ps xs) :
    ∃ depth, partsFit (Formed depth) ps xs := by
  induction ps generalizing xs with
  | nil => exact ⟨0, h⟩
  | cons p ps ih =>
    obtain ⟨y, ys, rfl, hy, hys⟩ := h
    obtain ⟨a, ha⟩ := hy.bounded
    obtain ⟨b, hb⟩ := ih hys
    refine ⟨max a b, y, ys, rfl, ?_, partsFit_formed_mono (Nat.le_max_right a b) hb⟩
    cases p with
    | token kind => exact ha
    | phrase c => exact Formed.mono (Nat.le_max_left a b) ha

theorem MoreFit.bounded {c : Category} {shape : ListShape} {xs : List Tree}
    (h : MoreFit Formable c shape xs) : ∃ depth, MoreFit (Formed depth) c shape xs := by
  induction h with
  | none => exact ⟨0, .none⟩
  | trail comma h => exact ⟨0, .trail comma h⟩
  | more comma element _ ih =>
    obtain ⟨a, ha⟩ := element
    obtain ⟨b, hb⟩ := ih
    exact ⟨max a b, .more comma (ha.mono (Nat.le_max_left a b))
      (hb.mono fun _ _ _ hx => hx.mono (Nat.le_max_right a b))⟩

theorem Item.Fits.bounded {i : Item} {xs : List Tree} (h : i.Fits Formable xs) :
    ∃ depth, i.Fits (Formed depth) xs := by
  cases i with
  | one p =>
    obtain ⟨y, rfl, hy⟩ := h
    obtain ⟨a, ha⟩ := hy.bounded
    exact ⟨a, y, rfl, ha⟩
  | optional ps =>
    rcases h with rfl | h
    · exact ⟨0, .inl rfl⟩
    · obtain ⟨a, ha⟩ := partsFit_bounded h
      exact ⟨a, .inr ha⟩
  | repeated ps =>
    obtain ⟨groups, rfl, hgroups⟩ := h
    -- there are finitely many groups, so the largest depth of them does for all
    obtain ⟨a, ha⟩ : ∃ depth, ∀ g ∈ groups, partsFit (Formed depth) ps g := by
      induction groups with
      | nil => exact ⟨0, fun g hg => absurd hg List.not_mem_nil⟩
      | cons g groups ih =>
        obtain ⟨hg, hrest⟩ := List.forall_mem_cons.mp hgroups
        obtain ⟨a, ha⟩ := partsFit_bounded hg
        obtain ⟨b, hb⟩ := ih hrest
        exact ⟨max a b, List.forall_mem_cons.mpr
          ⟨partsFit_formed_mono (Nat.le_max_left a b) ha,
            fun g hg => partsFit_formed_mono (Nat.le_max_right a b) (hb g hg)⟩⟩
    exact ⟨a, groups, rfl, ha⟩
  | list c shape =>
    rcases h with ⟨he, rfl⟩ | ⟨y, ys, rfl, ⟨a, ha⟩, hys⟩
    · exact ⟨0, .inl ⟨he, rfl⟩⟩
    · obtain ⟨b, hb⟩ := hys.bounded
      exact ⟨max a b, .inr ⟨y, ys, rfl, ha.mono (Nat.le_max_left a b),
        hb.mono fun _ _ _ hx => hx.mono (Nat.le_max_right a b)⟩⟩

theorem itemsFit_bounded {is : List Item} {xs : List Tree} (h : itemsFit Formable is xs) :
    ∃ depth, itemsFit (Formed depth) is xs := by
  induction is generalizing xs with
  | nil => exact ⟨0, h⟩
  | cons i is ih =>
    obtain ⟨ys, zs, rfl, hys, hzs⟩ := h
    obtain ⟨a, ha⟩ := hys.bounded
    obtain ⟨b, hb⟩ := ih hzs
    have hi : itemsFit (Formed a) [i] ys := ⟨ys, [], (List.append_nil ys).symm, ha, rfl⟩
    obtain ⟨ys', zs', hsplit, hi, hnil⟩ := itemsFit_formed_mono (Nat.le_max_left a b) hi
    rw [show zs' = [] from hnil, List.append_nil] at hsplit
    rw [← hsplit] at hi
    exact ⟨max a b, ys, zs, rfl, hi, itemsFit_formed_mono (Nat.le_max_right a b) hb⟩

/-- A phrase is made of phrases. -/
theorem formable_iff {c : Category} {x : Tree} : Formable c x ↔ FormedPhrase Formable c x := by
  constructor
  · rintro ⟨depth, h⟩
    cases depth with
    | zero => exact h.elim
    | succ depth => exact FormedPhrase.mono (fun _ _ hx => ⟨depth, hx⟩) h
  · intro h
    suffices ∃ depth, FormedPhrase (Formed depth) c x by
      obtain ⟨depth, hx⟩ := this
      exact ⟨depth + 1, hx⟩
    induction h with
    | token accepted => exact ⟨0, .token accepted⟩
    | through predicted inner =>
      obtain ⟨a, ha⟩ := inner
      exact ⟨a, .through predicted ha⟩
    | rule predicted items =>
      obtain ⟨a, ha⟩ := itemsFit_bounded items
      exact ⟨a, .rule predicted ha⟩
    | extended _ extension items ih =>
      obtain ⟨a, ha⟩ := ih
      obtain ⟨b, hb⟩ := itemsFit_bounded items
      exact ⟨max a b, .extended
        (ha.mono fun _ _ hx => hx.mono (Nat.le_max_left a b)) extension
        (itemsFit_formed_mono (Nat.le_max_right a b) hb)⟩

/-- What stands at the head of some tokens is a phrase. -/
theorem Stands.formable {c : Category} {ts rest : List Token} {x : Tree}
    (h : Stands c ts x rest) : Formable c x :=
  h.imp fun _ h => h.formed

/-! ## Comparing alternatives -/

namespace Ebnf

mutual

/-- The two ask for the same. -/
def same : Ebnf → Ebnf → Bool
  | .token a, .token b => a == b
  | .symbol a, .symbol b => a == b
  | .maybe a, .maybe b | .many a, .many b => sameAll a b
  | _, _ => false

/-- The two lists ask for the same. -/
def sameAll : List Ebnf → List Ebnf → Bool
  | [], [] => true
  | a :: as, b :: bs => same a b && sameAll as bs
  | _, _ => false

end

mutual

theorem eq_of_same {a b : Ebnf} (h : same a b = true) : a = b := by
  cases a <;> cases b <;> simp only [same, beq_iff_eq, reduceCtorEq] at h
  · rw [h]
  · rw [h]
  · rw [eq_of_sameAll h]
  · rw [eq_of_sameAll h]

theorem eq_of_sameAll {as bs : List Ebnf} (h : sameAll as bs = true) : as = bs := by
  cases as <;> cases bs <;> simp only [sameAll, Bool.and_eq_true, reduceCtorEq] at h
  · rfl
  · rw [eq_of_same h.1, eq_of_sameAll h.2]

end

end Ebnf

/-- The symbol for the phrases of a category. -/
def Category.symbol : Category → Symbol
  | .statement => .statement
  | .block => .block
  | .functionBody => .functionBody
  | .declarator => .declarator
  | .params => .params
  | .param => .param
  | .forInit => .forInit
  | .switchCase => .switchCase
  | .catchClause => .catchClause
  | .finallyClause => .finallyClause
  | .expression .member lead => .callMember lead
  | .expression .update lead => .update lead
  | .expression .unary lead => .unary lead
  | .expression .binary lead => .binary lead
  | .expression .conditional lead => .conditional lead
  | .expression .assignment lead => .assignment lead
  | .expression .sequence lead => .expression lead
  | .primary lead => .primary lead
  | .newTarget => .newTarget
  | .arguments => .arguments
  | .argument => .argument
  | .property => .property
  | .propertyKey => .propKey
  | .propertyName => .propName
  | .declarationWord => .declarationWord
  | .propertyWord => .propWord
  | .assignOperator => .assignOp
  | .binaryOperator => .binop
  | .unaryOperator => .unaryOp
  | .updateOperator => .updateOp

/-- What a part asks for. -/
def Part.ebnf : Part → Ebnf
  | .token kind => .token kind
  | .phrase c => .symbol c.symbol

/-- What an item asks for. -/
def Item.ebnf : Item → List Ebnf
  | .one p => [p.ebnf]
  | .optional ps => [.maybe (ps.map Part.ebnf)]
  | .repeated ps => [.many (ps.map Part.ebnf)]
  | .list c .nonempty => [.symbol c.symbol, .many [.mark .comma, .symbol c.symbol]]
  | .list c .any => [.maybe [.symbol c.symbol, .many [.mark .comma, .symbol c.symbol]]]
  | .list c .anyTrailing =>
    [.maybe [.symbol c.symbol, .many [.mark .comma, .symbol c.symbol], .maybe [.mark .comma]]]

/-- What a rule asks for; of a rule that extends a phrase, what follows it. -/
def Rule.ebnf (r : Rule) : List Ebnf := r.items.flatMap Item.ebnf

/-- Every kind of token. -/
def TokenKind.all : List TokenKind :=
  [.name, .number, .string, .template] ++ Keyword.all.map .keyword ++ Mark.all.map .mark

theorem TokenKind.mem_all (kind : TokenKind) : kind ∈ all := by
  cases kind with
  | keyword k => cases k <;> decide
  | mark m => cases m <;> decide
  | _ => decide

/-- Every rank. -/
def Rank.all : List Rank :=
  [.member, .update, .unary, .binary, .conditional, .assignment, .sequence]

theorem Rank.mem_all (rank : Rank) : rank ∈ all := by
  cases rank <;> decide

/-- Every symbol. -/
def Symbol.all : List Symbol :=
  [.statement, .block, .emptyStatement, .varStatement, .declarator, .functionDeclaration,
    .functionExpression, .functionBody, .params, .param, .expressionStatement, .returnStatement,
    .throwStatement, .breakStatement, .continueStatement, .ifStatement, .whileStatement,
    .doStatement, .forStatement, .forInit, .forInStatement, .tryStatement, .catchClause,
    .finallyClause, .switchStatement, .switchCase, .assignOp, .binop, .unaryOp, .arguments,
    .argument, .newExpression, .newTarget, .literal, .array, .object, .property, .propKey,
    .propName, .declarationWord, .updateOp, .propWord] ++
  [Lead.anywhere, .atStatement].flatMap fun lead =>
    [.expression lead, .assignment lead, .conditional lead, .binary lead, .unary lead,
      .update lead, .callMember lead, .primary lead]

theorem Symbol.mem_all (s : Symbol) : s ∈ all := by
  cases s with
  | expression lead | assignment lead | conditional lead | binary lead | unary lead
  | update lead | callMember lead | primary lead => cases lead <;> decide
  | _ => decide

/-! ## What the rules form is derived -/

section Derived

variable {P : Category → Tree → Prop} (hP : ∀ c x, P c x → Derives [.symbol c.symbol] [x])
include hP

theorem Part.Fits.derives {p : Part} {x : Tree} (h : p.Fits P x) : Derives [p.ebnf] [x] := by
  cases p with
  | token kind =>
    obtain ⟨t, rfl, rfl⟩ := h
    exact .token .nil
  | phrase c => exact hP c x h

theorem derives_of_partsFit {ps : List Part} {xs : List Tree} (h : partsFit P ps xs) :
    Derives (ps.map Part.ebnf) xs := by
  induction ps generalizing xs with
  | nil => rw [show xs = [] from h]; exact .nil
  | cons p ps ih =>
    obtain ⟨y, ys, rfl, hy, hys⟩ := h
    exact (hy.derives hP).append (ih hys)

/-- The elements of a list after the first, and what may be left for a comma after the last. -/
theorem MoreFit.derives {c : Category} {shape : ListShape} {xs : List Tree}
    (h : MoreFit P c shape xs) : Derives [.many [.mark .comma, .symbol c.symbol]] xs ∨
      shape.mayTrail = true ∧
        Derives [.many [.mark .comma, .symbol c.symbol], .maybe [.mark .comma]] xs := by
  induction h with
  | none => exact .inl (.stop .nil)
  | @trail t comma h =>
    refine .inr ⟨h, .stop ?_⟩
    have hcomma : Derives [.mark .comma] [.leaf t] := by
      rw [Ebnf.mark, ← comma]
      exact .token .nil
    exact .present hcomma .nil
  | @more t x xs comma element _ ih =>
    have hgroup : Derives [.mark .comma, .symbol c.symbol] [.leaf t, x] := by
      rw [Ebnf.mark, ← comma]
      exact .token (hP c x element)
    exact ih.imp (.more hgroup) fun ⟨h, ih⟩ => ⟨h, .more hgroup ih⟩

theorem Item.Fits.derives {i : Item} {xs : List Tree} (h : i.Fits P xs) :
    Derives i.ebnf xs := by
  cases i with
  | one p =>
    obtain ⟨y, rfl, hy⟩ := h
    exact hy.derives hP
  | optional ps =>
    rcases h with rfl | h
    · exact .absent .nil
    · have := Derives.present (derives_of_partsFit hP h) .nil
      rwa [List.append_nil] at this
  | repeated ps =>
    obtain ⟨groups, rfl, hgroups⟩ := h
    induction groups with
    | nil => exact .stop .nil
    | cons g groups ih =>
      obtain ⟨hg, hrest⟩ := List.forall_mem_cons.mp hgroups
      exact .more (derives_of_partsFit hP hg) (ih hrest)
  | list c shape =>
    rcases h with ⟨he, rfl⟩ | ⟨y, ys, rfl, hy, hys⟩
    -- only lists that may end with a comma have one more choice after their elements
    · cases shape with
      | nonempty => cases he
      | any | anyTrailing => exact .absent .nil
    · have hy := hP c y hy
      cases shape with
      | nonempty =>
        rcases hys.derives hP with hys | ⟨h, -⟩
        · exact hy.append hys
        · cases h
      | any =>
        rcases hys.derives hP with hys | ⟨h, -⟩
        · have := Derives.present (hy.append hys) .nil
          rwa [List.append_nil] at this
        · cases h
      | anyTrailing =>
        have hlist : Derives [.symbol c.symbol, .many [.mark .comma, .symbol c.symbol],
            .maybe [.mark .comma]] (y :: ys) := by
          rcases hys.derives hP with hys | ⟨-, hys⟩
          · have hnone : Derives [.maybe [.mark .comma]] [] := .absent .nil
            have := (hy.append hys).append hnone
            rwa [List.append_nil] at this
          · exact hy.append hys
        have := Derives.present hlist .nil
        rwa [List.append_nil] at this

theorem derives_of_itemsFit {is : List Item} {xs : List Tree} (h : itemsFit P is xs) :
    Derives (is.flatMap Item.ebnf) xs := by
  induction is generalizing xs with
  | nil => rw [show xs = [] from h]; exact .nil
  | cons i is ih =>
    obtain ⟨ys, zs, rfl, hys, hzs⟩ := h
    exact (hys.derives hP).append (ih hzs)

end Derived

/-- The symbol makes a node of a rule out of what the rule asks for, at once or after passing
through some other symbols. -/
def Symbol.makes : (steps : Nat) → Symbol → Rule → Bool
  | 0, _, _ => false
  | steps + 1, s, r => s.alternatives.any fun
    | ⟨some r', parts⟩ => r' == r && Ebnf.sameAll parts r.ebnf
    | ⟨none, [.symbol s']⟩ => s'.makes steps r
    | ⟨none, _⟩ => false

theorem Symbol.derives_of_makes {steps : Nat} {s : Symbol} {r : Rule}
    (h : s.makes steps r = true) {xs : List Tree} (hxs : Derives r.ebnf xs) :
    Derives [.symbol s] [.node r xs] := by
  induction steps generalizing s with
  | zero => cases h
  | succ steps ih =>
    obtain ⟨a, ha, htest⟩ := List.any_eq_true.mp h
    split at htest
    · obtain ⟨hr, hparts⟩ := (Bool.and_eq_true _ _).mp htest
      rw [eq_of_beq hr, Ebnf.eq_of_sameAll hparts] at ha
      exact .symbol ha hxs rfl .nil
    · exact .symbol ha (ih htest) rfl .nil
    · cases htest

theorem Category.narrower_of_predict {c d : Category} {ahead : List TokenKind}
    (h : c.predict ahead = some (.through d)) : c.narrower? = some d := by
  rcases c.predict_eq h with heq | ⟨r, -, heq⟩ | ⟨d', hd', heq⟩ <;> cases heq
  exact hd'

theorem Category.rule_mem_of_predict {c : Category} {ahead : List TokenKind} {r : Rule}
    (h : c.predict ahead = some (.rule r)) : r ∈ c.rules := by
  rcases c.predict_eq h with heq | ⟨r', hr', heq⟩ | ⟨d, -, heq⟩ <;> cases heq
  exact hr'

theorem Category.symbol_makes {c : Category} {ahead : List TokenKind} {r : Rule}
    (h : c.predict ahead = some (.rule r)) :
    c.symbol.makes 3 r = true ∨ ∃ rank lead, c = .expression rank lead := by
  have hmem : r ∈ c.rules := rule_mem_of_predict h
  cases c with
  | expression rank lead => exact .inr ⟨rank, lead, rfl⟩
  | primary lead =>
    cases ahead with
    | nil => cases h
    | cons kind rest =>
      have hall : ∀ kind ∈ TokenKind.all, (primaryRule? lead kind).all
          ((Category.primary lead).symbol.makes 3) = true := by
        cases lead <;> decide
      obtain ⟨r', hr', heq⟩ := Option.map_eq_some_iff.mp h
      cases heq
      have := hall kind (TokenKind.mem_all kind)
      rw [hr'] at this
      exact .inl this
  | _ => left; clear h; revert r; decide

/-- The symbol makes a node of a rule out of a phrase of another symbol and what the rule asks
for after it. -/
def Symbol.extends (s left : Symbol) (r : Rule) : Bool :=
  s.alternatives.any fun
    | ⟨some r', e :: parts⟩ =>
      r' == r && Ebnf.same e (.symbol left) && Ebnf.sameAll parts r.ebnf
    | _ => false

theorem Symbol.derives_of_extends {s left : Symbol} {r : Rule} (h : s.extends left r = true)
    {x : Tree} (hx : Derives [.symbol left] [x]) {xs : List Tree} (hxs : Derives r.ebnf xs) :
    Derives [.symbol s] [.node r (x :: xs)] := by
  obtain ⟨a, ha, htest⟩ := List.any_eq_true.mp h
  split at htest
  · obtain ⟨hhead, hparts⟩ := (Bool.and_eq_true _ _).mp htest
    obtain ⟨hr, he⟩ := (Bool.and_eq_true _ _).mp hhead
    rw [eq_of_beq hr, Ebnf.eq_of_same he, Ebnf.eq_of_sameAll hparts] at ha
    exact .symbol ha (hx.append hxs) rfl .nil
  · cases htest

/-- A rule extends expressions of the level below it to its own level. -/
theorem Rule.symbol_extends {r : Rule} {left : Rank} (h : r.leftRank? = some left)
    (lead : Lead) : (Category.expression r.rank lead).symbol.extends
      (Category.expression left lead).symbol r = true := by
  cases r <;> cases h <;> cases lead <;> rfl

/-- A tighter expression is one where a less tight one may stand. -/
theorem derives_of_fits {a b : Rank} (h : a.fits b = true) {lead : Lead} {x : Tree}
    (hx : Derives [.symbol (Category.expression a lead).symbol] [x]) :
    Derives [.symbol (Category.expression b lead).symbol] [x] := by
  -- each level passes through to the one below it
  have step : ∀ b : Rank, a.fits b = true → a ≠ b → ∃ c : Rank, a.fits c = true ∧
      c.toNat < b.toNat ∧ .through (Category.expression c lead).symbol ∈
        (Category.expression b lead).symbol.alternatives := by
    intro b hab hne
    cases b with
    | member => exact absurd (show a = .member by revert hab; cases a <;> decide) hne
    | update => exact ⟨.member, by revert hab hne; cases a <;> decide, by decide, .head _⟩
    | unary => exact ⟨.update, by revert hab hne; cases a <;> decide, by decide, .head _⟩
    | binary => exact ⟨.unary, by revert hab hne; cases a <;> decide, by decide, .head _⟩
    | conditional => exact ⟨.binary, by revert hab hne; cases a <;> decide, by decide, .head _⟩
    | assignment => exact ⟨.conditional, by revert hab hne; cases a <;> decide, by decide, .head _⟩
    | sequence => exact ⟨.assignment, by revert hab hne; cases a <;> decide, by decide, .head _⟩
  induction hn : b.toNat using Nat.strongRecOn generalizing b with
  | _ n ih =>
    by_cases hab : a = b
    · rwa [← hab]
    · obtain ⟨c, hc, hlt, hmem⟩ := step b h hab
      exact .symbol hmem (ih _ (hn ▸ hlt) hc rfl) rfl .nil

theorem Category.predict_expression {rank : Rank} {lead : Lead} {kind : TokenKind}
    {rest : List TokenKind} : (Category.expression rank lead).predict (kind :: rest)
      = if (Rank.unary.fits rank && unaryOperator.acceptsToken kind) = true then
          some (.rule .unaryExpression)
        else if (primaryRule? lead kind).isSome = true then some (.through (.primary lead))
        else none := rfl

theorem Category.fits_of_predict {rank : Rank} {lead : Lead} {ahead : List TokenKind} {r : Rule}
    (h : (Category.expression rank lead).predict ahead = some (.rule r)) :
    r = .unaryExpression ∧ Rank.unary.fits rank = true := by
  cases ahead with
  | nil => cases h
  | cons kind rest =>
    rw [predict_expression] at h
    split at h
    · next hunary =>
      cases h
      exact ⟨rfl, ((Bool.and_eq_true _ _).mp hunary).1⟩
    · split at h <;> cases h

/-- How the tightness of an expression changes when it is extended. -/
theorem Category.extension_expression {limit rank : Rank} {lead : Lead} {kind : TokenKind}
    {r : Rule} : (Category.expression limit lead).extension rank kind = some r ↔
      kind.extendingRule? = some r ∧ (∃ left, r.leftRank? = some left ∧ rank.fits left = true) ∧
        r.rank.fits limit = true := by
  show kind.extendingRule?.filter _ = some r ↔ _
  rw [Option.filter_eq_some_iff, Bool.and_eq_true]
  simp only [Option.any_eq_true]

theorem rank_of_primary {x : Tree} {lead : Lead} (h : Formable (.primary lead) x) :
    x.rank = .member := by
  rw [formable_iff] at h
  cases h with
  | token accepted => cases accepted
  | through predicted inner => cases Category.narrower_of_predict predicted
  | @rule r ahead xs predicted items =>
    exact (show ∀ r ∈ primaryRules, r.rank = .member by decide) r
      (Category.rule_mem_of_predict predicted)
  | extended inner extension items =>
    obtain ⟨-, ⟨limit, lead, heq⟩ | heq⟩ := Category.extension_eq extension <;> cases heq

theorem Category.extension_newTarget {rank : Rank} {kind : TokenKind} {r : Rule}
    (h : Category.newTarget.extension rank kind = some r) : r = .getProp :=
  eq_of_beq (Option.filter_eq_some_iff.mp h).2

/-- The token is one of the alternatives of the symbol. -/
def Symbol.takes (s : Symbol) (kind : TokenKind) : Bool :=
  s.alternatives.any fun
    | ⟨none, [.token kind']⟩ => kind' == kind
    | _ => false

theorem Category.derives_token {c : Category} {t : Token} (h : c.acceptsToken t.kind = true) :
    Derives [.symbol c.symbol] [.leaf t] := by
  have hall : ∀ kind ∈ TokenKind.all, c.acceptsToken kind = true → c.symbol.takes kind = true := by
    cases c with
    | expression rank lead | primary lead => intro kind _ hkind; cases hkind
    | _ => decide
  obtain ⟨a, ha, htest⟩ := List.any_eq_true.mp (hall t.kind (TokenKind.mem_all _) h)
  split at htest
  · rw [eq_of_beq htest] at ha
    exact .symbol ha (.token .nil) rfl .nil
  · cases htest

/-- What the rules form can be derived, an expression from the symbol of its own level. -/
theorem Formed.derives {depth : Nat} {c : Category} {x : Tree} (h : Formed depth c x) :
    Derives [.symbol c.symbol] [x] ∧ ∀ limit lead, c = .expression limit lead →
      x.rank.fits limit = true ∧
        Derives [.symbol (Category.expression x.rank lead).symbol] [x] := by
  induction depth generalizing c x with
  | zero => exact h.elim
  | succ depth ih =>
    have hP : ∀ c x, Formed depth c x → Derives [.symbol c.symbol] [x] := fun c x hx => (ih hx).1
    -- an expression is derived from its own level first, and from there it climbs to any looser
    -- one
    suffices hlevel : (∀ limit lead, c = .expression limit lead → x.rank.fits limit = true ∧
        Derives [.symbol (Category.expression x.rank lead).symbol] [x]) ∧
        ((∀ limit lead, c ≠ .expression limit lead) → Derives [.symbol c.symbol] [x]) by
      refine ⟨?_, hlevel.1⟩
      by_cases hc : ∃ limit lead, c = .expression limit lead
      · obtain ⟨limit, lead, rfl⟩ := hc
        obtain ⟨hfits, hx⟩ := hlevel.1 limit lead rfl
        exact derives_of_fits hfits hx
      · exact hlevel.2 fun limit lead heq => hc ⟨limit, lead, heq⟩
    refine ⟨?_, fun hc => ?_⟩
    · rintro limit lead rfl
      induction h with
      | token accepted => cases accepted
      | through predicted inner =>
        cases Category.narrower_of_predict predicted
        have hrank := rank_of_primary ⟨depth, inner⟩
        rw [hrank]
        exact ⟨by cases limit <;> rfl, .symbol (.head _) (hP _ _ inner) rfl .nil⟩
      | @rule r ahead xs predicted items =>
        obtain ⟨rfl, hfits⟩ := Category.fits_of_predict predicted
        exact ⟨hfits, .symbol (.tail _ (.head _)) (derives_of_itemsFit hP items) rfl .nil⟩
      | @extended x r kind xs inner extension items ih =>
        obtain ⟨-, ⟨left, hleft, hfits⟩, hlimit⟩ := Category.extension_expression.mp extension
        exact ⟨hlimit, Symbol.derives_of_extends (Rule.symbol_extends hleft lead)
          (derives_of_fits hfits ih.2) (derives_of_itemsFit hP items)⟩
    · induction h with
      | token accepted => exact Category.derives_token accepted
      | @through d ahead x predicted inner =>
        have hinner := hP _ _ inner
        have hd := Category.narrower_of_predict predicted
        cases c with
        | expression limit lead => exact absurd rfl (hc limit lead)
        | argument => cases hd; exact .symbol (.head _) hinner rfl .nil
        | propertyKey => cases hd; exact .symbol (.head _) hinner rfl .nil
        | _ => cases hd
      | @rule r ahead xs predicted items =>
        rcases Category.symbol_makes predicted with hmakes | ⟨rank, lead, heq⟩
        · exact Symbol.derives_of_makes hmakes (derives_of_itemsFit hP items)
        · exact absurd heq (hc rank lead)
      | extended inner extension items ih =>
        obtain ⟨hr, ⟨limit, lead, heq⟩ | rfl⟩ := Category.extension_eq extension
        · exact absurd heq (hc limit lead)
        · cases Category.extension_newTarget extension
          have hextends : Symbol.extends .newTarget .newTarget .getProp = true := rfl
          exact Symbol.derives_of_extends hextends ih (derives_of_itemsFit hP items)

/-! ## What is derived is formed by the rules -/

/-- The phrases are spelled as the list says, given how the symbols in it are. -/
inductive Spells (P : Symbol → Tree → Prop) : List Ebnf → List Tree → Prop
  | nil : Spells P [] []
  | token {t : Token} {es : List Ebnf} {xs : List Tree} (rest : Spells P es xs) :
      Spells P (.token t.kind :: es) (.leaf t :: xs)
  | symbol {s : Symbol} {es : List Ebnf} {x : Tree} {xs : List Tree} (h : P s x)
      (rest : Spells P es xs) : Spells P (.symbol s :: es) (x :: xs)
  | absent {group es : List Ebnf} {xs : List Tree} (rest : Spells P es xs) :
      Spells P (.maybe group :: es) xs
  | present {group es : List Ebnf} {ys xs : List Tree} (inside : Spells P group ys)
      (rest : Spells P es xs) : Spells P (.maybe group :: es) (ys ++ xs)
  | stop {group es : List Ebnf} {xs : List Tree} (rest : Spells P es xs) :
      Spells P (.many group :: es) xs
  | more {group es : List Ebnf} {ys xs : List Tree} (inside : Spells P group ys)
      (rest : Spells P (.many group :: es) xs) : Spells P (.many group :: es) (ys ++ xs)

section Spells

variable {P : Symbol → Tree → Prop}

theorem Spells.split (es fs : List Ebnf) {zs : List Tree} (h : Spells P (es ++ fs) zs) :
    ∃ xs ys, zs = xs ++ ys ∧ Spells P es xs ∧ Spells P fs ys := by
  -- by how the whole is spelled: its first part is spelled by the first list, or the first list
  -- is empty
  generalize hes : es ++ fs = all at h
  induction h generalizing es with
  | nil =>
    obtain ⟨rfl, rfl⟩ := List.append_eq_nil_iff.mp hes
    exact ⟨[], [], rfl, .nil, .nil⟩
  | @token t es' xs rest ih =>
    rcases List.append_eq_cons_iff.mp hes with ⟨rfl, rfl⟩ | ⟨tail, rfl, rfl⟩
    · exact ⟨[], _, rfl, .nil, .token rest⟩
    · obtain ⟨as, bs, rfl, has, hbs⟩ := ih _ rfl
      exact ⟨_, bs, rfl, .token has, hbs⟩
  | @symbol s es' x xs h rest ih =>
    rcases List.append_eq_cons_iff.mp hes with ⟨rfl, rfl⟩ | ⟨tail, rfl, rfl⟩
    · exact ⟨[], _, rfl, .nil, .symbol h rest⟩
    · obtain ⟨as, bs, rfl, has, hbs⟩ := ih _ rfl
      exact ⟨_, bs, rfl, .symbol h has, hbs⟩
  | @absent group es' xs rest ih =>
    rcases List.append_eq_cons_iff.mp hes with ⟨rfl, rfl⟩ | ⟨tail, rfl, rfl⟩
    · exact ⟨[], _, rfl, .nil, .absent rest⟩
    · obtain ⟨as, bs, rfl, has, hbs⟩ := ih _ rfl
      exact ⟨_, bs, rfl, .absent has, hbs⟩
  | @present group es' ys xs inside rest _ ih =>
    rcases List.append_eq_cons_iff.mp hes with ⟨rfl, rfl⟩ | ⟨tail, rfl, rfl⟩
    · exact ⟨[], _, rfl, .nil, .present inside rest⟩
    · obtain ⟨as, bs, rfl, has, hbs⟩ := ih _ rfl
      exact ⟨_, bs, (List.append_assoc ..).symm, .present inside has, hbs⟩
  | @stop group es' xs rest ih =>
    rcases List.append_eq_cons_iff.mp hes with ⟨rfl, rfl⟩ | ⟨tail, rfl, rfl⟩
    · exact ⟨[], _, rfl, .nil, .stop rest⟩
    · obtain ⟨as, bs, rfl, has, hbs⟩ := ih _ rfl
      exact ⟨_, bs, rfl, .stop has, hbs⟩
  | @more group es' ys xs inside rest _ ih =>
    rcases List.append_eq_cons_iff.mp hes with ⟨rfl, rfl⟩ | ⟨tail, rfl, rfl⟩
    · exact ⟨[], _, rfl, .nil, .more inside rest⟩
    · obtain ⟨as, bs, rfl, has, hbs⟩ := ih (.many group :: tail) rfl
      exact ⟨_, bs, (List.append_assoc ..).symm, .more inside has, hbs⟩

theorem Spells.eq_nil {xs : List Tree} (h : Spells P [] xs) : xs = [] := by
  cases h
  rfl

theorem Spells.uncons_token {kind : TokenKind} {es : List Ebnf} {zs : List Tree}
    (h : Spells P (.token kind :: es) zs) :
    ∃ t xs, zs = .leaf t :: xs ∧ t.kind = kind ∧ Spells P es xs := by
  cases h with
  | token rest => exact ⟨_, _, rfl, rfl, rest⟩

theorem Spells.uncons_symbol {s : Symbol} {es : List Ebnf} {zs : List Tree}
    (h : Spells P (.symbol s :: es) zs) : ∃ x xs, zs = x :: xs ∧ P s x ∧ Spells P es xs := by
  cases h with
  | symbol h rest => exact ⟨_, _, rfl, h, rest⟩

theorem Spells.only_maybe {group : List Ebnf} {zs : List Tree}
    (h : Spells P [.maybe group] zs) : zs = [] ∨ Spells P group zs := by
  cases h with
  | absent rest => exact .inl rest.eq_nil
  | present inside rest =>
    rw [rest.eq_nil, List.append_nil]
    exact .inr inside

theorem Spells.only_many {group : List Ebnf} {zs : List Tree} (h : Spells P [.many group] zs) :
    ∃ groups : List (List Tree), zs = groups.flatten ∧ ∀ g ∈ groups, Spells P group g := by
  generalize hes : [Ebnf.many group] = es at h
  induction h with
  | stop rest =>
    cases hes
    exact ⟨[], rest.eq_nil, by simp⟩
  | @more group' es' ys xs inside rest _ ih =>
    cases hes
    obtain ⟨groups, rfl, hgroups⟩ := ih rfl
    exact ⟨ys :: groups, rfl, List.forall_mem_cons.mpr ⟨inside, hgroups⟩⟩
  | _ => cases hes

variable {Q : Category → Tree → Prop} (hPQ : ∀ c x, P c.symbol x → Q c x)
include hPQ

theorem Spells.fits_parts {ps : List Part} {xs : List Tree} (h : Spells P (ps.map Part.ebnf) xs) :
    partsFit Q ps xs := by
  induction ps generalizing xs with
  | nil => exact h.eq_nil
  | cons p ps ih =>
    cases p with
    | token kind =>
      obtain ⟨t, ys, rfl, hkind, hrest⟩ := h.uncons_token
      exact ⟨_, ys, rfl, ⟨t, rfl, hkind⟩, ih hrest⟩
    | phrase c =>
      obtain ⟨y, ys, rfl, hy, hrest⟩ := h.uncons_symbol
      exact ⟨y, ys, rfl, hPQ c y hy, ih hrest⟩

/-- What follows the first element of a list. -/
theorem Spells.fits_more {c : Category} {shape : ListShape} {xs : List Tree}
    (h : Spells P [.many [.mark .comma, .symbol c.symbol]] xs ∨ shape.mayTrail = true ∧
      Spells P [.many [.mark .comma, .symbol c.symbol], .maybe [.mark .comma]] xs) :
    MoreFit Q c shape xs := by
  obtain ⟨groups, last, rfl, hgroups, hlast⟩ : ∃ (groups : List (List Tree)) (last : List Tree),
      xs = groups.flatten ++ last ∧
      (∀ g ∈ groups, Spells P [.mark .comma, .symbol c.symbol] g) ∧
      (last = [] ∨ shape.mayTrail = true ∧ Spells P [.mark .comma] last) := by
    rcases h with h | ⟨htrail, h⟩
    · obtain ⟨groups, rfl, hgroups⟩ := h.only_many
      exact ⟨groups, [], (List.append_nil _).symm, hgroups, .inl rfl⟩
    · obtain ⟨as, bs, rfl, has, hbs⟩ := Spells.split [_] [_] h
      obtain ⟨groups, rfl, hgroups⟩ := has.only_many
      exact ⟨groups, bs, rfl, hgroups, hbs.only_maybe.imp id fun h => ⟨htrail, h⟩⟩
  clear h
  induction groups with
  | nil =>
    rcases hlast with rfl | ⟨htrail, hlast⟩
    · exact .none
    · obtain ⟨t, xs, rfl, hkind, hrest⟩ := hlast.uncons_token
      rw [hrest.eq_nil]
      exact .trail hkind htrail
  | cons g groups ih =>
    obtain ⟨hg, hrest⟩ := List.forall_mem_cons.mp hgroups
    obtain ⟨t, as, rfl, hkind, has⟩ := hg.uncons_token
    obtain ⟨y, bs, rfl, hy, hbs⟩ := has.uncons_symbol
    rw [hbs.eq_nil]
    exact .more hkind (hPQ c y hy) (ih hrest)

theorem Spells.fits_item {i : Item} {xs : List Tree} (h : Spells P i.ebnf xs) : i.Fits Q xs := by
  cases i with
  | one p =>
    obtain ⟨y, ys, rfl, hy, hys⟩ : partsFit Q [p] xs := Spells.fits_parts hPQ h
    exact ⟨y, by rw [show ys = [] from hys], hy⟩
  | optional ps => exact h.only_maybe.imp id fun h => h.fits_parts hPQ
  | repeated ps =>
    obtain ⟨groups, rfl, hgroups⟩ := h.only_many
    exact ⟨groups, rfl, fun g hg => (hgroups g hg).fits_parts hPQ⟩
  | list c shape =>
    cases shape with
    | nonempty =>
      obtain ⟨y, ys, rfl, hy, hys⟩ := Spells.uncons_symbol h
      exact .inr ⟨y, ys, rfl, hPQ c y hy, Spells.fits_more hPQ (.inl hys)⟩
    | any =>
      rcases Spells.only_maybe h with rfl | h
      · exact .inl ⟨rfl, rfl⟩
      · obtain ⟨y, ys, rfl, hy, hys⟩ := h.uncons_symbol
        exact .inr ⟨y, ys, rfl, hPQ c y hy, Spells.fits_more hPQ (.inl hys)⟩
    | anyTrailing =>
      rcases Spells.only_maybe h with rfl | h
      · exact .inl ⟨rfl, rfl⟩
      · obtain ⟨y, ys, rfl, hy, hys⟩ := h.uncons_symbol
        exact .inr ⟨y, ys, rfl, hPQ c y hy, Spells.fits_more hPQ (.inr ⟨rfl, hys⟩)⟩

theorem Spells.fits_items {is : List Item} {xs : List Tree}
    (h : Spells P (is.flatMap Item.ebnf) xs) : itemsFit Q is xs := by
  induction is generalizing xs with
  | nil => exact h.eq_nil
  | cons i is ih =>
    obtain ⟨ys, zs, rfl, hys, hzs⟩ := Spells.split i.ebnf _ h
    exact ⟨ys, zs, rfl, hys.fits_item hPQ, ih hzs⟩

end Spells

/-- The categories that the phrases of a symbol belong to. -/
def Symbol.categories : Symbol → List Category
  | .statement | .emptyStatement | .varStatement | .functionDeclaration | .expressionStatement
  | .returnStatement | .throwStatement | .breakStatement | .continueStatement | .ifStatement
  | .whileStatement | .doStatement | .forStatement | .forInStatement | .tryStatement
  | .switchStatement => [.statement]
  | .block => [.statement, .block]
  | .declarator => [.declarator]
  | .functionBody => [.functionBody]
  | .params => [.params]
  | .param => [.param]
  | .forInit => [.forInit]
  | .catchClause => [.catchClause]
  | .finallyClause => [.finallyClause]
  | .switchCase => [.switchCase]
  | .expression lead => [.expression .sequence lead]
  | .assignment lead => [.expression .assignment lead]
  | .conditional lead => [.expression .conditional lead]
  | .binary lead => [.expression .binary lead]
  | .unary lead => [.expression .unary lead]
  | .update lead => [.expression .update lead]
  | .callMember lead => [.expression .member lead]
  | .primary lead => [.primary lead]
  | .literal | .array | .newExpression => [.primary .anywhere, .primary .atStatement]
  | .object | .functionExpression => [.primary .anywhere]
  | .newTarget => [.newTarget]
  | .arguments => [.arguments]
  | .argument => [.argument]
  | .property => [.property]
  | .propKey => [.propertyKey]
  | .propName => [.propertyName]
  | .declarationWord => [.declarationWord]
  | .propWord => [.propertyWord]
  | .assignOp => [.assignOperator]
  | .binop => [.binaryOperator]
  | .unaryOp => [.unaryOperator]
  | .updateOp => [.updateOperator]

/-- Phrases of the first category are phrases of the second one. -/
def Category.within : Category → Category → Bool
  | .expression a lead, .expression b lead' => a.fits b && lead == lead'
  | .primary lead, .expression _ lead' => lead == lead'
  | .expression .assignment .anywhere, .argument => true
  | .propertyName, .propertyKey => true
  | c, d => c == d

theorem Rank.fits_trans {a b c : Rank} (hab : a.fits b = true) (hbc : b.fits c = true) :
    a.fits c = true := by
  simp only [fits, decide_eq_true_eq] at *
  omega

theorem FormedPhrase.loosen {P : Category → Tree → Prop} {a b : Rank} (hab : a.fits b = true)
    {lead : Lead} {x : Tree} (h : FormedPhrase P (.expression a lead) x) :
    FormedPhrase P (.expression b lead) x := by
  induction h with
  | token accepted => cases accepted
  | through predicted inner =>
    cases Category.narrower_of_predict predicted
    have hpredict : (Category.expression b lead).predict [.name] = some (.through (.primary lead)) := by
      cases b <;> cases lead <;> rfl
    exact .through hpredict inner
  | rule predicted items =>
    obtain ⟨rfl, hunary⟩ := Category.fits_of_predict predicted
    have hpredict : (Category.expression b lead).predict [.mark .bang]
        = some (.rule .unaryExpression) := by
      rw [Category.predict_expression, Rank.fits_trans hunary hab]
      rfl
    exact .rule hpredict items
  | extended inner extension items ih =>
    obtain ⟨hkind, hleft, hrank⟩ := Category.extension_expression.mp extension
    exact .extended ih
      (Category.extension_expression.mpr ⟨hkind, hleft, Rank.fits_trans hrank hab⟩) items

theorem Formable.of_within {c d : Category} (h : c.within d = true) {x : Tree}
    (hx : Formable c x) : Formable d x := by
  unfold Category.within at h
  split at h
  · next a lead b lead' =>
    obtain ⟨hab, hlead⟩ := (Bool.and_eq_true _ _).mp h
    cases eq_of_beq hlead
    rw [formable_iff] at hx ⊢
    exact hx.loosen hab
  · next lead rank lead' =>
    cases eq_of_beq h
    have hpredict : (Category.expression rank lead).predict [.name]
        = some (.through (.primary lead)) := by
      cases rank <;> cases lead <;> rfl
    exact formable_iff.mpr (.through hpredict hx)
  · have hpredict : Category.argument.predict [.name] = some (.through .oneExpression) := rfl
    exact formable_iff.mpr (.through hpredict hx)
  · have hpredict : Category.propertyKey.predict [.name] = some (.through .propertyName) := rfl
    exact formable_iff.mpr (.through hpredict hx)
  · rwa [← eq_of_beq h]

/-- The beginnings that between them show every rule. -/
def openings : List (List TokenKind) :=
  TokenKind.all.map (fun kind => [kind]) ++
    [[.name, .mark .assign], [.name, .mark .colon],
      [.keyword .forKw, .mark .lparen, .keyword .varKw, .name, .keyword .inKw]]

/-- A phrase of the category may begin with a node of the rule. -/
def Category.opens (c : Category) (r : Rule) : Bool :=
  openings.any fun ahead => c.predict ahead == some (.rule r)

/-- A phrase of another symbol may be extended by the rule to one of the category. -/
def Category.extendsBy (c : Category) (left : Symbol) (r : Rule) : Bool :=
  match c with
  | .expression limit lead =>
    TokenKind.all.any (fun kind => kind.extendingRule? == some r) && r.rank.fits limit &&
      r.leftRank?.any fun rank =>
        rank.fits limit && left.categories.contains (.expression rank lead)
  | .newTarget => left == .newTarget && r == .getProp
  | _ => false

/-- What the alternative makes belongs to the category. -/
def Category.admits (c : Category) : Production → Bool
  | ⟨some r, parts⟩ => (c.opens r && Ebnf.sameAll parts r.ebnf) ||
    match parts with
    | .symbol left :: parts => c.extendsBy left r && Ebnf.sameAll parts r.ebnf
    | _ => false
  | ⟨none, [.symbol s]⟩ => s.categories.any (·.within c)
  | ⟨none, [.token kind]⟩ => c.acceptsToken kind && c.predict [kind] == some .token
  | ⟨none, _⟩ => false

/-- The phrase belongs to every category that the symbol stands for. -/
def FormedBy (s : Symbol) (x : Tree) : Prop := ∀ c ∈ s.categories, Formable c x

theorem FormedBy.formable {c : Category} {x : Tree} (h : FormedBy c.symbol x) : Formable c x := by
  refine h c ?_
  cases c with
  | expression rank lead => cases rank <;> exact .head _
  | block => exact .tail _ (.head _)
  | _ => exact .head _

theorem rank_of_expression {limit : Rank} {lead : Lead} {x : Tree}
    (h : Formable (.expression limit lead) x) : x.rank.fits limit = true := by
  obtain ⟨depth, h⟩ := h
  exact (h.derives.2 limit lead rfl).1

/-- What an alternative makes of phrases that the rules form, the rules form. -/
theorem Category.formable_of_admits {c : Category} {a : Production} (h : c.admits a = true)
    {parts : List Tree} (hparts : Spells FormedBy a.parts parts) {x : Tree}
    (hx : a.Makes parts x) : Formable c x := by
  have hformed : ∀ c x, FormedBy c.symbol x → Formable c x := fun c x hx => hx.formable
  unfold admits at h
  split at h
  · next r es =>
    cases hx
    -- a rule either begins a phrase of the category or extends one that is there already
    rcases (Bool.or_eq_true _ _).mp h with h | h
    · obtain ⟨hopens, hsame⟩ := (Bool.and_eq_true _ _).mp h
      obtain ⟨ahead, -, hpredict⟩ := List.any_eq_true.mp hopens
      rw [Ebnf.eq_of_sameAll hsame] at hparts
      exact formable_iff.mpr (.rule (eq_of_beq hpredict) (hparts.fits_items hformed))
    · split at h
      · next left es =>
        obtain ⟨hextends, hsame⟩ := (Bool.and_eq_true _ _).mp h
        rw [Ebnf.eq_of_sameAll hsame] at hparts
        obtain ⟨y, ys, rfl, hy, hys⟩ := hparts.uncons_symbol
        have hitems := hys.fits_items hformed
        unfold extendsBy at hextends
        split at hextends
        · next limit lead =>
          simp only [Bool.and_eq_true, List.any_eq_true, Option.any_eq_true, beq_iff_eq,
            List.contains_iff_mem] at hextends
          obtain ⟨⟨⟨kind, -, hkind⟩, hrank⟩, left', hleft, hlimit, hmem⟩ := hextends
          have hy' := hy _ hmem
          exact formable_iff.mpr (.extended
            (formable_iff.mp (hy'.of_within (by simp [within, hlimit])))
            (extension_expression.mpr ⟨hkind, ⟨left', hleft, rank_of_expression hy'⟩, hrank⟩)
            hitems)
        · obtain ⟨hleft, hr⟩ := (Bool.and_eq_true _ _).mp hextends
          cases eq_of_beq hleft
          cases eq_of_beq hr
          have hextension : Category.newTarget.extension y.rank (.mark .dot) = some .getProp := rfl
          exact formable_iff.mpr
            (.extended (formable_iff.mp (hy _ (.head _))) hextension hitems)
        · cases hextends
      · cases h
  · next s =>
    obtain ⟨y, ys, rfl, hy, hys⟩ := hparts.uncons_symbol
    cases hx
    obtain ⟨d, hd, hwithin⟩ := List.any_eq_true.mp h
    exact (hy d hd).of_within hwithin
  · next kind =>
    obtain ⟨t, ys, rfl, rfl, hys⟩ := hparts.uncons_token
    cases hx
    exact formable_iff.mpr (.token ((Bool.and_eq_true _ _).mp h).1)
  · cases h

/-- The alternatives of a symbol are what the rules say. -/
theorem Symbol.admits_alternatives (s : Symbol) :
    ∀ a ∈ s.alternatives, ∀ c ∈ s.categories, c.admits a = true := by
  have hall : (all.all fun s => s.alternatives.all fun a => s.categories.all fun c =>
      c.admits a) = true := by
    decide +kernel
  have h := List.all_eq_true.mp hall s (mem_all s)
  intro a ha c hc
  exact List.all_eq_true.mp (List.all_eq_true.mp h a ha) c hc

theorem Derives.spells {es : List Ebnf} {xs : List Tree} (h : Derives es xs) :
    Spells FormedBy es xs := by
  induction h with
  | nil => exact .nil
  | token _ ih => exact .token ih
  | symbol alternative _ makes _ ih ih' =>
    refine .symbol (fun c hc => ?_) ih'
    exact c.formable_of_admits (Symbol.admits_alternatives _ _ alternative c hc) ih makes
  | absent _ ih => exact .absent ih
  | present _ _ ih ih' => exact .present ih ih'
  | stop _ ih => exact .stop ih
  | more _ _ ih ih' => exact .more ih ih'

/-- The phrases of a category are those that the grammar derives from its symbol. -/
theorem derives_iff_formable {c : Category} {x : Tree} :
    Derives [.symbol c.symbol] [x] ↔ Formable c x := by
  constructor
  · intro h
    obtain ⟨y, ys, heq, hy, -⟩ := h.spells.uncons_symbol
    cases heq
    exact hy.formable
  · rintro ⟨depth, h⟩
    exact h.derives.1

/-- The statements of a script are those that the grammar derives from its start. -/
theorem derives_scriptParts_iff {xs : List Tree} :
    Derives scriptParts xs ↔ ∀ x ∈ xs, Formable .statement x := by
  constructor
  · intro h x hx
    obtain ⟨groups, rfl, hgroups⟩ := h.spells.only_many
    obtain ⟨g, hg, hxg⟩ := List.mem_flatten.mp hx
    obtain ⟨y, ys, rfl, hy, hys⟩ := (hgroups g hg).uncons_symbol
    rw [hys.eq_nil, List.mem_singleton] at hxg
    exact hxg ▸ hy .statement (.head _)
  · intro h
    induction xs with
    | nil => exact .stop .nil
    | cons x xs ih =>
      obtain ⟨hx, hxs⟩ := List.forall_mem_cons.mp h
      exact .more (derives_iff_formable.mpr hx) (ih hxs)

end SuperForward.Script
