/-
  The reader takes exactly the phrases that can be taken.

  The bounds of the reader are generous enough: before a token is read a phrase passes through
  at most four categories (`Category.level`), and every turn of a repetition or an extension
  reads a token. So with at least four steps of depth for each token and some more for its
  category the reader is done with a tree if and only if the tree can be taken off the tokens.
-/
import SuperForward.Proofs.Script.Phrase

namespace SuperForward.Script

/-! ## Levels -/

/-- How many categories a phrase passes through at most before its first token is read. -/
def Category.level : Category → Nat
  | .property => 4
  | .statement | .argument | .forInit | .propertyKey => 3
  | .expression .. | .params | .propertyName => 2
  | _ => 1

theorem Category.level_le (c : Category) : c.level ≤ 4 := by
  cases c <;> simp [level]

theorem Category.level_pos (c : Category) : 0 < c.level := by
  cases c <;> simp [level]

/-- The level of the phrase that a part begins with. -/
def Part.level : Part → Nat
  | .token _ => 0
  | .phrase c => c.level

/-- The level of the phrase that a group begins with. -/
def partsLevel (ps : List Part) : Nat := (ps.head?.map Part.level).getD 0

/-- The item may take nothing. -/
def Item.nullable : Item → Bool
  | .one _ => false
  | .optional _ | .repeated _ => true
  | .list _ shape => shape.mayBeEmpty

/-- The level of the phrase that an item begins with. -/
def Item.level : Item → Nat
  | .one p => p.level
  | .optional ps | .repeated ps => partsLevel ps
  | .list c _ => c.level

/-- The highest level of the phrases that may come first among some items. -/
def itemsLevel : List Item → Nat
  | [] => 0
  | i :: is => if i.nullable then max i.level (itemsLevel is) else i.level

theorem Part.level_le (p : Part) : p.level ≤ 4 := by
  cases p with
  | token => simp [level]
  | phrase c => exact c.level_le

theorem partsLevel_le (ps : List Part) : partsLevel ps ≤ 4 := by
  cases ps with
  | nil => simp [partsLevel]
  | cons p ps => exact p.level_le

theorem Item.level_le (i : Item) : i.level ≤ 4 := by
  cases i with
  | one p => exact p.level_le
  | optional ps => exact partsLevel_le ps
  | repeated ps => exact partsLevel_le ps
  | list c _ => exact c.level_le

theorem itemsLevel_le (is : List Item) : itemsLevel is ≤ 4 := by
  induction is with
  | nil => simp [itemsLevel]
  | cons i is ih =>
    unfold itemsLevel
    have := i.level_le
    split <;> omega

/-- Every rule asks for something. -/
theorem Rule.items_not_nullable (r : Rule) : r.items.all Item.nullable = false := by
  cases r <;> rfl

/-- The groups that may be missing or come again ask for something. -/
theorem Rule.groups_ne_nil (r : Rule) :
    ∀ i ∈ r.items, ∀ ps, i = .optional ps ∨ i = .repeated ps → ps ≠ [] := by
  cases r <;> simp [Rule.items]

/-- The rules of statements. -/
def statementRules : List Rule := [
  .varStatement, .functionDeclaration, .expressionStatement, .returnStatement, .ifStatement,
  .forStatement, .forInStatement, .whileStatement, .doStatement, .tryStatement,
  .switchStatement, .throwStatement, .breakStatement, .continueStatement, .block,
  .emptyStatement]

/-- The rules of primary expressions. -/
def primaryRules : List Rule := [
  .name, .number, .string, .template, .this, .trueLiteral, .falseLiteral, .nullLiteral,
  .newExpression, .array, .parenthesized, .object, .functionExpression]

theorem Category.mem_statementRules {kind : TokenKind} {r : Rule}
    (h : Category.statementRule? kind = some r) : r ∈ statementRules := by
  unfold Category.statementRule? at h
  split at h
  all_goals first
    | (cases h; decide)
    | (split at h
       · cases h; decide
       · cases h)

theorem Category.mem_primaryRules {lead : Lead} {kind : TokenKind} {r : Rule}
    (h : Category.primaryRule? lead kind = some r) : r ∈ primaryRules := by
  unfold Category.primaryRule? at h
  split at h
  all_goals first
    | (cases h; done)
    | (cases h; decide)
    | (split at h
       · cases h; decide
       · cases h)

/-- The rules that may begin a phrase of a category. -/
def Category.rules : Category → List Rule
  | .statement => statementRules
  | .block => [.block]
  | .functionBody => [.functionBody]
  | .declarator => [.declarator]
  | .params => [.params]
  | .param => [.restParam, .defaultParam, .simpleParam]
  | .forInit => [.forVar, .forInit]
  | .switchCase => [.caseClause, .defaultClause]
  | .catchClause => [.catchClause]
  | .finallyClause => [.finallyClause]
  | .expression .. => [.unaryExpression]
  | .primary _ => primaryRules
  | .newTarget => [.name]
  | .arguments => [.arguments]
  | .argument => [.spread]
  | .property => [.shorthand, .pair]
  | .propertyName => [.propertyName]
  | _ => []

/-- The narrower category that a phrase of a category may begin with. -/
def Category.narrower? : Category → Option Category
  | .expression _ lead => some (.primary lead)
  | .argument => some .oneExpression
  | .propertyKey => some .propertyName
  | _ => none

/-- What a prediction can be. -/
theorem Category.predict_eq {c : Category} {ahead : List TokenKind} {prediction : Prediction}
    (h : c.predict ahead = some prediction) :
    (prediction = .token) ∨ (∃ r ∈ c.rules, prediction = .rule r) ∨
      ∃ d, c.narrower? = some d ∧ prediction = .through d := by
  cases ahead with
  | nil => simp [Category.predict] at h
  | cons kind rest =>
    cases c
    case statement =>
      simp only [Category.predict] at h
      split at h
      · cases h
        exact .inr (.inl ⟨_, by decide, rfl⟩)
      · obtain ⟨r, hr, rfl⟩ := Option.map_eq_some_iff.mp h
        exact .inr (.inl ⟨r, Category.mem_statementRules hr, rfl⟩)
    case primary lead =>
      simp only [Category.predict] at h
      obtain ⟨r, hr, rfl⟩ := Option.map_eq_some_iff.mp h
      exact .inr (.inl ⟨r, Category.mem_primaryRules hr, rfl⟩)
    all_goals
      simp only [Category.predict] at h
      repeat' split at h
      all_goals simp_all [Category.rules, Category.narrower?]

/-- The rules that extend an expression. -/
def extendingRules : List Rule := [
  .getProp, .getElem, .call, .updateExpression, .conditional, .sequence, .assign,
  .binaryExpression]

theorem TokenKind.mem_extendingRules {kind : TokenKind} {r : Rule}
    (h : kind.extendingRule? = some r) : r ∈ extendingRules := by
  unfold TokenKind.extendingRule? at h
  split at h
  all_goals first
    | (cases h; decide)
    | (split at h
       · cases h; decide
       · split at h
         · cases h; decide
         · cases h)

/-- Only expressions are extended. -/
theorem Category.extension_eq {c : Category} {rank : Rank} {kind : TokenKind} {r : Rule}
    (h : c.extension rank kind = some r) :
    r ∈ extendingRules ∧ ((∃ limit lead, c = .expression limit lead) ∨ c = .newTarget) := by
  cases c <;> simp only [Category.extension, reduceCtorEq] at h
  case expression limit lead =>
    exact ⟨TokenKind.mem_extendingRules (Option.filter_eq_some_iff.mp h).1, .inl ⟨_, _, rfl⟩⟩
  case newTarget =>
    exact ⟨TokenKind.mem_extendingRules (Option.filter_eq_some_iff.mp h).1, .inr rfl⟩

theorem Category.level_of_rule {c : Category} {ahead : List TokenKind} {r : Rule}
    (h : c.predict ahead = some (.rule r)) : itemsLevel r.items < c.level := by
  obtain h' | ⟨r', hr, h'⟩ | ⟨d, -, h'⟩ := Category.predict_eq h
  · cases h'
  · cases h'
    clear h
    cases c <;> simp only [rules, List.not_mem_nil] at hr <;> revert r <;>
      simp only [statementRules, primaryRules, level] <;> decide
  · cases h'

theorem Category.level_of_through {c d : Category} {ahead : List TokenKind}
    (h : c.predict ahead = some (.through d)) : d.level < c.level := by
  obtain h' | ⟨r', -, h'⟩ | ⟨d', hd, h'⟩ := Category.predict_eq h
  · cases h'
  · cases h'
  · cases h'
    cases c <;> simp [narrower?] at hd <;> subst hd <;> simp [level]

/-! ## Progress -/

section Progress

/- Phrases inside take at least one token. -/
variable {P : Category → List Token → Tree → List Token → Prop}
  (hP : ∀ {c ts x rest}, P c ts x rest → rest.length < ts.length)
include hP

theorem TakesPart.progress {p ts x rest} (h : TakesPart P p ts x rest) :
    rest.length < ts.length := by
  cases h with
  | token t => simp
  | phrase h => exact hP h

theorem TakesParts.progress {ps ts xs rest} (h : TakesParts P ps ts xs rest) :
    rest.length ≤ ts.length ∧ (ps ≠ [] → rest.length < ts.length) := by
  induction h with
  | nil ts => simp
  | cons head _ ih =>
    have := head.progress hP
    exact ⟨by omega, fun _ => by omega⟩

theorem TakesRepeated.progress {ps ts xs rest} (h : TakesRepeated P ps ts xs rest) :
    rest.length ≤ ts.length := by
  induction h with
  | stop => exact Nat.le_refl _
  | more _ group _ ih =>
    have := (group.progress hP).1
    omega

theorem TakesMore.progress {c shape ts xs rest} (h : TakesMore P c shape ts xs rest) :
    rest.length ≤ ts.length := by
  induction h with
  | stop => exact Nat.le_refl _
  | trail => simp
  | more _ _ element _ ih =>
    have := hP element
    simp only [List.length_cons]
    omega

theorem TakesItem.progress {i ts xs rest} (h : TakesItem P i ts xs rest) :
    rest.length ≤ ts.length ∧ (i.nullable = false → rest.length < ts.length) := by
  cases h with
  | one h =>
    have := h.progress hP
    exact ⟨by omega, fun _ => this⟩
  | absent => simp [Item.nullable]
  | present _ h => exact ⟨(h.progress hP).1, fun h => by simp [Item.nullable] at h⟩
  | repeated h => exact ⟨h.progress hP, fun h => by simp [Item.nullable] at h⟩
  | list h =>
    cases h with
    | none h =>
      refine ⟨Nat.le_refl _, fun hn => ?_⟩
      simp only [Item.nullable] at hn
      simp [hn] at h
    | some _ first tail =>
      have h1 := hP first
      have h2 := tail.progress hP
      exact ⟨by omega, fun _ => by omega⟩

theorem TakesItems.progress {is ts xs rest} (h : TakesItems P is ts xs rest) :
    rest.length ≤ ts.length ∧ (is.all Item.nullable = false → rest.length < ts.length) := by
  induction h with
  | nil ts => simp
  | @cons i is ts xs mid ys rest head _ ih =>
    obtain ⟨h1, h2⟩ := head.progress hP
    refine ⟨by omega, fun hn => ?_⟩
    rw [List.all_cons] at hn
    cases hi : i.nullable with
    | true =>
      have := ih.2 (by simpa [hi] using hn)
      omega
    | false =>
      have := h2 hi
      omega

theorem TakesExtended.progress {c x ts y rest} (h : TakesExtended P c x ts y rest) :
    rest.length ≤ ts.length := by
  induction h with
  | stop => exact Nat.le_refl _
  | step _ items _ ih =>
    have := (items.progress hP).1
    omega

theorem TakesPhrase.progress {c ts x rest} (h : TakesPhrase P c ts x rest) :
    rest.length < ts.length := by
  cases h with
  | token => simp
  | through _ inner extended =>
    have h1 := hP inner
    have h2 := extended.progress hP
    omega
  | @rule r _ _ _ _ _ _ items extended =>
    have h1 := (items.progress hP).2 r.items_not_nullable
    have h2 := extended.progress hP
    omega

end Progress

/-- A phrase has at least one token. -/
theorem Takes.progress {depth : Nat} {c : Category} {ts rest : List Token} {x : Tree}
    (h : Takes depth c ts x rest) : rest.length < ts.length := by
  induction depth generalizing c ts x rest with
  | zero => exact h.elim
  | succ depth ih => exact TakesPhrase.progress (fun h => ih h) h

/-! ## Some depth is enough -/

/-- A phrase can be taken at some depth. -/
def Stands (c : Category) (ts : List Token) (x : Tree) (rest : List Token) : Prop :=
  ∃ depth, Takes depth c ts x rest

theorem Takes.mono {depth depth' : Nat} (h : depth ≤ depth') {c : Category}
    {ts rest : List Token} {x : Tree} (ht : Takes depth c ts x rest) :
    Takes depth' c ts x rest := by
  induction h with
  | refl => exact ht
  | step _ ih => exact ih.succ

theorem TakesPart.bounded {p ts x rest} (h : TakesPart Stands p ts x rest) :
    ∃ depth, TakesPart (Takes depth) p ts x rest := by
  cases h with
  | token t => exact ⟨0, .token t _⟩
  | phrase h =>
    obtain ⟨depth, h⟩ := h
    exact ⟨depth, .phrase h⟩

theorem TakesParts.bounded {ps ts xs rest} (h : TakesParts Stands ps ts xs rest) :
    ∃ depth, TakesParts (Takes depth) ps ts xs rest := by
  induction h with
  | nil ts => exact ⟨0, .nil ts⟩
  | cons head _ ih =>
    obtain ⟨a, ha⟩ := head.bounded
    obtain ⟨b, hb⟩ := ih
    exact ⟨max a b, .cons (ha.mono (Takes.mono (Nat.le_max_left a b)))
      (hb.mono (Takes.mono (Nat.le_max_right a b)))⟩

theorem TakesRepeated.bounded {ps ts xs rest} (h : TakesRepeated Stands ps ts xs rest) :
    ∃ depth, TakesRepeated (Takes depth) ps ts xs rest := by
  induction h with
  | stop h => exact ⟨0, .stop h⟩
  | more enters group _ ih =>
    obtain ⟨a, ha⟩ := group.bounded
    obtain ⟨b, hb⟩ := ih
    exact ⟨max a b, .more enters (ha.mono (Takes.mono (Nat.le_max_left a b)))
      (hb.mono (Takes.mono (Nat.le_max_right a b)))⟩

theorem TakesMore.bounded {c shape ts xs rest} (h : TakesMore Stands c shape ts xs rest) :
    ∃ depth, TakesMore (Takes depth) c shape ts xs rest := by
  induction h with
  | stop h => exact ⟨0, .stop h⟩
  | trail comma h => exact ⟨0, .trail comma h⟩
  | more comma h element _ ih =>
    obtain ⟨a, ha⟩ := element
    obtain ⟨b, hb⟩ := ih
    exact ⟨max a b, .more comma h (ha.mono (Nat.le_max_left a b))
      (hb.mono (Takes.mono (Nat.le_max_right a b)))⟩

theorem TakesItem.bounded {i ts xs rest} (h : TakesItem Stands i ts xs rest) :
    ∃ depth, TakesItem (Takes depth) i ts xs rest := by
  cases h with
  | one h =>
    obtain ⟨depth, h⟩ := h.bounded
    exact ⟨depth, .one h⟩
  | absent h => exact ⟨0, .absent h⟩
  | present enters h =>
    obtain ⟨depth, h⟩ := h.bounded
    exact ⟨depth, .present enters h⟩
  | repeated h =>
    obtain ⟨depth, h⟩ := h.bounded
    exact ⟨depth, .repeated h⟩
  | list h =>
    cases h with
    | none h => exact ⟨0, .list (.none h)⟩
    | some h first tail =>
      obtain ⟨a, ha⟩ := first
      obtain ⟨b, hb⟩ := tail.bounded
      exact ⟨max a b, .list (.some h (ha.mono (Nat.le_max_left a b))
        (hb.mono (Takes.mono (Nat.le_max_right a b))))⟩

theorem TakesItems.bounded {is ts xs rest} (h : TakesItems Stands is ts xs rest) :
    ∃ depth, TakesItems (Takes depth) is ts xs rest := by
  induction h with
  | nil ts => exact ⟨0, .nil ts⟩
  | cons head _ ih =>
    obtain ⟨a, ha⟩ := head.bounded
    obtain ⟨b, hb⟩ := ih
    exact ⟨max a b, .cons (ha.mono (Takes.mono (Nat.le_max_left a b)))
      (hb.mono (Takes.mono (Nat.le_max_right a b)))⟩

theorem TakesExtended.bounded {c x ts y rest} (h : TakesExtended Stands c x ts y rest) :
    ∃ depth, TakesExtended (Takes depth) c x ts y rest := by
  induction h with
  | stop h => exact ⟨0, .stop h⟩
  | step h items _ ih =>
    obtain ⟨a, ha⟩ := items.bounded
    obtain ⟨b, hb⟩ := ih
    exact ⟨max a b, .step h (ha.mono (Takes.mono (Nat.le_max_left a b)))
      (hb.mono (Takes.mono (Nat.le_max_right a b)))⟩

/-- A phrase whose parts stand at the head of their tokens stands there itself. -/
theorem stands_iff {c : Category} {ts rest : List Token} {x : Tree} :
    Stands c ts x rest ↔ TakesPhrase Stands c ts x rest := by
  constructor
  · rintro ⟨depth, h⟩
    cases depth with
    | zero => exact h.elim
    | succ depth => exact TakesPhrase.mono (fun h => ⟨depth, h⟩) h
  · intro h
    cases h with
    | token predicted accepted => exact ⟨1, .token predicted accepted⟩
    | through predicted inner extended =>
      obtain ⟨a, ha⟩ := inner
      obtain ⟨b, hb⟩ := extended.bounded
      exact ⟨max a b + 1, .through predicted (ha.mono (Nat.le_max_left a b))
        (hb.mono (Takes.mono (Nat.le_max_right a b)))⟩
    | rule predicted items extended =>
      obtain ⟨a, ha⟩ := items.bounded
      obtain ⟨b, hb⟩ := extended.bounded
      exact ⟨max a b + 1, .rule predicted (ha.mono (Takes.mono (Nat.le_max_left a b)))
        (hb.mono (Takes.mono (Nat.le_max_right a b)))⟩

theorem Stands.progress {c : Category} {ts rest : List Token} {x : Tree}
    (h : Stands c ts x rest) : rest.length < ts.length := by
  obtain ⟨depth, h⟩ := h
  exact Takes.progress h

theorem Stands.tokens_eq {c : Category} {ts rest : List Token} {x : Tree}
    (h : Stands c ts x rest) : ts = x.tokens ++ rest := by
  obtain ⟨depth, h⟩ := h
  exact Takes.tokens_eq h

/-! ## The reader -/

namespace Reader

variable {α β : Type}

theorem bind_eq_done {r : Reader α} {next : α → Reader β} {ts rest : List Token} {b : β} :
    (r >>= next) ts = .done b rest ↔ ∃ a mid, r ts = .done a mid ∧ next a mid = .done b rest := by
  show Reader.bind r next ts = _ ↔ _
  unfold Reader.bind
  cases r ts with
  | done a mid =>
    constructor
    · intro h
      exact ⟨a, mid, rfl, h⟩
    · rintro ⟨a', mid', h, h'⟩
      cases h
      exact h'
  | stuck mid => simp

theorem pure_eq_done {a b : α} {ts rest : List Token} :
    (pure a : Reader α) ts = .done b rest ↔ a = b ∧ ts = rest := by
  show Outcome.done a ts = .done b rest ↔ _
  rw [Outcome.done.injEq]

theorem nextIs_bind {p : TokenKind → Bool} {next : Bool → Reader β} {ts : List Token} :
    (nextIs p >>= next) ts = next ((nextKind? ts).any p) ts := by
  cases ts <;> rfl

theorem ahead_bind {next : List TokenKind → Reader β} {ts : List Token} :
    (ahead >>= next) ts = next (aheadOf ts) ts := rfl

theorem takeToken_eq_done {p : TokenKind → Bool} {ts rest : List Token} {x : Tree} :
    takeToken p ts = .done x rest ↔ ∃ t, ts = t :: rest ∧ p t.kind = true ∧ x = .leaf t := by
  cases ts with
  | nil => simp [takeToken]
  | cons t ts =>
    unfold takeToken
    by_cases h : p t.kind = true
    · simp only [h, if_true, Outcome.done.injEq]
      constructor
      · rintro ⟨rfl, rfl⟩
        exact ⟨t, rfl, h, rfl⟩
      · rintro ⟨t', h', -, rfl⟩
        cases h'
        exact ⟨rfl, rfl⟩
    · simp only [h, Bool.false_eq_true, if_false]
      constructor
      · intro h'
        cases h'
      · rintro ⟨t', h', hk, -⟩
        cases h'
        exact absurd hk h

section Agreement

/- `phrase` reads the phrases inside, and is done when they stand there and have no more than
`limit` allows of tokens and levels. -/
variable {phrase : Category → Reader Tree} {limit : Nat}
  (hphrase : ∀ {c ts x rest}, 4 * ts.length + c.level ≤ limit →
    (phrase c ts = .done x rest ↔ Stands c ts x rest))
include hphrase

theorem part_eq_done {p : Part} {ts rest : List Token} {x : Tree}
    (hl : 4 * ts.length + p.level ≤ limit) :
    part phrase p ts = .done x rest ↔ TakesPart Stands p ts x rest := by
  cases p with
  | token kind =>
    rw [part, takeToken_eq_done]
    constructor
    · rintro ⟨t, rfl, hk, rfl⟩
      obtain rfl := beq_iff_eq.mp hk
      exact .token t rest
    · rintro ⟨t⟩
      exact ⟨_, rfl, beq_self_eq_true _, rfl⟩
  | phrase c =>
    rw [part, hphrase hl]
    constructor
    · exact .phrase
    · rintro ⟨⟩
      assumption

theorem parts_eq_done {ps : List Part} {ts rest : List Token} {xs : List Tree}
    (hl : 4 * ts.length + partsLevel ps ≤ limit) :
    parts phrase ps ts = .done xs rest ↔ TakesParts Stands ps ts xs rest := by
  induction ps generalizing ts xs with
  | nil =>
    rw [parts, pure_eq_done]
    constructor
    · rintro ⟨rfl, rfl⟩
      exact .nil ts
    · rintro ⟨⟩
      exact ⟨rfl, rfl⟩
  | cons p ps ih =>
    have htail {x mid} (h : TakesPart Stands p ts x mid) :
        4 * mid.length + partsLevel ps ≤ limit := by
      have h1 := h.progress Stands.progress
      have h2 := partsLevel_le ps
      have h3 : partsLevel (p :: ps) = p.level := rfl
      omega
    simp only [parts, bind_eq_done, pure_eq_done, part_eq_done hphrase (p := p) hl]
    constructor
    · rintro ⟨x, mid, hx, ys, end', hys, rfl, rfl⟩
      exact .cons hx ((ih (htail hx)).mp hys)
    · rintro ⟨⟩
      next x mid ys hx hys => exact ⟨x, mid, hx, ys, rest, (ih (htail hx)).mpr hys, rfl, rfl⟩

theorem repeated_eq_done {ps : List Part} (hps : ps ≠ []) {turns : Nat} {ts rest : List Token}
    {xs : List Tree} (ht : ts.length ≤ turns) (hl : 4 * ts.length + partsLevel ps ≤ limit) :
    repeated phrase ps turns ts = .done xs rest ↔ TakesRepeated Stands ps ts xs rest := by
  have hstop {ts rest : List Token} {xs : List Tree}
      (h : SuperForward.Script.entersGroup ps ts = false) :
      [] = xs ∧ ts = rest ↔ TakesRepeated Stands ps ts xs rest := by
    constructor
    · rintro ⟨rfl, rfl⟩
      exact .stop h
    · intro h'
      cases h' with
      | stop => exact ⟨rfl, rfl⟩
      | more enters => rw [h] at enters; cases enters
  induction turns generalizing ts xs with
  | zero =>
    obtain rfl := List.length_eq_zero_iff.mp (Nat.le_zero.mp ht)
    rw [repeated, pure_eq_done]
    exact hstop rfl
  | succ turns ih =>
    rw [repeated, Reader.entersGroup, nextIs_bind]
    cases henters : SuperForward.Script.entersGroup ps ts with
    | false =>
      unfold SuperForward.Script.entersGroup at henters
      rw [henters]
      exact pure_eq_done.trans (hstop henters)
    | true =>
      have henters' := henters
      unfold SuperForward.Script.entersGroup at henters'
      simp only [henters', if_true, bind_eq_done, pure_eq_done, parts_eq_done hphrase hl]
      -- a group is not empty, so each turn takes a token and the turns are enough
      have htail {ys mid} (h : TakesParts Stands ps ts ys mid) :
          mid.length ≤ turns ∧ 4 * mid.length + partsLevel ps ≤ limit := by
        have := (h.progress Stands.progress).2 hps
        omega
      constructor
      · rintro ⟨ys, mid, hys, zs, end', hzs, rfl, rfl⟩
        exact .more henters hys ((ih (htail hys).1 (htail hys).2).mp hzs)
      · intro h
        cases h with
        | stop h => rw [henters] at h; cases h
        | more _ group tail =>
          exact ⟨_, _, group, _, rest, (ih (htail group).1 (htail group).2).mpr tail, rfl, rfl⟩

omit hphrase in
theorem moreElements_stop {c : Category} {shape : ListShape} {turns : Nat} {ts : List Token}
    (h : atComma ts = false) : moreElements phrase c shape turns ts = .done [] ts := by
  cases turns with
  | zero => rfl
  | succ turns =>
    rw [moreElements, nextIs_bind, show (nextKind? ts).any (· == .mark .comma) = false from h]
    rfl

omit hphrase in
theorem moreElements_comma {c : Category} {shape : ListShape} {turns : Nat} {t : Token}
    {ts : List Token} (h : t.kind = .mark .comma) :
    moreElements phrase c shape (turns + 1) (t :: ts) =
      if (shape.mayTrail && endsList c ts) = true then .done [.leaf t] ts
      else (do
        let x ← phrase c
        let xs ← moreElements phrase c shape turns
        return .leaf t :: x :: xs : Reader (List Tree)) ts := by
  have htake : takeToken (· == .mark .comma) (t :: ts) = .done (.leaf t) ts := by
    simp [takeToken, h]
  have hat : (nextKind? (t :: ts)).any (· == .mark .comma) = true := by
    simp [nextKind?, h]
  have hbind : ∀ (next : Tree → Reader (List Tree)),
      (takeToken (· == .mark .comma) >>= next) (t :: ts) = next (.leaf t) ts := by
    intro next
    show Reader.bind _ _ _ = _
    rw [Reader.bind, htake]
  rw [moreElements, nextIs_bind, hat]
  simp only [if_true]
  rw [hbind, nextIs_bind]
  cases hends : shape.mayTrail && endsList c ts with
  | true =>
    unfold endsList at hends
    rw [hends]
    rfl
  | false =>
    unfold endsList at hends
    rw [hends]
    rfl

theorem moreElements_eq_done {c : Category} {shape : ListShape} {turns : Nat}
    {ts rest : List Token} {xs : List Tree} (ht : ts.length ≤ turns)
    (hl : 4 * ts.length ≤ limit) :
    moreElements phrase c shape turns ts = .done xs rest
      ↔ TakesMore Stands c shape ts xs rest := by
  -- each element takes a comma at least, so there are never more turns than tokens
  induction turns generalizing ts xs with
  | zero =>
    obtain rfl := List.length_eq_zero_iff.mp (Nat.le_zero.mp ht)
    rw [moreElements_stop rfl, Outcome.done.injEq]
    constructor
    · rintro ⟨rfl, rfl⟩
      exact .stop rfl
    · rintro ⟨⟩
      exact ⟨rfl, rfl⟩
  | succ turns ih =>
    cases hcomma : atComma ts with
    | false =>
      rw [moreElements_stop hcomma, Outcome.done.injEq]
      constructor
      · rintro ⟨rfl, rfl⟩
        exact .stop hcomma
      · intro h
        cases h with
        | stop => exact ⟨rfl, rfl⟩
        | trail comma => simp [atComma, nextKind?, comma] at hcomma
        | more comma => simp [atComma, nextKind?, comma] at hcomma
    | true =>
      obtain _ | ⟨t, ts⟩ := ts
      · cases hcomma
      have hcomma' : t.kind = .mark .comma := by simpa [atComma, nextKind?] using hcomma
      rw [moreElements_comma hcomma']
      simp only [List.length_cons] at hl ht
      cases htrail : shape.mayTrail && endsList c ts with
      | true =>
        simp only [if_true, Outcome.done.injEq]
        constructor
        · rintro ⟨rfl, rfl⟩
          exact .trail hcomma' htrail
        · intro h
          cases h with
          | stop h => rw [h] at hcomma; cases hcomma
          | trail => exact ⟨rfl, rfl⟩
          | more _ h => rw [htrail] at h; cases h
      | false =>
        have hl' : 4 * ts.length + c.level ≤ limit := by
          have := c.level_le
          omega
        have htail {x mid} (h : Stands c ts x mid) :
            mid.length ≤ turns ∧ 4 * mid.length ≤ limit := by
          have := h.progress
          omega
        simp only [Bool.false_eq_true, if_false, bind_eq_done, pure_eq_done, hphrase hl']
        constructor
        · rintro ⟨x, mid, hx, ys, end', hys, rfl, rfl⟩
          exact .more hcomma' htrail hx ((ih (htail hx).1 (htail hx).2).mp hys)
        · intro h
          cases h with
          | stop h => rw [h] at hcomma; cases hcomma
          | trail _ h => rw [htrail] at h; cases h
          | more _ _ element tail =>
            exact ⟨_, _, element, _, rest,
              (ih (htail element).1 (htail element).2).mpr tail, rfl, rfl⟩

theorem elements_eq_done {c : Category} {shape : ListShape} {bound : Nat}
    {ts rest : List Token} {xs : List Tree} (hb : ts.length ≤ bound)
    (hl : 4 * ts.length + c.level ≤ limit) :
    elements phrase bound c shape ts = .done xs rest
      ↔ TakesElements Stands c shape ts xs rest := by
  rw [elements, nextIs_bind, show (nextKind? ts).any c.startsWith = beginsPhrase c ts from rfl]
  cases hbegins : shape.mayBeEmpty && !beginsPhrase c ts with
  | true =>
    simp only [if_true, pure_eq_done]
    constructor
    · rintro ⟨rfl, rfl⟩
      exact .none hbegins
    · intro h
      cases h with
      | none => exact ⟨rfl, rfl⟩
      | some h => rw [hbegins] at h; cases h
  | false =>
    simp only [Bool.false_eq_true, if_false, bind_eq_done, pure_eq_done, hphrase hl]
    have htail {x mid} (h : Stands c ts x mid) :
        mid.length ≤ bound ∧ 4 * mid.length ≤ limit := by
      have := h.progress
      omega
    constructor
    · rintro ⟨x, mid, hx, ys, end', hys, rfl, rfl⟩
      exact .some hbegins hx
        ((moreElements_eq_done hphrase (htail hx).1 (htail hx).2).mp hys)
    · intro h
      cases h with
      | none h => rw [hbegins] at h; cases h
      | some _ first tail =>
        exact ⟨_, _, first, _, rest,
          (moreElements_eq_done hphrase (htail first).1 (htail first).2).mpr tail, rfl, rfl⟩

theorem item_eq_done {i : Item} {bound : Nat} {ts rest : List Token} {xs : List Tree}
    (hi : ∀ ps, i = .optional ps ∨ i = .repeated ps → ps ≠ []) (hb : ts.length ≤ bound)
    (hl : 4 * ts.length + i.level ≤ limit) :
    item phrase bound i ts = .done xs rest ↔ TakesItem Stands i ts xs rest := by
  -- a group is read where its first token stands, which is the check of the parser word for word
  cases i with
  | one p =>
    simp only [item, bind_eq_done, pure_eq_done, part_eq_done hphrase (p := p) hl]
    constructor
    · rintro ⟨x, mid, hx, rfl, rfl⟩
      exact .one hx
    · rintro ⟨⟩
      next x hx => exact ⟨x, rest, hx, rfl, rfl⟩
  | optional ps =>
    rw [item, Reader.entersGroup, nextIs_bind]
    cases henters : SuperForward.Script.entersGroup ps ts with
    | false =>
      have henters' := henters
      unfold SuperForward.Script.entersGroup at henters'
      simp only [henters', Bool.false_eq_true, if_false, pure_eq_done]
      constructor
      · rintro ⟨rfl, rfl⟩
        exact .absent henters
      · intro h
        cases h with
        | absent => exact ⟨rfl, rfl⟩
        | present h => rw [henters] at h; cases h
    | true =>
      have henters' := henters
      unfold SuperForward.Script.entersGroup at henters'
      have hparts {rest xs} : parts phrase ps ts = .done xs rest ↔ TakesParts Stands ps ts xs rest :=
        parts_eq_done hphrase hl
      simp only [henters', if_true, hparts]
      constructor
      · exact .present henters
      · intro h
        cases h with
        | absent h => rw [henters] at h; cases h
        | present _ h => exact h
  | repeated ps =>
    rw [item, repeated_eq_done hphrase (hi ps (.inr rfl)) hb hl]
    constructor
    · exact .repeated
    · rintro ⟨⟩
      assumption
  | list c shape =>
    rw [item, elements_eq_done hphrase hb hl]
    constructor
    · exact .list
    · rintro ⟨⟩
      assumption

theorem items_eq_done {is : List Item} {bound : Nat} {ts rest : List Token} {xs : List Tree}
    (his : ∀ i ∈ is, ∀ ps, i = .optional ps ∨ i = .repeated ps → ps ≠ [])
    (hb : ts.length ≤ bound) (hl : 4 * ts.length + itemsLevel is ≤ limit) :
    items phrase bound is ts = .done xs rest ↔ TakesItems Stands is ts xs rest := by
  induction is generalizing ts xs with
  | nil =>
    rw [items, pure_eq_done]
    constructor
    · rintro ⟨rfl, rfl⟩
      exact .nil ts
    · rintro ⟨⟩
      exact ⟨rfl, rfl⟩
  | cons i is ih =>
    have hi : 4 * ts.length + i.level ≤ limit := by
      unfold itemsLevel at hl
      split at hl <;> omega
    have htail {ys mid} (h : TakesItem Stands i ts ys mid) :
        mid.length ≤ bound ∧ 4 * mid.length + itemsLevel is ≤ limit := by
      obtain ⟨h1, h2⟩ := h.progress Stands.progress
      refine ⟨by omega, ?_⟩
      unfold itemsLevel at hl
      split at hl
      · omega
      · next hn =>
        have := h2 (by simpa using hn)
        have := itemsLevel_le is
        omega
    have his' := fun j hj => his j (List.mem_cons_of_mem _ hj)
    simp only [items, bind_eq_done, pure_eq_done,
      item_eq_done hphrase (his i (List.mem_cons_self ..)) hb hi]
    constructor
    · rintro ⟨ys, mid, hys, zs, end', hzs, rfl, rfl⟩
      exact .cons hys ((ih his' (htail hys).1 (htail hys).2).mp hzs)
    · rintro ⟨⟩
      next ys mid zs hys hzs =>
        exact ⟨ys, mid, hys, zs, rest, (ih his' (htail hys).1 (htail hys).2).mpr hzs, rfl, rfl⟩

theorem extended_eq_done {c : Category} {bound turns : Nat} {ts rest : List Token} {x y : Tree}
    (ht : ts.length ≤ turns) (hb : ts.length ≤ bound) (hl : 4 * ts.length + 4 ≤ limit) :
    extended phrase bound c turns x ts = .done y rest ↔ TakesExtended Stands c x ts y rest := by
  have hstop {ts rest : List Token} {x y : Tree} (h : extension? c x.rank ts = none) :
      x = y ∧ ts = rest ↔ TakesExtended Stands c x ts y rest := by
    constructor
    · rintro ⟨rfl, rfl⟩
      exact .stop h
    · intro h'
      cases h' with
      | stop => exact ⟨rfl, rfl⟩
      | step h'' => rw [h] at h''; cases h''
  induction turns generalizing ts x with
  | zero =>
    obtain rfl := List.length_eq_zero_iff.mp (Nat.le_zero.mp ht)
    rw [extended, pure_eq_done]
    exact hstop rfl
  | succ turns ih =>
    rw [extended, ahead_bind, head?_aheadOf,
      show (nextKind? ts).bind (c.extension x.rank) = extension? c x.rank ts from rfl]
    cases hext : extension? c x.rank ts with
    | none => exact pure_eq_done.trans (hstop hext)
    | some r =>
      have hr : 4 * ts.length + itemsLevel r.items ≤ limit := by
        have := itemsLevel_le r.items
        omega
      simp only [bind_eq_done, items_eq_done hphrase r.groups_ne_nil hb hr]
      -- no rule that extends is empty, so each turn takes a token and the turns are enough
      have htail {xs mid} (h : TakesItems Stands r.items ts xs mid) :
          mid.length ≤ turns ∧ mid.length ≤ bound ∧ 4 * mid.length + 4 ≤ limit := by
        have := (h.progress Stands.progress).2 r.items_not_nullable
        omega
      constructor
      · rintro ⟨xs, mid, hxs, h⟩
        obtain ⟨h1, h2, h3⟩ := htail hxs
        exact .step hext hxs ((ih h1 h2 h3).mp h)
      · intro h
        cases h with
        | stop h => rw [hext] at h; cases h
        | step h items tail =>
          rw [hext] at h
          cases h
          obtain ⟨h1, h2, h3⟩ := htail items
          exact ⟨_, _, items, (ih h1 h2 h3).mpr tail⟩

theorem phraseOf_eq_done {c : Category} {bound : Nat} {ts rest : List Token} {x : Tree}
    (hb : ts.length ≤ bound) (hl : 4 * ts.length + c.level ≤ limit + 1) :
    phraseOf phrase bound c ts = .done x rest ↔ TakesPhrase Stands c ts x rest := by
  rw [phraseOf, ahead_bind, takesPhrase_iff]
  have hlevel := c.level_pos
  cases hpredict : c.predict (aheadOf ts) with
  | none =>
    simp only [iff_false]
    intro h
    cases h
  | some prediction =>
    cases prediction with
    | token => exact takeToken_eq_done
    | through d =>
      have hd := Category.level_of_through hpredict
      have hc := c.level_le
      have hthrough {y mid} : phrase d ts = .done y mid ↔ Stands d ts y mid :=
        hphrase (by omega)
      simp only [bind_eq_done, hthrough]
      -- what comes after the phrase inside is shorter, so that its extensions are read, too
      refine exists_congr fun y => exists_congr fun mid => and_congr_right fun hy => ?_
      have := hy.progress
      exact extended_eq_done hphrase (by omega) (by omega) (by omega)
    | rule r =>
      have hr := Category.level_of_rule hpredict
      simp only [bind_eq_done, items_eq_done hphrase r.groups_ne_nil hb
        (show 4 * ts.length + itemsLevel r.items ≤ limit by omega)]
      refine exists_congr fun xs => exists_congr fun mid => and_congr_right fun hxs => ?_
      have := (hxs.progress Stands.progress).2 r.items_not_nullable
      exact extended_eq_done hphrase (by omega) (by omega) (by omega)

end Agreement

/-- With enough depth the reader takes a tree if and only if the tree stands there. -/
theorem phrase_eq_done {depth : Nat} {c : Category} {ts rest : List Token} {x : Tree}
    (h : 4 * ts.length + c.level ≤ depth) :
    phrase depth c ts = .done x rest ↔ Stands c ts x rest := by
  induction depth generalizing c ts x rest with
  | zero =>
    have := c.level_pos
    omega
  | succ depth ih =>
    have hc := c.level_pos
    rw [phrase, phraseOf_eq_done (fun {c ts x rest} h => ih h) (by omega) h, stands_iff]

end Reader

/-- Statements stand at the head of some tokens as far as statements begin. -/
abbrev StatementsStand : List Token → List Tree → List Token → Prop :=
  TakesRepeated Stands [.phrase .statement]

/-- Reading all tokens gives statements if and only if the tokens are those statements. -/
theorem readStatements_eq_done {ts rest : List Token} {xs : List Tree} :
    readStatements ts = .done xs rest ↔ rest = [] ∧ StatementsStand ts xs [] := by
  have hread (mid : List Token) (ys : List Tree) :
      Reader.repeated (Reader.phrase (depthBound ts)) [.phrase .statement] ts.length ts
        = .done ys mid ↔ StatementsStand ts ys mid := by
    refine Reader.repeated_eq_done Reader.phrase_eq_done (by simp)
      (Nat.le_refl _) ?_
    have := partsLevel_le [.phrase .statement]
    unfold depthBound
    omega
  unfold readStatements
  simp only
  constructor
  · intro h
    split at h
    · next ys h' =>
      cases h
      exact ⟨rfl, (hread _ _).mp h'⟩
    · cases h
    · cases h
  · rintro ⟨rfl, h⟩
    rw [(hread _ _).mpr h]

end SuperForward.Script
