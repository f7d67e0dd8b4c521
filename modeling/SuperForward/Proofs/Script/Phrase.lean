/-
  What it means that a phrase stands at the head of some tokens.

  `TakesPhrase` and its companions say, rule by rule and without bounds, which trees can be
  taken off the head of a list of tokens: a phrase begins as the tokens ahead predict, its rule
  is filled item by item, and it is extended for as long as the next token extends it. They
  are relations over how the phrases inside are taken, and `Takes` ties the knot by depth.

  `itemsFit` forgets the tokens: the parts of a tree are those that the items of its rule ask
  for. It is the form in which the shape of trees is read off.
-/
import SuperForward.Script.Reader
import Mathlib.Data.List.Basic

namespace SuperForward.Script

/-! ## Boundaries -/

/-- The marks that begin or end blocks, and end statements or what stands before them. -/
def Mark.isBoundary : Mark → Bool
  | .lbrace | .rbrace | .semicolon | .colon => true
  | _ => false

theorem Mark.eq_of_isBoundary {m : Mark} (h : m.isBoundary = true) :
    m = .lbrace ∨ m = .rbrace ∨ m = .semicolon ∨ m = .colon := by
  revert h
  cases m <;> decide

/-- The token is a mark that statements may begin after. -/
def TokenKind.isBoundary : TokenKind → Bool
  | .mark m => m.isBoundary
  | _ => false

/-! ## Induction over phrases -/

/-- What holds of a phrase if it holds of its parts holds of every phrase. -/
theorem Tree.induction_on {motive : Tree → Prop} (x : Tree) (leaf : ∀ t, motive (.leaf t))
    (node : ∀ rule parts, (∀ y ∈ parts, motive y) → motive (.node rule parts)) : motive x := by
  refine @Tree.rec motive (fun xs => ∀ y ∈ xs, motive y) leaf node ?_ ?_ x
  · exact fun y h => absurd h List.not_mem_nil
  · intro x xs ih ihs y h
    rcases List.mem_cons.mp h with rfl | h
    · exact ih
    · exact ihs y h

/-! ## What the next tokens decide -/

/-- The kinds of the next five tokens. -/
def aheadOf (ts : List Token) : List TokenKind := (ts.take 5).map (·.kind)

/-- The kind of the next token. -/
def nextKind? (ts : List Token) : Option TokenKind := ts.head?.map (·.kind)

/-- The next token begins the group. -/
def entersGroup (ps : List Part) (ts : List Token) : Bool :=
  (nextKind? ts).any fun kind => ps.head?.any (·.startsWith kind)

/-- The next token begins a phrase of the category. -/
def beginsPhrase (c : Category) (ts : List Token) : Bool := (nextKind? ts).any c.startsWith

/-- The next token begins no phrase of the category. -/
def endsList (c : Category) (ts : List Token) : Bool :=
  (nextKind? ts).any fun kind => !c.startsWith kind

/-- The next token is a comma. -/
def atComma (ts : List Token) : Bool := (nextKind? ts).any (· == .mark .comma)

/-- The next token extends a phrase of a rank within a category, and by which rule. -/
def extension? (c : Category) (rank : Rank) (ts : List Token) : Option Rule :=
  (nextKind? ts).bind (c.extension rank)

theorem head?_aheadOf (ts : List Token) : (aheadOf ts).head? = nextKind? ts := by
  cases ts <;> rfl

/-! ## Taking phrases -/

section Takes

/- `P c ts x rest` says how the phrases inside are taken: `x` of category `c` off the head of
`ts`, with `rest` left. -/
variable (P : Category → List Token → Tree → List Token → Prop)

/-- A part is taken. -/
inductive TakesPart : Part → List Token → Tree → List Token → Prop
  | token (t : Token) (rest : List Token) : TakesPart (.token t.kind) (t :: rest) (.leaf t) rest
  | phrase {c ts x rest} (h : P c ts x rest) : TakesPart (.phrase c) ts x rest

/-- Parts are taken one after the other. -/
inductive TakesParts : List Part → List Token → List Tree → List Token → Prop
  | nil (ts : List Token) : TakesParts [] ts [] ts
  | cons {p ps ts x mid xs rest} (head : TakesPart P p ts x mid)
      (tail : TakesParts ps mid xs rest) : TakesParts (p :: ps) ts (x :: xs) rest

/-- A group is taken as often as the next token begins it. -/
inductive TakesRepeated (ps : List Part) : List Token → List Tree → List Token → Prop
  | stop {ts} (h : entersGroup ps ts = false) : TakesRepeated ps ts [] ts
  | more {ts xs mid ys rest} (enters : entersGroup ps ts = true)
      (group : TakesParts P ps ts xs mid) (tail : TakesRepeated ps mid ys rest) :
      TakesRepeated ps ts (xs ++ ys) rest

/-- The elements of a list after the first are taken, each with the comma before it. -/
inductive TakesMore (c : Category) (shape : ListShape) :
    List Token → List Tree → List Token → Prop
  | stop {ts} (h : atComma ts = false) : TakesMore c shape ts [] ts
  | trail {t rest} (comma : t.kind = .mark .comma)
      (h : (shape.mayTrail && endsList c rest) = true) :
      TakesMore c shape (t :: rest) [.leaf t] rest
  | more {t ts x mid xs rest} (comma : t.kind = .mark .comma)
      (h : (shape.mayTrail && endsList c ts) = false) (element : P c ts x mid)
      (tail : TakesMore c shape mid xs rest) :
      TakesMore c shape (t :: ts) (.leaf t :: x :: xs) rest

/-- A comma-separated list is taken. -/
inductive TakesElements (c : Category) (shape : ListShape) :
    List Token → List Tree → List Token → Prop
  | none {ts} (h : (shape.mayBeEmpty && !beginsPhrase c ts) = true) :
      TakesElements c shape ts [] ts
  | some {ts x mid xs rest} (h : (shape.mayBeEmpty && !beginsPhrase c ts) = false)
      (first : P c ts x mid) (tail : TakesMore P c shape mid xs rest) :
      TakesElements c shape ts (x :: xs) rest

/-- An item is taken. -/
inductive TakesItem : Item → List Token → List Tree → List Token → Prop
  | one {p ts x rest} (h : TakesPart P p ts x rest) : TakesItem (.one p) ts [x] rest
  | absent {ps ts} (h : entersGroup ps ts = false) : TakesItem (.optional ps) ts [] ts
  | present {ps ts xs rest} (enters : entersGroup ps ts = true)
      (h : TakesParts P ps ts xs rest) : TakesItem (.optional ps) ts xs rest
  | repeated {ps ts xs rest} (h : TakesRepeated P ps ts xs rest) :
      TakesItem (.repeated ps) ts xs rest
  | list {c shape ts xs rest} (h : TakesElements P c shape ts xs rest) :
      TakesItem (.list c shape) ts xs rest

/-- Items are taken one after the other. -/
inductive TakesItems : List Item → List Token → List Tree → List Token → Prop
  | nil (ts : List Token) : TakesItems [] ts [] ts
  | cons {i is ts xs mid ys rest} (head : TakesItem P i ts xs mid)
      (tail : TakesItems is mid ys rest) : TakesItems (i :: is) ts (xs ++ ys) rest

/-- A phrase is extended for as long as the next token extends it. -/
inductive TakesExtended (c : Category) : Tree → List Token → Tree → List Token → Prop
  | stop {x ts} (h : extension? c x.rank ts = none) : TakesExtended c x ts x ts
  | step {x r ts xs mid y rest} (h : extension? c x.rank ts = some r)
      (items : TakesItems P r.items ts xs mid)
      (tail : TakesExtended c (.node r (x :: xs)) mid y rest) : TakesExtended c x ts y rest

/-- A phrase of a category is taken as the tokens ahead predict. -/
inductive TakesPhrase (c : Category) : List Token → Tree → List Token → Prop
  | token {t rest} (predicted : c.predict (aheadOf (t :: rest)) = some .token)
      (accepted : c.acceptsToken t.kind = true) : TakesPhrase c (t :: rest) (.leaf t) rest
  | through {d ts x mid y rest} (predicted : c.predict (aheadOf ts) = some (.through d))
      (inner : P d ts x mid) (extended : TakesExtended P c x mid y rest) :
      TakesPhrase c ts y rest
  | rule {r ts xs mid y rest} (predicted : c.predict (aheadOf ts) = some (.rule r))
      (items : TakesItems P r.items ts xs mid)
      (extended : TakesExtended P c (.node r xs) mid y rest) : TakesPhrase c ts y rest

end Takes

/-- What is predicted is what a phrase is taken as. -/
theorem takesPhrase_iff {P : Category → List Token → Tree → List Token → Prop} {c : Category}
    {ts rest : List Token} {y : Tree} : TakesPhrase P c ts y rest ↔
      match c.predict (aheadOf ts) with
      | none => False
      | some .token => ∃ t, ts = t :: rest ∧ c.acceptsToken t.kind = true ∧ y = .leaf t
      | some (.through d) => ∃ x mid, P d ts x mid ∧ TakesExtended P c x mid y rest
      | some (.rule r) => ∃ xs mid, TakesItems P r.items ts xs mid ∧
          TakesExtended P c (.node r xs) mid y rest := by
  constructor
  · intro h
    cases h with
    | token predicted accepted =>
      rw [predicted]
      exact ⟨_, rfl, accepted, rfl⟩
    | through predicted inner extended =>
      rw [predicted]
      exact ⟨_, _, inner, extended⟩
    | rule predicted items extended =>
      rw [predicted]
      exact ⟨_, _, items, extended⟩
  · intro h
    split at h
    · exact h.elim
    · next predicted =>
      obtain ⟨t, rfl, accepted, rfl⟩ := h
      exact .token predicted accepted
    · next predicted =>
      obtain ⟨x, mid, inner, extended⟩ := h
      exact .through predicted inner extended
    · next predicted =>
      obtain ⟨xs, mid, items, extended⟩ := h
      exact .rule predicted items extended

/-- A phrase whose phrases nest no deeper than `depth` is taken off the head of some tokens. -/
def Takes : (depth : Nat) → Category → List Token → Tree → List Token → Prop
  | 0, _, _, _, _ => False
  | depth + 1, c, ts, x, rest => TakesPhrase (Takes depth) c ts x rest

/-! ## Changing how the phrases inside are taken -/

section Mono

variable {P Q : Category → List Token → Tree → List Token → Prop}

theorem TakesPart.mono (hPQ : ∀ {c ts x rest}, P c ts x rest → Q c ts x rest) {p ts x rest}
    (h : TakesPart P p ts x rest) : TakesPart Q p ts x rest := by
  cases h with
  | token t => exact .token t _
  | phrase h => exact .phrase (hPQ h)

theorem TakesParts.mono (hPQ : ∀ {c ts x rest}, P c ts x rest → Q c ts x rest) {ps ts xs rest}
    (h : TakesParts P ps ts xs rest) : TakesParts Q ps ts xs rest := by
  induction h with
  | nil ts => exact .nil ts
  | cons head _ ih => exact .cons (head.mono hPQ) ih

theorem TakesRepeated.mono (hPQ : ∀ {c ts x rest}, P c ts x rest → Q c ts x rest)
    {ps ts xs rest} (h : TakesRepeated P ps ts xs rest) : TakesRepeated Q ps ts xs rest := by
  induction h with
  | stop h => exact .stop h
  | more enters group _ ih => exact .more enters (group.mono hPQ) ih

theorem TakesMore.mono (hPQ : ∀ {c ts x rest}, P c ts x rest → Q c ts x rest)
    {c shape ts xs rest} (h : TakesMore P c shape ts xs rest) : TakesMore Q c shape ts xs rest := by
  induction h with
  | stop h => exact .stop h
  | trail comma h => exact .trail comma h
  | more comma h element _ ih => exact .more comma h (hPQ element) ih

theorem TakesItem.mono (hPQ : ∀ {c ts x rest}, P c ts x rest → Q c ts x rest) {i ts xs rest}
    (h : TakesItem P i ts xs rest) : TakesItem Q i ts xs rest := by
  cases h with
  | one h => exact .one (h.mono hPQ)
  | absent h => exact .absent h
  | present enters h => exact .present enters (h.mono hPQ)
  | repeated h => exact .repeated (h.mono hPQ)
  | list h =>
    cases h with
    | none h => exact .list (.none h)
    | some h first tail => exact .list (.some h (hPQ first) (tail.mono hPQ))

theorem TakesItems.mono (hPQ : ∀ {c ts x rest}, P c ts x rest → Q c ts x rest) {is ts xs rest}
    (h : TakesItems P is ts xs rest) : TakesItems Q is ts xs rest := by
  induction h with
  | nil ts => exact .nil ts
  | cons head _ ih => exact .cons (head.mono hPQ) ih

theorem TakesExtended.mono (hPQ : ∀ {c ts x rest}, P c ts x rest → Q c ts x rest)
    {c x ts y rest} (h : TakesExtended P c x ts y rest) : TakesExtended Q c x ts y rest := by
  induction h with
  | stop h => exact .stop h
  | step h items _ ih => exact .step h (items.mono hPQ) ih

theorem TakesPhrase.mono (hPQ : ∀ {c ts x rest}, P c ts x rest → Q c ts x rest) {c ts x rest}
    (h : TakesPhrase P c ts x rest) : TakesPhrase Q c ts x rest := by
  cases h with
  | token predicted accepted => exact .token predicted accepted
  | through predicted inner extended =>
    exact .through predicted (hPQ inner) (extended.mono hPQ)
  | rule predicted items extended =>
    exact .rule predicted (items.mono hPQ) (extended.mono hPQ)

end Mono

/-- More depth does no harm. -/
theorem Takes.succ {depth : Nat} {c : Category} {ts rest : List Token} {x : Tree}
    (h : Takes depth c ts x rest) : Takes (depth + 1) c ts x rest := by
  induction depth generalizing c ts x rest with
  | zero => exact h.elim
  | succ depth ih => exact TakesPhrase.mono (fun h => ih h) h

/-! ## What is taken are the tokens of the tree -/

section Yield

variable {P : Category → List Token → Tree → List Token → Prop}
  (hP : ∀ {c ts x rest}, P c ts x rest → ts = x.tokens ++ rest)

theorem Tree.tokensOfAll_append (xs ys : List Tree) :
    Tree.tokensOfAll (xs ++ ys) = Tree.tokensOfAll xs ++ Tree.tokensOfAll ys := by
  induction xs with
  | nil => rfl
  | cons x xs ih => simp only [List.cons_append, Tree.tokensOfAll, ih, List.append_assoc]

include hP

theorem TakesPart.tokens_eq {p ts x rest} (h : TakesPart P p ts x rest) :
    ts = x.tokens ++ rest := by
  cases h with
  | token t => rfl
  | phrase h => exact hP h

theorem TakesParts.tokens_eq {ps ts xs rest} (h : TakesParts P ps ts xs rest) :
    ts = Tree.tokensOfAll xs ++ rest := by
  induction h with
  | nil ts => rfl
  | cons head _ ih =>
    rw [head.tokens_eq hP, ih]
    simp only [Tree.tokensOfAll, List.append_assoc]

theorem TakesRepeated.tokens_eq {ps ts xs rest} (h : TakesRepeated P ps ts xs rest) :
    ts = Tree.tokensOfAll xs ++ rest := by
  induction h with
  | stop => rfl
  | more _ group _ ih =>
    rw [group.tokens_eq hP, ih, Tree.tokensOfAll_append, List.append_assoc]

theorem TakesMore.tokens_eq {c shape ts xs rest} (h : TakesMore P c shape ts xs rest) :
    ts = Tree.tokensOfAll xs ++ rest := by
  induction h with
  | stop => rfl
  | trail => rfl
  | more _ _ element _ ih =>
    rw [hP element, ih]
    simp only [Tree.tokensOfAll, Tree.tokens, List.cons_append, List.nil_append,
      List.append_assoc]

theorem TakesItem.tokens_eq {i ts xs rest} (h : TakesItem P i ts xs rest) :
    ts = Tree.tokensOfAll xs ++ rest := by
  cases h with
  | one h => simpa [Tree.tokensOfAll] using h.tokens_eq hP
  | absent => rfl
  | present _ h => exact h.tokens_eq hP
  | repeated h => exact h.tokens_eq hP
  | list h =>
    cases h with
    | none => rfl
    | some _ first tail =>
      rw [hP first, tail.tokens_eq hP]
      simp only [Tree.tokensOfAll, List.append_assoc]

theorem TakesItems.tokens_eq {is ts xs rest} (h : TakesItems P is ts xs rest) :
    ts = Tree.tokensOfAll xs ++ rest := by
  induction h with
  | nil ts => rfl
  | cons head _ ih => rw [head.tokens_eq hP, ih, Tree.tokensOfAll_append, List.append_assoc]

theorem TakesExtended.tokens_eq {c x ts y rest} (h : TakesExtended P c x ts y rest) :
    x.tokens ++ ts = y.tokens ++ rest := by
  induction h with
  | stop => rfl
  | step _ items _ ih =>
    rw [items.tokens_eq hP, ← ih]
    simp only [Tree.tokens, Tree.tokensOfAll, List.append_assoc]

theorem TakesPhrase.tokens_eq {c ts x rest} (h : TakesPhrase P c ts x rest) :
    ts = x.tokens ++ rest := by
  cases h with
  | token => rfl
  | through _ inner extended => rw [hP inner, extended.tokens_eq hP]
  | rule _ items extended =>
    have hext := extended.tokens_eq hP
    rw [items.tokens_eq hP, ← hext]
    rfl

end Yield

theorem Takes.tokens_eq {depth : Nat} {c : Category} {ts rest : List Token} {x : Tree}
    (h : Takes depth c ts x rest) : ts = x.tokens ++ rest := by
  induction depth generalizing c ts x rest with
  | zero => exact h.elim
  | succ depth ih => exact TakesPhrase.tokens_eq (fun h => ih h) h

/-! ## What fits the items of a rule -/

section Fits

/- `P c x` says that `x` is a phrase of category `c`. -/
variable (P : Category → Tree → Prop)

/-- The tree is what the part asks for. -/
def Part.Fits : Part → Tree → Prop
  | .token kind, x => ∃ t, x = .leaf t ∧ t.kind = kind
  | .phrase c, x => P c x

/-- The trees are what the parts ask for. -/
def partsFit : List Part → List Tree → Prop
  | [], xs => xs = []
  | p :: ps, xs => ∃ y ys, xs = y :: ys ∧ p.Fits P y ∧ partsFit ps ys

/-- Elements that follow the first one of a list, with their commas. -/
inductive MoreFit (c : Category) (shape : ListShape) : List Tree → Prop
  | none : MoreFit c shape []
  | trail {t : Token} (comma : t.kind = .mark .comma) (h : shape.mayTrail = true) :
      MoreFit c shape [.leaf t]
  | more {t : Token} {x xs} (comma : t.kind = .mark .comma) (element : P c x)
      (tail : MoreFit c shape xs) : MoreFit c shape (.leaf t :: x :: xs)

/-- The trees are what the item asks for. -/
def Item.Fits : Item → List Tree → Prop
  | .one p, xs => ∃ y, xs = [y] ∧ p.Fits P y
  | .optional ps, xs => xs = [] ∨ partsFit P ps xs
  | .repeated ps, xs => ∃ groups : List (List Tree), xs = groups.flatten ∧
      ∀ g ∈ groups, partsFit P ps g
  | .list c shape, xs => (shape.mayBeEmpty = true ∧ xs = []) ∨
      ∃ y ys, xs = y :: ys ∧ P c y ∧ MoreFit P c shape ys

/-- The trees are what the items ask for. -/
def itemsFit : List Item → List Tree → Prop
  | [], xs => xs = []
  | i :: is, xs => ∃ ys zs, xs = ys ++ zs ∧ i.Fits P ys ∧ itemsFit is zs

/-- A phrase, as far as its rules and their order go: it is a token, it begins with a rule or
with a phrase of a narrower category, and rules may extend it. -/
inductive FormedPhrase (c : Category) : Tree → Prop
  | token {t} (accepted : c.acceptsToken t.kind = true) : FormedPhrase c (.leaf t)
  | through {d ahead x} (predicted : c.predict ahead = some (.through d)) (inner : P d x) :
      FormedPhrase c x
  | rule {r ahead xs} (predicted : c.predict ahead = some (.rule r))
      (items : itemsFit P r.items xs) : FormedPhrase c (.node r xs)
  | extended {x r kind xs} (inner : FormedPhrase c x)
      (extension : c.extension x.rank kind = some r) (items : itemsFit P r.items xs) :
      FormedPhrase c (.node r (x :: xs))

end Fits

/-! ### What rules ask for -/

/-- The parts that an item asks for. -/
def Item.asks : Item → List Part
  | .one p => [p]
  | .optional ps | .repeated ps => ps
  | .list c _ => [.phrase c, .token (.mark .comma)]

theorem partsFit_mem {P : Category → Tree → Prop} {ps : List Part} {xs : List Tree}
    (h : partsFit P ps xs) : ∀ x ∈ xs, ∃ p ∈ ps, p.Fits P x := by
  induction ps generalizing xs with
  | nil =>
    intro x hx
    rw [show xs = [] from h] at hx
    exact absurd hx List.not_mem_nil
  | cons p ps ih =>
    obtain ⟨y, ys, rfl, hy, hys⟩ := h
    intro x hx
    rcases List.mem_cons.mp hx with rfl | hx
    · exact ⟨p, List.mem_cons_self .., hy⟩
    · obtain ⟨q, hq, hfit⟩ := ih hys x hx
      exact ⟨q, List.mem_cons_of_mem _ hq, hfit⟩

theorem MoreFit.mem {P : Category → Tree → Prop} {c : Category} {shape : ListShape}
    {xs : List Tree} (h : MoreFit P c shape xs) :
    ∀ x ∈ xs, ∃ p ∈ (Item.list c shape).asks, p.Fits P x := by
  have hcomma {t : Token} (ht : t.kind = .mark .comma) :
      ∃ p ∈ (Item.list c shape).asks, p.Fits P (.leaf t) :=
    ⟨.token (.mark .comma), by simp [Item.asks], t, rfl, ht⟩
  have helement {y : Tree} (hy : P c y) : ∃ p ∈ (Item.list c shape).asks, p.Fits P y :=
    ⟨.phrase c, by simp [Item.asks], hy⟩
  induction h with
  | none =>
    intro x hx
    exact absurd hx List.not_mem_nil
  | trail comma _ =>
    intro x hx
    rw [List.mem_singleton.mp hx]
    exact hcomma comma
  | more comma element _ ih =>
    intro x hx
    rcases List.mem_cons.mp hx with rfl | hx
    · exact hcomma comma
    rcases List.mem_cons.mp hx with rfl | hx
    · exact helement element
    · exact ih x hx

theorem Item.Fits.mem {P : Category → Tree → Prop} {i : Item} {xs : List Tree}
    (h : i.Fits P xs) : ∀ x ∈ xs, ∃ p ∈ i.asks, p.Fits P x := by
  intro x hx
  cases i with
  | one p =>
    obtain ⟨y, rfl, hy⟩ := h
    rw [List.mem_singleton.mp hx]
    exact ⟨p, List.mem_singleton_self p, hy⟩
  | optional ps =>
    rcases h with rfl | h
    · exact absurd hx List.not_mem_nil
    · exact partsFit_mem h x hx
  | repeated ps =>
    obtain ⟨groups, rfl, hgroups⟩ := h
    obtain ⟨g, hg, hxg⟩ := List.mem_flatten.mp hx
    exact partsFit_mem (hgroups g hg) x hxg
  | list c shape =>
    rcases h with ⟨-, rfl⟩ | ⟨y, ys, rfl, hy, hys⟩
    · exact absurd hx List.not_mem_nil
    rcases List.mem_cons.mp hx with rfl | hx
    · exact ⟨.phrase c, by simp [asks], hy⟩
    · exact hys.mem x hx

/-- Every part of a phrase is something that its rule asks for. -/
theorem itemsFit_mem {P : Category → Tree → Prop} {is : List Item} {xs : List Tree}
    (h : itemsFit P is xs) : ∀ x ∈ xs, ∃ p ∈ is.flatMap Item.asks, p.Fits P x := by
  induction is generalizing xs with
  | nil =>
    intro x hx
    rw [show xs = [] from h] at hx
    exact absurd hx List.not_mem_nil
  | cons i is ih =>
    obtain ⟨ys, zs, rfl, hys, hzs⟩ := h
    intro x hx
    rw [List.flatMap_cons]
    rcases List.mem_append.mp hx with hx | hx
    · obtain ⟨p, hp, hfit⟩ := hys.mem x hx
      exact ⟨p, List.mem_append_left _ hp, hfit⟩
    · obtain ⟨p, hp, hfit⟩ := ih hzs x hx
      exact ⟨p, List.mem_append_right _ hp, hfit⟩

theorem partsFit_mono {P Q : Category → Tree → Prop} {ps : List Part} {xs : List Tree}
    (hPQ : ∀ x ∈ xs, ∀ c, P c x → Q c x) (h : partsFit P ps xs) : partsFit Q ps xs := by
  induction ps generalizing xs with
  | nil => exact h
  | cons p ps ih =>
    obtain ⟨y, ys, rfl, hy, hys⟩ := h
    refine ⟨y, ys, rfl, ?_, ih (fun x hx => hPQ x (List.mem_cons_of_mem _ hx)) hys⟩
    cases p with
    | token kind => exact hy
    | phrase c => exact hPQ y (List.mem_cons_self ..) c hy

theorem MoreFit.mono {P Q : Category → Tree → Prop} {c : Category} {shape : ListShape}
    {xs : List Tree} (hPQ : ∀ x ∈ xs, ∀ c, P c x → Q c x) (h : MoreFit P c shape xs) :
    MoreFit Q c shape xs := by
  induction h with
  | none => exact .none
  | trail comma h => exact .trail comma h
  | more comma element _ ih =>
    refine .more comma (hPQ _ (by simp) c element) (ih fun x hx => hPQ x ?_)
    exact List.mem_cons_of_mem _ (List.mem_cons_of_mem _ hx)

/-- What fits still fits if less is asked of the phrases inside. -/
theorem itemsFit_mono {P Q : Category → Tree → Prop} {is : List Item} {xs : List Tree}
    (hPQ : ∀ x ∈ xs, ∀ c, P c x → Q c x) (h : itemsFit P is xs) : itemsFit Q is xs := by
  induction is generalizing xs with
  | nil => exact h
  | cons i is ih =>
    obtain ⟨ys, zs, rfl, hys, hzs⟩ := h
    have hys' := fun x hx => hPQ x (List.mem_append_left zs hx)
    refine ⟨ys, zs, rfl, ?_, ih (fun x hx => hPQ x (List.mem_append_right ys hx)) hzs⟩
    cases i with
    | one p =>
      obtain ⟨y, rfl, hy⟩ := hys
      refine ⟨y, rfl, ?_⟩
      cases p with
      | token kind => exact hy
      | phrase c => exact hys' y (List.mem_singleton_self y) c hy
    | optional ps =>
      rcases hys with rfl | hys
      · exact .inl rfl
      · exact .inr (partsFit_mono hys' hys)
    | repeated ps =>
      obtain ⟨groups, rfl, hgroups⟩ := hys
      refine ⟨groups, rfl, fun g hg => partsFit_mono (fun x hx => hys' x ?_) (hgroups g hg)⟩
      exact List.mem_flatten.mpr ⟨g, hg, hx⟩
    | list c shape =>
      rcases hys with ⟨he, rfl⟩ | ⟨y, ys, rfl, hy, hmore⟩
      · exact .inl ⟨he, rfl⟩
      · refine .inr ⟨y, ys, rfl, hys' y (List.mem_cons_self ..) c hy, ?_⟩
        exact hmore.mono fun x hx => hys' x (List.mem_cons_of_mem _ hx)

theorem itemsFit_one {P : Category → Tree → Prop} {p : Part} {is : List Item}
    {xs : List Tree} : itemsFit P (.one p :: is) xs ↔
      ∃ y ys, xs = y :: ys ∧ p.Fits P y ∧ itemsFit P is ys := by
  constructor
  · rintro ⟨_, zs, rfl, ⟨y, rfl, hy⟩, hzs⟩
    exact ⟨y, zs, rfl, hy, hzs⟩
  · rintro ⟨y, ys, rfl, hy, hys⟩
    exact ⟨[y], ys, rfl, ⟨y, rfl, hy⟩, hys⟩

theorem itemsFit_optional {P : Category → Tree → Prop} {p : Part} {is : List Item}
    {xs : List Tree} : itemsFit P (.optional [p] :: is) xs ↔
      itemsFit P is xs ∨ ∃ y ys, xs = y :: ys ∧ p.Fits P y ∧ itemsFit P is ys := by
  constructor
  · rintro ⟨ys, zs, rfl, rfl | ⟨y, _, rfl, hy, rfl⟩, hzs⟩
    · exact .inl hzs
    · exact .inr ⟨y, zs, rfl, hy, hzs⟩
  · rintro (h | ⟨y, ys, rfl, hy, hys⟩)
    · exact ⟨[], xs, rfl, .inl rfl, h⟩
    · exact ⟨[y], ys, rfl, .inr ⟨y, [], rfl, hy, rfl⟩, hys⟩

theorem itemsFit_nil {P : Category → Tree → Prop} {xs : List Tree} :
    itemsFit P [] xs ↔ xs = [] := Iff.rfl

/-- A phrase of a category whose phrases nest no deeper than `depth`. -/
def Formed : (depth : Nat) → Category → Tree → Prop
  | 0, _, _ => False
  | depth + 1, c, x => FormedPhrase (Formed depth) c x

section Forget

variable {P : Category → List Token → Tree → List Token → Prop} {Q : Category → Tree → Prop}
  (hPQ : ∀ c ts x rest, P c ts x rest → Q c x)
include hPQ

theorem TakesPart.fits {p ts x rest} (h : TakesPart P p ts x rest) : p.Fits Q x := by
  cases h with
  | token t => exact ⟨t, rfl, rfl⟩
  | phrase h => exact hPQ _ _ _ _ h

theorem TakesParts.fits {ps ts xs rest} (h : TakesParts P ps ts xs rest) :
    partsFit Q ps xs := by
  induction h with
  | nil => rfl
  | cons head _ ih => exact ⟨_, _, rfl, head.fits hPQ, ih⟩

theorem TakesMore.fits {c shape ts xs rest} (h : TakesMore P c shape ts xs rest) :
    MoreFit Q c shape xs := by
  induction h with
  | stop => exact .none
  | trail comma h => exact .trail comma (Bool.and_eq_true _ _ ▸ h).1
  | more comma _ element _ ih => exact .more comma (hPQ _ _ _ _ element) ih

theorem TakesItem.fits {i ts xs rest} (h : TakesItem P i ts xs rest) : i.Fits Q xs := by
  cases h with
  | one h => exact ⟨_, rfl, h.fits hPQ⟩
  | absent => exact .inl rfl
  | present _ h => exact .inr (h.fits hPQ)
  | repeated h =>
    show ∃ groups : List (List Tree), _
    induction h with
    | stop => exact ⟨[], rfl, by simp⟩
    | more _ group _ ih =>
      obtain ⟨groups, rfl, hgroups⟩ := ih
      refine ⟨_ :: groups, rfl, ?_⟩
      intro g hg
      rcases List.mem_cons.mp hg with rfl | hg
      · exact group.fits hPQ
      · exact hgroups g hg
  | list h =>
    cases h with
    | none h => exact .inl ⟨(Bool.and_eq_true _ _ ▸ h).1, rfl⟩
    | some _ first tail => exact .inr ⟨_, _, rfl, hPQ _ _ _ _ first, tail.fits hPQ⟩

theorem TakesItems.fits {is ts xs rest} (h : TakesItems P is ts xs rest) : itemsFit Q is xs := by
  induction h with
  | nil => rfl
  | cons head _ ih => exact ⟨_, _, rfl, head.fits hPQ, ih⟩

theorem TakesExtended.formed {c x ts y rest} (h : TakesExtended P c x ts y rest)
    (hx : FormedPhrase Q c x) : FormedPhrase Q c y := by
  induction h with
  | stop => exact hx
  | step h items _ ih =>
    obtain ⟨kind, -, hkind⟩ := Option.bind_eq_some_iff.mp h
    exact ih (.extended hx hkind (items.fits hPQ))

theorem TakesPhrase.formed {c ts x rest} (h : TakesPhrase P c ts x rest) :
    FormedPhrase Q c x := by
  cases h with
  | token _ accepted => exact .token accepted
  | through predicted inner extended =>
    exact extended.formed hPQ (.through predicted (hPQ _ _ _ _ inner))
  | rule predicted items extended =>
    exact extended.formed hPQ (.rule predicted (items.fits hPQ))

end Forget

/-- What can be taken is formed by the rules. -/
theorem Takes.formed {depth : Nat} {c : Category} {ts rest : List Token} {x : Tree}
    (h : Takes depth c ts x rest) : Formed depth c x := by
  induction depth generalizing c ts x rest with
  | zero => exact h.elim
  | succ depth ih => exact TakesPhrase.formed (fun _ _ _ _ h => ih h) h

end SuperForward.Script
