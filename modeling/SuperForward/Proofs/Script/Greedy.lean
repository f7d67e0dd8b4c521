/-
  Phrases that take what they can take.

  An `if` may go on with an `else`, and a `new` with a member access or with arguments; where the
  token stands there, another phrase might take it as well. In a greedy phrase this never
  happens: each `else` belongs to the nearest `if`, and each `new` has the member accesses and
  the first arguments that follow it. What is read is greedy.
-/
import SuperForward.Proofs.Script.Derivation

namespace SuperForward.Script

/-! ## Greedy phrases -/

/-- A node of the rule with so many parts could go on with a token of this kind. -/
def Rule.wants : Rule → Nat → TokenKind → Bool
  | .ifStatement, 5, .keyword .elseKw => true
  | .newExpression, 2, .mark .dot | .newExpression, 2, .mark .lparen => true
  | _, _, _ => false

mutual

/-- The phrase, or the last phrase in it, could go on with a token of this kind. -/
def Tree.wants : Tree → TokenKind → Bool
  | .leaf _, _ => false
  | .node rule parts, kind => rule.wants parts.length kind || lastWants parts kind

/-- The last of some phrases could go on with a token of this kind. -/
def lastWants : List Tree → TokenKind → Bool
  | [], _ => false
  | x :: xs, kind => if xs.isEmpty then x.wants kind else lastWants xs kind

end

mutual

/-- No phrase in the phrase that could go on with a token is followed by the token. -/
def Tree.Greedy : Tree → Prop
  | .leaf _ => True
  | .node _ parts => GreedyBefore parts []

/-- The phrases are greedy, one after the other, and the last one before some tokens. -/
def GreedyBefore : List Tree → List Token → Prop
  | [], _ => True
  | x :: xs, ts => x.Greedy ∧ (∀ t ∈ (Tree.tokensOfAll xs ++ ts).head?, x.wants t.kind = false) ∧
    GreedyBefore xs ts

end

theorem greedyBefore_append {xs ys : List Tree} {ts : List Token} :
    GreedyBefore (xs ++ ys) ts ↔
      GreedyBefore xs (Tree.tokensOfAll ys ++ ts) ∧ GreedyBefore ys ts := by
  induction xs with
  | nil => simp [GreedyBefore]
  | cons x xs ih =>
    simp only [List.cons_append, GreedyBefore, ih, Tree.tokensOfAll_append, List.append_assoc,
      and_assoc]

theorem greedyBefore_singleton {x : Tree} {ts : List Token} :
    GreedyBefore [x] ts ↔ x.Greedy ∧ ∀ t ∈ ts.head?, x.wants t.kind = false := by
  simp [GreedyBefore, Tree.tokensOfAll]

theorem greedyBefore_cons {x : Tree} {xs : List Tree} {ts : List Token} :
    GreedyBefore (x :: xs) ts ↔
      GreedyBefore [x] (Tree.tokensOfAll xs ++ ts) ∧ GreedyBefore xs ts := by
  rw [greedyBefore_singleton, and_assoc]
  rfl

theorem GreedyBefore.mem {xs : List Tree} {ts : List Token} (h : GreedyBefore xs ts) :
    ∀ x ∈ xs, x.Greedy := by
  induction xs with
  | nil => exact fun x hx => absurd hx List.not_mem_nil
  | cons x xs ih => exact List.forall_mem_cons.mpr ⟨h.1, ih h.2.2⟩

theorem GreedyBefore.last {xs : List Tree} {ts : List Token} (h : GreedyBefore xs ts) :
    ∀ t ∈ ts.head?, lastWants xs t.kind = false := by
  intro t ht
  induction xs with
  | nil => rfl
  | cons x xs ih =>
    cases xs with
    | nil => exact (greedyBefore_singleton.mp h).2 t ht
    | cons y ys => exact ih h.2.2

/-- What is greedy before some tokens is greedy by itself. -/
theorem GreedyBefore.alone {xs : List Tree} {ts : List Token} (h : GreedyBefore xs ts) :
    GreedyBefore xs [] := by
  induction xs with
  | nil => trivial
  | cons x xs ih =>
    refine ⟨h.1, fun t ht => h.2.1 t ?_, ih h.2.2⟩
    rw [List.append_nil] at ht
    rw [List.head?_append, Option.mem_def.mp ht]
    rfl

/-- Greedy phrases stay so before a token that the last one does not want. -/
theorem GreedyBefore.before {xs : List Tree} (h : GreedyBefore xs [])
    (hne : ∀ x ∈ xs, x.tokens ≠ []) {ts : List Token}
    (hlast : ∀ t ∈ ts.head?, lastWants xs t.kind = false) : GreedyBefore xs ts := by
  induction xs with
  | nil => trivial
  | cons x xs ih =>
    obtain ⟨-, hne⟩ := List.forall_mem_cons.mp hne
    cases xs with
    | nil => exact greedyBefore_singleton.mpr ⟨h.1, hlast⟩
    | cons y ys =>
      refine ⟨h.1, fun t ht => h.2.1 t ?_, ih h.2.2 hne hlast⟩
      have hy := hne y (List.mem_cons_self ..)
      simp only [Tree.tokensOfAll, List.append_assoc, List.append_nil] at ht ⊢
      rw [List.head?_append_of_ne_nil _ hy] at ht ⊢
      exact ht

/-! ## What is read is greedy -/

section Takes

/- What is taken of the phrases inside is greedy before what is left. -/
variable {P : Category → List Token → Tree → List Token → Prop}
  (hP : ∀ {c ts x rest}, P c ts x rest → GreedyBefore [x] rest)
  (htokens : ∀ {c ts x rest}, P c ts x rest → ts = x.tokens ++ rest)
include hP

theorem TakesPart.greedy {p ts x rest} (h : TakesPart P p ts x rest) : GreedyBefore [x] rest := by
  cases h with
  | token t => exact greedyBefore_singleton.mpr ⟨trivial, fun _ _ => rfl⟩
  | phrase h => exact hP h

include htokens

theorem TakesParts.greedy {ps ts xs rest} (h : TakesParts P ps ts xs rest) :
    GreedyBefore xs rest := by
  induction h with
  | nil => trivial
  | cons head tail ih =>
    refine greedyBefore_cons.mpr ⟨?_, ih⟩
    rw [← tail.tokens_eq htokens]
    exact head.greedy hP

theorem TakesRepeated.greedy {ps ts xs rest} (h : TakesRepeated P ps ts xs rest) :
    GreedyBefore xs rest := by
  induction h with
  | stop => trivial
  | more _ group tail ih =>
    refine greedyBefore_append.mpr ⟨?_, ih⟩
    rw [← tail.tokens_eq htokens]
    exact group.greedy hP htokens

theorem TakesMore.greedy {c shape ts xs rest} (h : TakesMore P c shape ts xs rest) :
    GreedyBefore xs rest := by
  induction h with
  | stop => trivial
  | trail => exact ⟨trivial, fun _ _ => rfl, trivial⟩
  | more _ _ element tail ih =>
    refine ⟨trivial, fun _ _ => rfl, ?_⟩
    refine greedyBefore_cons.mpr ⟨?_, ih⟩
    rw [← tail.tokens_eq htokens]
    exact hP element

theorem TakesItem.greedy {i ts xs rest} (h : TakesItem P i ts xs rest) :
    GreedyBefore xs rest := by
  cases h with
  | one h => exact h.greedy hP
  | absent => trivial
  | present _ h => exact h.greedy hP htokens
  | repeated h => exact h.greedy hP htokens
  | list h =>
    cases h with
    | none => trivial
    | some _ first tail =>
      refine greedyBefore_cons.mpr ⟨?_, tail.greedy hP htokens⟩
      rw [← tail.tokens_eq htokens]
      exact hP first

theorem TakesItems.greedy {is ts xs rest} (h : TakesItems P is ts xs rest) :
    GreedyBefore xs rest := by
  induction h with
  | nil => trivial
  | cons head tail ih =>
    refine greedyBefore_append.mpr ⟨?_, ih⟩
    rw [← tail.tokens_eq htokens]
    exact head.greedy hP htokens

end Takes

/-- An optional group at the end of some items is missing only where it does not begin. -/
theorem TakesItems.entersGroup_of_length {P : Category → List Token → Tree → List Token → Prop}
    (parts : List Part) {group : List Part} (hgroup : group ≠ []) {ts rest : List Token} {xs : List Tree}
    (h : TakesItems P (parts.map Item.one ++ [.optional group]) ts xs rest)
    (hlength : xs.length = parts.length) : entersGroup group rest = false := by
  induction parts generalizing ts xs with
  | nil =>
    obtain rfl : xs = [] := List.length_eq_zero_iff.mp hlength
    generalize hxs : ([] : List Tree) = xs at h
    cases h with
    | cons head tail =>
      obtain ⟨rfl, -⟩ := List.append_eq_nil_iff.mp hxs.symm
      cases tail
      cases head with
      | absent h => exact h
      | present enters h =>
        cases h with
        | nil => exact absurd rfl hgroup
  | cons p ps ih =>
    cases h with
    | cons head tail =>
      cases head with
      | one head => exact ih tail (by simpa using hlength)

/-- What extends a phrase stops where nothing extends it any more. -/
theorem TakesExtended.stops {P : Category → List Token → Tree → List Token → Prop}
    {c : Category} {x y : Tree} {ts rest : List Token} (h : TakesExtended P c x ts y rest) :
    extension? c y.rank rest = none := by
  induction h with
  | stop h => exact h
  | step _ _ _ ih => exact ih

/-- What `new` makes takes the member accesses that follow it. -/
theorem TakesPhrase.newTarget_stops {P : Category → List Token → Tree → List Token → Prop}
    {ts rest : List Token} {x : Tree} (h : TakesPhrase P .newTarget ts x rest) :
    nextKind? rest ≠ some (.mark .dot) := by
  intro hdot
  have hstop : extension? .newTarget x.rank rest = none := by
    cases h with
    | token _ accepted => cases accepted
    | through _ _ extended => exact extended.stops
    | rule _ _ extended => exact extended.stops
  rw [extension?, hdot] at hstop
  cases hstop

/-- A `new` without arguments ends with its target. -/
theorem TakesItems.newTarget_of_length {P : Category → List Token → Tree → List Token → Prop}
    {ts rest : List Token} {xs : List Tree} (h : TakesItems P Rule.newExpression.items ts xs rest)
    (hlength : xs.length = 2) : ∃ ts x, P .newTarget ts x rest := by
  cases h with
  | cons word tail =>
    cases tail with
    | cons target last =>
      cases word with
      | one word =>
        cases target with
        | one target =>
          cases target with
          | phrase target =>
            cases last with
            | cons last nothing =>
              cases nothing
              cases last with
              | absent => exact ⟨_, _, target⟩
              | present _ arguments =>
                cases arguments with
                | cons head _ => simp at hlength

theorem Rule.wants_of_extending {r : Rule} (h : r ∈ extendingRules) (n : Nat)
    (kind : TokenKind) : r.wants n kind = false := by
  simp only [extendingRules, List.mem_cons, List.not_mem_nil, or_false] at h
  rcases h with rfl | rfl | rfl | rfl | rfl | rfl | rfl | rfl <;> rfl

section

variable {depth : Nat} {ts rest : List Token} {xs : List Tree}

/-- Where an `if` ends without an `else`, or a `new` without arguments, the token does not
follow. -/
theorem TakesItems.not_wanted {r : Rule} (h : TakesItems (Takes depth) r.items ts xs rest) :
    ∀ t ∈ rest.head?, r.wants xs.length t.kind = false := by
  intro t ht
  have hnext : nextKind? rest = some t.kind := by
    rw [nextKind?, Option.mem_def.mp ht]
    rfl
  unfold Rule.wants
  split
  · next hlength hkind =>
    -- an `if` without an `else`
    have := TakesItems.entersGroup_of_length [.token (.keyword .ifKw),
      .token (.mark .lparen), .phrase .anyExpression, .token (.mark .rparen), .phrase .statement]
      (by simp) h hlength
    rw [entersGroup, hnext, hkind] at this
    cases this
  · next hlength hkind =>
    -- a `new` without arguments, and its target
    obtain ⟨ts, x, hx⟩ := h.newTarget_of_length hlength
    rw [hkind] at hnext
    cases depth with
    | zero => exact False.elim hx
    | succ depth => exact absurd hnext (TakesPhrase.newTarget_stops hx)
  · next hlength hkind =>
    have := TakesItems.entersGroup_of_length
      [.token (.keyword .newKw), .phrase .newTarget] (by simp) h hlength
    rw [entersGroup, hnext, hkind] at this
    cases this
  · rfl

end

/-- What is taken off the head of some tokens is greedy before what is left. -/
theorem Takes.greedy {depth : Nat} {c : Category} {ts rest : List Token} {x : Tree}
    (h : Takes depth c ts x rest) : GreedyBefore [x] rest := by
  induction depth generalizing c ts x rest with
  | zero => exact h.elim
  | succ depth ih =>
    have htokens : ∀ {c ts x rest}, Takes depth c ts x rest → ts = x.tokens ++ rest :=
      fun h => h.tokens_eq
    have hnode : ∀ {r : Rule} {xs : List Tree} {rest : List Token}, GreedyBefore xs rest →
        (∀ t ∈ rest.head?, r.wants xs.length t.kind = false) →
        GreedyBefore [.node r xs] rest := by
      intro r xs rest hxs hown
      refine greedyBefore_singleton.mpr ⟨hxs.alone, fun t ht => ?_⟩
      show (r.wants xs.length t.kind || lastWants xs t.kind) = false
      rw [hown t ht, hxs.last t ht]
      rfl
    -- each extension is greedy before what is left, if what it extends was greedy before it
    have hextended : ∀ {x ts y rest}, TakesExtended (Takes depth) c x ts y rest →
        GreedyBefore [x] ts → GreedyBefore [y] rest := by
      intro x ts y rest h hx
      induction h with
      | stop => exact hx
      | @step x r ts xs mid y rest h items _ ih' =>
        refine ih' (hnode (greedyBefore_cons.mpr ⟨?_, items.greedy ih htokens⟩) ?_)
        · rwa [← items.tokens_eq htokens]
        · obtain ⟨kind, -, hkind⟩ := Option.bind_eq_some_iff.mp h
          exact fun t _ => Rule.wants_of_extending (Category.extension_eq hkind).1 _ _
    cases h with
    | token => exact greedyBefore_singleton.mpr ⟨trivial, fun _ _ => rfl⟩
    | through _ inner extended => exact hextended extended (ih inner)
    | rule _ items extended =>
      exact hextended extended (hnode (items.greedy ih htokens) items.not_wanted)

theorem Stands.greedy {c : Category} {ts rest : List Token} {x : Tree}
    (h : Stands c ts x rest) : GreedyBefore [x] rest := by
  obtain ⟨depth, h⟩ := h
  exact h.greedy

end SuperForward.Script
