/-
  What is left of a token has no say before the token is taken.

  Two readers go through tokens that are the same up to some token. Either they end alike before
  they take that token, or both take it. Where more than one token is looked at, what is seen
  later only tells rules from each other that take the same tokens up to there. The bounds of
  the two readers may differ, as long as they allow for the common tokens.
-/
import SuperForward.Proofs.Script.Completing

namespace SuperForward.Script

/-! ## Tokens that phrases have -/

theorem Formable.tokens_ne_nil {c : Category} {x : Tree} (h : Formable c x) : x.tokens ≠ [] := by
  obtain ⟨t, ts, htokens, -⟩ := h.first
  rw [htokens]
  exact List.cons_ne_nil t ts

theorem Part.Fits.tokens_ne_nil {p : Part} {x : Tree} (h : p.Fits Formable x) : x.tokens ≠ [] := by
  cases p with
  | token kind =>
    obtain ⟨t, rfl, -⟩ := h
    exact List.cons_ne_nil t []
  | phrase c => exact Formable.tokens_ne_nil h

theorem tokensOfAll_ne_nil {x : Tree} {xs : List Tree} (hx : x ∈ xs) (hne : x.tokens ≠ []) :
    Tree.tokensOfAll xs ≠ [] := by
  obtain ⟨before, after, rfl⟩ := List.append_of_mem hx
  rw [Tree.tokensOfAll_append, Tree.tokensOfAll]
  simp [hne]

theorem tokens_ne_nil_of_partsFit {ps : List Part} {xs : List Tree} (h : partsFit Formable ps xs)
    (hps : ps ≠ []) : Tree.tokensOfAll xs ≠ [] := by
  cases ps with
  | nil => exact absurd rfl hps
  | cons p ps =>
    obtain ⟨y, ys, rfl, hy, -⟩ := h
    exact tokensOfAll_ne_nil (List.mem_cons_self ..) hy.tokens_ne_nil

theorem Item.Fits.tokens_ne_nil {i : Item} {xs : List Tree} (h : i.Fits Formable xs)
    (hi : i.nullable = false) : Tree.tokensOfAll xs ≠ [] := by
  cases i with
  | one p =>
    obtain ⟨y, rfl, hy⟩ := h
    exact tokensOfAll_ne_nil (List.mem_cons_self ..) hy.tokens_ne_nil
  | optional ps => cases hi
  | repeated ps => cases hi
  | list c shape =>
    rcases h with ⟨hempty, -⟩ | ⟨y, ys, rfl, hy, -⟩
    · rw [nullable, hempty] at hi
      cases hi
    · exact tokensOfAll_ne_nil (List.mem_cons_self ..) (Formable.tokens_ne_nil hy)

theorem tokens_ne_nil_of_itemsFit {is : List Item} {xs : List Tree} (h : itemsFit Formable is xs)
    (his : is.all Item.nullable = false) : Tree.tokensOfAll xs ≠ [] := by
  induction is generalizing xs with
  | nil => cases his
  | cons i is ih =>
    obtain ⟨ys, zs, rfl, hys, hzs⟩ := h
    rw [Tree.tokensOfAll_append, Ne, List.append_eq_nil_iff, not_and_or]
    cases hi : i.nullable with
    | false => exact .inl (hys.tokens_ne_nil hi)
    | true => exact .inr (ih hzs (by rwa [List.all_cons, hi, Bool.true_and] at his))

/-! ## What more tokens than one tell -/

/-- The tokens are the first ones of a loop over names, at most up to the name. -/
def BeginsLoop (ts : List Token) : Prop :=
  ∃ word, Category.declarationWord.acceptsToken word = true ∧
    ts.map (·.kind) <+: [.keyword .forKw, .mark .lparen, word, .name]

theorem BeginsLoop.of_isForIn {ts us : List Token} (h : isForIn (aheadOf ts) = true)
    (hus : us <+: ts) (hlength : us.length ≤ 4) : BeginsLoop us := by
  unfold isForIn at h
  split at h
  · next word rest hahead =>
    refine ⟨word, h, ?_⟩
    have hkinds : us.map (·.kind) = (aheadOf ts).take us.length := by
      rw [aheadOf, ← List.map_take, List.take_take, Nat.min_eq_left (by omega),
        ← List.prefix_iff_eq_take.mp hus]
    rw [hkinds, hahead]
    exact List.take_prefix_take_left hlength
  · cases h

theorem isForIn_common (p : List Token) (t : Token) (m m' : List Token) :
    isForIn (aheadOf (p ++ t :: m)) = isForIn (aheadOf (p ++ t :: m')) ∨
      BeginsLoop (p ++ [t]) := by
  by_cases hlength : (p ++ [t]).length ≤ 4
  · have hbegins (m : List Token) : p ++ [t] <+: p ++ t :: m := ⟨m, by simp⟩
    cases h : isForIn (aheadOf (p ++ t :: m)) with
    | true => exact .inr (.of_isForIn h (hbegins m) hlength)
    | false =>
      cases h' : isForIn (aheadOf (p ++ t :: m')) with
      | true => exact .inr (.of_isForIn h' (hbegins m') hlength)
      | false => exact .inl rfl
  · refine .inl (congrArg isForIn ?_)
    match p, hlength with
    | [], h | [_], h | [_, _], h | [_, _, _], h => exact absurd (by simp) h
    | [_, _, _, _], _ => rfl
    | _ :: _ :: _ :: _ :: _ :: p, _ => rfl

namespace Category

/-- A word that declares variables begins what a loop begins with. -/
theorem predict_forInit {word : TokenKind}
    (hword : Category.declarationWord.acceptsToken word = true) (rest : List TokenKind) :
    Category.forInit.predict (word :: rest) = some (.rule .forVar) := by
  simp only [Category.predict, hword, if_true]

theorem startsWith_forInit {word : TokenKind}
    (hword : Category.declarationWord.acceptsToken word = true) :
    Category.forInit.startsWith word = true := by
  simp only [Category.startsWith, hword, Bool.true_or]

/-- Apart from statements, the first two tokens decide. -/
theorem predict_of_head {c : Category} (hstatement : c ≠ .statement) (kind : TokenKind)
    {rest rest' : List TokenKind} (h : rest.head? = rest'.head?) :
    c.predict (kind :: rest) = c.predict (kind :: rest') := by
  cases c <;> first | rfl | contradiction | simp only [predict, h]

/-- Predictions that differ only by what comes after a token are made where the token is taken
in any case. -/
theorem predict_common (c : Category) (p : List Token) (t : Token) (m m' : List Token) :
    c.predict (aheadOf (p ++ t :: m)) = c.predict (aheadOf (p ++ t :: m')) ∨
      (p = [] ∧ c.startsWith t.kind = true) ∨ (c = .statement ∧ BeginsLoop (p ++ [t])) := by
  obtain ⟨kind, rest, rest', hahead, hahead', hrest⟩ : ∃ kind rest rest',
      aheadOf (p ++ t :: m) = kind :: rest ∧ aheadOf (p ++ t :: m') = kind :: rest' ∧
        (p = [] ∧ kind = t.kind ∨ rest.head? = rest'.head?) := by
    match p with
    | [] => exact ⟨_, _, _, rfl, rfl, .inl ⟨rfl, rfl⟩⟩
    | [_] => exact ⟨_, _, _, rfl, rfl, .inr rfl⟩
    | _ :: _ :: _ => exact ⟨_, _, _, rfl, rfl, .inr rfl⟩
  -- loops are told apart further ahead; elsewhere a prediction looks at two tokens at most
  by_cases hstatement : c = .statement
  · subst hstatement
    rcases isForIn_common p t m m' with h | h
    · left
      rw [hahead, hahead'] at h ⊢
      rw [predict_statement, predict_statement, h]
    · exact .inr (.inr ⟨rfl, h⟩)
  rw [hahead, hahead']
  obtain ⟨rfl, rfl⟩ | hrest := hrest
  · have hlate {rest : List TokenKind} (h : (c, t.kind, c.predict (t.kind :: rest)) ∈
        [(.statement, .keyword .forKw, some (.rule .forInStatement)),
          (.param, .name, some (.rule .defaultParam)), (.property, .name, some (.rule .pair))]) :
        c.startsWith t.kind = true := by
      simp only [List.mem_cons, Prod.mk.injEq, List.not_mem_nil, or_false] at h
      obtain ⟨rfl, hkind, -⟩ | ⟨rfl, hkind, -⟩ | ⟨rfl, hkind, -⟩ := h <;> rw [hkind] <;> rfl
    rcases predict_cons c t.kind rest with h | h
    · rcases predict_cons c t.kind rest' with h' | h'
      · exact .inl (h.trans h'.symm)
      · exact .inr (.inl ⟨rfl, hlate h'⟩)
    · exact .inr (.inl ⟨rfl, hlate h⟩)
  · exact .inl (predict_of_head hstatement kind hrest)

end Category

/-! ## Outcomes up to a token -/

/-- The outcomes of two readers on tokens that are the same up to and including `t`, after which
come `m` and `m'`. -/
inductive Outcome.Alike {α : Type} (t : Token) (m m' : List Token) : Outcome α → Outcome α → Prop
  /-- Both are done with the same, and `t` is left. -/
  | done {a : α} (p : List Token) : Alike t m m' (.done a (p ++ t :: m)) (.done a (p ++ t :: m'))
  /-- Both are stuck at the same token, at `t` or before it. -/
  | stuck (p : List Token) : Alike t m m' (.stuck (p ++ t :: m)) (.stuck (p ++ t :: m'))
  /-- Both have taken `t`. -/
  | past {o o' : Outcome α} (h : o.rest <:+ m) (h' : o'.rest <:+ m') : Alike t m m' o o'

namespace Reader

variable {α β : Type}

/-- What a reader leaves are the last of its tokens. -/
def Leaves (r : Reader α) : Prop := ∀ ts, (r ts).rest <:+ ts

theorem Leaves.pure {a : α} : Leaves (pure a) := fun ts => List.suffix_refl ts

theorem rest_suffix_bind {r : Reader α} {next : α → Reader β} {ts m : List Token}
    (h : (r ts).rest <:+ m) (hnext : ∀ a, (next a).Leaves) : ((r >>= next) ts).rest <:+ m := by
  show (Reader.bind r next ts).rest <:+ m
  unfold Reader.bind
  cases hr : r ts with
  | done a mid =>
    rw [hr] at h
    exact (hnext a mid).trans h
  | stuck rest =>
    rw [hr] at h
    exact h

theorem Leaves.bind {r : Reader α} {next : α → Reader β} (h : r.Leaves)
    (hnext : ∀ a, (next a).Leaves) : (r >>= next).Leaves :=
  fun ts => rest_suffix_bind (h ts) hnext

end Reader

namespace Outcome.Alike

variable {α β : Type} {t : Token} {m m' p : List Token}

theorem pure {a : α} : Alike t m m' ((Pure.pure a : Reader α) (p ++ t :: m))
    ((Pure.pure a : Reader α) (p ++ t :: m')) := .done p

/-- One reader after another: the second goes on where the first has left the token. -/
theorem bind {f : α → List Token → Prop} {r r' : Reader α} {next next' : α → Reader β}
    (h : Alike t m m' (r (p ++ t :: m)) (r' (p ++ t :: m')))
    (hr : (r (p ++ t :: m)).Completable f (p ++ t :: m))
    (hnext : ∀ a p₁ p₂, p = p₁ ++ p₂ → f a p₁ →
      Alike t m m' (next a (p₂ ++ t :: m)) (next' a (p₂ ++ t :: m')))
    (hleaves : ∀ a, (next a).Leaves) (hleaves' : ∀ a, (next' a).Leaves) :
    Alike t m m' ((r >>= next) (p ++ t :: m)) ((r' >>= next') (p ++ t :: m')) := by
  generalize ho : r (p ++ t :: m) = o at h hr
  generalize ho' : r' (p ++ t :: m') = o' at h
  have hbind : (r >>= next) (p ++ t :: m) = Reader.bind r next (p ++ t :: m) := rfl
  have hbind' : (r' >>= next') (p ++ t :: m') = Reader.bind r' next' (p ++ t :: m') := rfl
  cases h with
  | @done a p₂ =>
    obtain ⟨p₁, htokens, ha⟩ := hr.eq_of_done
    rw [← List.append_assoc] at htokens
    rw [hbind, hbind', Reader.bind, Reader.bind, ho, ho']
    exact hnext a p₁ p₂ (List.append_cancel_right htokens) ha
  | stuck p₂ =>
    rw [hbind, hbind', Reader.bind, Reader.bind, ho, ho']
    exact .stuck p₂
  | past h h' =>
    rw [← ho] at h
    rw [← ho'] at h'
    exact .past (Reader.rest_suffix_bind h hleaves) (Reader.rest_suffix_bind h' hleaves')

theorem map {r r' : Reader α} (h : Alike t m m' (r (p ++ t :: m)) (r' (p ++ t :: m')))
    (g : α → β) :
    Alike t m m' ((r >>= fun a => Pure.pure (g a)) (p ++ t :: m))
      ((r' >>= fun a => Pure.pure (g a)) (p ++ t :: m')) := by
  generalize ho : r (p ++ t :: m) = o at h
  generalize ho' : r' (p ++ t :: m') = o' at h
  have hbind : (r >>= fun a => Pure.pure (g a)) (p ++ t :: m)
      = Reader.bind r (fun a => Pure.pure (g a)) (p ++ t :: m) := rfl
  have hbind' : (r' >>= fun a => Pure.pure (g a)) (p ++ t :: m')
      = Reader.bind r' (fun a => Pure.pure (g a)) (p ++ t :: m') := rfl
  cases h with
  | @done a p₂ =>
    rw [hbind, hbind', Reader.bind, Reader.bind, ho, ho']
    exact .done p₂
  | stuck p₂ =>
    rw [hbind, hbind', Reader.bind, Reader.bind, ho, ho']
    exact .stuck p₂
  | past h h' =>
    rw [← ho] at h
    rw [← ho'] at h'
    exact .past (Reader.rest_suffix_bind h fun _ => .pure)
      (Reader.rest_suffix_bind h' fun _ => .pure)

end Outcome.Alike

namespace Reader

open Outcome (Alike Completable)

variable {t : Token} {m m' p : List Token}

theorem nextKind?_common (p : List Token) (t : Token) (m m' : List Token) :
    nextKind? (p ++ t :: m) = nextKind? (p ++ t :: m') := by
  cases p <;> rfl

theorem alike_takeToken (test : TokenKind → Bool) :
    Alike t m m' (takeToken test (p ++ t :: m)) (takeToken test (p ++ t :: m')) := by
  cases p with
  | nil =>
    rw [List.nil_append, List.nil_append, takeToken, takeToken]
    split
    · exact .past (List.suffix_refl m) (List.suffix_refl m')
    · exact .stuck []
  | cons u p =>
    rw [List.cons_append, List.cons_append, takeToken, takeToken]
    split
    · exact .done p
    · exact .stuck (u :: p)

section

/- `phrase` and `phrase'` read the phrases inside alike, as far as `limit` allows for the common
tokens and for levels. -/
variable {phrase phrase' : Category → Reader Tree} {limit : Nat}
  (hphrase : ∀ c ts, (phrase c ts).Completable c.Yields ts)
  (hphrase' : ∀ c ts, (phrase' c ts).Completable c.Yields ts)
  (halike : ∀ {c p t m m'}, 4 * p.length + c.level ≤ limit →
    Alike t m m' (phrase c (p ++ t :: m)) (phrase' c (p ++ t :: m')))

section Leaves

include hphrase

theorem leaves_parts (ps : List Part) : (parts phrase ps).Leaves :=
  fun ts => (completable_parts hphrase ps ts).rest_suffix

theorem leaves_repeated (ps : List Part) (turns : Nat) : (repeated phrase ps turns).Leaves :=
  fun ts => (completable_repeated hphrase ps turns ts).rest_suffix

theorem leaves_moreElements (c : Category) (shape : ListShape) (turns : Nat) :
    (moreElements phrase c shape turns).Leaves :=
  fun ts => (completable_moreElements hphrase c shape turns ts).rest_suffix

theorem leaves_items (is : List Item) (bound : Nat) : (items phrase bound is).Leaves :=
  fun ts => (completable_items hphrase is bound ts).rest_suffix

theorem leaves_extended (c : Category) (x : Tree) (bound turns : Nat) :
    (extended phrase bound c turns x).Leaves := by
  induction turns generalizing x with
  | zero => exact .pure
  | succ turns ih =>
    intro ts
    rw [extended, ahead_bind]
    cases (aheadOf ts).head?.bind (c.extension x.rank) with
    | none => exact List.suffix_refl ts
    | some r => exact (leaves_items hphrase r.items bound).bind (fun _ => ih _) ts

end Leaves

include halike

theorem alike_part {q : Part} (hl : 4 * p.length + q.level ≤ limit) :
    Alike t m m' (part phrase q (p ++ t :: m)) (part phrase' q (p ++ t :: m')) := by
  cases q with
  | token kind => exact alike_takeToken (· == kind)
  | phrase c => exact halike hl

include hphrase hphrase'

theorem alike_parts {ps : List Part} (hl : 4 * p.length + partsLevel ps ≤ limit) :
    Alike t m m' (parts phrase ps (p ++ t :: m)) (parts phrase' ps (p ++ t :: m')) := by
  induction ps generalizing p with
  | nil => exact .pure
  | cons q ps ih =>
    refine .bind (alike_part halike hl) (completable_part hphrase q _) ?_
      (fun x => (leaves_parts hphrase ps).bind fun _ => .pure)
      (fun x => (leaves_parts hphrase' ps).bind fun _ => .pure)
    rintro x p₁ p₂ rfl ⟨hx, rfl⟩
    have hpos := List.length_pos_iff.mpr hx.tokens_ne_nil
    have hlevel := partsLevel_le ps
    rw [List.length_append] at hl
    exact (ih (by omega)).map _

theorem alike_repeated {ps : List Part} (hps : ps ≠ []) {turns turns' : Nat}
    (ht : p.length < turns) (ht' : p.length < turns')
    (hl : 4 * p.length + partsLevel ps ≤ limit) :
    Alike t m m' (repeated phrase ps turns (p ++ t :: m))
      (repeated phrase' ps turns' (p ++ t :: m')) := by
  induction turns generalizing turns' p with
  | zero => omega
  | succ turns ih =>
    obtain ⟨turns', rfl⟩ : ∃ n, turns' = n + 1 := ⟨turns' - 1, by omega⟩
    rw [repeated, repeated, Reader.entersGroup, nextIs_bind, nextIs_bind,
      nextKind?_common p t m m']
    split
    · refine .bind (alike_parts hphrase hphrase' halike hl) (completable_parts hphrase ps _) ?_
        (fun _ => (leaves_repeated hphrase ps turns).bind fun _ => .pure)
        (fun _ => (leaves_repeated hphrase' ps turns').bind fun _ => .pure)
      rintro xs p₁ p₂ rfl ⟨hxs, rfl⟩
      have hpos := List.length_pos_iff.mpr (tokens_ne_nil_of_partsFit hxs hps)
      rw [List.length_append] at hl ht ht'
      exact (ih (by omega) (by omega) (by omega)).map _
    · exact .pure

theorem alike_moreElements {c : Category} {shape : ListShape} {turns turns' : Nat}
    (ht : p.length < turns) (ht' : p.length < turns') (hl : 4 * p.length ≤ limit) :
    Alike t m m' (moreElements phrase c shape turns (p ++ t :: m))
      (moreElements phrase' c shape turns' (p ++ t :: m')) := by
  induction turns generalizing turns' p with
  | zero => omega
  | succ turns ih =>
    obtain ⟨turns', rfl⟩ : ∃ n, turns' = n + 1 := ⟨turns' - 1, by omega⟩
    have hleaves {phrase : Category → Reader Tree} {turns : Nat} (comma : Tree)
        (hphrase : ∀ c ts, (phrase c ts).Completable c.Yields ts) : Leaves (do
          let ends ← nextIs fun kind => !c.startsWith kind
          if (shape.mayTrail && ends) = true then return [comma]
          let x ← phrase c
          let xs ← moreElements phrase c shape turns
          return comma :: x :: xs) := by
      intro ts
      rw [nextIs_bind]
      split
      · exact List.suffix_refl ts
      · exact Leaves.bind (fun ts => (hphrase c ts).rest_suffix)
          (fun _ => (leaves_moreElements hphrase c shape turns).bind fun _ => .pure) ts
    rw [moreElements, moreElements, nextIs_bind, nextIs_bind, nextKind?_common p t m m']
    split
    · refine .bind (alike_takeToken _) (completable_takeToken (k := .mark .comma) rfl _) ?_
        (fun comma => hleaves comma hphrase) (fun comma => hleaves comma hphrase')
      -- the comma is taken, so the rest of the list begins nearer to the token
      rintro _ _ p₂ rfl ⟨u, rfl, -, rfl⟩
      rw [List.length_append, List.length_singleton] at hl ht ht'
      rw [nextIs_bind, nextIs_bind, nextKind?_common p₂ t m m']
      split
      · exact .pure
      · have hlevel := c.level_le
        refine .bind (halike (by omega)) (hphrase c _) ?_
          (fun _ => (leaves_moreElements hphrase c shape turns).bind fun _ => .pure)
          (fun _ => (leaves_moreElements hphrase' c shape turns').bind fun _ => .pure)
        rintro x p₃ p₄ rfl -
        rw [List.length_append] at hl ht ht'
        exact (ih (by omega) (by omega) (by omega)).map _
    · exact .pure

theorem alike_elements {c : Category} {shape : ListShape} {bound bound' : Nat}
    (hb : p.length < bound) (hb' : p.length < bound') (hl : 4 * p.length + c.level ≤ limit) :
    Alike t m m' (elements phrase bound c shape (p ++ t :: m))
      (elements phrase' bound' c shape (p ++ t :: m')) := by
  rw [elements, elements, nextIs_bind, nextIs_bind, nextKind?_common p t m m']
  split
  · exact .pure
  · refine .bind (halike hl) (hphrase c _) ?_
      (fun _ => (leaves_moreElements hphrase c shape bound).bind fun _ => .pure)
      (fun _ => (leaves_moreElements hphrase' c shape bound').bind fun _ => .pure)
    rintro x p₁ p₂ rfl -
    rw [List.length_append] at hl hb hb'
    exact (alike_moreElements hphrase hphrase' halike (by omega) (by omega) (by omega)).map _

theorem alike_item {i : Item} (hi : ∀ ps, i = .optional ps ∨ i = .repeated ps → ps ≠ [])
    {bound bound' : Nat} (hb : p.length < bound) (hb' : p.length < bound')
    (hl : 4 * p.length + i.level ≤ limit) :
    Alike t m m' (item phrase bound i (p ++ t :: m)) (item phrase' bound' i (p ++ t :: m')) := by
  cases i with
  | one q => exact (alike_part halike hl).map _
  | optional ps =>
    rw [item, item, Reader.entersGroup, nextIs_bind, nextIs_bind, nextKind?_common p t m m']
    split
    · exact alike_parts hphrase hphrase' halike hl
    · exact .pure
  | repeated ps => exact alike_repeated hphrase hphrase' halike (hi ps (.inr rfl)) hb hb' hl
  | list c shape => exact alike_elements hphrase hphrase' halike hb hb' hl

theorem alike_items {is : List Item}
    (his : ∀ i ∈ is, ∀ ps, i = .optional ps ∨ i = .repeated ps → ps ≠ [])
    {bound bound' : Nat} (hb : p.length < bound) (hb' : p.length < bound')
    (hl : 4 * p.length + itemsLevel is ≤ limit) :
    Alike t m m' (items phrase bound is (p ++ t :: m))
      (items phrase' bound' is (p ++ t :: m')) := by
  induction is generalizing p with
  | nil => exact .pure
  | cons i is ih =>
    obtain ⟨hi, his⟩ := List.forall_mem_cons.mp his
    have hlevel : 4 * p.length + i.level ≤ limit := by
      unfold itemsLevel at hl
      split at hl <;> omega
    refine .bind (alike_item hphrase hphrase' halike hi hb hb' hlevel)
      (completable_item hphrase i bound _) ?_
      (fun _ => (leaves_items hphrase is bound).bind fun _ => .pure)
      (fun _ => (leaves_items hphrase' is bound').bind fun _ => .pure)
    rintro xs p₁ p₂ rfl ⟨hxs, rfl⟩
    rw [List.length_append] at hl hb hb'
    refine (ih his (by omega) (by omega) ?_).map _
    -- an item that may take nothing leaves the levels of the following ones open
    unfold itemsLevel at hl
    split at hl
    · omega
    · next hn =>
      have hpos := List.length_pos_iff.mpr (hxs.tokens_ne_nil (by simpa using hn))
      have := itemsLevel_le is
      omega

theorem alike_extended {c : Category} {x : Tree} {bound bound' turns turns' : Nat}
    (ht : p.length < turns) (ht' : p.length < turns') (hb : p.length < bound)
    (hb' : p.length < bound') (hl : 4 * p.length + 4 ≤ limit) :
    Alike t m m' (extended phrase bound c turns x (p ++ t :: m))
      (extended phrase' bound' c turns' x (p ++ t :: m')) := by
  induction turns generalizing turns' p x with
  | zero => omega
  | succ turns ih =>
    obtain ⟨turns', rfl⟩ : ∃ n, turns' = n + 1 := ⟨turns' - 1, by omega⟩
    rw [extended, extended, ahead_bind, ahead_bind, head?_aheadOf, head?_aheadOf,
      nextKind?_common p t m m']
    cases hr : (nextKind? (p ++ t :: m')).bind (c.extension x.rank) with
    | none => exact .pure
    | some r =>
      have hlevel := itemsLevel_le r.items
      refine .bind (alike_items hphrase hphrase' halike r.groups_ne_nil hb hb' (by omega))
        (completable_items hphrase r.items bound _) ?_
        (fun _ => leaves_extended hphrase c _ bound turns)
        (fun _ => leaves_extended hphrase' c _ bound' turns')
      rintro xs p₁ p₂ rfl ⟨hxs, rfl⟩
      have hpos := List.length_pos_iff.mpr (tokens_ne_nil_of_itemsFit hxs r.items_not_nullable)
      rw [List.length_append] at hl hb hb' ht ht'
      exact ih (by omega) (by omega) (by omega) (by omega) (by omega)

theorem alike_phraseOf {c : Category} {bound bound' : Nat}
    (hpredict : c.predict (aheadOf (p ++ t :: m)) = c.predict (aheadOf (p ++ t :: m')))
    (hb : p.length < bound) (hb' : p.length < bound') (hl : 4 * p.length + c.level ≤ limit + 1) :
    Alike t m m' (phraseOf phrase bound c (p ++ t :: m))
      (phraseOf phrase' bound' c (p ++ t :: m')) := by
  have hc := c.level_pos
  rw [phraseOf, phraseOf, ahead_bind, ahead_bind, ← hpredict]
  rcases hprediction : c.predict (aheadOf (p ++ t :: m)) with _ | _ | r | d
  · exact .stuck p
  · exact alike_takeToken c.acceptsToken
  · have hr := Category.level_of_rule hprediction
    refine .bind (alike_items hphrase hphrase' halike r.groups_ne_nil hb hb' (by omega))
      (completable_items hphrase r.items bound _) ?_
      (fun _ => leaves_extended hphrase c _ bound bound)
      (fun _ => leaves_extended hphrase' c _ bound' bound')
    rintro xs p₁ p₂ rfl ⟨hxs, rfl⟩
    have hpos := List.length_pos_iff.mpr (tokens_ne_nil_of_itemsFit hxs r.items_not_nullable)
    rw [List.length_append] at hl hb hb'
    exact alike_extended hphrase hphrase' halike (by omega) (by omega) (by omega) (by omega)
      (by omega)
  · have hd := Category.level_of_through hprediction
    refine .bind (halike (by omega)) (hphrase d _) ?_
      (fun _ => leaves_extended hphrase c _ bound bound)
      (fun _ => leaves_extended hphrase' c _ bound' bound')
    rintro x p₁ p₂ rfl ⟨hx, rfl⟩
    have hpos := List.length_pos_iff.mpr (Formable.tokens_ne_nil hx)
    rw [List.length_append] at hl hb hb'
    exact alike_extended hphrase hphrase' halike (by omega) (by omega) (by omega) (by omega)
      (by omega)

end

/-! ## Phrases take what they begin with -/

/-- A phrase takes the next token if it may begin with it. -/
theorem phrase_takes_first {depth : Nat} {c : Category} (hl : c.level ≤ depth) {t : Token}
    (h : c.startsWith t.kind = true) (m : List Token) :
    (phrase depth c (t :: m)).rest <:+ m := by
  induction depth generalizing c with
  | zero =>
    have := c.level_pos
    omega
  | succ depth ih =>
    have hbegins := c.beginsAs_predict t.kind ((m.take 4).map (·.kind))
    rw [phrase, phraseOf, ahead_bind, aheadOf_cons]
    rcases hpredict : c.predict (t.kind :: (m.take 4).map (·.kind)) with _ | _ | r | d
    · rw [hpredict, Category.beginsAs, h] at hbegins
      cases hbegins
    · rw [hpredict] at hbegins ⊢
      rw [Category.beginsAs] at hbegins
      show (takeToken c.acceptsToken (t :: m)).rest <:+ m
      rw [takeToken, if_pos hbegins]
      exact List.suffix_refl m
    · rw [hpredict] at hbegins ⊢
      rw [Category.beginsAs, Rule.beginsWith] at hbegins
      have hlevel := Category.level_of_rule hpredict
      refine rest_suffix_bind ?_ fun _ => leaves_extended (completable_phrase depth) c _ _ _
      -- the rule begins with a part, or with a list that is not empty: either way that one takes
      -- the token
      split at hbegins
      · next q is hitems =>
        rw [hitems] at hlevel ⊢
        refine rest_suffix_bind ?_ fun _ =>
          (leaves_items (completable_phrase depth) is depth).bind fun _ => .pure
        refine rest_suffix_bind ?_ fun _ => .pure
        cases q with
        | token kind =>
          rw [part, takeToken, if_pos (show (t.kind == kind) = true from hbegins)]
          exact List.suffix_refl m
        | phrase d => exact ih (Nat.lt_succ_iff.mp (Nat.lt_of_lt_of_le hlevel hl)) hbegins
      · next d is hitems =>
        rw [hitems] at hlevel ⊢
        refine rest_suffix_bind ?_ fun _ =>
          (leaves_items (completable_phrase depth) is depth).bind fun _ => .pure
        rw [item, elements, nextIs_bind]
        refine rest_suffix_bind (ih (Nat.lt_succ_iff.mp (Nat.lt_of_lt_of_le hlevel hl)) hbegins)
          fun _ => (leaves_moreElements (completable_phrase depth) d .nonempty depth).bind
            fun _ => .pure
      · cases hbegins
    · rw [hpredict] at hbegins ⊢
      rw [Category.beginsAs] at hbegins
      have hlevel := Category.level_of_through hpredict
      exact rest_suffix_bind (ih (by omega) hbegins)
        fun _ => leaves_extended (completable_phrase depth) c _ _ _

/-! ## Loops -/

section Loops

variable {phrase : Category → Reader Tree} {bound : Nat} {is : List Item} {ts : List Token}

/-- After an item has been taken the following items go on. -/
theorem rest_items_done {i : Item} {xs : List Tree} {mid : List Token}
    (h : item phrase bound i ts = .done xs mid) :
    (items phrase bound (i :: is) ts).rest = (items phrase bound is mid).rest := by
  show (Reader.bind (item phrase bound i) _ ts).rest = _
  rw [Reader.bind, h]
  show (Reader.bind (items phrase bound is) _ mid).rest = _
  rw [Reader.bind]
  cases items phrase bound is mid <;> rfl

theorem item_token {kind : TokenKind} {t : Token} (ht : t.kind = kind) (ts : List Token) :
    item phrase bound (.one (.token kind)) (t :: ts) = .done [.leaf t] ts := by
  show Reader.bind (takeToken (· == kind)) _ (t :: ts) = _
  rw [Reader.bind, takeToken, if_pos (beq_iff_eq.mpr ht)]
  rfl

theorem item_phrase {c : Category} {x : Tree} {mid : List Token} (h : phrase c ts = .done x mid) :
    item phrase bound (.one (.phrase c)) ts = .done [x] mid := by
  show Reader.bind (phrase c) _ ts = _
  rw [Reader.bind, h]
  rfl

end Loops

theorem phrase_declarationWord {depth : Nat} {w : Token}
    (hw : Category.declarationWord.acceptsToken w.kind = true) (ts : List Token) :
    phrase (depth + 1) .declarationWord (w :: ts) = .done (.leaf w) ts := by
  rw [phrase, phraseOf, ahead_bind, aheadOf_cons, Category.predict_of_accepts hw]
  show takeToken Category.declarationWord.acceptsToken (w :: ts) = _
  rw [takeToken, if_pos hw]

section Loops

variable {depth : Nat} {m ts : List Token}

/-- Both kinds of loops begin with the same two tokens. -/
theorem phrase_loop_suffix {a b : Token} (ha : a.kind = .keyword .forKw)
    (hb : b.kind = .mark .lparen)
    (h : ∀ r ∈ [Rule.forStatement, .forInStatement],
      (items (phrase depth) depth (r.items.drop 2) ts).rest <:+ m) :
    (phrase (depth + 1) .statement (a :: b :: ts)).rest <:+ m := by
  obtain ⟨r, hr, hpredict⟩ : ∃ r ∈ [Rule.forStatement, .forInStatement],
      Category.statement.predict (aheadOf (a :: b :: ts)) = some (.rule r) := by
    rw [aheadOf_cons, ha, Category.predict_statement]
    split
    · exact ⟨_, by simp, rfl⟩
    · exact ⟨_, by simp, rfl⟩
  rw [phrase, phraseOf, ahead_bind, hpredict]
  refine rest_suffix_bind ?_ fun _ => leaves_extended (completable_phrase depth) _ _ _ _
  obtain rfl | rfl : r = .forStatement ∨ r = .forInStatement := by simpa using hr
  all_goals
    rw [Rule.items, rest_items_done (item_token ha _), rest_items_done (item_token hb _)]
    exact h _ hr

/-- A word that declares variables is taken within a loop, and the name after it as well. -/
theorem items_loop_suffix {w : Token}
    (hw : Category.declarationWord.acceptsToken w.kind = true) {r : Rule}
    (hr : r ∈ [Rule.forStatement, .forInStatement])
    (hinit : (phrase (depth + 1) .forInit (w :: ts)).rest <:+ m)
    (hnames : (items (phrase (depth + 1)) (depth + 1) (Rule.forInStatement.items.drop 3) ts).rest
      <:+ m) :
    (items (phrase (depth + 1)) (depth + 1) (r.items.drop 2) (w :: ts)).rest <:+ m := by
  have hphrase := completable_phrase (depth + 1)
  obtain rfl | rfl : r = .forStatement ∨ r = .forInStatement := by simpa using hr
  · refine rest_suffix_bind ?_ fun _ => (leaves_items hphrase _ _).bind fun _ => .pure
    have henters : (nextKind? (w :: ts)).any
        (fun kind => ([.phrase .forInit] : List Part).head?.any (·.startsWith kind)) = true :=
      Category.startsWith_forInit hw
    rw [item, Reader.entersGroup, nextIs_bind, henters]
    exact rest_suffix_bind hinit fun _ => (leaves_parts hphrase _).bind fun _ => .pure
  · rw [show Rule.forInStatement.items.drop 2
        = .phrase .declarationWord :: Rule.forInStatement.items.drop 3 from rfl,
      rest_items_done (item_phrase (phrase_declarationWord hw ts))]
    exact hnames

/-- The first variable that is declared where a loop begins is taken. -/
theorem phrase_forVar_suffix {w t : Token}
    (hw : Category.declarationWord.acceptsToken w.kind = true)
    (ht : Category.declarator.startsWith t.kind = true) (m : List Token) :
    (phrase (depth + 2) .forInit (w :: t :: m)).rest <:+ m := by
  have hphrase := completable_phrase (depth + 1)
  rw [phrase, phraseOf, ahead_bind, aheadOf_cons, Category.predict_forInit hw]
  refine rest_suffix_bind ?_ fun _ => leaves_extended hphrase _ _ _ _
  rw [Rule.items, rest_items_done (item_phrase (phrase_declarationWord hw _))]
  refine rest_suffix_bind ?_ fun _ => (leaves_items hphrase _ _).bind fun _ => .pure
  rw [item, elements, nextIs_bind]
  exact rest_suffix_bind (phrase_takes_first (Nat.le_add_left 1 depth) ht m) fun _ =>
    (leaves_moreElements hphrase _ _ _).bind fun _ => .pure

end Loops

/-- The beginning of a loop is taken, whichever loop it is. -/
theorem phrase_takes_loop {depth : Nat} {p : List Token} {t : Token} (m : List Token)
    (hl : 4 * (p.length + 1) + Category.statement.level ≤ depth) (h : BeginsLoop (p ++ [t])) :
    (phrase depth .statement (p ++ t :: m)).rest <:+ m := by
  obtain ⟨word, hword, hkinds⟩ := h
  obtain ⟨depth, rfl⟩ : ∃ d, depth = d + 3 := ⟨depth - 3, by omega⟩
  have hleaves (is : List Item) (n : Nat) : (items (phrase (depth + 2)) n is m).rest <:+ m :=
    leaves_items (completable_phrase _) is n m
  -- by how many tokens of the beginning come before the one that may differ
  match p, hkinds with
  | [], hkinds =>
    have ht : t.kind = .keyword .forKw := by simpa using hkinds
    exact phrase_takes_first (by show 3 ≤ _; omega) (by rw [ht]; rfl) m
  | [a], hkinds =>
    obtain ⟨ha, ht⟩ : a.kind = .keyword .forKw ∧ t.kind = .mark .lparen := by simpa using hkinds
    exact phrase_loop_suffix ha ht fun r _ => hleaves _ _
  | [a, b], hkinds =>
    obtain ⟨ha, hb, rfl⟩ : a.kind = .keyword .forKw ∧ b.kind = .mark .lparen ∧ t.kind = word := by
      simpa using hkinds
    refine phrase_loop_suffix ha hb fun r hr => items_loop_suffix hword hr ?_ (hleaves _ _)
    exact phrase_takes_first (by show 3 ≤ _; omega) (Category.startsWith_forInit hword) m
  | [a, b, w], hkinds =>
    obtain ⟨ha, hb, rfl, ht⟩ : a.kind = .keyword .forKw ∧ b.kind = .mark .lparen ∧
        w.kind = word ∧ t.kind = .name := by
      simpa using hkinds
    show (phrase (depth + 3) .statement (a :: b :: w :: t :: m)).rest <:+ m
    refine phrase_loop_suffix ha hb fun r hr => items_loop_suffix hword hr ?_ ?_
    · exact phrase_forVar_suffix hword (by rw [ht]; rfl) m
    · rw [show Rule.forInStatement.items.drop 3 = .ident :: Rule.forInStatement.items.drop 4
        from rfl, rest_items_done (item_token ht m)]
      exact hleaves _ _
  | a :: b :: w :: v :: p, hkinds =>
    have := hkinds.length_le
    rw [List.length_map, List.length_append] at this
    simp only [List.length_cons, List.length_nil] at this
    omega

/-- What comes after a token has no say before the token is taken. -/
theorem alike_phrase {depth depth' : Nat} {c : Category} {p : List Token} {t : Token}
    {m m' : List Token} (hl : 4 * (p.length + 1) + c.level ≤ depth)
    (hl' : 4 * (p.length + 1) + c.level ≤ depth') :
    Alike t m m' (phrase depth c (p ++ t :: m)) (phrase depth' c (p ++ t :: m')) := by
  induction depth generalizing depth' c p t m m' with
  | zero => omega
  | succ depth ih =>
    obtain ⟨depth', rfl⟩ : ∃ d, depth' = d + 1 := ⟨depth' - 1, by omega⟩
    rcases c.predict_common p t m m' with hpredict | ⟨rfl, hstart⟩ | ⟨rfl, hloop⟩
    · have hc := c.level_pos
      have halike {c : Category} {p : List Token} {t : Token} {m m' : List Token}
          (h : 4 * p.length + c.level ≤ min depth depth' - 4) :
          Alike t m m' (phrase depth c (p ++ t :: m)) (phrase depth' c (p ++ t :: m')) := by
        have := c.level_pos
        exact ih (by omega) (by omega)
      exact alike_phraseOf (completable_phrase depth) (completable_phrase depth') halike hpredict
        (by omega) (by omega) (by omega)
    · exact .past (phrase_takes_first (by omega) hstart m) (phrase_takes_first (by omega) hstart m')
    · exact .past (phrase_takes_loop m hl hloop) (phrase_takes_loop m' hl' hloop)

end Reader

end SuperForward.Script
