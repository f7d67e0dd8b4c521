/-
  What has been read can be completed.

  A reader that is done has taken a phrase off the head of its tokens. One that is stuck has
  taken the beginning of a phrase: every category has phrases, so that what is still missing can
  be put after what has been taken. Neither depends on the bounds of the reader.
-/
import SuperForward.Proofs.Script.Rearranging

namespace SuperForward.Script

/-! ## Outcomes that take the beginning of something -/

/-- What was taken is something that fits, or the beginning of it if the reader is stuck.
`fits a p` says that `a` fits and has the tokens `p`. -/
inductive Outcome.Completable {α : Type} (fits : α → List Token → Prop) (ts : List Token) :
    Outcome α → Prop
  | done {a : α} {p rest : List Token} (tokens : ts = p ++ rest) (h : fits a p) :
      Completable fits ts (.done a rest)
  | stuck {a : α} {p q rest : List Token} (tokens : ts = p ++ rest) (h : fits a (p ++ q)) :
      Completable fits ts (.stuck rest)

/-- The tokens that are left. -/
def Outcome.rest {α : Type} : Outcome α → List Token
  | .done _ rest | .stuck rest => rest

namespace Outcome.Completable

variable {α β : Type} {f : α → List Token → Prop} {g : β → List Token → Prop} {o : Outcome α}
  {r : Reader α} {next : α → Reader β} {ts : List Token}

theorem mono {f' : α → List Token → Prop} (h : o.Completable f ts)
    (hf : ∀ a p, f a p → f' a p) : o.Completable f' ts := by
  cases h with
  | done tokens h => exact .done tokens (hf _ _ h)
  | stuck tokens h => exact .stuck tokens (hf _ _ h)

/-- The tokens that are left stand at the end. -/
theorem rest_suffix (h : o.Completable f ts) : o.rest <:+ ts := by
  cases h with
  | done tokens _ => exact ⟨_, tokens.symm⟩
  | stuck tokens _ => exact ⟨_, tokens.symm⟩

theorem eq_of_done {a : α} {rest : List Token} (h : (Outcome.done a rest).Completable f ts) :
    ∃ p, ts = p ++ rest ∧ f a p := by
  cases h with
  | done tokens h => exact ⟨_, tokens, h⟩

theorem pure {a : α} (h : f a []) : ((Pure.pure a : Reader α) ts).Completable f ts :=
  .done (p := []) rfl h

/-- Something fits that has at least the tokens taken. -/
theorem exists_fits (h : o.Completable f ts) : ∃ a p, f a p := by
  cases h with
  | done _ h => exact ⟨_, _, h⟩
  | stuck _ h => exact ⟨_, _, h⟩

/-- Where the first reader is stuck, the second one shows that what it has begun can be
completed. -/
theorem bind (h : (r ts).Completable f ts)
    (hnext : ∀ a p, f a p → ∀ rest, (next a rest).Completable (fun b q => g b (p ++ q)) rest) :
    ((r >>= next) ts).Completable g ts := by
  show (Reader.bind r next ts).Completable g ts
  unfold Reader.bind
  -- stuck in the first reader, its phrase is completed and the second one shows what may follow
  cases h' : r ts with
  | done a mid =>
    rw [h'] at h
    obtain ⟨p, rfl, ha⟩ := h.eq_of_done
    have hmid := hnext a p ha mid
    simp only
    cases hend : next a mid with
    | done b rest =>
      rw [hend] at hmid
      obtain ⟨q, rfl, hb⟩ := hmid.eq_of_done
      exact .done (List.append_assoc ..).symm hb
    | stuck rest =>
      rw [hend] at hmid
      cases hmid with
      | @stuck b q more _ tokens hb =>
        subst tokens
        refine .stuck (List.append_assoc ..).symm (a := b) (q := more) ?_
        rw [List.append_assoc]
        exact hb
  | stuck rest =>
    rw [h'] at h
    cases h with
    | @stuck a p more _ tokens ha =>
      obtain ⟨b, q, hb⟩ := (hnext a (p ++ more) ha []).exists_fits
      refine .stuck tokens (a := b) (q := more ++ q) ?_
      rw [← List.append_assoc]
      exact hb

end Outcome.Completable

/-! ## Every category has phrases -/

/-- Tokens of which phrases are made, as far as their kinds matter. -/
def Category.sample : Category → List TokenKind
  | .statement => [.mark .semicolon]
  | .block | .functionBody => [.mark .lbrace, .mark .rbrace]
  | .switchCase => [.keyword .defaultKw, .mark .colon]
  | .catchClause =>
    [.keyword .catchKw, .mark .lparen, .name, .mark .rparen, .mark .lbrace, .mark .rbrace]
  | .finallyClause => [.keyword .finallyKw, .mark .lbrace, .mark .rbrace]
  | .arguments => [.mark .lparen, .mark .rparen]
  | .declarationWord => [.keyword .varKw]
  | .propertyKey => [.string]
  | .assignOperator => [.mark .assign]
  | .binaryOperator => [.mark .plus]
  | .unaryOperator => [.mark .bang]
  | .updateOperator => [.mark .increment]
  | _ => [.name]

/-- A token of some kind. -/
def TokenKind.someToken (kind : TokenKind) : Token := ⟨kind, "", 0, 0, .origin, []⟩

/-- The reader is done with all the tokens. -/
def Outcome.isWhole {α : Type} : Outcome α → Bool
  | .done _ [] => true
  | _ => false

theorem Category.exists_formable (c : Category) : ∃ x, Formable c x := by
  have hall : (Category.all.all fun c =>
      (Reader.phrase 28 c (c.sample.map TokenKind.someToken)).isWhole &&
        decide (4 * c.sample.length + c.level ≤ 28)) = true := by
    decide +kernel
  have hc := List.all_eq_true.mp hall c (Category.mem_all c)
  rw [Bool.and_eq_true, decide_eq_true_eq] at hc
  obtain ⟨hwhole, hdepth⟩ := hc
  cases h : Reader.phrase 28 c (c.sample.map TokenKind.someToken) with
  | stuck rest => rw [h] at hwhole; cases hwhole
  | done x rest =>
    exact ⟨x, ((Reader.phrase_eq_done (by rwa [List.length_map])).mp h).formable⟩

/-! ## What a prediction says of the next token -/

/-- The rule asks first for something that begins with the token. -/
def Rule.beginsWith (r : Rule) (kind : TokenKind) : Bool :=
  match r.items with
  | .one q :: _ => q.startsWith kind
  | .list c .nonempty :: _ => c.startsWith kind
  | _ => false

/-- What is predicted for the category begins with the token; nothing is predicted only if no
phrase does. -/
def Category.beginsAs (c : Category) (kind : TokenKind) : Option Prediction → Bool
  | none => !c.startsWith kind
  | some .token => c.acceptsToken kind
  | some (.rule r) => r.beginsWith kind
  | some (.through d) => d.startsWith kind

/-- Only these predictions need more than one token. -/
theorem Category.predict_cons (c : Category) (kind : TokenKind) (rest : List TokenKind) :
    c.predict (kind :: rest) = c.predict [kind] ∨
      (c, kind, c.predict (kind :: rest)) ∈
        [(.statement, .keyword .forKw, some (.rule .forInStatement)),
          (.param, .name, some (.rule .defaultParam)), (.property, .name, some (.rule .pair))] := by
  by_cases hstatement : c = .statement
  · subst hstatement
    by_cases hkind : kind = .keyword .forKw
    · subst hkind
      rw [predict_statement]
      split
      · exact .inr (by simp)
      · exact .inl rfl
    · refine .inl ?_
      rw [predict_statement, predict_statement, isForIn_cons hkind, isForIn_cons hkind]
  by_cases hparam : c = .param
  · subst hparam
    simp only [predict]
    repeat' split
    all_goals simp_all
  by_cases hproperty : c = .property
  · subst hproperty
    have hname : Category.property.startsWith .name = true := rfl
    simp only [predict]
    repeat' split
    all_goals simp_all
  exact .inl (predict_first hstatement hparam hproperty kind rest)

theorem Category.beginsAs_predict (c : Category) (kind : TokenKind) (rest : List TokenKind) :
    c.beginsAs kind (c.predict (kind :: rest)) = true := by
  have hall : (all.all fun c => TokenKind.all.all fun kind =>
      c.beginsAs kind (c.predict [kind])) = true := by
    decide +kernel
  rcases predict_cons c kind rest with h | h
  · rw [h]
    exact List.all_eq_true.mp (List.all_eq_true.mp hall c (mem_all c)) kind (TokenKind.mem_all kind)
  · simp only [List.mem_cons, Prod.mk.injEq, List.not_mem_nil, or_false] at h
    obtain ⟨rfl, rfl, h⟩ | ⟨rfl, rfl, h⟩ | ⟨rfl, rfl, h⟩ := h <;> rw [h] <;> decide

/-- A phrase is a single token only if the next token is accepted. -/
theorem Category.accepts_of_predict {c : Category} {ahead : List TokenKind}
    (h : c.predict ahead = some .token) : ∃ kind ∈ ahead.head?, c.acceptsToken kind = true := by
  cases ahead with
  | nil => cases h
  | cons kind rest =>
    have := c.beginsAs_predict kind rest
    rw [h] at this
    exact ⟨kind, rfl, this⟩

/-! ## Readers -/

/-- Trees with the tokens `p` that are what is asked for. -/
def Yields (fits : List Tree → Prop) (xs : List Tree) (p : List Token) : Prop :=
  fits xs ∧ Tree.tokensOfAll xs = p

/-- A phrase of the category with the tokens `p`. -/
def Category.Yields (c : Category) (x : Tree) (p : List Token) : Prop :=
  Formable c x ∧ x.tokens = p

namespace Reader

open Outcome (Completable)

theorem completable_takeToken {p : TokenKind → Bool} {k : TokenKind} (h : p k = true)
    (ts : List Token) :
    (takeToken p ts).Completable (fun x q => ∃ t, x = .leaf t ∧ p t.kind = true ∧ q = [t]) ts := by
  have hstuck : (Outcome.stuck ts : Outcome Tree).Completable
      (fun x q => ∃ t, x = .leaf t ∧ p t.kind = true ∧ q = [t]) ts :=
    .stuck (p := []) rfl ⟨k.someToken, rfl, h, rfl⟩
  cases ts with
  | nil => exact hstuck
  | cons t ts =>
    rw [takeToken]
    split
    · next ht => exact .done (p := [t]) rfl ⟨t, rfl, ht, rfl⟩
    · exact hstuck

section

variable {phrase : Category → Reader Tree}
  (hphrase : ∀ c ts, (phrase c ts).Completable c.Yields ts)
include hphrase

theorem completable_part (p : Part) (ts : List Token) :
    (part phrase p ts).Completable (fun x q => p.Fits Formable x ∧ x.tokens = q) ts := by
  cases p with
  | token kind =>
    have h := completable_takeToken (p := (· == kind)) (beq_self_eq_true kind) ts
    refine h.mono ?_
    rintro _ _ ⟨t, rfl, ht, rfl⟩
    exact ⟨⟨t, rfl, beq_iff_eq.mp ht⟩, rfl⟩
  | phrase c => exact hphrase c ts

theorem completable_parts (ps : List Part) (ts : List Token) :
    (parts phrase ps ts).Completable (Yields (partsFit Formable ps)) ts := by
  induction ps generalizing ts with
  | nil => exact .pure ⟨rfl, rfl⟩
  | cons p ps ih =>
    refine .bind (completable_part hphrase p ts) fun x _ hx rest => ?_
    refine .bind (ih rest) fun xs _ hxs _ => .pure ?_
    obtain ⟨hx, rfl⟩ := hx
    obtain ⟨hxs, rfl⟩ := hxs
    exact ⟨⟨x, xs, rfl, hx, hxs⟩, by rw [Tree.tokensOfAll, List.append_nil]⟩

theorem completable_repeated (ps : List Part) (turns : Nat) (ts : List Token) :
    (repeated phrase ps turns ts).Completable (Yields ((Item.repeated ps).Fits Formable)) ts := by
  have hnone : Yields ((Item.repeated ps).Fits Formable) [] [] := ⟨⟨[], rfl, by simp⟩, rfl⟩
  induction turns generalizing ts with
  | zero => exact .pure hnone
  | succ turns ih =>
    rw [repeated, Reader.entersGroup, nextIs_bind]
    split
    · refine .bind (completable_parts hphrase ps ts) fun xs _ hxs rest => ?_
      refine .bind (ih rest) fun ys _ hys _ => .pure ?_
      obtain ⟨hxs, rfl⟩ := hxs
      obtain ⟨⟨groups, rfl, hgroups⟩, rfl⟩ := hys
      refine ⟨⟨xs :: groups, rfl, List.forall_mem_cons.mpr ⟨hxs, hgroups⟩⟩, ?_⟩
      rw [Tree.tokensOfAll_append, List.append_nil]
    · exact .pure hnone

theorem completable_moreElements (c : Category) (shape : ListShape) (turns : Nat)
    (ts : List Token) :
    (moreElements phrase c shape turns ts).Completable (Yields (MoreFit Formable c shape)) ts := by
  induction turns generalizing ts with
  | zero => exact .pure ⟨.none, rfl⟩
  | succ turns ih =>
    rw [moreElements, nextIs_bind]
    split
    · refine .bind (completable_takeToken (k := .mark .comma) rfl ts) ?_
      rintro _ _ ⟨t, rfl, ht, rfl⟩ rest
      have hcomma := beq_iff_eq.mp ht
      rw [nextIs_bind]
      split
      · next htrail => exact .pure ⟨.trail hcomma (Bool.and_eq_true _ _ ▸ htrail).1, rfl⟩
      · refine .bind (hphrase c rest) fun x _ hx rest => ?_
        refine .bind (ih rest) fun xs _ hxs _ => .pure ?_
        obtain ⟨hx, rfl⟩ := hx
        obtain ⟨hxs, rfl⟩ := hxs
        exact ⟨.more hcomma hx hxs, by simp [Tree.tokensOfAll, Tree.tokens]⟩
    · exact .pure ⟨.none, rfl⟩

theorem completable_elements (c : Category) (shape : ListShape) (bound : Nat) (ts : List Token) :
    (elements phrase bound c shape ts).Completable
      (Yields ((Item.list c shape).Fits Formable)) ts := by
  rw [elements, nextIs_bind]
  split
  · next hempty => exact .pure ⟨.inl ⟨(Bool.and_eq_true _ _ ▸ hempty).1, rfl⟩, rfl⟩
  · refine .bind (hphrase c ts) fun x _ hx rest => ?_
    refine .bind (completable_moreElements hphrase c shape bound rest) fun xs _ hxs _ => .pure ?_
    obtain ⟨hx, rfl⟩ := hx
    obtain ⟨hxs, rfl⟩ := hxs
    exact ⟨.inr ⟨x, xs, rfl, hx, hxs⟩, by rw [Tree.tokensOfAll, List.append_nil]⟩

theorem completable_item (i : Item) (bound : Nat) (ts : List Token) :
    (item phrase bound i ts).Completable (Yields (i.Fits Formable)) ts := by
  cases i with
  | one p =>
    refine .bind (completable_part hphrase p ts) fun x _ hx _ => .pure ?_
    obtain ⟨hx, rfl⟩ := hx
    exact ⟨⟨x, rfl, hx⟩, by simp [Tree.tokensOfAll]⟩
  | optional ps =>
    rw [item, Reader.entersGroup, nextIs_bind]
    split
    · exact (completable_parts hphrase ps ts).mono fun xs _ h => ⟨.inr h.1, h.2⟩
    · exact .pure ⟨.inl rfl, rfl⟩
  | repeated ps => exact completable_repeated hphrase ps bound ts
  | list c shape => exact completable_elements hphrase c shape bound ts

theorem completable_items (is : List Item) (bound : Nat) (ts : List Token) :
    (items phrase bound is ts).Completable (Yields (itemsFit Formable is)) ts := by
  induction is generalizing ts with
  | nil => exact .pure ⟨rfl, rfl⟩
  | cons i is ih =>
    refine .bind (completable_item hphrase i bound ts) fun xs _ hxs rest => ?_
    refine .bind (ih rest) fun ys _ hys _ => .pure ?_
    obtain ⟨hxs, rfl⟩ := hxs
    obtain ⟨hys, rfl⟩ := hys
    exact ⟨⟨xs, ys, rfl, hxs, hys⟩, by rw [Tree.tokensOfAll_append, List.append_nil]⟩

theorem completable_extended {c : Category} {x : Tree} (hx : FormedPhrase Formable c x)
    (bound turns : Nat) (ts : List Token) :
    (extended phrase bound c turns x ts).Completable
      (fun y q => FormedPhrase Formable c y ∧ y.tokens = x.tokens ++ q) ts := by
  induction turns generalizing x ts with
  | zero => exact .pure ⟨hx, (List.append_nil _).symm⟩
  | succ turns ih =>
    rw [extended, ahead_bind]
    cases hr : (aheadOf ts).head?.bind (c.extension x.rank) with
    | none => exact .pure ⟨hx, (List.append_nil _).symm⟩
    | some r =>
      obtain ⟨kind, -, hkind⟩ := Option.bind_eq_some_iff.mp hr
      refine .bind (completable_items hphrase r.items bound ts) fun xs _ hxs rest => ?_
      obtain ⟨hxs, rfl⟩ := hxs
      refine (ih (.extended hx hkind hxs) rest).mono fun y q hy => ⟨hy.1, ?_⟩
      rw [hy.2, Tree.tokens, Tree.tokensOfAll, List.append_assoc]

theorem completable_phraseOf (c : Category) (bound : Nat) (ts : List Token) :
    (phraseOf phrase bound c ts).Completable c.Yields ts := by
  rw [phraseOf, ahead_bind]
  rcases hpredict : c.predict (aheadOf ts) with _ | _ | r | d
  · obtain ⟨x, hx⟩ := c.exists_formable
    exact .stuck (p := []) rfl ⟨hx, rfl⟩
  · obtain ⟨kind, -, hkind⟩ := Category.accepts_of_predict hpredict
    refine (completable_takeToken hkind ts).mono ?_
    rintro _ _ ⟨t, rfl, ht, rfl⟩
    exact ⟨formable_iff.mpr (.token ht), rfl⟩
  · refine .bind (completable_items hphrase r.items bound ts) fun xs _ hxs rest => ?_
    obtain ⟨hxs, rfl⟩ := hxs
    refine (completable_extended hphrase (.rule hpredict hxs) bound bound rest).mono ?_
    exact fun y q hy => ⟨formable_iff.mpr hy.1, hy.2⟩
  · refine .bind (hphrase d ts) fun x _ hx rest => ?_
    obtain ⟨hx, rfl⟩ := hx
    refine (completable_extended hphrase (.through hpredict hx) bound bound rest).mono ?_
    exact fun y q hy => ⟨formable_iff.mpr hy.1, hy.2⟩

end

/-- A phrase is taken, or the beginning of one. -/
theorem completable_phrase (depth : Nat) (c : Category) (ts : List Token) :
    (phrase depth c ts).Completable c.Yields ts := by
  induction depth generalizing c ts with
  | zero =>
    obtain ⟨x, hx⟩ := c.exists_formable
    exact .stuck (p := []) rfl ⟨hx, rfl⟩
  | succ depth ih => exact completable_phraseOf ih c depth ts

end Reader

end SuperForward.Script
