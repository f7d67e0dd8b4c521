/-
  Tokens that are alike up to their places.

  When parts of a text are cut out, the tokens that are kept move, and the comments that stood
  before a part that is cut now stand before the token after it. The tokens stay akin: their
  kinds and their texts are the same, and so is the documentation before them where a statement
  may begin, as long as no such token gets documentation that is left over.
-/
import SuperForward.Proofs.Script.Trimming

namespace SuperForward

/-! ## Documentation without its place -/

namespace DocComment

/-- What a comment says, wherever it stands. -/
def unplaced (doc : DocComment) : DocComment := { doc with start := 0 }

theorem unplaced_foldl (tags : List Tag) (doc : DocComment) (start : Nat) :
    tags.foldl addTag { doc with start } = { tags.foldl addTag doc with start } := by
  induction tags generalizing doc with
  | nil => rfl
  | cons tag tags ih =>
    rw [List.foldl_cons, List.foldl_cons, ← ih]
    congr 1
    unfold addTag
    simp only
    split <;> split <;> first
      | rfl
      | split <;> rfl

/-- What a comment says does not depend on where it stands. -/
theorem read?_unplaced (comment : String) (start start' : Nat) :
    (read? comment start).map unplaced = (read? comment start').map unplaced := by
  unfold read?
  split
  · have h := unplaced_foldl (tagsOf comment.toList) ⟨[], none, none, start⟩ start'
    simp only at h
    rw [h]
    rfl
  · rfl

end DocComment

namespace Script

open SuperForward.Text (woven kept spansFrom)

/-- The last documentation among some comments, the newest first. -/
def lastDoc? (comments : List Comment) : Option DocComment :=
  comments.findSome? fun c => DocComment.read? c.text c.start

/-- The documentation before the token. -/
def Token.doc? (t : Token) : Option DocComment := lastDoc? t.comments.reverse

/-- The tokens differ in their places only, as far as the documentation before them goes. -/
structure Token.Like (t t' : Token) : Prop where
  kind : t.kind = t'.kind
  text : t.text = t'.text
  doc : t.doc?.map DocComment.unplaced = t'.doc?.map DocComment.unplaced

/-- The tokens have the same kind and the same text. -/
structure Token.SameWord (t t' : Token) : Prop where
  kind : t.kind = t'.kind
  text : t.text = t'.text

/-- The tokens differ in their places only, as far as the documentation of statements goes. -/
structure Token.Akin (t t' : Token) : Prop where
  kind : t.kind = t'.kind
  text : t.text = t'.text
  doc : Category.statement.startsWith t.kind = true →
    t.doc?.map DocComment.unplaced = t'.doc?.map DocComment.unplaced

theorem Token.Like.sameWord {t t' : Token} (h : t.Like t') : t.SameWord t' := ⟨h.kind, h.text⟩

theorem Token.Like.akin {t t' : Token} (h : t.Like t') : t.Akin t' := ⟨h.kind, h.text, fun _ => h.doc⟩

theorem Token.Akin.sameWord {t t' : Token} (h : t.Akin t') : t.SameWord t' := ⟨h.kind, h.text⟩

namespace Spot

/-- The same documentation is pending. -/
def Like (s s' : Spot) : Prop :=
  (lastDoc? s.pending).map DocComment.unplaced = (lastDoc? s'.pending).map DocComment.unplaced

theorem Like.next {s s' : Spot} (h : s.Like s') (l : Lexeme) : (s.next l).Like (s'.next l) := by
  unfold Like Spot.next
  cases hkind : l.kind with
  | blank => exact h
  | token => rfl
  | comment =>
    have hread := DocComment.read?_unplaced (String.ofList l.text) s.offset s'.offset
    simp only [lastDoc?, List.findSome?_cons, Spot.comment]
    cases hs : DocComment.read? (String.ofList l.text) s.offset <;>
      cases hs' : DocComment.read? (String.ofList l.text) s'.offset <;>
      rw [hs, hs'] at hread
    · exact h
    · cases hread
    · cases hread
    · exact hread

theorem Like.after {s s' : Spot} (h : s.Like s') (ls : List Lexeme) :
    (s.after ls).Like (s'.after ls) := by
  induction ls generalizing s s' with
  | nil => exact h
  | cons l ls ih => exact ih (h.next l)

end Spot

/-- The tokens of the same lexemes are alike. -/
theorem tokensFrom_like {s s' : Spot} (h : s.Like s') (ls : List Lexeme) :
    List.Forall₂ Token.Like (tokensFrom s ls) (tokensFrom s' ls) := by
  induction ls generalizing s s' with
  | nil => exact .nil
  | cons l ls ih =>
    rw [tokensFrom, tokensFrom]
    cases hkind : l.kind with
    | blank => exact ih (h.next l)
    | comment => exact ih (h.next l)
    | token kind =>
      refine .cons ⟨rfl, rfl, ?_⟩ (ih (h.next l))
      simp only [Token.doc?, Spot.token, List.reverse_reverse]
      exact h

/-! ## Turns of tokens -/

/-- The turns with the tokens of their lexemes. -/
def tokenTurns (s : Spot) :
    List (List Lexeme × List Lexeme) → List (List Token × List Token)
  | [] => []
  | (a, m) :: turns =>
    (tokensFrom s a, tokensFrom (s.after a) m) :: tokenTurns ((s.after a).after m) turns

/-- Where a scan stands after some turns. -/
def Spot.afterTurns (s : Spot) (turns : List (List Lexeme × List Lexeme)) : Spot :=
  s.after (woven turns [])

theorem Spot.afterTurns_cons (s : Spot) (a m : List Lexeme)
    (turns : List (List Lexeme × List Lexeme)) :
    s.afterTurns ((a, m) :: turns) = ((s.after a).after m).afterTurns turns := by
  unfold Spot.afterTurns
  rw [woven, Spot.after_append, Spot.after_append]

/-! ## Documentation that is left over -/

/-- The first of the tokens is documented itself, or no statement begins with it. -/
def SettledFirst (ts : List Token) : Prop :=
  ∀ t ∈ ts.head?, t.doc?.isSome = true ∨ Category.statement.startsWith t.kind = false

/-- The same documentation is pending, or none was where some may be left over. -/
def Spot.Leads (left : Prop) (s s' : Spot) : Prop := s.Like s' ∨ left ∧ lastDoc? s.pending = none

theorem Spot.Leads.next {left : Prop} {s s' : Spot} (h : s.Leads left s') {l : Lexeme}
    (hl : l.IsBetween) : (s.next l).Leads left (s'.next l) := by
  rcases h with h | ⟨hleft, hnone⟩
  · exact .inl (h.next l)
  rcases hl with hkind | hkind
  · refine .inr ⟨hleft, ?_⟩
    rw [Spot.next, hkind]
    exact hnone
  · have hread := DocComment.read?_unplaced (String.ofList l.text) s.offset s'.offset
    cases hdoc : DocComment.read? (String.ofList l.text) s.offset with
    | none =>
      refine .inr ⟨hleft, ?_⟩
      rw [Spot.next, hkind, lastDoc?, List.findSome?_cons]
      simp only [Spot.comment, hdoc]
      exact hnone
    | some doc =>
      rw [hdoc] at hread
      obtain ⟨doc', hdoc', hsame⟩ := Option.map_eq_some_iff.mp hread.symm
      refine .inl ?_
      unfold Spot.Like Spot.next
      simp only [hkind, lastDoc?, List.findSome?_cons, Spot.comment, hdoc, hdoc', Option.map_some,
        hsame]

/-- The tokens of the same lexemes are akin, if the first one is settled where something may be
left over; after a token nothing is left over any more. -/
theorem tokensFrom_akin {left : Prop} {s s' : Spot} (h : s.Leads left s') {ls : List Lexeme}
    (hfirst : left → SettledFirst (tokensFrom s ls)) :
    List.Forall₂ Token.Akin (tokensFrom s ls) (tokensFrom s' ls) ∧
      (s.after ls).Leads (left ∧ tokensFrom s ls = []) (s'.after ls) := by
  induction ls generalizing s s' with
  | nil => exact ⟨.nil, h.imp_right fun h => ⟨⟨h.1, rfl⟩, h.2⟩⟩
  | cons l ls ih =>
    rw [tokensFrom] at hfirst
    rw [tokensFrom, tokensFrom]
    cases hkind : l.kind with
    | blank =>
      rw [hkind] at hfirst
      exact ih (h.next (.inl hkind)) hfirst
    | comment =>
      rw [hkind] at hfirst
      exact ih (h.next (.inr hkind)) hfirst
    | token kind =>
      rw [hkind] at hfirst
      have hnext : (s.next l).Like (s'.next l) := by
        unfold Spot.Like Spot.next
        rw [hkind]
      refine ⟨.cons ⟨rfl, rfl, fun hstarts => ?_⟩ ((tokensFrom_like hnext ls).imp fun _ _ h => h.akin),
        .inl (hnext.after ls)⟩
      simp only [Token.doc?, Spot.token, List.reverse_reverse]
      rcases h with h | ⟨hleft, hnone⟩
      · exact h
      -- what is left over goes to a token that has its own, or that no statement begins with
      · rcases hfirst hleft _ rfl with hsome | hnot
        · simp only [Token.doc?, Spot.token, List.reverse_reverse, hnone] at hsome
          cases hsome
        · rw [hstarts] at hnot
          cases hnot

/-- No token with which a statement may begin gets documentation that is left over before what
is cut; and none is pending after that. -/
def SettledTurns (s : Spot) (left : Prop) :
    List (List Lexeme × List Lexeme) → (last : List Lexeme) → Prop
  | [], last => left → SettledFirst (tokensFrom s last)
  | (a, m) :: turns, last => (left → SettledFirst (tokensFrom s a)) ∧
      lastDoc? ((s.after a).after m).pending = none ∧
      SettledTurns ((s.after a).after m)
        (left ∧ tokensFrom s a = [] ∨ lastDoc? (s.after a).pending ≠ none) turns last

/-- The tokens that are kept are akin before and after the cuts. -/
theorem kept_akin {turns : List (List Lexeme × List Lexeme)} {last : List Lexeme} {s s' : Spot}
    {left : Prop} (h : s.Leads left s') (hsettled : SettledTurns s left turns last) :
    List.Forall₂ Token.Akin
      (kept (tokenTurns s turns) (tokensFrom (s.afterTurns turns) last))
      (tokensFrom s' (kept turns last)) := by
  induction turns generalizing s s' left with
  | nil => exact (tokensFrom_akin h hsettled).1
  | cons t turns ih =>
    obtain ⟨a, m⟩ := t
    obtain ⟨hfirst, hafter, hrest⟩ := hsettled
    obtain ⟨hakin, hleads⟩ := tokensFrom_akin h hfirst
    rw [tokenTurns, Spot.afterTurns_cons, kept, kept, tokensFrom_append]
    refine List.rel_append hakin (ih ?_ hrest)
    by_cases hleft : left ∧ tokensFrom s a = [] ∨ lastDoc? (s.after a).pending ≠ none
    · exact .inr ⟨hleft, hafter⟩
    · obtain ⟨hnot, hnone⟩ := not_or.mp hleft
      have hlike := hleads.resolve_right fun h => hnot h.1
      unfold Spot.Like at hlike
      rw [not_not.mp hnone] at hlike
      refine .inl ?_
      unfold Spot.Like
      rw [hafter, hlike]

/-! ## Trimming does not touch tokens -/

theorem pending_after_blanksOf (s : Spot) (cs : List Char) :
    (s.after (blanksOf cs)).pending = s.pending := by
  induction cs generalizing s with
  | nil => rfl
  | cons c cs ih => exact ih (s.next (.separator c))

theorem tokensFrom_blanksOf (s : Spot) (cs : List Char) : tokensFrom s (blanksOf cs) = [] := by
  induction cs generalizing s with
  | nil => rfl
  | cons c cs ih => exact ih (s.next (.separator c))

section

variable {front : List Char} {turns turns' : List (List Lexeme × List Lexeme)}
  {last last' : List Lexeme}

theorem Trimmed.tokenTurns_eq (h : Trimmed front turns last turns' last') (s : Spot) :
    tokenTurns s turns = tokenTurns (s.after (blanksOf front)) turns' ∧
      tokensFrom (s.afterTurns turns) last
        = tokensFrom ((s.after (blanksOf front)).afterTurns turns') last' := by
  induction h generalizing s with
  | nil front last =>
    refine ⟨rfl, ?_⟩
    show tokensFrom s (blanksOf front ++ last) = tokensFrom (s.after (blanksOf front)) last
    rw [tokensFrom_append, tokensFrom_blanksOf, List.nil_append]
  | @cons front back next a m turns turns' last last' _ ih =>
    have hspot : ((s.after (blanksOf front)).after a).after (blanksOf back ++ (m ++ blanksOf next))
        = ((s.after (blanksOf front ++ (a ++ blanksOf back))).after m).after (blanksOf next) := by
      simp only [Spot.after_append]
    obtain ⟨hturns, hlast⟩ := ih ((s.after (blanksOf front ++ (a ++ blanksOf back))).after m)
    rw [Spot.afterTurns_cons, Spot.afterTurns_cons, hspot]
    refine ⟨?_, hlast⟩
    rw [tokenTurns, tokenTurns, hspot, hturns]
    simp only [tokensFrom_append, tokensFrom_blanksOf, Spot.after_append, List.nil_append,
      List.append_nil]

theorem Trimmed.settled (h : Trimmed front turns last turns' last') {s : Spot} {left : Prop}
    (hsettled : SettledTurns s left turns last) :
    SettledTurns (s.after (blanksOf front)) left turns' last' := by
  induction h generalizing s left with
  | nil front last =>
    intro hleft
    have hfirst := hsettled hleft
    rwa [tokensFrom_append, tokensFrom_blanksOf, List.nil_append] at hfirst
  | @cons front back next a m turns turns' last last' _ ih =>
    obtain ⟨hfirst, hafter, hrest⟩ := hsettled
    have hspot : ((s.after (blanksOf front)).after a).after (blanksOf back ++ (m ++ blanksOf next))
        = ((s.after (blanksOf front ++ (a ++ blanksOf back))).after m).after (blanksOf next) := by
      simp only [Spot.after_append]
    have htokens : tokensFrom s (blanksOf front ++ (a ++ blanksOf back))
        = tokensFrom (s.after (blanksOf front)) a := by
      simp only [tokensFrom_append, tokensFrom_blanksOf, List.nil_append, List.append_nil]
    have hpending : (s.after (blanksOf front ++ (a ++ blanksOf back))).pending
        = ((s.after (blanksOf front)).after a).pending := by
      rw [Spot.after_append, Spot.after_append, pending_after_blanksOf]
    rw [htokens] at hfirst
    rw [htokens, hpending] at hrest
    refine ⟨hfirst, ?_, hspot ▸ ih hrest⟩
    rw [hspot, pending_after_blanksOf]
    exact hafter

end

/-! ## From tokens to lexemes -/

/-- A token among those of some lexemes is one of the lexemes. -/
theorem exists_lexeme {s : Spot} {ls : List Lexeme} {as bs : List Token} {t : Token}
    (h : tokensFrom s ls = as ++ t :: bs) :
    ∃ la l lb, ls = la ++ l :: lb ∧ tokensFrom s la = as ∧ l.kind = .token t.kind ∧
      t = (s.after la).token t.kind l ∧ tokensFrom ((s.after la).next l) lb = bs := by
  induction ls generalizing s as with
  | nil =>
    rw [tokensFrom] at h
    exact absurd h (by simp)
  | cons l ls ih =>
    cases hkind : l.kind with
    | token kind =>
      rw [tokensFrom, hkind] at h
      cases as with
      | nil =>
        obtain ⟨rfl, rfl⟩ := List.cons.inj h
        exact ⟨[], l, ls, rfl, rfl, hkind, rfl, rfl⟩
      | cons a as =>
        obtain ⟨rfl, htail⟩ := List.cons.inj h
        obtain ⟨la, m, lb, rfl, hla, hm, ht, hlb⟩ := ih htail
        refine ⟨l :: la, m, lb, rfl, ?_, hm, ht, hlb⟩
        rw [tokensFrom, hkind, hla]
    | blank =>
      rw [tokensFrom, hkind] at h
      obtain ⟨la, m, lb, rfl, hla, hm, ht, hlb⟩ := ih h
      refine ⟨l :: la, m, lb, rfl, ?_, hm, ht, hlb⟩
      rw [tokensFrom, hkind, hla]
    | comment =>
      rw [tokensFrom, hkind] at h
      obtain ⟨la, m, lb, rfl, hla, hm, ht, hlb⟩ := ih h
      refine ⟨l :: la, m, lb, rfl, ?_, hm, ht, hlb⟩
      rw [tokensFrom, hkind, hla]

/-- Lexemes without tokens are blanks and comments. -/
theorem between_of_tokensFrom_eq_nil {s : Spot} {ls : List Lexeme} (h : tokensFrom s ls = []) :
    ∀ l ∈ ls, l.IsBetween := by
  induction ls generalizing s with
  | nil => exact fun l hl => absurd hl List.not_mem_nil
  | cons l ls ih =>
    intro m hm
    rw [tokensFrom] at h
    cases hkind : l.kind with
    | token => rw [hkind] at h; cases h
    | blank =>
      rw [hkind] at h
      rcases List.mem_cons.mp hm with rfl | hm
      · exact .inl hkind
      · exact ih h m hm
    | comment =>
      rw [hkind] at h
      rcases List.mem_cons.mp hm with rfl | hm
      · exact .inr hkind
      · exact ih h m hm

/-- A token that is written as its kind demands is a boundary if its kind is. -/
theorem isBoundary_of_token {s : Spot} {l : Lexeme} {t : Token} (hkind : l.kind = .token t.kind)
    (ht : t = s.token t.kind l) (hspelled : t.Spelled) (h : t.kind.isBoundary = true) :
    ∃ m : Mark, t.kind = .mark m ∧ m.isBoundary = true ∧
      l = ⟨.token (.mark m), m.text.toList⟩ := by
  cases hm : t.kind with
  | mark m =>
    rw [hm] at h hkind
    refine ⟨m, rfl, h, ?_⟩
    have htext : String.ofList l.text = m.text := by
      unfold Token.Spelled at hspelled
      rw [hm] at hspelled
      rw [ht] at hspelled
      exact hspelled
    obtain ⟨kind, text⟩ := l
    cases hkind
    rw [← htext, String.toList_ofList]
  | name => rw [hm] at h; cases h
  | number => rw [hm] at h; cases h
  | string => rw [hm] at h; cases h
  | template => rw [hm] at h; cases h
  | keyword => rw [hm] at h; cases h

/-- The lexemes of tokens that end with a boundary are calm. -/
theorem calm_of_tokensFrom {s : Spot} {ls : List Lexeme}
    (hspelled : ∀ t ∈ tokensFrom s ls, t.Spelled)
    (h : ∀ t ∈ (tokensFrom s ls).getLast?, t.kind.isBoundary = true) : Calm ls := by
  rcases List.eq_nil_or_concat (tokensFrom s ls) with hnil | ⟨ts, t, hts⟩
  · exact ⟨[], ls, rfl, between_of_tokensFrom_eq_nil hnil, by simp⟩
  · rw [List.concat_eq_append] at hts
    obtain ⟨la, l, lb, rfl, -, hkind, ht, hlb⟩ := exists_lexeme hts
    obtain ⟨m, -, hm, hl⟩ := isBoundary_of_token hkind ht (hspelled t (by rw [hts]; simp))
      (h t (by rw [hts]; simp))
    refine ⟨la ++ [l], lb, by simp, between_of_tokensFrom_eq_nil hlb, ?_⟩
    rw [List.getLast?_concat]
    rintro _ ⟨⟩
    exact ⟨m, hm, hl⟩

/-- Documentation that is pending after some lexemes is one of them, if none was pending
before, and nothing but blanks and plain comments comes after it. -/
theorem exists_documentation {s : Spot} {ls : List Lexeme} {doc : DocComment}
    (hs : s.pending = []) (h : lastDoc? (s.after ls).pending = some doc) :
    ∃ la l lb, ls = la ++ l :: lb ∧ l.kind = .comment ∧ (∀ m ∈ lb, m.IsGap) ∧
      DocComment.read? (String.ofList l.text) (s.after la).offset = some doc := by
  -- the last lexeme decides: a token drops what is pending, a gap keeps it, a documentation is
  -- it
  induction ls using List.reverseRecOn generalizing doc with
  | nil =>
    rw [Spot.after, List.foldl_nil, hs] at h
    cases h
  | append_singleton ls l ih =>
    have hlater (hl : l.IsGap) (h : lastDoc? (s.after ls).pending = some doc) :
        ∃ la m lb, ls ++ [l] = la ++ m :: lb ∧ m.kind = .comment ∧ (∀ m ∈ lb, m.IsGap) ∧
          DocComment.read? (String.ofList m.text) (s.after la).offset = some doc := by
      obtain ⟨la, m, lb, rfl, hm, hlb, hread⟩ := ih h
      refine ⟨la, m, lb ++ [l], by simp, hm, fun x hx => ?_, hread⟩
      rcases List.mem_append.mp hx with hx | hx
      · exact hlb x hx
      · rw [List.mem_singleton.mp hx]
        exact hl
    rw [Spot.after_append] at h
    have hnext : (s.after ls).after [l] = (s.after ls).next l := rfl
    rw [hnext, Spot.next] at h
    simp only at h
    cases hkind : l.kind with
    | token => rw [hkind] at h; cases h
    | blank =>
      rw [hkind] at h
      exact hlater (.inl hkind) h
    | comment =>
      rw [hkind] at h
      simp only [lastDoc?, List.findSome?_cons, Spot.comment] at h
      split at h
      · next heq =>
        cases h
        exact ⟨ls, l, [], rfl, hkind, by simp, heq⟩
      · next hnone =>
        refine hlater (.inr ⟨hkind, ?_⟩) h
        rw [← Bool.not_eq_true, ← DocComment.read?_eq_some_iff]
        rintro ⟨doc', hdoc'⟩
        rw [hnone] at hdoc'
        cases hdoc'

theorem tokensFrom_eq_nil {s : Spot} {ls : List Lexeme} (h : ∀ l ∈ ls, l.IsBetween) :
    tokensFrom s ls = [] := by
  induction ls generalizing s with
  | nil => rfl
  | cons l ls ih =>
    have hrest := @ih (s.next l) fun m hm => h m (List.mem_cons_of_mem _ hm)
    rw [tokensFrom, hrest]
    rcases h l (List.mem_cons_self ..) with hkind | hkind <;> rw [hkind]

/-- What is pending stays pending after blanks and comments. -/
theorem exists_pending {s : Spot} {ls : List Lexeme} (h : ∀ l ∈ ls, l.IsBetween) :
    ∃ comments, (s.after ls).pending = comments ++ s.pending := by
  induction ls generalizing s with
  | nil => exact ⟨[], rfl⟩
  | cons l ls ih =>
    obtain ⟨comments, hcomments⟩ := @ih (s.next l) fun m hm => h m (List.mem_cons_of_mem _ hm)
    have hcons : s.after (l :: ls) = (s.next l).after ls := rfl
    rw [hcons, hcomments, Spot.next]
    rcases h l (List.mem_cons_self ..) with hkind | hkind
    · rw [hkind]
      exact ⟨comments, rfl⟩
    · rw [hkind]
      exact ⟨comments ++ [s.comment l], by simp⟩

/-- Comments that are pending begin within the lexemes of the scan. -/
theorem bounds_of_mem_pending {s : Spot} {ls : List Lexeme} (hne : ∀ l ∈ ls, l.text ≠ [])
    (hs : s.pending = []) {c : Comment} (h : c ∈ (s.after ls).pending) :
    s.offset ≤ c.start ∧ c.start < (s.after ls).offset := by
  -- the last lexeme drops what is pending, keeps it, or is a comment that begins where it does
  induction ls using List.reverseRecOn with
  | nil =>
    rw [Spot.after, List.foldl_nil, hs] at h
    cases h
  | append_singleton ls l ih =>
    have hpos := List.length_pos_iff.mpr (hne l (by simp))
    have hnext : (s.after (ls ++ [l])) = (s.after ls).next l := Spot.after_append ..
    rw [hnext, Spot.offset_next]
    rw [hnext, Spot.next] at h
    have hearlier (h : c ∈ (s.after ls).pending) :
        s.offset ≤ c.start ∧ c.start < (s.after ls).offset + l.text.length := by
      have := ih (fun m hm => hne m (List.mem_append_left _ hm)) h
      omega
    simp only at h
    cases hkind : l.kind with
    | token => rw [hkind] at h; cases h
    | blank =>
      rw [hkind] at h
      exact hearlier h
    | comment =>
      rw [hkind] at h
      rcases List.mem_cons.mp h with rfl | h
      · have hle : s.offset ≤ (s.after ls).offset := by
          rw [s.offset_after]
          exact Nat.le_add_right ..
        exact ⟨hle, Nat.lt_add_of_pos_right hpos⟩
      · exact hearlier h

/-- Comments that travel with a token begin before it. -/
theorem start_lt_of_mem_comments {ls : List Lexeme} (hne : ∀ l ∈ ls, l.text ≠ []) {t : Token}
    (ht : t ∈ tokensFrom .origin ls) {c : Comment} (hc : c ∈ t.comments) : c.start < t.start := by
  obtain ⟨as, bs, htokens⟩ := List.append_of_mem ht
  obtain ⟨la, l, lb, rfl, -, -, htoken, -⟩ := exists_lexeme htokens
  rw [htoken, Spot.token, List.mem_reverse] at hc
  rw [htoken]
  exact (bounds_of_mem_pending (fun m hm => hne m (List.mem_append_left _ hm)) rfl hc).2

theorem DocComment.start_of_read? {comment : String} {start : Nat} {doc : DocComment}
    (h : DocComment.read? comment start = some doc) : doc.start = start := by
  have hfold := DocComment.unplaced_foldl (DocComment.tagsOf comment.toList) ⟨[], none, none, 0⟩ start
  unfold DocComment.read? at h
  split at h
  · cases h
    simp only at hfold
    rw [hfold]
  · cases h

/-! ### Statements among tokens -/

/-- The part of a text that some tokens take up, with the documentation before them. -/
def cutSpan (ts : List Token) : Text.Span :=
  ⟨(ts.head?.map fun t => match t.doc? with
      | some doc => min t.start doc.start
      | none => t.start).getD 0,
    (ts.getLast?.map (·.stop)).getD 0⟩

/-- What is cut ends with a semicolon, and what is kept before it with a boundary. -/
structure CutsStatement (turn : List Token × List Token) : Prop where
  before : ∀ t ∈ turn.1.getLast?, t.kind.isBoundary = true
  last : ∃ t ∈ turn.2.getLast?, t.kind = .mark .semicolon

/-- The lexemes of tokens that end with a semicolon. -/
theorem exists_ending {s : Spot} {ls : List Lexeme} {ms bs : List Token}
    (h : tokensFrom s ls = ms ++ bs) (hspelled : ∀ t ∈ tokensFrom s ls, t.Spelled)
    {e : Token} (he : ms.getLast? = some e) (hkind : e.kind = .mark .semicolon) :
    ∃ lm lb, ls = lm ++ lb ∧ tokensFrom s lm = ms ∧ tokensFrom (s.after lm) lb = bs ∧
      lm.getLast? = some ⟨.token (.mark .semicolon), [';']⟩ ∧ (s.after lm).pending = [] ∧
      (s.after lm).offset = e.stop := by
  obtain ⟨ms, rfl⟩ := List.getLast?_eq_some_iff.mp he
  rw [List.append_assoc, List.singleton_append] at h
  obtain ⟨la, l, lb, rfl, hla, hl, ht, hlb⟩ := exists_lexeme h
  obtain ⟨m, hm, -, rfl⟩ := isBoundary_of_token hl ht (hspelled e (by rw [h]; simp))
    (by rw [hkind]; rfl)
  rw [hkind] at hm
  cases hm
  refine ⟨la ++ [⟨.token (.mark .semicolon), [';']⟩], lb, ?_, ?_, ?_, ?_, ?_, ?_⟩
  · rw [List.append_assoc]
    rfl
  · rw [tokensFrom_append, hla, ht, hkind]
    rfl
  · rw [Spot.after_append]
    exact hlb
  · exact List.getLast?_concat ..
  · rw [Spot.after_append]
    rfl
  · rw [Spot.after_append, ht]
    rfl

/-- The lexemes before some tokens, without the documentation of the first one. -/
theorem exists_beginning {s : Spot} {la : List Lexeme} {t : Token} {ms : List Token} {l : Lexeme}
    (hs : s.pending = []) (ht : t = (s.after la).token t.kind l) (hms : ms.head? = some t) :
    ∃ lb lg, la = lb ++ lg ∧ (∀ m ∈ lg, m.IsBetween) ∧ (∀ m ∈ lg.head?, m.kind ≠ .blank) ∧
      (s.after lb).offset = (cutSpan ms).start := by
  have hdoc : t.doc? = lastDoc? (s.after la).pending := by
    rw [Token.doc?, ht, Spot.token]
    simp only [List.reverse_reverse]
  have hplace : t.start = (s.after la).offset := by rw [ht]; rfl
  cases h : t.doc? with
  | none =>
    refine ⟨la, [], by simp, by simp, by simp, ?_⟩
    rw [cutSpan, hms]
    simp only [Option.map_some, Option.getD_some, h]
    exact hplace.symm
  | some doc =>
    -- what is cut begins at the comment that documents the first token
    rw [hdoc] at h
    obtain ⟨lb, c, lg, rfl, hc, hlg, hread⟩ := exists_documentation hs h
    have hstart := DocComment.start_of_read? hread
    have hbetween : ∀ m ∈ c :: lg, m.IsBetween := by
      intro m hm
      rcases List.mem_cons.mp hm with rfl | hm
      · exact .inr hc
      · exact (hlg m hm).between
    have hcut : (s.after lb).offset = (cutSpan ms).start := by
      have hle : (s.after lb).offset ≤ t.start := by
        rw [hplace, Spot.after_append, Spot.offset_after (s.after lb)]
        exact Nat.le_add_right ..
      rw [cutSpan, hms]
      simp only [Option.map_some, Option.getD_some, hdoc, h]
      omega
    refine ⟨lb, c :: lg, rfl, hbetween, ?_, hcut⟩
    rintro m ⟨⟩
    rw [hc]
    simp

/-- What is cut begins with its first token or with the documentation before it. -/
theorem cuttable_of_tokens {l : Lexeme} {lb lg lm lr : List Lexeme} {kind : TokenKind}
    (hl : l.kind = .token kind) (hblank : ∀ m ∈ lg.head?, m.kind ≠ .blank)
    (hlm : l :: lb = lm ++ lr)
    (hlast : lm.getLast? = some ⟨.token (.mark .semicolon), [';']⟩) : Cuttable (lg ++ lm) := by
  refine ⟨?_, by rw [List.getLast?_append, hlast]; rfl⟩
  cases lg with
  | cons => exact hblank
  | nil =>
    obtain ⟨lm, rfl⟩ : ∃ lm', lm = l :: lm' := by
      cases lm with
      | nil => cases hlast
      | cons =>
        cases hlm
        exact ⟨_, rfl⟩
    rintro _ ⟨⟩
    rw [hl]
    simp

/-- One statement that tokens are cut by is one that their lexemes are cut by. Between its end
and the lexemes after it nothing is pending. -/
theorem exists_turn {s : Spot} {ls : List Lexeme} {as ms more : List Token}
    (h : tokensFrom s ls = as ++ (ms ++ more)) (hs : s.pending = [])
    (hspelled : ∀ t ∈ tokensFrom s ls, t.Spelled) (hcut : CutsStatement (as, ms)) :
    ∃ a m lr, ls = a ++ (m ++ lr) ∧ tokensFrom s a = as ∧ tokensFrom (s.after a) m = ms ∧
      tokensFrom ((s.after a).after m) lr = more ∧ Calm a ∧ Cuttable m ∧
      ((s.after a).after m).pending = [] ∧
      cutSpan ms = ⟨(s.after a).offset, ((s.after a).after m).offset⟩ := by
  obtain ⟨hbefore, e, he, hsemicolon⟩ := hcut
  obtain ⟨t, ms', hms⟩ : ∃ t ms', ms = t :: ms' := by
    refine List.exists_cons_of_ne_nil ?_
    rintro rfl
    cases he
  -- the first token of the statement, and its last
  obtain ⟨la, l, lb, rfl, hla, hl, ht, hlb⟩ := exists_lexeme (by rw [h, hms]; rfl)
  have hl' : tokensFrom (s.after la) (l :: lb) = ms ++ more := by
    rw [tokensFrom, hl]
    show (s.after la).token t.kind l :: _ = _
    rw [← ht, hlb, hms]
    rfl
  have hsplit := tokensFrom_append s la (l :: lb)
  obtain ⟨lm, lr, hlm, htokens, hrest, hlast, hpending, hstop⟩ := exists_ending hl'
    (fun t h => hspelled t (hsplit ▸ List.mem_append_right _ h)) he hsemicolon
  -- the statement takes in its documentation, and what stands between the two
  obtain ⟨a, lg, rfl, hbetween, hblank, hstart⟩ := exists_beginning hs ht
    (show ms.head? = some t by rw [hms]; rfl)
  have has : tokensFrom s a = as := by
    rw [← hla, tokensFrom_append, tokensFrom_eq_nil hbetween, List.append_nil]
  have hspot : (s.after a).after (lg ++ lm) = (s.after (a ++ lg)).after lm := by
    rw [Spot.after_append, Spot.after_append]
  refine ⟨a, lg ++ lm, lr, by rw [hlm]; simp only [List.append_assoc], has, ?_, ?_, ?_,
    cuttable_of_tokens hl hblank hlm hlast, by rw [hspot, hpending], ?_⟩
  · rw [tokensFrom_append, tokensFrom_eq_nil hbetween, ← Spot.after_append, htokens,
      List.nil_append]
  · rw [hspot, hrest]
  · refine calm_of_tokensFrom (s := s) (fun t ht => hspelled t ?_) (has ▸ hbefore)
    rw [hsplit, tokensFrom_append]
    exact List.mem_append_left _ (List.mem_append_left _ ht)
  · rw [hspot, hstop, hstart, cutSpan, he]
    rfl

/-- Statements that tokens are woven of are woven of lexemes: what is cut is calm before, and
takes up the spans of the statements. -/
theorem exists_turns {s : Spot} {ls : List Lexeme} {cuts : List (List Token × List Token)}
    {rest : List Token} (h : tokensFrom s ls = woven cuts rest) (hs : s.pending = [])
    (hspelled : ∀ t ∈ tokensFrom s ls, t.Spelled) (hcuts : ∀ t ∈ cuts, CutsStatement t) :
    ∃ turns last, ls = woven turns last ∧ tokenTurns s turns = cuts ∧
      tokensFrom (s.afterTurns turns) last = rest ∧ (∀ t ∈ turns, Calm t.1) ∧
      (∀ t ∈ turns, Cuttable t.2) ∧
      spansFrom s.offset (textTurns turns) = cuts.map fun t => cutSpan t.2 := by
  induction cuts generalizing s ls with
  | nil =>
    exact ⟨[], ls, rfl, rfl, h, by simp, by simp, rfl⟩
  | cons turn cuts ih =>
    obtain ⟨as, ms⟩ := turn
    obtain ⟨hcut, hcuts⟩ := List.forall_mem_cons.mp hcuts
    obtain ⟨a, m, lr, rfl, has, hms, hrest, hcalm, hcuttable, hpending, hspan⟩ :=
      exists_turn h hs hspelled hcut
    have hspelled' : ∀ t ∈ tokensFrom ((s.after a).after m) lr, t.Spelled := by
      intro t ht
      refine hspelled t ?_
      rw [tokensFrom_append, tokensFrom_append]
      exact List.mem_append_right _ (List.mem_append_right _ ht)
    obtain ⟨turns, last, rfl, hturns, hlasts, hcalms, hcuttables, hspans⟩ :=
      ih hrest hpending hspelled' hcuts
    refine ⟨(a, m) :: turns, last, rfl, ?_, ?_, List.forall_mem_cons.mpr ⟨hcalm, hcalms⟩,
      List.forall_mem_cons.mpr ⟨hcuttable, hcuttables⟩, ?_⟩
    · rw [tokenTurns, has, hms, hturns]
    · rw [Spot.afterTurns_cons, hlasts]
    · have hlength (ls : List Lexeme) (s : Spot) :
          (s.after ls).offset = s.offset + (textOf ls).length := s.offset_after ls
      rw [textTurns_cons, spansFrom, List.map_cons, ← hspans, ← hlength, ← hlength, hspan]

end Script

end SuperForward
