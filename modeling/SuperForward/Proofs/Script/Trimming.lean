/-
  Statements that are cut out of a text with their lines.

  What is cut grows to the indentation before it and the line break after it. Between the token
  that ends the statement before and the statement that is cut there are only blanks and
  comments, so that what it grows by are separators, and what is kept has a closed end.
-/
import SuperForward.Proofs.Script.Excision
import Mathlib.Data.List.TakeWhile

namespace SuperForward

/-! ## Indentation and line breaks -/

namespace Text.Span

/-- The line break after a span is a part of what comes before a character that is no blank. -/
theorem exists_break (as bs : List Char)
    (hbs : ∀ c ∈ bs.head?, isIndent c = false ∧ c ≠ '\r' ∧ c ≠ '\n') :
    ∃ front rest, as = front ++ rest ∧ front.length = (breakLength (as ++ bs)).getD 0 ∧
      (∀ c ∈ front, isIndent c = true ∨ c = '\r' ∨ c = '\n') ∧
      (front = [] ∨ front.getLast? = some '\n') := by
  have hblanks : as.takeWhile isIndent ++ as.dropWhile isIndent = as :=
    List.takeWhile_append_dropWhile
  have hindent : ∀ c ∈ as.takeWhile isIndent, isIndent c = true :=
    fun c hc => List.all_eq_true.mp List.all_takeWhile c hc
  generalize as.takeWhile isIndent = blanks at hblanks hindent
  have hstop : ∀ c ∈ (as.dropWhile isIndent ++ bs).head?, isIndent c = false := by
    intro c hc
    cases hrest : as.dropWhile isIndent with
    | nil =>
      rw [hrest] at hc
      exact (hbs c hc).1
    | cons d rest =>
      rw [hrest] at hc
      cases hc
      have hhead := List.head?_dropWhile_not isIndent as
      rw [hrest] at hhead
      simpa using hhead
  generalize as.dropWhile isIndent = rest at hblanks hstop
  subst hblanks
  have htake : (blanks ++ rest ++ bs).takeWhile isIndent = blanks := by
    rw [List.append_assoc, List.takeWhile_append_of_pos hindent]
    cases hrest : rest ++ bs with
    | nil => simp
    | cons d after =>
      rw [hrest] at hstop
      rw [List.takeWhile_cons_of_neg (by simp [hstop d rfl]), List.append_nil]
  -- after the indentation there is a line break of either kind, or there is none
  unfold breakLength
  rw [htake]
  simp only
  rw [List.append_assoc, List.drop_left]
  split
  · next heq =>
    rcases rest with _ | ⟨c, _ | ⟨d, rest⟩⟩
    · rw [List.nil_append] at heq
      rw [heq] at hbs
      exact absurd rfl (hbs _ rfl).2.1
    · simp only [List.cons_append, List.nil_append, List.cons.injEq] at heq
      rw [heq.2] at hbs
      exact absurd rfl (hbs _ rfl).2.2
    · simp only [List.cons_append, List.cons.injEq] at heq
      obtain ⟨rfl, rfl, -⟩ := heq
      refine ⟨blanks ++ ['\r', '\n'], rest, by simp, by simp, ?_, .inr (by simp)⟩
      intro c hc
      rcases List.mem_append.mp hc with hc | hc
      · exact .inl (hindent c hc)
      · exact .inr (by simpa using hc)
  · next heq =>
    rcases rest with _ | ⟨c, rest⟩
    · rw [List.nil_append] at heq
      rw [heq] at hbs
      exact absurd rfl (hbs _ rfl).2.2
    · simp only [List.cons_append, List.cons.injEq] at heq
      obtain ⟨rfl, -⟩ := heq
      refine ⟨blanks ++ ['\n'], rest, by simp, by simp, ?_, .inr (by simp)⟩
      intro c hc
      rcases List.mem_append.mp hc with hc | hc
      · exact .inl (hindent c hc)
      · exact .inr (.inr (by simpa using hc))
  · exact ⟨[], blanks ++ rest, rfl, rfl, by simp, .inl rfl⟩

/-- The indentation before a span is at the end of what comes after a character that is neither
a blank nor a line break. -/
theorem exists_indent (before as : List Char)
    (hbefore : ∀ c ∈ before.getLast?, isIndent c = false ∧ c ≠ '\n') :
    ∃ rest back, as = rest ++ back ∧ (∀ c ∈ back, isIndent c = true) ∧
      indentStart (before ++ as).reverse (before ++ as).length = before.length + rest.length := by
  have hblanks : as.reverse.takeWhile isIndent ++ as.reverse.dropWhile isIndent = as.reverse :=
    List.takeWhile_append_dropWhile
  have hindent : ∀ c ∈ as.reverse.takeWhile isIndent, isIndent c = true :=
    fun c hc => List.all_eq_true.mp List.all_takeWhile c hc
  have hhead := List.head?_dropWhile_not isIndent as.reverse
  have hdrop : (before ++ as).reverse.dropWhile isIndent
      = if as.reverse.dropWhile isIndent = [] then before.reverse.dropWhile isIndent
        else as.reverse.dropWhile isIndent ++ before.reverse := by
    rw [List.reverse_append, List.dropWhile_append]
    simp only [List.isEmpty_iff]
  have hkeep : ∃ rest back, as = rest ++ back ∧ (∀ c ∈ back, isIndent c = true) ∧
      (before ++ as).length = before.length + rest.length :=
    ⟨as, [], by simp, by simp, by simp⟩
  unfold indentStart
  rw [hdrop]
  generalize as.reverse.takeWhile isIndent = blanks at hblanks hindent
  generalize as.reverse.dropWhile isIndent = rest at hblanks hhead
  have has : as = rest.reverse ++ blanks.reverse := by
    rw [← List.reverse_append, hblanks, List.reverse_reverse]
  rcases rest with _ | ⟨d, rest⟩
  · rw [if_pos rfl]
    -- nothing but blanks: the line begins where the text begins, or not here
    rcases List.eq_nil_or_concat before with rfl | ⟨before, d, rfl⟩
    · exact ⟨[], as, rfl, fun c hc => hindent c (by simpa [has] using hc), rfl⟩
    · obtain ⟨hd, hbreak⟩ := hbefore d (by simp)
      rw [List.concat_eq_append, List.reverse_append, List.reverse_singleton,
        List.singleton_append, List.dropWhile_cons_of_neg (by simp [hd])]
      simp only [beq_iff_eq, if_neg hbreak]
      simpa only [List.concat_eq_append] using hkeep
  · rw [if_neg (List.cons_ne_nil d rest), List.cons_append]
    simp only [beq_iff_eq]
    split
    · refine ⟨(d :: rest).reverse, blanks.reverse, has, fun c hc => hindent c (by simpa using hc), ?_⟩
      simp only [List.length_append, List.length_reverse, List.length_cons]
      omega
    · exact hkeep

/-- What a span grows to. -/
def grown (text : List Char) (s : Span) : Span :=
  ⟨indentStart (text.take s.start).reverse s.start,
    s.stop + (breakLength (text.drop s.stop)).getD 0⟩

theorem grow_eq {text : List Char} {s : Span} (h : s.start ≤ text.length) :
    grow text s = .ok (grown text s) := by
  unfold grow
  rw [if_neg (Nat.not_lt.mpr h)]
  rfl

end Text.Span

namespace Script

open SuperForward.Text (woven kept flatMapTurns spansFrom Span)

/-! ## Lexemes at the ends -/

/-- Separators as lexemes. -/
abbrev blanksOf (cs : List Char) : List Lexeme := cs.map .separator

theorem textOf_append (as bs : List Lexeme) : textOf (as ++ bs) = textOf as ++ textOf bs :=
  List.flatMap_append

theorem textOf_blanksOf (cs : List Char) : textOf (blanksOf cs) = cs := by
  induction cs with
  | nil => rfl
  | cons c cs ih => exact congrArg (c :: ·) ih

/-- What begins with a separator begins with a blank. -/
theorem kind_of_separator {c : Char} {cs : List Char} {kind : LexemeKind} {n : Nat}
    (hc : isSeparator c = true) (h : nextLexeme (c :: cs) = some (kind, n)) : kind = .blank := by
  have hbegins : Begins c cs .blank _ := .blank hc
  rw [nextLexeme_eq_some_iff.mpr hbegins] at h
  cases h
  rfl

/-- Separators at the beginning of a text are its first lexemes. -/
theorem CutInto.front {front rest : List Char} {as bs : List Lexeme}
    (hfront : ∀ c ∈ front, isSeparator c = true) (htext : textOf as = front ++ rest)
    (h : CutInto (textOf (as ++ bs)) (as ++ bs)) :
    ∃ as', as = blanksOf front ++ as' ∧ textOf as' = rest := by
  induction front generalizing as with
  | nil => exact ⟨as, rfl, htext⟩
  | cons c front ih =>
    cases as with
    | nil => cases htext
    | cons a as =>
      have hc := hfront c (List.mem_cons_self ..)
      have hcs : textOf (a :: as ++ bs) = c :: (front ++ rest ++ textOf bs) := by
        rw [textOf_append, htext]
        rfl
      rw [hcs] at h
      have htail := h.tail
      rcases h.cons_inv with ⟨d, cs, heq, -, rfl, -⟩ | ⟨kind, n, next, nonblank, -⟩
      · cases heq
        rw [textOf, List.flatMap_cons] at htext
        obtain ⟨as', rfl, hrest⟩ :=
          ih (fun d hd => hfront d (List.mem_cons_of_mem _ hd)) (List.cons.inj htext).2 htail
        exact ⟨as', rfl, hrest⟩
      · exact absurd (kind_of_separator hc next) nonblank

theorem commentLength_of_nextLexeme {cs : List Char} {n : Nat}
    (h : nextLexeme cs = some (.comment, n)) : commentLength cs = some n := by
  obtain ⟨c, rest, rfl, hbegins⟩ := exists_begins h
  cases hbegins with
  | comment _ length => exact length

/-- A comment ends where it ends. -/
theorem commentLength_take {cs : List Char} {n : Nat} (h : commentLength cs = some n) :
    commentLength (cs.take n) = some n := by
  unfold commentLength at h
  split at h
  · next rest =>
    cases h
    rw [Nat.add_comm, List.take_succ_cons, List.take_succ_cons, take_runLength]
    show some (2 + runLength (· != '\n') (rest.takeWhile (· != '\n'))) = _
    rw [runLength, List.takeWhile_idem, runLength, Nat.add_comm]
  · next rest =>
    obtain ⟨m, hm, rfl⟩ := Option.map_eq_some_iff.mp h
    have hle := closingLength_le hm
    rw [List.take_succ_cons, List.take_succ_cons]
    rw [← List.take_append_drop m rest] at hm
    have hclose := closingLength_exchange (w := []) hm (by rw [List.length_take]; omega)
    rw [List.append_nil] at hclose
    show (closingLength (rest.take m)).map _ = _
    rw [hclose]
    rfl
  · cases h

/-- A comment among the lexemes of a text is a comment by itself. -/
theorem CutInto.commentLength_eq {cs : List Char} {a : Lexeme} {bs : List Lexeme}
    (h : CutInto cs (a :: bs)) (ha : a.kind = .comment) :
    commentLength a.text = some a.text.length := by
  rcases h.cons_inv with ⟨c, rest, -, -, rfl, -⟩ | ⟨kind, n, next, -, rfl, -⟩
  · cases ha
  · obtain rfl : kind = .comment := ha
    have hle := (nextLexeme_bounds next).2
    have htake := commentLength_take (commentLength_of_nextLexeme next)
    rw [htake, List.length_take, Nat.min_eq_left hle]

/-- The lexeme is a comment to the end of its line. -/
def Lexeme.IsLine (l : Lexeme) : Prop := l.kind = .comment ∧ ['/', '/'] <+: l.text

/-- A comment that is no line of comment is closed. -/
theorem CutInto.closed_of_not_isLine {a : Lexeme} {bs : List Lexeme} {cs : List Char}
    (h : CutInto cs (a :: bs)) (ha : a.kind = .comment) (hline : ¬a.IsLine) : a.Closed := by
  have hlength := h.commentLength_eq ha
  obtain ⟨kind, text⟩ := a
  obtain rfl : kind = .comment := ha
  simp only at hlength
  unfold commentLength at hlength
  split at hlength
  · next rest => exact absurd ⟨rfl, rest, rfl⟩ hline
  · next rest =>
    obtain ⟨m, hm, hsum⟩ := Option.map_eq_some_iff.mp hlength
    simp only [List.length_cons, Nat.add_right_cancel_iff] at hsum
    exact .comment (hsum ▸ hm)
  · cases hlength

/-- A run does not end before a character that belongs to it. -/
theorem runLength_ne_of_mem {p : Char → Bool} {c : Char} (hc : p c = true) (u v : List Char) :
    runLength p (u ++ c :: v) ≠ u.length := by
  induction u with
  | nil => exact (runLength_pos hc).ne'
  | cons d u ih =>
    unfold runLength at *
    cases hd : p d with
    | false => simp [hd]
    | true => simpa [hd] using ih

/-- A comment that goes on with no line break is one between delimiters. -/
theorem CutInto.closed_of_comment {a : Lexeme} {bs : List Lexeme}
    (h : CutInto (textOf (a :: bs)) (a :: bs)) (ha : a.kind = .comment)
    (hbs : ∃ c cs, textOf bs = c :: cs ∧ c ≠ '\n') : a.Closed := by
  refine h.closed_of_not_isLine ha ?_
  rintro ⟨-, body, hbody⟩
  obtain ⟨c, cs, htext, hc⟩ := hbs
  rcases h.cons_inv with ⟨d, rest, -, -, rfl, -⟩ | ⟨kind, n, next, -, hlexeme, -⟩
  · cases ha
  obtain rfl : kind = .comment := by
    rw [hlexeme] at ha
    exact ha
  have hn : a.text.length = n := by
    have := (nextLexeme_bounds next).2
    rw [hlexeme, List.length_take]
    omega
  have hcomment := commentLength_of_nextLexeme next
  rw [show textOf (a :: bs) = a.text ++ textOf bs from List.flatMap_cons, htext, ← hn,
    ← hbody] at hcomment
  simp only [List.cons_append, List.nil_append, commentLength, Option.some.injEq,
    List.length_cons] at hcomment
  have hrun := runLength_ne_of_mem (p := (· != '\n')) (by simpa using hc) body cs
  omega

/-- The lexeme is a mark that statements begin after. -/
def Lexeme.IsBoundary (l : Lexeme) : Prop :=
  ∃ m : Mark, m.isBoundary = true ∧ l = ⟨.token (.mark m), m.text.toList⟩

/-- The lexeme is a blank or a comment. -/
def Lexeme.IsBetween (l : Lexeme) : Prop := l.kind = .blank ∨ l.kind = .comment

/-- The lexeme separates: it is a blank, or a comment that documents nothing. -/
def Lexeme.IsGap (l : Lexeme) : Prop :=
  l.kind = .blank ∨ l.kind = .comment ∧ DocComment.isDocComment (String.ofList l.text) = false

theorem Lexeme.IsGap.between {l : Lexeme} (h : l.IsGap) : l.IsBetween := h.imp_right And.left

/-- After the last token there are only blanks and comments, and it is a mark that statements
begin after, or there is none. -/
def Calm (ls : List Lexeme) : Prop :=
  ∃ before gap, ls = before ++ gap ∧ (∀ l ∈ gap, l.IsBetween) ∧
    ∀ l ∈ before.getLast?, l.IsBoundary

/-- No line of comment goes on with what comes next. -/
def GoesOn (ls : List Lexeme) : Prop := ∃ c cs, textOf ls = c :: cs ∧ c ≠ '\n'

/-- The last of some calm lexemes. -/
theorem Calm.getLast? {as : List Lexeme} {a : Lexeme} (h : Calm (as ++ [a])) :
    a.IsBoundary ∨ a.IsBetween ∧ Calm as := by
  obtain ⟨before, gap, heq, hgap, hbefore⟩ := h
  rcases List.eq_nil_or_concat gap with rfl | ⟨gap, l, rfl⟩
  · rw [List.append_nil] at heq
    exact .inl (hbefore a (by rw [← heq]; simp))
  · rw [List.concat_eq_append, ← List.append_assoc] at heq
    obtain ⟨rfl, h⟩ := List.append_inj' heq rfl
    cases h
    refine .inr ⟨hgap a (by simp), before, gap, rfl, fun l hl => hgap l ?_, hbefore⟩
    rw [List.concat_eq_append]
    exact List.mem_append_left _ hl

/-- Blanks are separators. -/
theorem CutInto.separator_of_blank {a : Lexeme} {bs : List Lexeme} {cs : List Char}
    (h : CutInto cs (a :: bs)) (ha : a.kind = .blank) :
    ∃ c, isSeparator c = true ∧ a = .separator c := by
  rcases h.cons_inv with ⟨c, rest, -, hc, rfl, -⟩ | ⟨kind, n, -, nonblank, rfl, -⟩
  · exact ⟨c, hc, rfl⟩
  · exact absurd ha nonblank

/-- The last of some calm lexemes is closed. -/
theorem Calm.closedEnd {as bs : List Lexeme} (h : Calm as) (hbs : GoesOn bs)
    (hcut : CutInto (textOf (as ++ bs)) (as ++ bs)) : ClosedEnd as := by
  intro a ha
  obtain ⟨as, rfl⟩ := List.getLast?_eq_some_iff.mp ha
  rw [List.append_assoc] at hcut
  rcases h.getLast? with ⟨m, hm, rfl⟩ | ⟨hblank | hcomment, -⟩
  · exact .boundary hm
  · obtain ⟨c, hc, rfl⟩ := hcut.of_append.separator_of_blank hblank
    exact .separator hc
  · exact hcut.of_append.closed_of_comment hcomment hbs

theorem isSeparator_of_isIndent {c : Char} (h : Span.isIndent c = true) :
    isSeparator c = true := by
  simp only [Span.isIndent, Bool.or_eq_true, beq_iff_eq] at h
  rcases h with rfl | rfl <;> decide

/-- Indentation at the end of calm lexemes are their last lexemes. -/
theorem CutInto.back {as bs : List Lexeme} {rest back : List Char}
    (hback : ∀ c ∈ back, Span.isIndent c = true) (htext : textOf as = rest ++ back)
    (hcalm : Calm as) (hbs : GoesOn bs) (h : CutInto (textOf (as ++ bs)) (as ++ bs)) :
    ∃ as', as = as' ++ blanksOf back ∧ textOf as' = rest ∧ Calm as' ∧
      GoesOn (blanksOf back ++ bs) := by
  -- one separator at a time, from the end
  induction hlength : back.length generalizing back as bs with
  | zero =>
    obtain rfl := List.length_eq_zero_iff.mp hlength
    rw [List.append_nil] at htext
    exact ⟨as, (List.append_nil as).symm, htext, hcalm, hbs⟩
  | succ n ih =>
    obtain ⟨back, c, rfl⟩ : ∃ back' c, back = back' ++ [c] := by
      rcases List.eq_nil_or_concat back with rfl | ⟨back, c, rfl⟩
      · cases hlength
      · exact ⟨back, c, List.concat_eq_append⟩
    have hc := hback c (by simp)
    rcases List.eq_nil_or_concat as with rfl | ⟨as, a, rfl⟩
    · simp [textOf] at htext
    rw [List.concat_eq_append] at htext hcalm h ⊢
    have hclosed : a.Closed := hcalm.closedEnd hbs h a (by simp)
    have ha : a.text ≠ [] := h.ne_nil a (by simp)
    have hends : textOf as ++ a.text = rest ++ back ++ [c] := by
      rw [List.append_assoc, ← htext, textOf_append, textOf, textOf, List.flatMap_singleton]
    have hlast : a.text.getLast? = some c := by
      rw [← List.getLast?_append_of_ne_nil (textOf as) ha, hends, List.getLast?_concat]
    -- calm lexemes end with a separator, a boundary or a comment, and only the first ends with
    -- indentation
    obtain rfl : a = .separator c := by
      cases hclosed with
      | separator => cases hlast; rfl
      | boundary hm =>
        exfalso
        rcases Mark.eq_of_isBoundary hm with rfl | rfl | rfl | rfl <;> cases hlast <;>
          revert hc <;> decide
      | comment hclose =>
        exfalso
        obtain ⟨cs, rfl⟩ := Lexeme.getLast?_of_closingLength hclose
        rw [← List.cons_append, ← List.cons_append, List.getLast?_concat] at hlast
        cases hlast
        revert hc
        decide
    have hcalm' : Calm as := by
      rcases hcalm.getLast? with ⟨m, -, h⟩ | ⟨-, h⟩
      · cases h
      · exact h
    have htext' : textOf as = rest ++ back := (List.append_inj' hends rfl).1
    have hgoes : GoesOn (.separator c :: bs) := by
      refine ⟨c, textOf bs, rfl, ?_⟩
      rintro rfl
      revert hc
      decide
    rw [List.append_assoc] at h
    obtain ⟨as', rfl, hrest, has, hgoes⟩ := ih (fun d hd => hback d (List.mem_append_left _ hd))
      htext' hcalm' hgoes h (by simpa using hlength)
    refine ⟨as', ?_, hrest, has, ?_⟩
    · rw [List.append_assoc, blanksOf, blanksOf, List.map_append]
      rfl
    · rw [blanksOf, List.map_append, List.append_assoc]
      exact hgoes

/-! ## Trimming -/

theorem Calm.of_append {as bs : List Lexeme} (h : Calm (as ++ bs)) : Calm bs := by
  obtain ⟨before, gap, heq, hgap, hbefore⟩ := h
  rcases List.append_eq_append_iff.mp heq with ⟨before, rfl, rfl⟩ | ⟨front, rfl, rfl⟩
  · refine ⟨before, gap, rfl, hgap, fun l hl => hbefore l ?_⟩
    rw [Option.mem_def, List.getLast?_append, Option.mem_def.mp hl]
    rfl
  · exact ⟨[], bs, rfl, fun l hl => hgap l (List.mem_append_right _ hl), by simp⟩

/-- The lexemes to be cut begin with no blank and end with a semicolon. -/
structure Cuttable (ls : List Lexeme) : Prop where
  first : ∀ l ∈ ls.head?, l.kind ≠ .blank
  last : ls.getLast? = some ⟨.token (.mark .semicolon), [';']⟩

/-- What is to be cut begins with a character that is no separator. -/
theorem Cuttable.exists_first {as bs : List Lexeme} (h : Cuttable as)
    (hcut : CutInto (textOf (as ++ bs)) (as ++ bs)) :
    ∃ c cs, textOf (as ++ bs) = c :: cs ∧ isSeparator c = false := by
  obtain ⟨l, ls, rfl⟩ : ∃ l ls, as = l :: ls := by
    refine List.exists_cons_of_ne_nil ?_
    rintro rfl
    cases h.last
  rw [List.cons_append] at hcut ⊢
  rcases hcut.cons_inv with ⟨c, rest, -, -, rfl, -⟩ | ⟨kind, n, next, nonblank, -, -⟩
  · exact absurd rfl (h.first _ rfl)
  · cases htext : textOf (l :: (ls ++ bs)) with
    | nil =>
      rw [htext] at next
      cases next
    | cons c cs =>
      refine ⟨c, cs, rfl, ?_⟩
      rw [← Bool.not_eq_true]
      intro hc
      rw [htext] at next
      exact nonblank (kind_of_separator hc next)

/-- Every cut takes in the separators at the end of what is kept before it, and at the beginning
of what is kept after it; those at the very beginning are left over. -/
inductive Trimmed : List Char → List (List Lexeme × List Lexeme) → List Lexeme →
    List (List Lexeme × List Lexeme) → List Lexeme → Prop
  | nil (front : List Char) (last : List Lexeme) :
      Trimmed front [] (blanksOf front ++ last) [] last
  | cons (front back : List Char) {next : List Char} {a m : List Lexeme}
      {turns turns' : List (List Lexeme × List Lexeme)} {last last' : List Lexeme}
      (rest : Trimmed next turns last turns' last') :
      Trimmed front ((blanksOf front ++ (a ++ blanksOf back), m) :: turns) last
        ((a, blanksOf back ++ (m ++ blanksOf next)) :: turns') last'

theorem Trimmed.woven_eq {front : List Char} {turns turns' : List (List Lexeme × List Lexeme)}
    {last last' : List Lexeme} (h : Trimmed front turns last turns' last') :
    woven turns last = blanksOf front ++ woven turns' last' := by
  induction h with
  | nil => rfl
  | cons front back _ ih => simp only [woven, ih, List.append_assoc]

/-- The turns with the texts of their lexemes. -/
def textTurns (turns : List (List Lexeme × List Lexeme)) : List (List Char × List Char) :=
  flatMapTurns Lexeme.text turns

theorem textTurns_cons (a m : List Lexeme) (turns : List (List Lexeme × List Lexeme)) :
    textTurns ((a, m) :: turns) = (textOf a, textOf m) :: textTurns turns := rfl

/-- What a line break after a span consists of separates. -/
theorem isSeparator_of_break {front : List Char}
    (h : ∀ c ∈ front, Span.isIndent c = true ∨ c = '\r' ∨ c = '\n') :
    ∀ c ∈ front, isSeparator c = true := by
  intro c hc
  rcases h c hc with h | rfl | rfl
  · exact isSeparator_of_isIndent h
  · decide
  · decide

/-- The line break after what was cut before is a part of what is kept, if something that is no
separator comes after that. Nothing was cut before the beginning of a text. -/
theorem exists_front (before : List Char) (as : List Lexeme) {bs : List Lexeme} {c : Char}
    {cs : List Char} (hbs : textOf bs = c :: cs) (hc : isSeparator c = false) :
    ∃ front rest, textOf as = front ++ rest ∧
      front.length = (if before = [] then 0
        else (Span.breakLength (textOf (as ++ bs))).getD 0) ∧
      (∀ c ∈ front, isSeparator c = true) ∧ ∀ c ∈ front.getLast?, c = '\n' := by
  by_cases hnil : before = []
  · exact ⟨[], textOf as, rfl, by rw [if_pos hnil]; rfl, by simp, by simp⟩
  have hstop : ∀ d ∈ (textOf bs).head?, Span.isIndent d = false ∧ d ≠ '\r' ∧ d ≠ '\n' := by
    intro d hd
    rw [hbs] at hd
    cases hd
    simp only [isSeparator, Bool.or_eq_false_iff, beq_eq_false_iff_ne] at hc
    simp [Span.isIndent, hc]
  obtain ⟨front, rest, htext, hlength, hfront, hlast⟩ :=
    Span.exists_break (textOf as) (textOf bs) hstop
  refine ⟨front, rest, htext, ?_, isSeparator_of_break hfront, ?_⟩
  · rw [if_neg hnil, hlength, ← textOf_append]
  · rcases hlast with rfl | hlast
    · simp
    · rw [hlast]
      simp

/-- Indentation does not reach back over a line break. -/
theorem exists_kept_of_append {front rest rest' back : List Char}
    (hfront : ∀ c ∈ front.getLast?, c = '\n') (hback : ∀ c ∈ back, Span.isIndent c = true)
    (h : front ++ rest = rest' ++ back) : ∃ kept, rest' = front ++ kept ∧ rest = kept ++ back := by
  rcases List.append_eq_append_iff.mp h with ⟨kept, rfl, rfl⟩ | ⟨extra, rfl, rfl⟩
  · exact ⟨kept, rfl, rfl⟩
  rcases List.eq_nil_or_concat extra with rfl | ⟨extra, d, rfl⟩
  · exact ⟨[], by simp, by simp⟩
  · exfalso
    obtain rfl := hfront d (by simp)
    have := hback '\n' (by simp)
    revert this
    decide

/-- A span grows by the indentation before it and by the line break after it. -/
theorem grown_eq {before kept back cut after : List Char} {n : Nat}
    (hindent : Span.indentStart (before ++ (kept ++ back)).reverse (before ++ (kept ++ back)).length
      = before.length + kept.length)
    (hbreak : n = (Span.breakLength after).getD 0) :
    Span.grown (before ++ (kept ++ back) ++ cut ++ after)
        ⟨before.length + (kept ++ back).length,
          before.length + (kept ++ back).length + cut.length⟩
      = ⟨before.length + kept.length, before.length + kept.length + (back ++ cut).length + n⟩ := by
  rw [Span.grown]
  simp only
  have htake : (before ++ (kept ++ back) ++ cut ++ after).take
      (before.length + (kept ++ back).length) = before ++ (kept ++ back) := by
    rw [List.append_assoc _ cut, ← List.length_append, List.take_left]
  have hdrop : (before ++ (kept ++ back) ++ cut ++ after).drop
      (before.length + (kept ++ back).length + cut.length) = after := by
    rw [← List.length_append, ← List.length_append, List.drop_left]
  rw [htake, hdrop, ← List.length_append, hindent, ← hbreak, Span.mk.injEq]
  refine ⟨rfl, ?_⟩
  simp only [List.length_append]
  omega

/-- What is kept before a cut gives its first separators to the cut before and its last ones to
this cut. -/
theorem exists_trimmed_kept {before : List Char} {a b : List Lexeme} {c : Char} {cs : List Char}
    (hbefore : ∀ c ∈ before.getLast?, Span.isIndent c = false ∧ c ≠ '\n')
    (hcalm : Calm a) (hb : textOf b = c :: cs) (hc : isSeparator c = false)
    (h : CutInto (textOf (a ++ b)) (a ++ b)) :
    ∃ front back kept, a = blanksOf front ++ (kept ++ blanksOf back) ∧
      front.length = (if before = [] then 0
        else (Span.breakLength (textOf (a ++ b))).getD 0) ∧
      Span.indentStart (before ++ textOf a).reverse (before ++ textOf a).length
        = before.length + (front ++ textOf kept).length ∧ ClosedEnd kept := by
  obtain ⟨front, rest, hfront, hlength, hfrontSep, hfrontEnd⟩ :=
    exists_front before a hb hc
  obtain ⟨rest', back, hback, hbackIndent, hindent⟩ :=
    Span.exists_indent before (textOf a) hbefore
  obtain ⟨a, rfl, hrest⟩ := h.front hfrontSep hfront
  obtain ⟨kept, rfl, hkept⟩ :=
    exists_kept_of_append hfrontEnd hbackIndent (hfront.symm.trans hback)
  have hgoes : GoesOn b := by
    refine ⟨c, cs, hb, ?_⟩
    rintro rfl
    revert hc
    decide
  rw [List.append_assoc] at h
  obtain ⟨a, rfl, hkept', hcalm', hgoes'⟩ :=
    CutInto.back hbackIndent (hrest.trans hkept) hcalm.of_append hgoes h.of_append
  have hcut := h.of_append
  rw [List.append_assoc] at hcut
  exact ⟨front, back, a, rfl, hlength, hkept' ▸ hindent, hcalm'.closedEnd hgoes' hcut⟩

/-- What is cut ends with a semicolon, which is neither a blank nor a line break. -/
theorem Cuttable.getLast? {m : List Lexeme} (h : Cuttable m) (before : List Char) :
    ∀ c ∈ (before ++ textOf m).getLast?, Span.isIndent c = false ∧ c ≠ '\n' := by
  obtain ⟨ls, rfl⟩ := List.getLast?_eq_some_iff.mp h.last
  intro c hc
  rw [textOf_append, ← List.append_assoc, show textOf [⟨.token (.mark .semicolon), [';']⟩] = [';']
    from rfl, List.getLast?_concat] at hc
  cases hc
  decide

/-- Statements that stand between boundaries can be trimmed to what their spans grow to, and
what is kept has closed ends. -/
theorem exists_trimmed {turns : List (List Lexeme × List Lexeme)} {last : List Lexeme}
    (hcalm : ∀ t ∈ turns, Calm t.1) (hcut : ∀ t ∈ turns, Cuttable t.2) {before : List Char}
    (hbefore : ∀ c ∈ before.getLast?, Span.isIndent c = false ∧ c ≠ '\n')
    (h : CutInto (textOf (woven turns last)) (woven turns last)) :
    ∃ front turns' last', Trimmed front turns last turns' last' ∧
      front.length = (if before = [] then 0
        else (Span.breakLength (textOf (woven turns last))).getD 0) ∧
      (spansFrom before.length (textTurns turns)).map
          (Span.grown (before ++ textOf (woven turns last)))
        = spansFrom (before.length + front.length) (textTurns turns') ∧
      ∀ t ∈ turns', ClosedEnd t.1 := by
  induction turns generalizing before with
  | nil =>
    by_cases hnil : before = []
    · exact ⟨[], [], last, .nil [] last, by rw [if_pos hnil]; rfl, rfl, by simp⟩
    obtain ⟨front, rest, htext, hlength, hfront, -⟩ :=
      Span.exists_break (textOf last) [] (by simp)
    rw [List.append_nil] at hlength
    have hlast : CutInto (textOf (last ++ [])) (last ++ []) := by rwa [List.append_nil]
    obtain ⟨last', rfl, -⟩ := hlast.front (isSeparator_of_break hfront) htext
    exact ⟨front, [], last', .nil front last', by rw [if_neg hnil, hlength]; rfl, rfl, by simp⟩
  | cons t turns ih =>
    obtain ⟨a, m⟩ := t
    have hm : Cuttable m := hcut (a, m) (List.mem_cons_self ..)
    rw [woven] at h
    obtain ⟨c, cs, hc, hseparator⟩ := hm.exists_first h.of_append
    -- what is cut later stands after this cut, which ends with a semicolon
    obtain ⟨next, turns', last', htrimmed, hnext, hspans, hclosed⟩ :=
      ih (fun t ht => hcalm t (List.mem_cons_of_mem _ ht))
        (fun t ht => hcut t (List.mem_cons_of_mem _ ht)) (hm.getLast? (before ++ textOf a))
        h.of_append.of_append
    have hcutText : before ++ textOf a ++ textOf m ≠ [] := by
      have hne : textOf m ≠ [] := by
        obtain ⟨ls, rfl⟩ := List.getLast?_eq_some_iff.mp hm.last
        rw [textOf_append]
        exact List.append_ne_nil_of_right_ne_nil _ (List.cons_ne_nil ';' [])
      exact List.append_ne_nil_of_right_ne_nil _ hne
    rw [if_neg hcutText] at hnext
    obtain ⟨front, back, kept, rfl, hlength, hindent, hkept⟩ :=
      exists_trimmed_kept hbefore (hcalm (a, m) (List.mem_cons_self ..)) hc hseparator h
    have ha : textOf (blanksOf front ++ (kept ++ blanksOf back))
        = front ++ textOf kept ++ back := by
      simp only [textOf_append, textOf_blanksOf, List.append_assoc]
    have hm' : textOf (blanksOf back ++ (m ++ blanksOf next)) = back ++ (textOf m ++ next) := by
      simp only [textOf_append, textOf_blanksOf]
    have hwhole : before ++ textOf (woven
          ((blanksOf front ++ (kept ++ blanksOf back), m) :: turns) last)
        = before ++ (front ++ textOf kept ++ back) ++ textOf m ++ textOf (woven turns last) := by
      simp only [woven, textOf_append, textOf_blanksOf, List.append_assoc]
    refine ⟨front, (kept, blanksOf back ++ (m ++ blanksOf next)) :: turns', last',
      .cons front back htrimmed, hlength, ?_, List.forall_mem_cons.mpr ⟨hkept, hclosed⟩⟩
    rw [ha] at hspans hindent
    rw [textTurns_cons, textTurns_cons, spansFrom, spansFrom, hwhole, ha, hm', List.map_cons,
      grown_eq hindent hnext]
    have hstart : before.length + (front ++ textOf kept).length
        = before.length + front.length + (textOf kept).length := by
      rw [List.length_append, Nat.add_assoc]
    have hoffset : before.length + (front ++ textOf kept ++ back).length + (textOf m).length
        = (before ++ (front ++ textOf kept ++ back) ++ textOf m).length := by
      simp only [List.length_append]
    have hoffset' : before.length + front.length + (textOf kept).length
          + (back ++ (textOf m ++ next)).length
        = (before ++ (front ++ textOf kept ++ back) ++ textOf m).length + next.length := by
      simp only [List.length_append]
      omega
    rw [hoffset, hspans, hoffset', hstart]
    simp only [List.length_append, Nat.add_assoc]

end Script

end SuperForward
