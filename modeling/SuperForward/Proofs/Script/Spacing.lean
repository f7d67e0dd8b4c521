/-
  Spacing between the lexemes of a text.

  A lexeme that ends in a part of a text is the lexeme that this part begins with alone, and a
  separator after it does not change it. So separators, and comments that document nothing with
  separators around them, can be put wherever a lexeme ends, and the lexemes before and after
  stay the same. There are two exceptions: a line of comment would take in what comes after it,
  and a slash before a star would open a comment that may be closed later on.
-/
import SuperForward.Proofs.Script.Documentation

namespace SuperForward.Script

open SuperForward.DocComment (takeWhile_append_stop)
open SuperForward.Text (isDecimalDigit)

/-! ## Lengths within a part of a text -/

section

variable {u v w : List Char} {e : Char}

/-- A run that ends in a part of a text is a run of the part. -/
theorem takeWhile_of_le {p : Char → Bool} (h : runLength p (u ++ v) ≤ u.length) :
    (u ++ v).takeWhile p = u.takeWhile p := by
  induction u with
  | nil => exact List.length_eq_zero_iff.mp (Nat.le_zero.mp h)
  | cons c u ih =>
    unfold runLength at h
    simp only [List.cons_append, List.takeWhile_cons] at h ⊢
    split
    · next hc =>
      rw [if_pos hc] at h
      rw [ih (Nat.le_of_succ_le_succ h)]
    · rfl

theorem runLength_of_le {p : Char → Bool} (h : runLength p (u ++ v) ≤ u.length) :
    runLength p (u ++ v) = runLength p u := congrArg List.length (takeWhile_of_le h)

/-- What an exponent takes up after its sign. -/
theorem digits_of_le {sign : Nat} (hsign : sign ≤ u.length)
    (h : (if (runLength isDecimalDigit ((u ++ v).drop sign) == 0) = true then 0
        else 1 + sign + runLength isDecimalDigit ((u ++ v).drop sign)) ≤ u.length + 1) :
    runLength isDecimalDigit ((u ++ v).drop sign) = runLength isDecimalDigit (u.drop sign) := by
  rw [List.drop_append_of_le_length hsign] at h ⊢
  refine runLength_of_le ?_
  rw [List.length_drop]
  split at h
  · next hzero =>
    rw [beq_iff_eq.mp hzero]
    exact Nat.zero_le _
  · omega

/-- An exponent has two characters at least. -/
theorem exponentLength_eq_zero_or_le (cs : List Char) :
    exponentLength cs = 0 ∨ 2 ≤ exponentLength cs := by
  have key : ∀ sign digits : Nat,
      (if (digits == 0) = true then 0 else 1 + sign + digits) = 0 ∨
        2 ≤ if (digits == 0) = true then 0 else 1 + sign + digits := by
    intro sign digits
    split
    · exact .inl rfl
    · next hdigits =>
      simp only [beq_iff_eq] at hdigits
      omega
  unfold exponentLength
  split
  · split
    · exact key _ _
    · exact .inl rfl
  · exact .inl rfl

theorem exponentLength_of_le (h : exponentLength (u ++ v) ≤ u.length) :
    exponentLength (u ++ v) = exponentLength u := by
  rcases u with _ | ⟨c, _ | ⟨d, u⟩⟩
  · exact Nat.le_zero.mp h
  · have hsingle : exponentLength [c] = 0 := by
      simp [exponentLength, runLength]
    rcases exponentLength_eq_zero_or_le ([c] ++ v) with hzero | hlong
    · rw [hzero, hsingle]
    · rw [List.length_singleton] at h
      omega
  · simp only [List.cons_append, exponentLength, List.length_cons] at h ⊢
    split
    · next he =>
      rw [if_pos he] at h
      have hdigits := @digits_of_le (d :: u) v (if (d == '+' || d == '-') = true then 1 else 0)
        (by rw [List.length_cons]; split <;> omega) h
      rw [List.cons_append] at hdigits
      rw [hdigits]
    · rfl

theorem fractionLength_of_le (h : fractionLength (u ++ v) ≤ u.length) :
    fractionLength (u ++ v) = fractionLength u := by
  rcases u with _ | ⟨c, u⟩
  · exact Nat.le_zero.mp h
  · by_cases hc : c = '.'
    · subst hc
      simp only [List.cons_append, fractionLength, List.length_cons] at h ⊢
      rw [runLength_of_le (by omega)]
    · have hnone (cs : List Char) : fractionLength (c :: cs) = 0 := by
        unfold fractionLength
        split
        · next heq => exact absurd (List.cons.inj heq).1 hc
        · rfl
      rw [List.cons_append, hnone, hnone]

/-- A decimal number in terms of its digits before the point. -/
theorem decimalLength_eq {cs : List Char} {whole : Nat} (h : runLength isDecimalDigit cs = whole) :
    decimalLength cs = if whole = 0 ∧ whole + fractionLength (cs.drop whole) ≤ 1 then 0
      else whole + fractionLength (cs.drop whole)
        + exponentLength (cs.drop (whole + fractionLength (cs.drop whole))) := by
  subst h
  unfold decimalLength
  simp only [Bool.and_eq_true, beq_iff_eq, decide_eq_true_eq]

theorem decimalLength_of_le (h : decimalLength (u ++ v) ≤ u.length) :
    decimalLength (u ++ v) = decimalLength u := by
  -- the digits before the point are no more than the number, even where there is none
  have hwhole : runLength isDecimalDigit (u ++ v) = runLength isDecimalDigit u := by
    refine runLength_of_le ?_
    rw [decimalLength_eq rfl] at h
    split at h <;> omega
  have hle := runLength_le isDecimalDigit u
  have hdrop : (u ++ v).drop (runLength isDecimalDigit u)
      = u.drop (runLength isDecimalDigit u) ++ v := List.drop_append_of_le_length hle
  rw [decimalLength_eq hwhole, hdrop] at h
  rw [decimalLength_eq hwhole, decimalLength_eq rfl, hdrop]
  have hdropped : (u.drop (runLength isDecimalDigit u)).length
      = u.length - runLength isDecimalDigit u := List.length_drop
  generalize runLength isDecimalDigit u = whole at *
  rcases Nat.eq_zero_or_pos u.length with hu | hu
  · obtain rfl := List.length_eq_zero_iff.mp hu
    split at h
    · next hnone =>
      rw [if_pos hnone, if_pos ⟨hnone.1, by rw [hnone.1]; decide⟩]
    · simp only [List.length_nil] at h
      omega
  · have hfraction : fractionLength (u.drop whole ++ v) = fractionLength (u.drop whole) := by
      refine fractionLength_of_le ?_
      split at h <;> omega
    rw [hfraction] at h ⊢
    have hbody := fractionLength_le (u.drop whole)
    rw [List.drop_append_of_le_length (by omega)] at h ⊢
    split
    · rfl
    · next hsome =>
      rw [if_neg hsome] at h
      rw [exponentLength_of_le (by rw [List.length_drop]; omega)]

theorem numberLength_singleton (c : Char) : numberLength [c] = decimalLength [c] := by
  unfold numberLength
  split
  · next heq => cases heq
  · rfl

theorem numberLength_cons_cons (c d : Char) (cs : List Char) :
    numberLength (c :: d :: cs)
      = if c = '0' ∧ (d = 'x' ∨ d = 'X') ∧ runLength isHexDigit cs ≠ 0
        then 2 + runLength isHexDigit cs else decimalLength (c :: d :: cs) := by
  unfold numberLength
  split
  · next heq =>
    cases heq
    simp only [Bool.and_eq_true, Bool.or_eq_true, beq_iff_eq, bne_iff_ne, true_and]
  · next hother =>
    rw [if_neg]
    rintro ⟨rfl, -⟩
    exact hother _ _ rfl

theorem numberLength_of_le (h : numberLength (u ++ v) ≤ u.length) :
    numberLength (u ++ v) = numberLength u := by
  rcases u with _ | ⟨c, _ | ⟨d, u⟩⟩
  · exact Nat.le_zero.mp h
  · cases v with
    | nil => rw [List.append_nil]
    | cons d v =>
      -- the marker of a hexadecimal number would be beyond the end
      simp only [List.cons_append, List.nil_append, numberLength_cons_cons,
        List.length_singleton] at h ⊢
      rw [numberLength_singleton]
      split at h
      · omega
      · next hdecimal =>
        rw [if_neg hdecimal]
        exact decimalLength_of_le (u := [c]) h
  · simp only [List.cons_append, numberLength_cons_cons, List.length_cons] at h ⊢
    have hhex (hmark : c = '0' ∧ (d = 'x' ∨ d = 'X')) :
        runLength isHexDigit (u ++ v) = runLength isHexDigit u := by
      refine runLength_of_le ?_
      split at h
      · omega
      · -- a marker without digits marks nothing, with the text after it or without
        next hdecimal =>
        have hzero : runLength isHexDigit (u ++ v) = 0 := by
          by_contra hne
          exact hdecimal ⟨hmark.1, hmark.2, hne⟩
        omega
    by_cases hmark : c = '0' ∧ (d = 'x' ∨ d = 'X')
    · rw [hhex hmark] at h ⊢
      split
      · rfl
      · next hdecimal =>
        rw [if_neg hdecimal] at h
        exact decimalLength_of_le (u := c :: d :: u) h
    · have hdecimal (n : Nat) : ¬(c = '0' ∧ (d = 'x' ∨ d = 'X') ∧ n ≠ 0) :=
        fun hc => hmark ⟨hc.1, hc.2.1⟩
      rw [if_neg (hdecimal _)] at h ⊢
      rw [if_neg (hdecimal _)]
      exact decimalLength_of_le (u := c :: d :: u) h

/-- A mark that ends in a part of a text is the longest one that the part begins with. -/
theorem Mark.longest?_of_le {m : Mark} (h : Mark.longest? (u ++ v) = some m)
    (hm : m.text.length ≤ u.length) : Mark.longest? u = some m := by
  obtain ⟨hstarts, before, after, hall, hbefore⟩ := List.find?_eq_some_iff_append.mp h
  refine List.find?_eq_some_iff_append.mpr ⟨?_, before, after, hall, fun m' hm' => ?_⟩
  · rw [List.isPrefixOf_iff_prefix] at hstarts ⊢
    refine List.prefix_of_prefix_length_le hstarts (List.prefix_append u v) ?_
    rwa [String.length_toList]
  · -- a mark before it in the table is no beginning of the whole text, so not of the part
    have hnot := hbefore m' hm'
    simp only [Bool.not_eq_true', ← Bool.not_eq_true, List.isPrefixOf_iff_prefix] at hnot ⊢
    exact fun hu => hnot (hu.trans (List.prefix_append u v))

/-- Where no comment begins, none begins after a separator is put in, unless it was open. -/
theorem commentLength_eq_none_stop (hu : u ≠ []) (he : e ∈ stoppers) (hslash : e ≠ '/')
    (hopen : ¬['/', '*'] <+: u) (h : commentLength (u ++ v) = none) :
    commentLength (u ++ e :: w) = none := by
  have hstar : e ≠ '*' := by
    rintro rfl
    revert he
    decide
  rcases u with _ | ⟨c, _ | ⟨d, u⟩⟩
  · exact absurd rfl hu
  · unfold commentLength
    split
    · next heq =>
      cases heq
      exact absurd rfl hslash
    · next heq =>
      cases heq
      exact absurd rfl hstar
    · rfl
  · unfold commentLength at h ⊢
    split
    · next heq =>
      cases heq
      cases h
    · next heq =>
      cases heq
      exact absurd ⟨u, rfl⟩ hopen
    · rfl

/-- A comment that is followed by something in a part of a text does not depend on what comes
after the part. -/
theorem commentLength_within {n : Nat} (h : commentLength (u ++ v) = some n) (hn : n < u.length) :
    commentLength (u ++ w) = some n := by
  obtain rfl | ⟨u, x, rfl⟩ := List.eq_nil_or_concat u
  · exact absurd hn (Nat.not_lt_zero n)
  · simp only [List.concat_eq_append, List.append_assoc, List.singleton_append, List.length_append,
      List.length_singleton] at h hn ⊢
    exact commentLength_exchange h (Nat.le_of_lt_succ hn)

end

/-! ## Lexemes before a separator -/

/-- A lexeme that ends in a part of a text stays the same if a separator is put after the part,
unless it is a comment up to the end of the part, or a comment is opened there. -/
theorem nextLexeme_stop {u v w : List Char} {e : Char} {kind : LexemeKind} {n : Nat}
    (he : isSeparator e = true) (h : nextLexeme (u ++ v) = some (kind, n)) (hpos : u ≠ [])
    (hn : n ≤ u.length) (hblank : kind ≠ .blank) (hcomment : kind = .comment → n < u.length)
    (hopen : kind ≠ .comment → ¬['/', '*'] <+: u) :
    nextLexeme (u ++ e :: w) = some (kind, n) := by
  have hmem := mem_stoppers_of_isSeparator he
  have hstop := not_goesOn_of_mem_stoppers hmem
  have hpart : isNamePart e = false := by
    simp only [goesOn, Bool.or_eq_false_iff] at hstop
    exact hstop.1.1.1
  have hslash : e ≠ '/' := by
    rintro rfl
    revert he
    decide
  have hnone := commentLength_eq_none_stop (v := v) (w := w) hpos hmem hslash
  have hsome {n : Nat} := commentLength_within (u := u) (v := v) (w := e :: w) (n := n)
  have hnumber := numberLength_stop (u := u) (v := w) hstop
  have hmark := Mark.longest?_stop (v := w) hpos hmem
  have hword : (u ++ e :: w).takeWhile isNamePart = u.takeWhile isNamePart :=
    takeWhile_append_stop hpart _ _
  obtain ⟨c, u, rfl⟩ := List.exists_cons_of_ne_nil hpos
  -- within the part, lexemes are as long as they were; after it, the separator stops them
  have hnumber' := numberLength_of_le (u := c :: u) (v := v)
  have hmark' {m : Mark} := Mark.longest?_of_le (u := c :: u) (v := v) (m := m)
  have hword' := takeWhile_of_le (u := c :: u) (v := v) (p := isNamePart)
  simp only [List.cons_append, List.length_cons] at hnone hsome hnumber hmark hword
  simp only [List.cons_append, List.length_cons] at hword' hnumber' hmark'
  simp only [List.cons_append, List.length_cons] at h hn hcomment ⊢
  rw [nextLexeme_eq_some_iff] at h ⊢
  cases h with
  | blank => exact absurd rfl hblank
  | word separator name =>
    have hbegins : Begins c (u ++ e :: w) _ _ := .word separator name
    have htake := hword' hn
    unfold runLength at hbegins ⊢
    rw [hword] at hbegins
    rw [htake]
    exact hbegins
  | string quote length =>
    have hescape : c ≠ '\\' := by rcases quote with rfl | rfl <;> decide
    exact .string quote (stringLength_exchange length (by omega) hescape)
  | template quote length => exact .template quote (templateLength_exchange length (by omega))
  | comment other length => exact .comment other (hsome length (hcomment rfl))
  | number other noComment digits =>
    have hbegins := Begins.number other (hnone (hopen (by simp)) noComment)
    rw [hnumber, ← hnumber' hn] at hbegins
    exact hbegins digits
  | mark other noComment noDigits longest =>
    have hzero : numberLength (c :: u) = 0 := by rw [← hnumber' (by omega), noDigits]
    exact .mark other (hnone (hopen (by simp)) noComment) (hnumber.trans hzero)
      (hmark.trans (hmark' longest hn))

/-! ## Putting in a separator -/

theorem length_textOf_cons (l : Lexeme) (ls : List Lexeme) :
    (textOf (l :: ls)).length = l.text.length + (textOf ls).length := by
  rw [textOf, List.flatMap_cons, List.length_append]

theorem length_textOf_append (ls ms : List Lexeme) :
    (textOf (ls ++ ms)).length = (textOf ls).length + (textOf ms).length := by
  rw [textOf_append, List.length_append]

/-- No comment is opened by the last lexemes that is none. -/
def Unopened (ls : List Lexeme) : Prop :=
  ∀ l back, l :: back <:+ ls → l.kind ≠ .comment → ¬['/', '*'] <+: textOf (l :: back)

/-- Lexemes that do not end in a line of comment, and in which no comment is opened, stay the same
before a separator. -/
theorem CutInto.exchange_separator {as bs ls : List Lexeme} {e : Char} {w : List Char}
    (he : isSeparator e = true) (hline : ∀ l ∈ as.getLast?, ¬l.IsLine) (hopen : Unopened as)
    (h : CutInto (textOf (as ++ bs)) (as ++ bs)) (hls : CutInto (e :: w) ls) :
    CutInto (textOf as ++ e :: w) (as ++ ls) := by
  -- the lexemes after the first one are cut as before by induction, so that only the first one
  -- has to be looked at, in the text up to the separator
  induction as with
  | nil => exact hls
  | cons a as ih =>
    have hrest : CutInto (textOf as ++ e :: w) (as ++ ls) := by
      refine ih (fun l hl => hline l ?_) (fun l back hback => hopen l back ?_) h.tail
      · rw [List.getLast?_cons, Option.mem_def.mp hl]
        rfl
      · exact hback.trans (List.suffix_cons a as)
    have hsplit (cs : List Char) : textOf (a :: as) ++ cs = a.text ++ (textOf as ++ cs) := by
      rw [textOf, List.flatMap_cons, List.append_assoc]
    rw [hsplit]
    by_cases hend : a.kind = .comment ∧ as = []
    · -- a comment directly before the separator is closed by itself
      obtain ⟨ha, rfl⟩ := hend
      exact (h.closed_of_not_isLine ha (hline a rfl)).cutInto hrest
    · rcases h.cons_inv with ⟨c, rest, -, hc, rfl, -⟩ | ⟨kind, n, next, nonblank, ha, -⟩
      · exact .separator hc hrest
      · obtain ⟨hpos, hle⟩ := nextLexeme_bounds next
        have hn : a.text.length = n := by
          rw [ha, List.length_take]
          exact Nat.min_eq_left hle
        obtain rfl : a.kind = kind := by rw [ha]
        subst hn
        refine .of_next ?_ nonblank hrest
        have hlength := length_textOf_cons a as
        rw [← hsplit]
        refine nextLexeme_stop (v := textOf bs) he ?_ ?_ (by omega) nonblank (fun ha => ?_)
          (hopen a as List.suffix_rfl)
        · rwa [← textOf_append]
        · exact List.ne_nil_of_length_pos (by omega)
        · -- another lexeme follows the comment, and it has a character
          obtain ⟨b, as, rfl⟩ := List.exists_cons_of_ne_nil fun has => hend ⟨ha, has⟩
          have hb := List.length_pos_iff.mpr (h.ne_nil b (by simp))
          rw [hlength, length_textOf_cons]
          omega

/-! ## Spacing -/

/-- A text that nothing is made of: separators, and comments that document nothing with separators
around each of them. A line of comment ends with a line feed. -/
inductive Spacing : List Char → Prop
  | nil : Spacing []
  | separator {c : Char} {rest : List Char} (hc : isSeparator c = true) (h : Spacing rest) :
      Spacing (c :: rest)
  | comment {c d : Char} {body rest : List Char} (hc : isSeparator c = true)
      (hd : isSeparator d = true) (ends : ['*', '/'] <:+ body)
      (first : ¬['*', '/'] <:+: body.dropLast)
      (plain : DocComment.isDocComment (String.ofList ('/' :: '*' :: body)) = false)
      (h : Spacing (d :: rest)) : Spacing (c :: '/' :: '*' :: body ++ d :: rest)
  | line {c : Char} {body rest : List Char} (hc : isSeparator c = true) (hbody : '\n' ∉ body)
      (h : Spacing ('\n' :: rest)) : Spacing (c :: '/' :: '/' :: body ++ '\n' :: rest)

/-- A comment is closed where its closing delimiter stands for the first time. -/
theorem closingLength_eq_length {body : List Char} (ends : ['*', '/'] <:+ body)
    (first : ¬['*', '/'] <:+: body.dropLast) : closingLength body = some body.length := by
  induction body with
  | nil => exact absurd ends.length_le (by decide)
  | cons c body ih =>
    by_cases hclose : c = '*' ∧ ∃ rest, body = '/' :: rest
    · obtain ⟨rfl, rest, rfl⟩ := hclose
      cases rest with
      | nil => rfl
      | cons d rest => exact absurd ⟨[], (d :: rest).dropLast, rfl⟩ first
    · have hbody : ['*', '/'] <:+ body := by
        refine (List.suffix_cons_iff.mp ends).resolve_left fun heq => hclose ?_
        cases heq
        exact ⟨rfl, [], rfl⟩
      have hne : body ≠ [] := by
        rintro rfl
        exact absurd hbody.length_le (by decide)
      rw [closingLength_cons fun rest hc hrest => hclose ⟨hc, rest, hrest⟩, ih hbody]
      · rfl
      · rw [List.dropLast_cons_of_ne_nil hne] at first
        exact fun hin => first (hin.trans (List.suffix_cons c _).isInfix)

theorem isDocComment_line (body : List Char) :
    DocComment.isDocComment (String.ofList ('/' :: '/' :: body)) = false := by
  simp [DocComment.isDocComment]

/-- A line of comment ends before the line feed. -/
theorem CutInto.line {body rest : List Char} {ls : List Lexeme} (hbody : '\n' ∉ body)
    (h : CutInto ('\n' :: rest) ls) :
    CutInto ('/' :: '/' :: body ++ '\n' :: rest) (⟨.comment, '/' :: '/' :: body⟩ :: ls) := by
  have hrun : runLength (· != '\n') (body ++ '\n' :: rest) = body.length := by
    rw [runLength_stop (by decide), runLength, List.takeWhile_eq_self_iff.mpr]
    intro c hc
    simpa using ne_of_mem_of_not_mem hc hbody
  have hnext : nextLexeme ('/' :: '/' :: body ++ '\n' :: rest)
      = some (.comment, ('/' :: '/' :: body).length) := by
    refine nextLexeme_eq_some_iff.mpr (.comment ⟨rfl, rfl, by decide, by decide⟩ ?_)
    rw [List.append_eq, List.cons_append, commentLength, hrun, Nat.add_comm]
    rfl
  exact .of_next (l := ⟨.comment, '/' :: '/' :: body⟩) hnext (by simp) h

/-- Spacing is cut into lexemes that separate, whatever comes after it. -/
theorem Spacing.exists_gap {cs : List Char} (h : Spacing cs) :
    ∃ gap, textOf gap = cs ∧ (∀ l ∈ gap, l.IsGap) ∧
      ∀ {rest : List Char} {ls : List Lexeme}, CutInto rest ls →
        CutInto (cs ++ rest) (gap ++ ls) := by
  induction h with
  | nil => exact ⟨[], rfl, List.forall_mem_nil _, id⟩
  | @separator c rest hc _ ih =>
    obtain ⟨gap, rfl, hgap, hcut⟩ := ih
    exact ⟨.separator c :: gap, rfl, List.forall_mem_cons.mpr ⟨.inl rfl, hgap⟩,
      fun hls => .separator hc (hcut hls)⟩
  | @comment c d body rest hc _ ends first plain _ ih =>
    obtain ⟨gap, hgapText, hgap, hcut⟩ := ih
    have hclosed := Lexeme.Closed.comment (closingLength_eq_length ends first)
    refine ⟨.separator c :: ⟨.comment, '/' :: '*' :: body⟩ :: gap, ?_, ?_, fun hls => ?_⟩
    · rw [← hgapText]
      rfl
    · exact List.forall_mem_cons.mpr ⟨.inl rfl, List.forall_mem_cons.mpr ⟨.inr ⟨rfl, plain⟩, hgap⟩⟩
    · have hrest := hclosed.cutInto (hcut hls)
      simpa only [List.cons_append, List.append_assoc] using CutInto.separator hc hrest
  | @line c body rest hc hbody _ ih =>
    obtain ⟨gap, hgapText, hgap, hcut⟩ := ih
    refine ⟨.separator c :: ⟨.comment, '/' :: '/' :: body⟩ :: gap, ?_, ?_, fun hls => ?_⟩
    · rw [← hgapText]
      rfl
    · exact List.forall_mem_cons.mpr ⟨.inl rfl,
        List.forall_mem_cons.mpr ⟨.inr ⟨rfl, isDocComment_line body⟩, hgap⟩⟩
    · have hrest := hcut hls
      rw [List.cons_append] at hrest
      have hline := CutInto.line hbody hrest
      simpa only [List.cons_append, List.append_assoc] using CutInto.separator hc hline

/-- What begins with spacing begins with a separator. -/
theorem Spacing.eq_nil_or {cs : List Char} (h : Spacing cs) :
    cs = [] ∨ ∃ e rest, cs = e :: rest ∧ isSeparator e = true := by
  cases h with
  | nil => exact .inl rfl
  | separator hc => exact .inr ⟨_, _, rfl, hc⟩
  | comment hc => exact .inr ⟨_, _, rfl, hc⟩
  | line hc => exact .inr ⟨_, _, rfl, hc⟩

/-! ## Places between lexemes -/

/-- The place between two parts of a text is not inside a lexeme, and not directly at the end of a
line of comment. -/
def Between (before after : List Char) : Prop :=
  ∀ as l bs, CutInto (before ++ after) (as ++ l :: bs) →
    (before.length ≤ (textOf as).length ∨ (textOf as).length + l.text.length ≤ before.length) ∧
      (l.IsLine → before.length ≠ (textOf as).length + l.text.length)

/-- A text is cut into lexemes in one way. -/
theorem CutInto.unique {cs : List Char} {ls ms : List Lexeme} (h : CutInto cs ls)
    (h' : CutInto cs ms) : ls = ms := by
  induction h generalizing ms with
  | nil =>
    cases h' with
    | nil => rfl
    | lexeme next => cases next
  | separator hc _ ih =>
    cases h' with
    | separator _ after => rw [ih after]
    | lexeme next nonblank => exact absurd (kind_of_separator hc next) nonblank
  | lexeme next nonblank _ ih =>
    cases h' with
    | nil => cases next
    | separator hc => exact absurd (kind_of_separator hc next) nonblank
    | lexeme next' _ after =>
      cases next.symm.trans next'
      rw [ih after]

/-- What divides the lexemes of a text, and does not follow a line of comment, is a place between
them. -/
theorem between_of_cutInto {before after : List Char} {as bs : List Lexeme}
    (h : CutInto (before ++ after) (as ++ bs)) (hbefore : textOf as = before)
    (hline : ∀ l ∈ as.getLast?, ¬l.IsLine) : Between before after := by
  subst hbefore
  intro as' l bs' h'
  have heq := h'.unique h
  have hne {m : Lexeme} (hm : m ∈ as ++ bs) : 0 < m.text.length :=
    List.length_pos_iff.mpr (h.ne_nil m hm)
  have hl := hne (m := l) (by rw [← heq]; simp)
  rcases List.append_eq_append_iff.mp heq with ⟨ms, rfl, hms⟩ | ⟨ms, rfl, -⟩
  · rw [length_textOf_append]
    cases ms with
    | nil => exact ⟨.inl (Nat.le_refl _), fun _ => (Nat.lt_add_of_pos_right hl).ne⟩
    | cons m ms =>
      cases hms
      rw [length_textOf_cons]
      refine ⟨.inr (by omega), fun hl heq => ?_⟩
      -- the line of comment would have to be the last lexeme before the place
      cases ms with
      | nil => exact hline l (by simp) hl
      | cons m ms =>
        have hpos := hne (m := m) (by simp)
        rw [length_textOf_cons] at heq
        omega
  · rw [length_textOf_append]
    exact ⟨.inl (Nat.le_add_right _ _), fun _ => by omega⟩

/-- Lexemes that stand before a place or after it are divided by it. -/
theorem exists_divided {ls : List Lexeme} {before after : List Char}
    (htext : textOf ls = before ++ after)
    (hends : ∀ as l bs, ls = as ++ l :: bs →
      before.length ≤ (textOf as).length ∨ (textOf as).length + l.text.length ≤ before.length) :
    ∃ as bs, ls = as ++ bs ∧ textOf as = before := by
  induction ls generalizing before with
  | nil => exact ⟨[], [], rfl, (List.append_eq_nil_iff.mp htext.symm).1.symm⟩
  | cons l ls ih =>
    rcases hends [] l ls rfl with hempty | hlong
    · obtain rfl := List.length_eq_zero_iff.mp (Nat.le_zero.mp hempty)
      exact ⟨[], l :: ls, rfl, rfl⟩
    · replace hlong : l.text.length ≤ before.length := (Nat.zero_add _).symm.trans_le hlong
      rw [textOf, List.flatMap_cons] at htext
      obtain ⟨rest, rfl⟩ : l.text <+: before :=
        List.prefix_of_prefix_length_le ⟨_, htext⟩ (List.prefix_append before after) hlong
      rw [List.append_assoc, List.append_cancel_left_eq] at htext
      obtain ⟨as, bs, rfl, hrest⟩ := ih htext fun as m bs heq => by
        have hplace := hends (l :: as) m bs (by rw [heq]; rfl)
        rw [length_textOf_cons, List.length_append] at hplace
        omega
      exact ⟨l :: as, bs, rfl, by rw [textOf, List.flatMap_cons, ← hrest]⟩

/-- The lexemes of a text are divided by a place between them. -/
theorem Between.exists_divided {before after : List Char} (h : Between before after)
    {ls : List Lexeme} (hls : CutInto (before ++ after) ls) :
    ∃ as bs, ls = as ++ bs ∧ textOf as = before ∧ textOf bs = after ∧
      ∀ l ∈ as.getLast?, ¬l.IsLine := by
  have htext : textOf ls = before ++ after := hls.flatten_eq
  obtain ⟨as, bs, rfl, rfl⟩ := Script.exists_divided htext fun as l bs heq =>
    (h as l bs (heq ▸ hls)).1
  rw [textOf_append, List.append_cancel_left_eq] at htext
  refine ⟨as, bs, rfl, rfl, htext, fun l hl hline => ?_⟩
  obtain ⟨as, rfl⟩ := List.getLast?_eq_some_iff.mp hl
  rw [List.append_assoc] at hls
  exact (h as l bs hls).2 hline (by simp [textOf])

/-- Spacing between the lexemes of a text, in which no comment is opened, puts lexemes in that
separate, and leaves the others as they are. -/
theorem CutInto.exists_spaced {as bs : List Lexeme} (hline : ∀ l ∈ as.getLast?, ¬l.IsLine)
    (hopen : Unopened as) (h : CutInto (textOf (as ++ bs)) (as ++ bs)) {spacing : List Char}
    (hspacing : Spacing spacing) :
    ∃ gap, (∀ l ∈ gap, l.IsGap) ∧
      CutInto (textOf as ++ spacing ++ textOf bs) (as ++ gap ++ bs) := by
  obtain ⟨gap, -, hgap, hcut⟩ := hspacing.exists_gap
  have hbs := hcut h.of_append
  obtain rfl | ⟨e, rest, rfl, he⟩ := hspacing.eq_nil_or
  · refine ⟨[], List.forall_mem_nil _, ?_⟩
    rwa [List.append_nil, List.append_nil, ← textOf_append]
  · refine ⟨gap, hgap, ?_⟩
    rw [List.append_assoc, List.append_assoc]
    rw [List.cons_append] at hbs
    exact h.exchange_separator he hline hopen hbs

end SuperForward.Script
