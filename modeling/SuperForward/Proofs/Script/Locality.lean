/-
  What a lexeme depends on.

  Separators, the marks that end statements and begin or end blocks, and the slash are stoppers:
  no lexeme that begins before one looks beyond it without taking it up. So what comes after a
  stopper can be exchanged, and the lexemes before it stay the same. Only an opening delimiter of
  a comment that is never closed looks further, to the end of the text; what is exchanged may
  not close it.
-/
import SuperForward.Proofs.DocTags
import SuperForward.Proofs.Script.Lexemes

namespace SuperForward.Script

open SuperForward.DocComment (takeWhile_append_stop)
open SuperForward.Text (isDecimalDigit)

/-! ## Stoppers -/

/-- The characters that stop every lexeme which does not take them up. -/
def stoppers : List Char := [' ', '\t', '\x0c', '\r', '\n', ';', '\x7b', '\x7d', ':', '/']

/-- No name, number or comment delimiter goes on with a stopper. -/
def goesOn (c : Char) : Bool :=
  isNamePart c || isDecimalDigit c || isHexDigit c ||
    ['x', 'X', 'e', 'E', '+', '-', '.', '*'].contains c

theorem not_goesOn_of_mem_stoppers {e : Char} (he : e ∈ stoppers) : goesOn e = false := by
  have hall : stoppers.all (fun c => !goesOn c) = true := by decide +kernel
  simpa using List.all_eq_true.mp hall e he

theorem mem_stoppers_of_isSeparator {e : Char} (h : isSeparator e = true) : e ∈ stoppers := by
  simp only [isSeparator, Bool.or_eq_true, beq_iff_eq] at h
  rcases h with (((rfl | rfl) | rfl) | rfl) | rfl <;> decide

/-- Stoppers stand in marks at the beginning only. -/
theorem Mark.not_mem_stoppers_of_mem_tail (m : Mark) {c : Char} (hc : c ∈ m.text.toList.tail) :
    c ∉ stoppers := by
  have hall : m.text.toList.tail.all (fun c => !stoppers.contains c) = true := by
    cases m <;> decide +kernel
  simpa using List.all_eq_true.mp hall c hc

/-! ## Lengths -/

section

variable {u v w : List Char} {e : Char}

/-- A run that ends before a character does not depend on what comes after it. -/
theorem runLength_exchange {p : Char → Bool} (h : runLength p (u ++ e :: v) ≤ u.length) :
    runLength p (u ++ e :: w) = runLength p (u ++ e :: v) := by
  induction u with
  | nil =>
    unfold runLength at *
    cases he : p e with
    | false => simp [he]
    | true => simp [he] at h
  | cons c u ih =>
    unfold runLength at *
    cases hc : p c with
    | false => simp [hc]
    | true =>
      simp only [List.cons_append, List.takeWhile_cons, hc, if_true, List.length_cons,
        Nat.add_le_add_iff_right] at h ⊢
      rw [ih h]

theorem runLength_stop {p : Char → Bool} (he : p e = false) :
    runLength p (u ++ e :: v) = runLength p u := by
  unfold runLength
  rw [takeWhile_append_stop he]

/-- A string has at least its closing quote. -/
theorem stringLength_pos {quote : Char} {cs : List Char} {n : Nat}
    (h : stringLength quote cs = some n) : 0 < n := by
  fun_induction stringLength quote cs with
  | case1 => cases h
  | case2 =>
    obtain ⟨m, -, rfl⟩ := Option.map_eq_some_iff.mp h
    exact Nat.succ_pos _
  | case3 =>
    cases h
    exact Nat.one_pos
  | case4 => cases h
  | case5 =>
    obtain ⟨m, -, rfl⟩ := Option.map_eq_some_iff.mp h
    exact Nat.succ_pos _
  | case6 => cases h

theorem stringLength_cons {quote c : Char} (hc : c ≠ '\\') (rest : List Char) :
    stringLength quote (c :: rest) = if c == quote then some 1
      else if c == '\n' || c == '\\' then none
      else (stringLength quote rest).map (· + 1) := by
  rw [stringLength]
  exact fun _ _ h _ => hc h

/-- A string that is closed in time does not depend on what comes after it. -/
theorem stringLength_exchange {quote : Char} {n : Nat}
    (h : stringLength quote (u ++ v) = some n) (hn : n ≤ u.length) (hquote : quote ≠ '\\') :
    stringLength quote (u ++ w) = some n := by
  induction hlength : u.length using Nat.strongRecOn generalizing u n with
  | ind _ ih =>
    subst hlength
    rcases u with _ | ⟨c, u⟩
    · have := stringLength_pos h
      simp only [List.length_nil] at hn
      omega
    simp only [List.cons_append, List.length_cons] at h hn ⊢
    by_cases hc : c = '\\'
    · subst hc
      rcases u with _ | ⟨d, u⟩
      · -- the escaped character is beyond the end of the string
        rcases v with _ | ⟨d, v⟩
        · simp [stringLength, hquote.symm] at h
        · simp only [List.nil_append, stringLength] at h
          split at h
          · cases h
          · obtain ⟨m, hm, rfl⟩ := Option.map_eq_some_iff.mp h
            simp only [List.length_nil] at hn
            omega
      · simp only [List.cons_append, stringLength, List.length_cons] at h hn ⊢
        split at h
        · cases h
        · next hd =>
          obtain ⟨m, hm, rfl⟩ := Option.map_eq_some_iff.mp h
          rw [if_neg hd, ih u.length (by simp only [List.length_cons]; omega) hm (by omega) rfl]
          rfl
    · rw [stringLength_cons hc] at h ⊢
      split at h
      · next hend => rw [if_pos hend, h]
      split at h
      · cases h
      · next hend hbreak =>
        obtain ⟨m, hm, rfl⟩ := Option.map_eq_some_iff.mp h
        rw [if_neg hend, if_neg hbreak, ih u.length (by simp) hm (by omega) rfl]
        rfl

/-- A template has at least its closing quote. -/
theorem templateLength_pos {cs : List Char} {n : Nat} (h : templateLength cs = some n) :
    0 < n := by
  fun_induction templateLength cs with
  | case1 =>
    obtain ⟨m, -, rfl⟩ := Option.map_eq_some_iff.mp h
    exact Nat.succ_pos _
  | case2 =>
    cases h
    exact Nat.one_pos
  | case3 => cases h
  | case4 =>
    obtain ⟨m, -, rfl⟩ := Option.map_eq_some_iff.mp h
    exact Nat.succ_pos _
  | case5 => cases h

theorem templateLength_cons {c : Char} (hc : c ≠ '\\') (rest : List Char) :
    templateLength (c :: rest) = if c == templateQuote then some 1
      else if c == '\\' then none
      else (templateLength rest).map (· + 1) := by
  rw [templateLength]
  exact fun _ _ h _ => hc h

/-- A template that is closed in time does not depend on what comes after it. -/
theorem templateLength_exchange {n : Nat} (h : templateLength (u ++ v) = some n)
    (hn : n ≤ u.length) : templateLength (u ++ w) = some n := by
  induction hlength : u.length using Nat.strongRecOn generalizing u n with
  | ind _ ih =>
    subst hlength
    rcases u with _ | ⟨c, u⟩
    · have := templateLength_pos h
      simp only [List.length_nil] at hn
      omega
    simp only [List.cons_append, List.length_cons] at h hn ⊢
    by_cases hc : c = '\\'
    · subst hc
      rcases u with _ | ⟨d, u⟩
      · -- the escaped character is beyond the end of the template
        rcases v with _ | ⟨d, v⟩
        · simp [templateLength, templateQuote] at h
        · simp only [List.nil_append, templateLength] at h
          obtain ⟨m, hm, rfl⟩ := Option.map_eq_some_iff.mp h
          simp only [List.length_nil] at hn
          omega
      · simp only [List.cons_append, templateLength, List.length_cons] at h hn ⊢
        obtain ⟨m, hm, rfl⟩ := Option.map_eq_some_iff.mp h
        rw [ih u.length (by simp only [List.length_cons]; omega) hm (by omega) rfl]
        rfl
    · rw [templateLength_cons hc] at h ⊢
      split at h
      · next hend => rw [if_pos hend, h]
      split at h
      · cases h
      · next hend hbreak =>
        obtain ⟨m, hm, rfl⟩ := Option.map_eq_some_iff.mp h
        rw [if_neg hend, if_neg hbreak, ih u.length (by simp) hm (by omega) rfl]
        rfl

/-! ### Comments -/

theorem closingLength_cons {c : Char} {rest : List Char}
    (h : ∀ rest', c = '*' → rest ≠ '/' :: rest') :
    closingLength (c :: rest) = (closingLength rest).map (· + 1) := by
  rw [closingLength]
  exact fun rest' hc hrest => h rest' hc hrest

/-- A comment has at least its closing delimiter. -/
theorem closingLength_pos {cs : List Char} {n : Nat} (h : closingLength cs = some n) : 0 < n := by
  fun_induction closingLength cs with
  | case1 =>
    cases h
    exact Nat.two_pos
  | case2 =>
    obtain ⟨m, -, rfl⟩ := Option.map_eq_some_iff.mp h
    exact Nat.succ_pos _
  | case3 => cases h

/-- A comment that is closed in time does not depend on what comes after it. -/
theorem closingLength_exchange {n : Nat} (h : closingLength (u ++ v) = some n)
    (hn : n ≤ u.length) : closingLength (u ++ w) = some n := by
  induction u generalizing n with
  | nil =>
    have := closingLength_pos h
    simp only [List.length_nil] at hn
    omega
  | cons c u ih =>
    simp only [List.cons_append, List.length_cons] at h hn ⊢
    by_cases hclose : c = '*' ∧ ∃ rest, u ++ v = '/' :: rest
    · obtain ⟨rfl, rest, hrest⟩ := hclose
      rw [hrest, closingLength] at h
      cases h
      rcases u with _ | ⟨d, u⟩
      · simp at hn
      · cases hrest
        rfl
    · rw [closingLength_cons fun rest hc hrest => hclose ⟨hc, rest, hrest⟩] at h
      obtain ⟨m, hm, rfl⟩ := Option.map_eq_some_iff.mp h
      have hpos := closingLength_pos hm
      rw [closingLength_cons, ih hm (by omega)]
      · rfl
      · rintro rest rfl hrest
        rcases u with _ | ⟨d, u⟩
        · simp only [List.length_nil] at hn
          omega
        · cases hrest
          exact hclose ⟨rfl, _, rfl⟩

/-- A comment that is not closed in a text is not closed in what comes last. -/
theorem closingLength_eq_none_of_append (h : closingLength (u ++ v) = none) :
    closingLength v = none := by
  induction u with
  | nil => exact h
  | cons c u ih =>
    apply ih
    by_cases hclose : c = '*' ∧ ∃ rest', u ++ v = '/' :: rest'
    · obtain ⟨rfl, rest', hrest⟩ := hclose
      rw [List.cons_append, hrest, closingLength] at h
      cases h
    · rw [List.cons_append, closingLength_cons fun rest' hc hrest => hclose ⟨hc, rest', hrest⟩,
        Option.map_eq_none_iff] at h
      exact h

/-- A comment that is not closed stays so if what comes after a character does not close it. -/
theorem closingLength_eq_none_exchange (he : e ≠ '*')
    (hopen : closingLength v = none → closingLength w = none)
    (h : closingLength (u ++ e :: v) = none) : closingLength (u ++ e :: w) = none := by
  induction u with
  | nil =>
    rw [List.nil_append, closingLength_cons fun _ hc => absurd hc he, Option.map_eq_none_iff] at *
    exact hopen h
  | cons c u ih =>
    by_cases hclose : c = '*' ∧ ∃ rest, u ++ e :: v = '/' :: rest
    · obtain ⟨rfl, rest, hrest⟩ := hclose
      rw [List.cons_append, hrest, closingLength] at h
      cases h
    · rw [List.cons_append, closingLength_cons fun rest hc hrest => hclose ⟨hc, rest, hrest⟩,
        Option.map_eq_none_iff] at h
      rw [List.cons_append, closingLength_cons, ih h]
      · rfl
      · rintro rest rfl hrest
        refine hclose ⟨rfl, ?_⟩
        rcases u with _ | ⟨d, u⟩
        · cases hrest
          exact ⟨v, rfl⟩
        · cases hrest
          exact ⟨_, rfl⟩

/-- A comment that ends before a stopper does not depend on what comes after the stopper. -/
theorem commentLength_exchange {n : Nat} (h : commentLength (u ++ e :: v) = some n)
    (hn : n ≤ u.length) : commentLength (u ++ e :: w) = some n := by
  rcases u with _ | ⟨c, _ | ⟨d, u⟩⟩
  · have := commentLength_bounds h
    simp only [List.length_nil] at hn
    omega
  · -- two characters open a comment
    unfold commentLength at h
    split at h
    · cases h
      simp only [List.length_singleton] at hn
      omega
    · obtain ⟨m, -, rfl⟩ := Option.map_eq_some_iff.mp h
      simp only [List.length_singleton] at hn
      omega
    · cases h
  · simp only [List.cons_append, List.length_cons] at h hn ⊢
    unfold commentLength at h ⊢
    split at h
    · next rest heq =>
      cases heq
      cases h
      have hrun : runLength (· != '\n') (u ++ e :: v) ≤ u.length := by omega
      simp only [runLength_exchange hrun]
    · next rest heq =>
      cases heq
      obtain ⟨m, hm, rfl⟩ := Option.map_eq_some_iff.mp h
      simp only [closingLength_exchange hm (by omega : m ≤ u.length), Option.map_some]
    · cases h

/-- Where no comment begins, none begins after the exchange. -/
theorem commentLength_eq_none_exchange (hu : u ≠ []) (he : e ≠ '*')
    (hopen : closingLength v = none → closingLength w = none)
    (h : commentLength (u ++ e :: v) = none) : commentLength (u ++ e :: w) = none := by
  -- two characters open a comment, and the second of them may be the stopper
  rcases u with _ | ⟨c, _ | ⟨d, u⟩⟩
  · exact absurd rfl hu
  · simp only [List.cons_append, List.nil_append] at h ⊢
    unfold commentLength at h ⊢
    split at h
    · cases h
    · next heq =>
      cases heq
      exact absurd rfl he
    · next hline hblock =>
      split
      · next heq =>
        cases heq
        exact absurd rfl (hline _)
      · next heq =>
        cases heq
        exact absurd rfl he
      · rfl
  · simp only [List.cons_append] at h ⊢
    unfold commentLength at h ⊢
    split at h
    · cases h
    · next heq =>
      cases heq
      rw [Option.map_eq_none_iff] at h
      simp only [closingLength_eq_none_exchange he hopen h, Option.map_none]
    · next hline hblock =>
      split
      · next heq =>
        cases heq
        exact absurd rfl (hline _)
      · next heq =>
        cases heq
        exact absurd rfl (hblock _)
      · rfl

/-! ### Numbers and marks -/

/-- What a stopper is not part of. -/
theorem exponentLength_stop (he : goesOn e = false) :
    exponentLength (u ++ e :: v) = exponentLength u := by
  simp only [goesOn, Bool.or_eq_false_iff, List.contains_eq_mem, decide_eq_false_iff_not,
    List.mem_cons, not_or] at he
  obtain ⟨⟨⟨-, hdigit⟩, -⟩, -, -, he, hE, hplus, hminus, -⟩ := he
  rcases u with _ | ⟨c, u⟩
  · simp [exponentLength, he, hE]
  · simp only [List.cons_append, exponentLength]
    split
    · rcases u with _ | ⟨d, u⟩
      · have hrun := runLength_stop (u := []) (v := v) hdigit
        simp only [List.nil_append] at hrun
        simp [hplus, hminus, hrun]
      · simp only [List.cons_append]
        split
        · rw [List.drop_succ_cons, List.drop_zero, List.drop_succ_cons, List.drop_zero,
            runLength_stop hdigit]
        · rw [List.drop_zero, List.drop_zero, ← List.cons_append, runLength_stop hdigit]
    · rfl

theorem fractionLength_stop (he : goesOn e = false) :
    fractionLength (u ++ e :: v) = fractionLength u := by
  simp only [goesOn, Bool.or_eq_false_iff, List.contains_eq_mem, decide_eq_false_iff_not,
    List.mem_cons, not_or] at he
  obtain ⟨⟨⟨-, hdigit⟩, -⟩, -, -, -, -, -, -, hdot, -⟩ := he
  rcases u with _ | ⟨c, u⟩
  · unfold fractionLength
    split
    · next heq =>
      cases heq
      exact absurd rfl hdot
    · rfl
  · simp only [List.cons_append]
    unfold fractionLength
    split
    · next heq =>
      cases heq
      simp only [runLength_stop hdigit]
    · next hfraction =>
      split
      · next heq =>
        cases heq
        exact absurd rfl (hfraction _)
      · rfl

theorem decimalLength_stop (he : goesOn e = false) :
    decimalLength (u ++ e :: v) = decimalLength u := by
  have hdigit : isDecimalDigit e = false := by
    simp only [goesOn, Bool.or_eq_false_iff] at he
    exact he.1.1.2
  have hwhole := runLength_le isDecimalDigit u
  have hfraction := fractionLength_le (u.drop (runLength isDecimalDigit u))
  rw [List.length_drop] at hfraction
  unfold decimalLength
  simp only [runLength_stop hdigit, List.drop_append_of_le_length hwhole, fractionLength_stop he]
  rw [List.drop_append_of_le_length (by omega), exponentLength_stop he]

theorem numberLength_stop (he : goesOn e = false) :
    numberLength (u ++ e :: v) = numberLength u := by
  have hstop := he
  simp only [goesOn, Bool.or_eq_false_iff, List.contains_eq_mem, decide_eq_false_iff_not,
    List.mem_cons, not_or] at hstop
  obtain ⟨⟨⟨hpart, -⟩, hhex⟩, hx, hX, -⟩ := hstop
  have hzero : e ≠ '0' := by
    rintro rfl
    revert hpart
    decide
  have hdecimal : decimalLength (u ++ e :: v) = decimalLength u := decimalLength_stop he
  -- a prefix for hexadecimal numbers takes two characters, and the stopper is neither of them
  rcases u with _ | ⟨c, _ | ⟨d, u⟩⟩
  · unfold numberLength
    split
    · next heq =>
      cases heq
      exact absurd rfl hzero
    · exact hdecimal
  · simp only [List.cons_append, List.nil_append] at hdecimal ⊢
    unfold numberLength
    split
    · next heq =>
      cases heq
      simp [hx, hX, hdecimal]
    · rw [hdecimal]
      split
      · next heq =>
        cases heq
      · rfl
  · simp only [List.cons_append] at hdecimal ⊢
    unfold numberLength
    split
    · next heq =>
      cases heq
      simp only [runLength_stop hhex, hdecimal]
    · next hother =>
      split
      · next heq =>
        cases heq
        exact absurd rfl (hother _ _)
      · exact hdecimal

theorem Mark.longest?_stop (hu : u ≠ []) (he : e ∈ stoppers) :
    Mark.longest? (u ++ e :: v) = Mark.longest? u := by
  have hstarts (m : Mark) :
      m.text.toList.isPrefixOf (u ++ e :: v) = m.text.toList.isPrefixOf u := by
    rw [Bool.eq_iff_iff, List.isPrefixOf_iff_prefix, List.isPrefixOf_iff_prefix]
    constructor
    · intro h
      rcases List.prefix_or_prefix_of_prefix h (List.prefix_append u _) with h' | ⟨rest, hrest⟩
      · exact h'
      rcases rest with _ | ⟨c, rest⟩
      · rw [List.append_nil] at hrest
        exact ⟨[], by rw [List.append_nil, hrest]⟩
      · -- the mark would go on with the stopper
        rw [← hrest, List.prefix_append_right_inj] at h
        obtain rfl : c = e := (List.cons_prefix_cons.mp h).1
        obtain ⟨d, u, rfl⟩ := List.exists_cons_of_ne_nil hu
        refine absurd he (m.not_mem_stoppers_of_mem_tail (c := c) ?_)
        rw [← hrest]
        simp
    · exact fun h => h.trans (List.prefix_append u _)
  unfold longest?
  simp only [hstarts]

end

/-! ## Lexemes -/

/-- A lexeme that ends before a stopper does not depend on what comes after the stopper, as long
as no comment is closed there that was open before. -/
theorem nextLexeme_exchange {u v w : List Char} {e : Char} {kind : LexemeKind} {n : Nat}
    (hu : u ≠ []) (he : e ∈ stoppers) (hopen : closingLength v = none → closingLength w = none)
    (h : nextLexeme (u ++ e :: v) = some (kind, n)) (hn : n ≤ u.length) :
    nextLexeme (u ++ e :: w) = some (kind, n) := by
  have hstop := not_goesOn_of_mem_stoppers he
  have hpart : isNamePart e = false := by
    simp only [goesOn, Bool.or_eq_false_iff] at hstop
    exact hstop.1.1.1
  have hstar : e ≠ '*' := by
    rintro rfl
    revert hstop
    decide
  obtain ⟨c, u, rfl⟩ := List.exists_cons_of_ne_nil hu
  have hcomment {n : Nat} := commentLength_exchange (u := c :: u) (v := v) (w := w) (e := e) (n := n)
  have hnone := commentLength_eq_none_exchange (u := c :: u) hu hstar hopen
  -- numbers, marks and names go on by what is before the stopper alone
  have hnumber (v : List Char) := numberLength_stop (u := c :: u) (v := v) hstop
  have hmark (v : List Char) := Mark.longest?_stop (v := v) hu he
  have hword (v : List Char) : ((c :: u) ++ e :: v).takeWhile isNamePart
      = (c :: u).takeWhile isNamePart := takeWhile_append_stop hpart _ _
  have hseparators := runLength_exchange (p := isSeparator) (u := c :: u) (e := e) (v := v) (w := w)
  simp only [List.cons_append, List.length_cons] at hcomment hnone hnumber hmark hword hseparators
  simp only [List.cons_append, List.length_cons] at h hn ⊢
  rw [nextLexeme_eq_some_iff] at h ⊢
  cases h with
  | blank separator =>
    rw [← hseparators hn]
    exact .blank separator
  | word separator name =>
    have hbegins : Begins c (u ++ e :: w) _ _ := .word separator name
    unfold runLength at hbegins ⊢
    rw [hword] at hbegins ⊢
    exact hbegins
  | string quote length =>
    have hescape : c ≠ '\\' := by rcases quote with rfl | rfl <;> decide
    exact .string quote (stringLength_exchange length (by omega) hescape)
  | template quote length => exact .template quote (templateLength_exchange length (by omega))
  | comment other length => exact .comment other (hcomment length hn)
  | number other noComment digits =>
    have hbegins := Begins.number other (hnone noComment)
    rw [hnumber] at hbegins digits ⊢
    exact hbegins digits
  | mark other noComment noDigits longest =>
    rw [hnumber] at noDigits
    rw [hmark] at longest
    exact .mark other (hnone noComment) ((hnumber w).trans noDigits) ((hmark w).trans longest)

end SuperForward.Script
