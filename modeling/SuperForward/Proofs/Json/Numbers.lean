/-
  Numbers are read where they were written.

  Behind a number stands what ends it: nothing, a comma, a closing bracket or brace, or a line
  break. A whole number is read as the same number. The text of a number with a fraction or an
  exponent is made as such texts are, since the shortest decimal of a number that is not zero has
  digits; that it is read as the number that was written is not said here.
-/
import SuperForward.Json.Printer
import SuperForward.Json.Reader
import Mathlib.Data.List.Basic

namespace SuperForward.Json

open SuperForward.Decimal (Double)

/-! ## Digits -/

/-- What may stand behind a value. -/
def Apart (rest : List Char) : Prop :=
  ∀ c, rest.head? = some c → c = ',' ∨ c = ']' ∨ c = '\x7d' ∨ c = '\n'

theorem apart_nil : Apart [] := by
  intro c h
  cases h

theorem apart_cons {c : Char} (h : c = ',' ∨ c = ']' ∨ c = '\x7d' ∨ c = '\n')
    (rest : List Char) : Apart (c :: rest) := by
  intro d hd
  cases hd
  exact h

/-- No digit comes next. -/
def NoDigit (rest : List Char) : Prop := ∀ c, rest.head? = some c → c.isDigit = false

theorem Apart.noDigit {rest : List Char} (h : Apart rest) : NoDigit rest := by
  intro c hc
  rcases h c hc with rfl | rfl | rfl | rfl <;> rfl

theorem digits_append {ds rest : List Char} (hds : ∀ c ∈ ds, c.isDigit = true)
    (hrest : NoDigit rest) : digits (ds ++ rest) = ds := by
  induction ds with
  | nil =>
    cases rest with
    | nil => rfl
    | cons c rest => simp [digits, hrest c rfl]
  | cons d ds ih =>
    have := ih fun c hc => hds c (List.mem_cons_of_mem _ hc)
    simp only [digits] at this
    simp [digits, hds d (List.mem_cons_self ..), this]

/-- The digits of a number. -/
abbrev numberDigits (n : Nat) : List Char := Nat.toDigits 10 n

theorem isDigit_of_mem_numberDigits {n : Nat} {c : Char} (h : c ∈ numberDigits n) :
    c.isDigit = true := Nat.isDigit_of_mem_toDigits (by decide) (by decide) h

theorem naturalOf_numberDigits (n : Nat) : naturalOf (numberDigits n) = n := by
  have hfold : naturalOf (numberDigits n) = Nat.ofDigitChars 10 (numberDigits n) 0 := by
    simp only [naturalOf, Nat.ofDigitChars, Nat.mul_comm]
    rfl
  rw [hfold, Nat.ofDigitChars_toDigits (by decide) (by decide)]

/-- A positive number begins with no zero. -/
theorem head?_numberDigits {n : Nat} (h : n ≠ 0) : (numberDigits n).head? ≠ some '0' := by
  induction n using Nat.strongRecOn with
  | ind n ih =>
    by_cases hsmall : n < 10
    · have htable : ∀ n < 10, n ≠ 0 → (numberDigits n).head? ≠ some '0' := by decide
      exact htable n hsmall h
    · rw [numberDigits, Nat.toDigits_of_base_le (by decide) (Nat.not_lt.1 hsmall),
        List.head?_append_of_ne_nil _ Nat.toDigits_ne_nil]
      exact ih (n / 10) (Nat.div_lt_self (by omega) (by decide)) (by omega)

theorem wholePart?_numberDigits (n : Nat) {rest : List Char} (hrest : NoDigit rest) :
    wholePart? (numberDigits n ++ rest) = some (numberDigits n) := by
  by_cases hzero : n = 0
  · rw [hzero]
    rfl
  have hdigits := digits_append (fun _ => isDigit_of_mem_numberDigits (n := n)) hrest
  have hhead := head?_numberDigits hzero
  obtain ⟨d, ds, hds⟩ := List.exists_cons_of_ne_nil (Nat.toDigits_ne_nil (n := n) (b := 10))
  rw [numberDigits, hds] at hhead hdigits ⊢
  have hne : d ≠ '0' := by simpa using hhead
  unfold wholePart?
  split
  · next heq =>
    rw [List.cons_append, List.cons.injEq] at heq
    exact absurd heq.1 hne
  · rw [hdigits]
    rfl

theorem fractionPart?_of_apart {rest : List Char} (h : Apart rest) : fractionPart? rest = none := by
  cases rest with
  | nil => rfl
  | cons c rest => rcases h c rfl with rfl | rfl | rfl | rfl <;> rfl

theorem exponentPart?_of_apart {rest : List Char} (h : Apart rest) : exponentPart? rest = none := by
  cases rest with
  | nil => rfl
  | cons c rest => rcases h c rfl with rfl | rfl | rfl | rfl <;> rfl

/-! ## Whole numbers -/

/-- Digits alone make a whole number. -/
theorem magnitude?_numberDigits (negative : Bool) (n : Nat) {rest : List Char} (h : Apart rest) :
    magnitude? negative (numberDigits n ++ rest)
      = some (.int (if negative then -(n : Int) else n), rest) := by
  have hdrop : (numberDigits n ++ rest).drop (numberDigits n).length = rest := List.drop_left
  simp only [magnitude?, wholePart?_numberDigits n h.noDigit, hdrop, fractionPart?_of_apart h,
    exponentPart?_of_apart h, naturalOf_numberDigits, bind, Option.bind]
  rfl

theorem word?_cons_of_ne {c d : Char} (word : String) {cs ws : List Char}
    (hw : word.toList = d :: ws) (h : d ≠ c) : word? word (c :: cs) = none := by
  simp [word?, hw, h]

/-- No word begins like a number. -/
theorem literal?_of_head {c : Char} {cs : List Char} (h : c.isDigit = true ∨ c = '-') :
    literal? (c :: cs) = none := by
  have hne (d : Char) (hd : d.isDigit = false) (hd' : d ≠ '-') : d ≠ c := by
    rintro rfl
    rcases h with h | h
    · rw [hd] at h
      cases h
    · exact hd' h
  simp only [literal?, List.findSome?_cons, List.findSome?_nil,
    word?_cons_of_ne "null" rfl (hne 'n' rfl (by decide)),
    word?_cons_of_ne "true" rfl (hne 't' rfl (by decide)),
    word?_cons_of_ne "false" rfl (hne 'f' rfl (by decide)),
    word?_cons_of_ne "NaN" rfl (hne 'N' rfl (by decide)),
    word?_cons_of_ne "Infinity" rfl (hne 'I' rfl (by decide)), Option.map_none]

theorem number?_of_digit {c : Char} {cs : List Char} (h : c.isDigit = true) :
    number? (c :: cs) = magnitude? false (c :: cs) := by
  have hne : c ≠ '-' := by
    rintro rfl
    exact absurd h (by decide)
  simp [number?, hne]

theorem number?_of_minus {c : Char} {cs : List Char} (h : c.isDigit = true) :
    number? ('-' :: c :: cs) = magnitude? true (c :: cs) := by
  have hne : 'I' ≠ c := by
    rintro rfl
    exact absurd h (by decide)
  simp [number?, word?_cons_of_ne "Infinity" rfl hne]

/-- A text that begins with a digit is read as a magnitude, with its sign. -/
theorem number?_sign (negative : Bool) {c : Char} (cs : List Char) (h : c.isDigit = true) :
    (literal? ((if negative then ['-'] else []) ++ c :: cs)).or
        (number? ((if negative then ['-'] else []) ++ c :: cs))
      = magnitude? negative (c :: cs) := by
  cases negative with
  | false =>
    show (literal? (c :: cs)).or (number? (c :: cs)) = _
    rw [literal?_of_head (.inl h), number?_of_digit h, Option.none_or]
  | true =>
    show (literal? ('-' :: c :: cs)).or (number? ('-' :: c :: cs)) = _
    rw [literal?_of_head (.inr rfl), number?_of_minus h, Option.none_or]

theorem toList_toString_int (n : Int) :
    (toString n).toList = (if n < 0 then ['-'] else []) ++ numberDigits n.natAbs := by
  cases n with
  | ofNat n =>
    show n.repr.toList = _
    rw [Nat.toList_repr, if_neg (by simp)]
    rfl
  | negSucc n =>
    show ("-" ++ (n + 1).repr).toList = _
    rw [String.toList_append, Nat.toList_repr, if_pos (Int.negSucc_lt_zero n)]
    rfl

theorem exists_head_numberDigits (n : Nat) :
    ∃ c cs, numberDigits n = c :: cs ∧ c.isDigit = true := by
  obtain ⟨c, cs, hcs⟩ := List.exists_cons_of_ne_nil (Nat.toDigits_ne_nil (n := n) (b := 10))
  exact ⟨c, cs, hcs, isDigit_of_mem_numberDigits (n := n) (by simp [numberDigits, hcs])⟩

/-- A whole number begins with a digit or a sign. -/
theorem exists_head_int (n : Int) :
    ∃ c cs, (toString n).toList = c :: cs ∧ (c.isDigit = true ∨ c = '-') := by
  obtain ⟨c, cs, hcs, hdigit⟩ := exists_head_numberDigits n.natAbs
  rw [toList_toString_int, hcs]
  split
  · exact ⟨'-', _, rfl, .inr rfl⟩
  · exact ⟨c, cs, rfl, .inl hdigit⟩

/-- A whole number is read from its digits. -/
theorem number?_int (n : Int) {rest : List Char} (h : Apart rest) :
    (literal? ((toString n).toList ++ rest)).or (number? ((toString n).toList ++ rest))
      = some (.int n, rest) := by
  obtain ⟨c, cs, hcs, hdigit⟩ := exists_head_numberDigits n.natAbs
  have hmag := magnitude?_numberDigits (decide (n < 0)) n.natAbs h
  have hsign := number?_sign (decide (n < 0)) (cs ++ rest) hdigit
  rw [hcs, List.cons_append] at hmag
  rw [toList_toString_int, hcs, List.append_assoc, List.cons_append]
  simp only [decide_eq_true_eq] at hsign hmag
  rw [hsign, hmag]
  congr 3
  split <;> omega

end SuperForward.Json

namespace SuperForward

/-! ## The shortest decimal -/

namespace Decimal

namespace Shortest

variable {mantissa : Nat} {exponent order : Int} {n : Numeral}

theorem numerator_timesPower {n : Nat} (h : 0 < n) (exponent : Int) :
    0 < (timesPower n exponent).numerator := by
  cases exponent with
  | ofNat => exact Nat.mul_pos h (Nat.pow_pos (by decide))
  | negSucc => exact h

theorem denominator_ofNumeral (n : Numeral) : 0 < (ofNumeral n).denominator := by
  unfold ofNumeral
  split
  · exact Nat.one_pos
  · exact Nat.pow_pos (by decide)

theorem numerator_ofNumeral (h : n.digits = 0) : (ofNumeral n).numerator = 0 := by
  unfold ofNumeral
  split
  · rw [h, Nat.zero_mul]
  · exact h

/-- Zero is read as no other number. -/
theorem digits_ne_zero_of_readsBack (hmantissa : mantissa ≠ 0)
    (h : readsBack mantissa exponent n = true) : n.digits ≠ 0 := by
  intro hzero
  have hvalue := numerator_ofNumeral hzero
  have hlow : ∀ below : Nat, below ≤ 2 →
      less (ofNumeral n) (timesPower (4 * mantissa - below) (exponent - 2)) = true
        ∧ less (timesPower (4 * mantissa - below) (exponent - 2)) (ofNumeral n) = false := by
    intro below hbelow
    have hpos := numerator_timesPower (show 0 < 4 * mantissa - below by omega) (exponent - 2)
    have hden := denominator_ofNumeral n
    unfold less
    rw [hvalue, Nat.zero_mul]
    exact ⟨decide_eq_true (Nat.mul_pos hpos hden), decide_eq_false (Nat.not_lt_zero _)⟩
  unfold readsBack at h
  dsimp only at h
  have hbelow : (if (mantissa == Double.fullMantissa && Double.leastExponent < exponent) = true
      then 1 else 2) ≤ 2 := by split <;> decide
  obtain ⟨hless, hnot⟩ := hlow _ hbelow
  split at h
  · rw [atMost, hless] at h
    cases h
  · rw [hnot] at h
    cases h

theorem digits_ne_zero_of_onGrid? {gridExponent : Int} (hmantissa : mantissa ≠ 0)
    (h : onGrid? mantissa exponent gridExponent = some n) : n.digits ≠ 0 := by
  have htried : ∀ first second : Numeral,
      (if readsBack mantissa exponent first then some first
        else if readsBack mantissa exponent second then some second else none) = some n →
      readsBack mantissa exponent n = true := by
    intro first second h
    split at h
    · next hreads =>
      cases h
      exact hreads
    split at h
    · next hreads =>
      cases h
      exact hreads
    · cases h
  exact digits_ne_zero_of_readsBack hmantissa (htried _ _ h)

/-- What reaches a unit of a power of ten reaches one of each lower power. -/
theorem onGrid_ne_zero {value : Fraction} {a b : Nat} (hab : a ≤ b)
    (h : (onGrid value (.ofNat b)).1 ≠ 0) : (onGrid value (.ofNat a)).1 ≠ 0 := by
  simp only [onGrid] at h ⊢
  have hden : 0 < value.denominator * 10 ^ a := by
    refine Nat.mul_pos (Nat.pos_of_ne_zero ?_) (Nat.pow_pos (by decide))
    intro hzero
    rw [hzero, Nat.zero_mul, Nat.div_zero] at h
    exact h rfl
  have hle : value.denominator * 10 ^ a ≤ value.denominator * 10 ^ b :=
    Nat.mul_le_mul_left _ (Nat.pow_le_pow_right (by decide) hab)
  exact fun hzero => h (Nat.le_zero.1 (hzero ▸ Nat.div_le_div_left hle hden))

/-- The search for the first digit ends where there is one, or at its last turn. -/
theorem orderFrom_cases (value : Fraction) (turns : Nat) (order : Int) :
    (onGrid value (orderFrom value turns order)).1 ≠ 0
      ∨ orderFrom value turns order = order - turns := by
  induction turns generalizing order with
  | zero => exact .inr (by simp [orderFrom])
  | succ turns ih =>
    rw [orderFrom]
    split
    · rcases ih (order - 1) with h | h
      · exact .inl h
      · exact .inr (by rw [h]; omega)
    · next h => exact .inl (by simpa using h)

/-- A decimal that is found has digits, unless none was found in all turns. -/
theorem search_cases (hmantissa : mantissa ≠ 0) (turns digits : Nat) :
    (search mantissa exponent order turns digits).digits ≠ 0
      ∨ search mantissa exponent order turns digits
        = ⟨(onGrid (timesPower mantissa exponent) (order - (digits + turns : Nat))).1,
          order - (digits + turns : Nat)⟩ := by
  induction turns generalizing digits with
  | zero => exact .inr rfl
  | succ turns ih =>
    rw [search]
    split
    · next n hgrid => exact .inl (digits_ne_zero_of_onGrid? hmantissa hgrid)
    · have hsum : digits + 1 + turns = digits + (turns + 1) := by omega
      rw [← hsum]
      exact ih (digits + 1)

/-- The shortest decimal has digits, or else it is so small that it has no zeros at its end. -/
theorem exponent_numeral (hmantissa : mantissa ≠ 0) (h : (numeral mantissa exponent).digits = 0) :
    (numeral mantissa exponent).exponent ≤ 0 := by
  unfold numeral at h ⊢
  rcases @search_cases mantissa exponent (orderFrom (timesPower mantissa exponent) 700 309)
    hmantissa 17 1 with hdigits | hlast
  · exact absurd h hdigits
  rw [hlast] at h ⊢
  rcases orderFrom_cases (timesPower mantissa exponent) 700 309 with horder | horder
  · -- the first digit is above all the digits that were tried
    generalize orderFrom (timesPower mantissa exponent) 700 309 = order at h horder ⊢
    by_contra hpos
    obtain ⟨a, ha⟩ := Int.eq_ofNat_of_zero_le (show 0 ≤ order - (1 + 17 : Nat) by
      simp only at hpos
      omega)
    obtain ⟨b, rfl⟩ := Int.eq_ofNat_of_zero_le (show 0 ≤ order by omega)
    simp only [ha] at h
    exact onGrid_ne_zero (show a ≤ b by omega) horder h
  · simp [horder]

end Shortest

/-- Taking zeros off the end leaves digits where there are some. -/
theorem exponent_dropZeros (turns : Nat) {n : Numeral} (h : n.digits = 0 → n.exponent ≤ 0) :
    (dropZeros turns n).digits = 0 → (dropZeros turns n).exponent ≤ 0 := by
  induction turns generalizing n with
  | zero => exact h
  | succ turns ih =>
    rw [dropZeros]
    split
    · next hzeros =>
      simp only [Bool.and_eq_true, bne_iff_ne, ne_eq, beq_iff_eq] at hzeros
      exact ih fun hno => by
        have : n.digits / 10 = 0 := hno
        omega
    · exact h

end Decimal

/-! ## The texts of numbers with a fraction or an exponent -/

namespace Json

open SuperForward.Decimal (Double Numeral Style exponentText dropZeros)

/-- Digits, at least one. -/
structure AreDigits (ds : List Char) : Prop where
  isDigit : ∀ c ∈ ds, c.isDigit = true
  ne_nil : ds ≠ []

theorem areDigits_numberDigits (n : Nat) : AreDigits (numberDigits n) :=
  ⟨fun _ => isDigit_of_mem_numberDigits, Nat.toDigits_ne_nil⟩

theorem AreDigits.append_zeros {ds : List Char} (h : AreDigits ds) (k : Nat) :
    AreDigits (ds ++ List.replicate k '0') where
  isDigit := List.forall_mem_append.2 ⟨h.isDigit, fun c hc => by
    rw [List.eq_of_mem_replicate hc]
    rfl⟩
  ne_nil hnil := h.ne_nil (List.append_eq_nil_iff.1 hnil).1

theorem AreDigits.zeros_append {ds : List Char} (h : AreDigits ds) (k : Nat) :
    AreDigits (List.replicate k '0' ++ ds) where
  isDigit := List.forall_mem_append.2 ⟨fun c hc => by
    rw [List.eq_of_mem_replicate hc]
    rfl, h.isDigit⟩
  ne_nil hnil := h.ne_nil (List.append_eq_nil_iff.1 hnil).2

/-- A whole part: a zero, or digits that do not begin with one. -/
structure IsWhole (ds : List Char) : Prop where
  digits : AreDigits ds
  noZero : ds = ['0'] ∨ ds.head? ≠ some '0'

theorem isWhole_zero : IsWhole ['0'] := ⟨areDigits_numberDigits 0, .inl rfl⟩

/-- The texts of numbers that are not whole: a fraction or an exponent comes last. -/
inductive FloatText : List Char → Prop
  | plain {whole ds : List Char} (hwhole : IsWhole whole) (hds : AreDigits ds) :
      FloatText (whole ++ '.' :: ds)
  | short {whole es : List Char} (negative : Bool) (hwhole : IsWhole whole) (hes : AreDigits es) :
      FloatText (whole ++ 'e' :: (if negative then '-' else '+') :: es)
  | long {whole ds es : List Char} (negative : Bool) (hwhole : IsWhole whole) (hds : AreDigits ds)
      (hes : AreDigits es) :
      FloatText (whole ++ '.' :: (ds ++ 'e' :: (if negative then '-' else '+') :: es))

/-! ## Reading them -/

section Reading

variable {ds es rest whole : List Char}

theorem noDigit_cons {c : Char} (h : c.isDigit = false) (rest : List Char) : NoDigit (c :: rest) := by
  intro d hd
  cases hd
  exact h

theorem wholePart?_append (h : IsWhole whole) (hrest : NoDigit rest) :
    wholePart? (whole ++ rest) = some whole := by
  rcases h.noZero with rfl | hhead
  · rfl
  have hdigits := digits_append h.digits.isDigit hrest
  obtain ⟨d, ds, rfl⟩ := List.exists_cons_of_ne_nil h.digits.ne_nil
  have hne : d ≠ '0' := by simpa using hhead
  unfold wholePart?
  split
  · next heq =>
    rw [List.cons_append, List.cons.injEq] at heq
    exact absurd heq.1 hne
  · rw [hdigits]
    rfl

theorem fractionPart?_append (h : AreDigits ds) (hrest : NoDigit rest) :
    fractionPart? ('.' :: (ds ++ rest)) = some ds := by
  rw [fractionPart?, digits_append h.isDigit hrest, if_neg (by simpa using h.ne_nil)]

theorem exponentPart?_append (negative : Bool) (h : AreDigits es) (hrest : NoDigit rest) :
    exponentPart? ('e' :: (if negative then '-' else '+') :: (es ++ rest))
      = some (if negative then -(naturalOf es : Int) else naturalOf es, es.length + 2) := by
  have hdigits := digits_append h.isDigit hrest
  have hsome : es.isEmpty = false := by simpa using h.ne_nil
  have hlength : 1 + 1 + es.length = es.length + 2 := by omega
  cases negative <;> simp [exponentPart?, hdigits, hsome, hlength]

/-- Such a text is read to its end, and what is read is no whole number. -/
theorem FloatText.magnitude? {cs : List Char} (h : FloatText cs) (negative : Bool) :
    ∃ y, ∀ rest, Apart rest → Json.magnitude? negative (cs ++ rest) = some (.float y, rest) := by
  cases h with
  | @plain whole ds hwhole hds =>
    refine ⟨.ofDecimal negative (naturalOf (whole ++ ds)) (0 - ds.length), fun rest hrest => ?_⟩
    have hfraction := fractionPart?_append hds hrest.noDigit
    have hexponent := exponentPart?_of_apart hrest
    have hpart := @wholePart?_append ('.' :: (ds ++ rest)) whole hwhole (noDigit_cons rfl _)
    rw [List.append_assoc, List.cons_append]
    simp [Json.magnitude?, hpart, hfraction, hexponent]
  | @short whole es sign hwhole hes =>
    refine ⟨.ofDecimal negative (naturalOf whole)
      (if sign then -(naturalOf es : Int) else naturalOf es), fun rest hrest => ?_⟩
    have hexponent := exponentPart?_append sign hes hrest.noDigit
    have hpart := @wholePart?_append ('e' :: (if sign then '-' else '+') :: (es ++ rest)) whole
      hwhole (noDigit_cons rfl _)
    have hfraction : fractionPart? ('e' :: (if sign then '-' else '+') :: (es ++ rest)) = none := rfl
    rw [List.append_assoc, List.cons_append, List.cons_append]
    simp [Json.magnitude?, hpart, hfraction, hexponent]
  | @long whole ds es sign hwhole hds hes =>
    refine ⟨.ofDecimal negative (naturalOf (whole ++ ds))
      ((if sign then -(naturalOf es : Int) else naturalOf es) - ds.length), fun rest hrest => ?_⟩
    have hexponent := exponentPart?_append sign hes hrest.noDigit
    have hfraction := @fractionPart?_append ds ('e' :: (if sign then '-' else '+') :: (es ++ rest))
      hds (noDigit_cons rfl _)
    have hpart := @wholePart?_append ('.' :: (ds ++ 'e' :: (if sign then '-' else '+') :: (es ++ rest)))
      whole hwhole (noDigit_cons rfl _)
    rw [List.append_assoc, List.cons_append, List.append_assoc, List.cons_append, List.cons_append]
    simp [Json.magnitude?, hpart, hfraction, hexponent]

end Reading

/-! ## Writing them -/

theorem IsWhole.of_numberDigits {n : Nat} {ds : List Char} (h : n ≠ 0) (hds : AreDigits ds)
    (hhead : ds.head? = (numberDigits n).head?) : IsWhole ds :=
  ⟨hds, .inr (hhead ▸ head?_numberDigits h)⟩

theorem numberDigits_zero : numberDigits 0 = ['0'] := rfl

/-- Zeros behind digits make a whole part, unless the only digit is a zero. -/
theorem isWhole_append_zeros {n : Nat} (k : Nat) (h : n = 0 → k = 0) :
    IsWhole (numberDigits n ++ List.replicate k '0') := by
  have hds := areDigits_numberDigits n
  by_cases hzero : n = 0
  · rw [hzero, h hzero]
    exact isWhole_zero
  · exact .of_numberDigits hzero (hds.append_zeros k)
      (List.head?_append_of_ne_nil _ hds.ne_nil)

/-- Several digits are a whole part and more digits. -/
theorem isWhole_take {n k : Nat} (hpos : 0 < k) (h : k < (numberDigits n).length) :
    IsWhole ((numberDigits n).take k) ∧ AreDigits ((numberDigits n).drop k) := by
  have hds := areDigits_numberDigits n
  have hzero : n ≠ 0 := by
    rintro rfl
    rw [numberDigits_zero, List.length_singleton] at h
    omega
  refine ⟨.of_numberDigits hzero ⟨fun c hc => hds.isDigit c (List.mem_of_mem_take hc), ?_⟩ ?_,
    fun c hc => hds.isDigit c (List.mem_of_mem_drop hc), ?_⟩
  · simpa [hds.ne_nil] using Nat.pos_iff_ne_zero.1 hpos
  · rw [List.head?_take, if_neg (Nat.pos_iff_ne_zero.1 hpos)]
  · simpa using h

/-- The first digit is a whole part, be it a zero or not. -/
theorem isWhole_take_one (n : Nat) : IsWhole ((numberDigits n).take 1) := by
  obtain ⟨c, cs, hcs, hdigit⟩ := exists_head_numberDigits n
  have hds : AreDigits ((numberDigits n).take 1) := by
    rw [hcs]
    exact ⟨by simpa using hdigit, by simp⟩
  by_cases hzero : n = 0
  · rw [hzero]
    exact isWhole_zero
  · exact .of_numberDigits hzero hds (by rw [hcs]; rfl)

/-- The digits of an exponent, with its sign before them. -/
theorem toList_exponentText (e : Int) : ∃ es, AreDigits es ∧ (exponentText e).toList
    = (if decide (e < 0) then '-' else '+') :: es := by
  have hdigits : (toString e.natAbs).toList = numberDigits e.natAbs := Nat.toList_repr
  have hds := areDigits_numberDigits e.natAbs
  unfold exponentText
  dsimp only
  by_cases hshort : (toString e.natAbs).length < 2
  · refine ⟨'0' :: numberDigits e.natAbs, hds.zeros_append 1, ?_⟩
    rw [if_pos hshort, String.toList_append, String.toList_append, hdigits]
    split <;> simp_all
  · refine ⟨numberDigits e.natAbs, hds, ?_⟩
    rw [if_neg hshort, String.toList_append, hdigits]
    split <;> simp_all

/-- A decimal is written as such texts are made, unless it is a zero with zeros behind it. -/
theorem floatText_write (style : Style) {n : Numeral} (h : n.digits = 0 → n.exponent ≤ 0) :
    FloatText (style.write n).toList := by
  have hzero := Decimal.exponent_dropZeros 400 h
  unfold Style.write
  generalize dropZeros 400 n = m at hzero ⊢
  dsimp only
  generalize hdigits : Nat.toDigits 10 m.digits = ds
  have hds : AreDigits ds := hdigits ▸ areDigits_numberDigits m.digits
  split
  · split
    · -- before the first digit
      simpa using FloatText.plain isWhole_zero (hds.zeros_append (-(ds.length + m.exponent)).toNat)
    split
    · -- behind the last digit
      next hbehind =>
      have hwhole := @isWhole_append_zeros m.digits ((ds.length + m.exponent).toNat - ds.length)
        fun hno => by
          have hexponent := hzero hno
          omega
      rw [numberDigits, hdigits] at hwhole
      simpa using FloatText.plain hwhole (areDigits_numberDigits 0)
    · -- among the digits
      next hpoint hamong =>
      have hparts := @isWhole_take m.digits (ds.length + m.exponent).toNat (by omega)
        (by rw [numberDigits, hdigits]; omega)
      rw [numberDigits, hdigits] at hparts
      simpa using FloatText.plain hparts.1 hparts.2
  · obtain ⟨es, hes, htext⟩ := toList_exponentText (ds.length + m.exponent - 1)
    have hfirst := isWhole_take_one m.digits
    rw [numberDigits, hdigits] at hfirst
    rcases htail : ds.drop 1 with - | ⟨c, cs⟩
    · simpa [htext] using FloatText.short (decide (ds.length + m.exponent - 1 < 0)) hfirst hes
    · have hmore : AreDigits (c :: cs) := by
        rw [← htail]
        exact ⟨fun c hc => hds.isDigit c (List.mem_of_mem_drop hc), by rw [htail]; simp⟩
      simpa [htext] using
        FloatText.long (decide (ds.length + m.exponent - 1 < 0)) hfirst hmore hes

theorem write_finite (style : Style) (negative : Bool) (mantissa : Nat) (exponent : Int) :
    (Double.finite negative mantissa exponent).write style = (if negative then "-" else "")
      ++ if mantissa = 0 then "0.0" else style.write (Decimal.Shortest.numeral mantissa exponent) := by
  unfold Double.write
  dsimp only
  by_cases hzero : mantissa = 0
  · rw [if_pos hzero, if_pos (by simpa using hzero)]
  · rw [if_neg hzero, if_neg (by simpa using hzero)]

theorem toList_sign (negative : Bool) :
    (if negative then "-" else "").toList = if negative then ['-'] else [] := by
  cases negative <;> rfl

theorem write_infinite (style : Style) (negative : Bool) :
    ((Double.infinite negative).write style).toList
      = (if negative then ['-'] else []) ++ "Infinity".toList := by
  unfold Double.write
  rw [String.toList_append, toList_sign]

/-- A number is written by its name, or as such texts are made. -/
theorem write_cases (style : Style) (x : Double) :
    (x = .notANumber ∧ (x.write style).toList = "NaN".toList)
      ∨ (∃ negative : Bool, x = .infinite negative
        ∧ (x.write style).toList = (if negative then ['-'] else []) ++ "Infinity".toList)
      ∨ ∃ (negative : Bool) (cs : List Char), FloatText cs
        ∧ (x.write style).toList = (if negative then ['-'] else []) ++ cs := by
  cases x with
  | notANumber => exact .inl ⟨rfl, rfl⟩
  | infinite negative => exact .inr (.inl ⟨negative, rfl, write_infinite style negative⟩)
  | finite negative mantissa exponent =>
    refine .inr (.inr ⟨negative, _, ?_,
      by rw [write_finite, String.toList_append, toList_sign]⟩)
    split
    · exact .plain isWhole_zero (areDigits_numberDigits 0)
    · next hzero => exact floatText_write style (Decimal.Shortest.exponent_numeral hzero)

theorem FloatText.exists_head {cs : List Char} (h : FloatText cs) :
    ∃ c ds, cs = c :: ds ∧ c.isDigit = true := by
  obtain ⟨whole, rest, hwhole, rfl⟩ : ∃ whole rest, IsWhole whole ∧ cs = whole ++ rest := by
    cases h with
    | plain hwhole => exact ⟨_, _, hwhole, rfl⟩
    | short _ hwhole => exact ⟨_, _, hwhole, rfl⟩
    | long _ hwhole => exact ⟨_, _, hwhole, rfl⟩
  obtain ⟨c, ds, rfl⟩ := List.exists_cons_of_ne_nil hwhole.digits.ne_nil
  exact ⟨c, ds ++ rest, rfl, hwhole.digits.isDigit c (List.mem_cons_self ..)⟩

/-- A number begins with a digit, a sign or its name. -/
theorem exists_head_float (style : Style) (x : Double) : ∃ c cs, (x.write style).toList = c :: cs
    ∧ (c.isDigit = true ∨ c = '-' ∨ c = 'N' ∨ c = 'I') := by
  rcases write_cases style x with ⟨-, htext⟩ | ⟨negative, -, htext⟩ | ⟨negative, cs, hcs, htext⟩
  · exact ⟨'N', _, htext, .inr (.inr (.inl rfl))⟩
  · cases negative with
    | false => exact ⟨'I', _, htext, .inr (.inr (.inr rfl))⟩
    | true => exact ⟨'-', _, htext, .inr (.inl rfl)⟩
  · obtain ⟨c, ds, rfl, hdigit⟩ := hcs.exists_head
    cases negative with
    | false => exact ⟨c, ds, htext, .inl hdigit⟩
    | true => exact ⟨'-', _, htext, .inr (.inl rfl)⟩

/-- A number is read to its end, and what is read is a number of the same sort. -/
theorem exists_reads_float (style : Style) (x : Double) : ∃ y, ∀ rest, Apart rest →
    (literal? ((x.write style).toList ++ rest)).or (number? ((x.write style).toList ++ rest))
      = some (.float y, rest) := by
  rcases write_cases style x with ⟨-, htext⟩ | ⟨negative, -, htext⟩ | ⟨negative, cs, hcs, htext⟩
  · refine ⟨.notANumber, fun rest _ => ?_⟩
    rw [htext]
    simp [literal?, word?]
  · refine ⟨.infinite negative, fun rest _ => ?_⟩
    rw [htext]
    cases negative <;> simp [literal?, number?, word?]
  · obtain ⟨y, hy⟩ := hcs.magnitude? negative
    refine ⟨y, fun rest hrest => ?_⟩
    obtain ⟨c, ds, rfl, hdigit⟩ := hcs.exists_head
    rw [htext, List.append_assoc, List.cons_append, number?_sign negative _ hdigit]
    exact hy rest hrest

end Json

end SuperForward
