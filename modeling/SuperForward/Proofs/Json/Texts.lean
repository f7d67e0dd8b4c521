/-
  A text in quotes is read as the text that was written.
-/
import SuperForward.Json.Printer
import SuperForward.Json.Reader

namespace SuperForward

namespace Text

theorem hexValue?_hexDigit {n : Nat} (h : n < 16) : hexValue? (hexDigit n) = some n := by
  have htable : ∀ n < 16, hexValue? (hexDigit n) = some n := by decide
  exact htable n h

end Text

namespace Json

/-! ## Codes -/

theorem hexCode?_hexDigits {n : Nat} (h : n < 0x10000) (rest : List Char) :
    hexCode? (Text.hexDigits 4 n ++ rest) = some (n, rest) := by
  have hdigit (k : Nat) : Text.hexValue? (Text.hexDigit (k % 16)) = some (k % 16) :=
    Text.hexValue?_hexDigit (Nat.mod_lt k (by decide))
  have hsum : (((n / 16 / 16 / 16 % 16) * 16 + n / 16 / 16 % 16) * 16 + n / 16 % 16) * 16 + n % 16
      = n := by omega
  simp only [Text.hexDigits, List.nil_append, List.cons_append, hexCode?, hdigit]
  exact congrArg (fun m => some (m, rest)) hsum

/-- A control character is read from its code. -/
theorem codeEscape?_hexDigits {c : Char} (h : c.toNat < 0x20) (rest : List Char) :
    codeEscape? (Text.hexDigits 4 c.toNat ++ rest) = some (c, rest) := by
  have hhigh : isHighHalf c.toNat = false := by
    simp [isHighHalf]
    omega
  have hlow : isLowHalf c.toNat = false := by
    simp [isLowHalf]
    omega
  unfold codeEscape?
  rw [hexCode?_hexDigits (by omega)]
  simp [hhigh, hlow, charOfCode]

/-! ## Characters in quotes -/

/-- One step reads one character as it was written. -/
theorem stringRest?_escapeChar (bound : Nat) (c : Char) (rest : List Char) :
    stringRest? (bound + 1) (escapeChar c ++ rest)
      = (stringRest? bound rest).map fun p => (c :: p.1, p.2) := by
  have hescape {d : Char} {more : List Char} (h : escape? (d :: more) = some (c, rest)) :
      stringRest? (bound + 1) ('\\' :: d :: more)
        = (stringRest? bound rest).map fun p => (c :: p.1, p.2) := by
    rw [stringRest?, if_neg (by decide), if_pos (by decide), h]
    change (stringRest? bound rest).bind _ = _
    cases stringRest? bound rest <;> rfl
  unfold escapeChar
  split
  · next hc =>
    refine hescape ?_
    rcases Bool.or_eq_true _ _ ▸ hc with hc | hc
    · rw [beq_iff_eq.1 hc]
      rfl
    · rw [beq_iff_eq.1 hc]
      rfl
  split
  · next hc => exact hescape (by rw [beq_iff_eq.1 hc]; rfl)
  split
  · next hc => exact hescape (by rw [beq_iff_eq.1 hc]; rfl)
  split
  · next hc => exact hescape (by rw [beq_iff_eq.1 hc]; rfl)
  split
  · next hc => exact hescape (by rw [beq_iff_eq.1 hc]; rfl)
  split
  · next hc => exact hescape (by rw [beq_iff_eq.1 hc]; rfl)
  split
  · next hc => exact hescape (codeEscape?_hexDigits hc rest)
  · next hplain _ _ _ _ _ hcontrol =>
    rw [Bool.or_eq_true, not_or] at hplain
    rw [List.singleton_append, stringRest?, if_neg hplain.1, if_neg hplain.2, if_neg hcontrol]
    cases stringRest? bound rest <;> rfl

/-- The characters of a text are read up to the closing quote. -/
theorem stringRest?_flatMap {cs : List Char} {bound : Nat} (h : cs.length < bound)
    (rest : List Char) :
    stringRest? bound (cs.flatMap escapeChar ++ '"' :: rest) = some (cs, rest) := by
  induction cs generalizing bound with
  | nil =>
    obtain ⟨bound, rfl⟩ := Nat.exists_eq_succ_of_ne_zero (Nat.pos_iff_ne_zero.1 h)
    rfl
  | cons c cs ih =>
    obtain ⟨bound, rfl⟩ := Nat.exists_eq_succ_of_ne_zero (Nat.pos_iff_ne_zero.1 (Nat.zero_lt_of_lt h))
    rw [List.flatMap_cons, List.append_assoc, stringRest?_escapeChar,
      ih (Nat.lt_of_succ_lt_succ h)]
    rfl

theorem length_escapeChar_pos (c : Char) : 0 < (escapeChar c).length := by
  unfold escapeChar
  repeat' split
  all_goals simp

theorem length_le_flatMap_escapeChar (cs : List Char) :
    cs.length ≤ (cs.flatMap escapeChar).length := by
  induction cs with
  | nil => exact Nat.le_refl _
  | cons c cs ih =>
    have := length_escapeChar_pos c
    rw [List.flatMap_cons, List.length_append, List.length_cons]
    omega

theorem toList_quoted (s : String) :
    (quoted s).toList = '"' :: (s.toList.flatMap escapeChar ++ ['"']) := by
  rw [quoted, String.toList_ofList]
  rfl

/-- A text is read from its quotes. -/
theorem string?_quoted (s : String) (rest : List Char) :
    string? ((quoted s).toList ++ rest) = some (s, rest) := by
  have hshape : (quoted s).toList ++ rest = '"' :: (s.toList.flatMap escapeChar ++ '"' :: rest) := by
    simp [toList_quoted]
  rw [hshape, string?]
  have hbound : s.toList.length < (s.toList.flatMap escapeChar ++ '"' :: rest).length := by
    have := length_le_flatMap_escapeChar s.toList
    rw [List.length_append, List.length_cons]
    omega
  rw [stringRest?_flatMap hbound, Option.map_some]
  show some (String.ofList s.toList, rest) = _
  rw [String.ofList_toList]

end Json

end SuperForward
