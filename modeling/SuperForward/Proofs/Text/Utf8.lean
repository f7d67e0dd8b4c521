/-
  Encoding a text and decoding the bytes gives the text again.
-/
import SuperForward.Text.Utf8

namespace SuperForward.Text.Utf8

/-! ## What a first byte says -/

/-- The shapes of encoded characters, by the number of the first byte. -/
theorem shape?_eq {b : UInt8} {n : Nat} (hb : b.toNat = n) : shape? b =
    if n < 0x80 then some (0, 0x80, 0xbf)
    else if n < 0xc2 then none
    else if n < 0xe0 then some (1, 0x80, 0xbf)
    else if n = 0xe0 then some (2, 0xa0, 0xbf)
    else if n = 0xed then some (2, 0x80, 0x9f)
    else if n < 0xf0 then some (2, 0x80, 0xbf)
    else if n = 0xf0 then some (3, 0x90, 0xbf)
    else if n < 0xf4 then some (3, 0x80, 0xbf)
    else if n = 0xf4 then some (3, 0x80, 0x8f)
    else none := by
  subst hb
  simp only [shape?, UInt8.lt_iff_toNat_lt, beq_iff_eq, ← UInt8.toNat_inj]
  rfl

/-- A byte in its range is taken. -/
theorem continueFrom_succ {low high b : UInt8} {taken value missing : Nat} {rest : Bytes}
    (hlow : low.toNat ≤ b.toNat) (hhigh : b.toNat ≤ high.toNat) :
    continueFrom low high taken value (missing + 1) (b :: rest)
      = continueFrom 0x80 0xbf (taken + 1) (value * 0x40 + b.toNat % 0x40) missing rest := by
  rw [continueFrom, if_neg]
  simp only [Bool.or_eq_true, decide_eq_true_eq, UInt8.lt_iff_toNat_lt]
  omega

theorem toNat_ofNat_of_lt {n : Nat} (h : n < 0x100) : (UInt8.ofNat n).toNat = n := by
  rw [UInt8.toNat_ofNat', Nat.mod_eq_of_lt h]

/-- A byte that goes on with six bits of a number. -/
def following (n : Nat) : UInt8 := .ofNat (0x80 + n % 0x40)

theorem toNat_following (n : Nat) : (following n).toNat = 0x80 + n % 0x40 :=
  toNat_ofNat_of_lt (by omega)

/-- A byte that goes on is taken with its six bits, if it is in its range. -/
theorem continueFrom_following {low high : UInt8} {taken value missing n : Nat} {rest : Bytes}
    (hlow : low.toNat ≤ 0x80 + n % 0x40) (hhigh : 0x80 + n % 0x40 ≤ high.toNat) :
    continueFrom low high taken value (missing + 1) (following n :: rest)
      = continueFrom 0x80 0xbf (taken + 1) (value * 0x40 + n % 0x40) missing rest := by
  have hbits : (0x80 + n % 0x40) % 0x40 = n % 0x40 := by omega
  rw [continueFrom_succ (by rwa [toNat_following]) (by rwa [toNat_following]), toNat_following,
    hbits]

theorem continueFrom_any {taken value missing n : Nat} {rest : Bytes} :
    continueFrom 0x80 0xbf taken value (missing + 1) (following n :: rest)
      = continueFrom 0x80 0xbf (taken + 1) (value * 0x40 + n % 0x40) missing rest :=
  continueFrom_following (Nat.le_add_right ..) (by show _ ≤ 0xbf; omega)

/-- How characters are encoded, by their numbers. -/
theorem encodeChar_eq (c : Char) : encodeChar c =
    if c.toNat < 0x80 then [.ofNat c.toNat]
    else if c.toNat < 0x800 then [.ofNat (0xc0 + c.toNat / 0x40), following (c.toNat / 1)]
    else if c.toNat < 0x10000 then
      [.ofNat (0xe0 + c.toNat / 0x1000), following (c.toNat / 0x40), following (c.toNat / 1)]
    else [.ofNat (0xf0 + c.toNat / 0x40000), following (c.toNat / 0x1000),
      following (c.toNat / 0x40), following (c.toNat / 1)] := rfl

/-- No character has a number between those of two halves of a pair, or beyond the last one. -/
theorem toNat_bounds (c : Char) : c.toNat < 0xd800 ∨ 0xdfff < c.toNat ∧ c.toNat < 0x110000 := c.valid

/-! ## Taking characters -/

section Steps

variable {n : Nat} (more : Bytes)

theorem step_one (h : n < 0x80) : step (.ofNat n) more = .char (Char.ofNat n) 1 := by
  have hfirst := toNat_ofNat_of_lt (n := n) (by omega)
  rw [step, shape?_eq hfirst, if_pos h]
  simp only [continueFrom, leadBits, hfirst]

theorem step_two (hlow : 0x80 ≤ n) (hhigh : n < 0x800) :
    step (.ofNat (0xc0 + n / 0x40)) (following (n / 1) :: more) = .char (Char.ofNat n) 2 := by
  have hfirst := toNat_ofNat_of_lt (n := 0xc0 + n / 0x40) (by omega)
  have hvalue : (0xc0 + n / 0x40) % 0x20 * 0x40 + n / 1 % 0x40 = n := by omega
  rw [step, shape?_eq hfirst, if_neg (by omega), if_neg (by omega), if_pos (by omega)]
  simp only [continueFrom_any]
  simp only [leadBits, hfirst, hvalue, continueFrom]

/-- The second of three bytes is in the range that goes with the first one: a number below the
range would take up fewer bytes, and one above it is half of a pair. -/
theorem exists_shape_three (hlow : 0x800 ≤ n) (hhigh : n < 0x10000)
    (hpair : n < 0xd800 ∨ 0xdfff < n) :
    ∃ low high : UInt8, shape? (.ofNat (0xe0 + n / 0x1000)) = some (2, low, high) ∧
      low.toNat ≤ 0x80 + n / 0x40 % 0x40 ∧ 0x80 + n / 0x40 % 0x40 ≤ high.toNat := by
  rw [shape?_eq (toNat_ofNat_of_lt (n := 0xe0 + n / 0x1000) (by omega)), if_neg (by omega),
    if_neg (by omega), if_neg (by omega)]
  by_cases hfirst : 0xe0 + n / 0x1000 = 0xe0
  · rw [if_pos hfirst]
    exact ⟨_, _, rfl, by show 0xa0 ≤ _; omega, by show _ ≤ 0xbf; omega⟩
  rw [if_neg hfirst]
  by_cases hlast : 0xe0 + n / 0x1000 = 0xed
  · rw [if_pos hlast]
    exact ⟨_, _, rfl, by show 0x80 ≤ _; omega, by show _ ≤ 0x9f; omega⟩
  · rw [if_neg hlast, if_pos (by omega)]
    exact ⟨_, _, rfl, by show 0x80 ≤ _; omega, by show _ ≤ 0xbf; omega⟩

theorem step_three (hlow : 0x800 ≤ n) (hhigh : n < 0x10000) (hpair : n < 0xd800 ∨ 0xdfff < n) :
    step (.ofNat (0xe0 + n / 0x1000)) (following (n / 0x40) :: following (n / 1) :: more)
      = .char (Char.ofNat n) 3 := by
  have hfirst := toNat_ofNat_of_lt (n := 0xe0 + n / 0x1000) (by omega)
  have hvalue : ((0xe0 + n / 0x1000) % 0x10 * 0x40 + n / 0x40 % 0x40) * 0x40 + n / 1 % 0x40
      = n := by
    omega
  obtain ⟨low, high, hshape, hsecond, hsecond'⟩ := exists_shape_three hlow hhigh hpair
  rw [step, hshape]
  simp only []
  rw [continueFrom_following hsecond hsecond', continueFrom_any]
  simp only [leadBits, hfirst, hvalue, continueFrom]

/-- The second of four bytes is in the range that goes with the first one: a number below the
range would take up fewer bytes, and one above it is beyond the last character. -/
theorem exists_shape_four (hlow : 0x10000 ≤ n) (hhigh : n < 0x110000) :
    ∃ low high : UInt8, shape? (.ofNat (0xf0 + n / 0x40000)) = some (3, low, high) ∧
      low.toNat ≤ 0x80 + n / 0x1000 % 0x40 ∧ 0x80 + n / 0x1000 % 0x40 ≤ high.toNat := by
  rw [shape?_eq (toNat_ofNat_of_lt (n := 0xf0 + n / 0x40000) (by omega)), if_neg (by omega),
    if_neg (by omega), if_neg (by omega), if_neg (by omega), if_neg (by omega), if_neg (by omega)]
  by_cases hfirst : 0xf0 + n / 0x40000 = 0xf0
  · rw [if_pos hfirst]
    exact ⟨_, _, rfl, by show 0x90 ≤ _; omega, by show _ ≤ 0xbf; omega⟩
  rw [if_neg hfirst]
  by_cases hmiddle : 0xf0 + n / 0x40000 < 0xf4
  · rw [if_pos hmiddle]
    exact ⟨_, _, rfl, by show 0x80 ≤ _; omega, by show _ ≤ 0xbf; omega⟩
  · rw [if_neg hmiddle, if_pos (by omega)]
    exact ⟨_, _, rfl, by show 0x80 ≤ _; omega, by show _ ≤ 0x8f; omega⟩

theorem step_four (hlow : 0x10000 ≤ n) (hhigh : n < 0x110000) :
    step (.ofNat (0xf0 + n / 0x40000))
        (following (n / 0x1000) :: following (n / 0x40) :: following (n / 1) :: more)
      = .char (Char.ofNat n) 4 := by
  have hfirst := toNat_ofNat_of_lt (n := 0xf0 + n / 0x40000) (by omega)
  have hvalue : (((0xf0 + n / 0x40000) % 0x08 * 0x40 + n / 0x1000 % 0x40) * 0x40
      + n / 0x40 % 0x40) * 0x40 + n / 1 % 0x40 = n := by
    omega
  obtain ⟨low, high, hshape, hsecond, hsecond'⟩ := exists_shape_four hlow hhigh
  rw [step, hshape]
  simp only []
  rw [continueFrom_following hsecond hsecond', continueFrom_any, continueFrom_any]
  simp only [leadBits, hfirst, hvalue, continueFrom]

end Steps

/-- The bytes of a character are taken as the character. -/
theorem step_encodeChar (c : Char) (more : Bytes) : ∃ first rest, encodeChar c = first :: rest ∧
    step first (rest ++ more) = .char c (rest.length + 1) := by
  have hc := toNat_bounds c
  have hchar : Char.ofNat c.toNat = c := Char.ofNat_toNat c
  rw [encodeChar_eq]
  generalize c.toNat = n at hc hchar
  subst hchar
  split
  · next hone => exact ⟨_, [], rfl, step_one more hone⟩
  split
  · next hone htwo => exact ⟨_, [_], rfl, step_two more (Nat.le_of_not_lt hone) htwo⟩
  split
  · next htwo hthree =>
    exact ⟨_, [_, _], rfl, step_three more (Nat.le_of_not_lt htwo) hthree (hc.imp_right And.left)⟩
  · next hthree =>
    exact ⟨_, [_, _, _], rfl, step_four more (Nat.le_of_not_lt hthree) (by omega)⟩

/-! ## Texts -/

/-- The bytes of some characters are decoded as these characters. -/
theorem decodeFrom_encode (cs : List Char) {bound : Nat}
    (hbound : (cs.flatMap encodeChar).length ≤ bound) (offset : Nat) :
    decodeFrom bound offset (cs.flatMap encodeChar) = .ok cs := by
  induction cs generalizing bound offset with
  | nil => cases bound <;> rfl
  | cons c cs ih =>
    obtain ⟨first, rest, hc, hstep⟩ := step_encodeChar c (cs.flatMap encodeChar)
    rw [List.flatMap_cons, hc, List.cons_append] at hbound ⊢
    cases bound with
    | zero => cases hbound
    | succ bound =>
      have hdrop : (rest ++ cs.flatMap encodeChar).drop rest.length = cs.flatMap encodeChar :=
        List.drop_left ..
      rw [List.length_cons, List.length_append] at hbound
      simp only [decodeFrom, hstep, Nat.add_sub_cancel, hdrop, ih (show _ ≤ bound by omega)]
      rfl

/-- Decoding the bytes of a text gives the text. -/
theorem decode_encode (s : String) : decode (encode s) = .ok s := by
  rw [decode, encode, decodeFrom_encode s.toList (Nat.le_refl _)]
  exact congrArg Except.ok (String.ofList_toList ..)

end SuperForward.Text.Utf8
