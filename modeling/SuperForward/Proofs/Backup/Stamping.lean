/-
  The ids of copies.

  The id of a stamp is a date, a time of day and a number, with a mark between them that no other
  name in a store has. For a time that a clock can show it is short enough to name a directory.
-/
import SuperForward.Backup.Stamp
import SuperForward.Files.Disk
import SuperForward.Proofs.Files.Paths
import SuperForward.Proofs.Json.Numbers
import Mathlib.Data.Nat.Digits.Defs
import Mathlib.Data.String.Basic

namespace SuperForward.Backup

open SuperForward.Files (Path Disk)

/-! ## Sizes -/

/-- A text of characters of one byte has as many bytes as characters. -/
theorem utf8ByteSize_ofList {cs : List Char} (h : ∀ c ∈ cs, c.utf8Size = 1) :
    (String.ofList cs).utf8ByteSize = cs.length := by
  rw [String.utf8ByteSize_ofList]
  induction cs with
  | nil => rfl
  | cons c cs ih =>
    rw [List.forall_mem_cons] at h
    rw [String.utf8Len, ih h.2, h.1, List.length_cons]

namespace Clock

/-- The parts of a date and of a time of day, in a year of four digits. -/
structure Valid (c : Clock) : Prop where
  year : c.year ≤ 9999
  month : c.month ≤ 12
  day : c.day ≤ 31
  hour : c.hour < 24
  minute : c.minute < 60
  second : c.second < 60
  microsecond : c.microsecond < 1000000

theorem toList_toString (n : Nat) : (toString n).toList = Nat.toDigits 10 n := Nat.toList_repr

theorem utf8ByteSize_toString (n : Nat) :
    (toString n).utf8ByteSize = (Nat.toDigits 10 n).length := by
  rw [← String.ofList_toList (s := toString n), toList_toString]
  refine utf8ByteSize_ofList fun c hc => ?_
  have hdigit := Json.isDigit_of_mem_numberDigits hc
  simp only [Char.isDigit, ge_iff_le, Bool.and_eq_true, decide_eq_true_eq] at hdigit
  have hnine : (57 : UInt32) ≤ 127 := by decide
  exact Char.utf8Size_eq_one_iff.2 (UInt32.le_trans hdigit.2 hnine)

/-- A number that fits into a width is written in that width. -/
theorem utf8ByteSize_padded {width n : Nat} (hwidth : 0 < width) (h : n < 10 ^ width) :
    (padded width n).utf8ByteSize = width := by
  have hlength := Nat.toDigits_length 10 n width hwidth h
  have hdigits : (toString n).length = (Nat.toDigits 10 n).length := by
    rw [← String.length_toList, toList_toString]
  have hzeros : (String.ofList (List.replicate (width - (toString n).length) '0')).utf8ByteSize
      = width - (toString n).length := by
    rw [utf8ByteSize_ofList fun c hc => by rw [List.eq_of_mem_replicate hc]; rfl,
      List.length_replicate]
  rw [padded, String.utf8ByteSize_append, hzeros, utf8ByteSize_toString]
  omega

/-- A date and a time take fifteen characters. -/
theorem Valid.utf8ByteSize_compact {c : Clock} (h : c.Valid) : c.compact.utf8ByteSize = 15 := by
  have hyear := @utf8ByteSize_padded 4 c.year (by decide) (by have := h.year; omega)
  have hpart : ∀ n < 100, (padded 2 n).utf8ByteSize = 2 := fun n hn =>
    utf8ByteSize_padded (by decide) hn
  have hmark : "_".utf8ByteSize = 1 := by decide
  obtain ⟨-, hmonth, hday, hhour, hminute, hsecond, -⟩ := h
  simp only [compact, String.utf8ByteSize_append, hyear, hmark]
  rw [hpart c.month (by omega), hpart c.day (by omega), hpart c.hour (by omega),
    hpart c.minute (by omega), hpart c.second (by omega)]

end Clock

/-! ## Ids -/

namespace Stamp

/-- The id can be the name of a directory, and has a mark that no other name in a store has. -/
structure IsId (id : String) : Prop where
  noSlash : '/' ∉ id.toList
  mark : '_' ∈ id.toList

theorem IsId.ne {id : String} (h : IsId id) {name : String} (hname : '_' ∉ name.toList) :
    id ≠ name := by
  rintro rfl
  exact hname h.mark

theorem IsId.isName {id : String} (h : IsId id) : Path.IsName id where
  isPart := by
    have hempty : id ≠ "" := h.ne (by decide)
    have hdot : id ≠ "." := h.ne (by decide)
    simp [Path.isPart, hempty, hdot]
  noSlash := h.noSlash

theorem noSlash_padded (width n : Nat) : '/' ∉ (Clock.padded width n).toList := by
  intro hmem
  rw [Clock.padded, String.toList_append, String.toList_ofList, List.mem_append] at hmem
  rcases hmem with hmem | hmem
  · exact absurd (List.eq_of_mem_replicate hmem) (by decide)
  · rw [Clock.toList_toString] at hmem
    exact absurd (Json.isDigit_of_mem_numberDigits hmem) (by decide)

theorem eq_hexDigit_of_mem_hexDigits {width n : Nat} {c : Char} (h : c ∈ Text.hexDigits width n) :
    ∃ m : Fin 16, c = Text.hexDigit m := by
  induction width generalizing n with
  | zero => cases h
  | succ width ih =>
    rw [Text.hexDigits, List.mem_append, List.mem_singleton] at h
    rcases h with h | rfl
    · exact ih h
    · exact ⟨⟨n % 16, Nat.mod_lt _ (by decide)⟩, rfl⟩

theorem noSlash_hexDigits (width n : Nat) : '/' ∉ Text.hexDigits width n := by
  intro hmem
  obtain ⟨m, hm⟩ := eq_hexDigit_of_mem_hexDigits hmem
  have hdigit : ∀ m : Fin 16, '/' ≠ Text.hexDigit m := by decide
  exact hdigit m hm

theorem isId_make (clock : Clock) (number : Nat) : IsId (make clock number).id where
  noSlash := by
    simp only [make, Clock.compact, String.toList_append, String.toList_ofList, List.mem_append,
      not_or]
    simp [noSlash_padded, noSlash_hexDigits]
  mark := by
    have hmark : '_' ∈ "_".toList := by decide
    simp only [make, String.toList_append, List.mem_append]
    exact .inl (.inr hmark)

/-- The id for a time is short enough for the name of a directory. -/
theorem utf8ByteSize_make {clock : Clock} (h : clock.Valid) (number : Nat) :
    (make clock number).id.utf8ByteSize ≤ Disk.nameLimit := by
  have hhex : (String.ofList (Text.hexDigits 6 number)).utf8ByteSize = 6 := by
    rw [utf8ByteSize_ofList fun c hc => ?_, Text.length_hexDigits]
    obtain ⟨m, rfl⟩ := eq_hexDigit_of_mem_hexDigits hc
    have hdigit : ∀ m : Fin 16, (Text.hexDigit m).utf8Size = 1 := by decide
    exact hdigit m
  have hmark : "_".utf8ByteSize = 1 := by decide
  simp only [make, String.utf8ByteSize_append, h.utf8ByteSize_compact, hhex, hmark]
  decide

/-- The id is one that is made for a time. -/
def IsMade (id : String) : Prop :=
  ∃ (clock : Clock) (number : Nat), clock.Valid ∧ (make clock number).id = id

theorem IsMade.isId {id : String} (h : IsMade id) : IsId id := by
  obtain ⟨clock, number, -, rfl⟩ := h
  exact isId_make clock number

theorem IsMade.utf8ByteSize_le {id : String} (h : IsMade id) : id.utf8ByteSize ≤ Disk.nameLimit := by
  obtain ⟨clock, number, hvalid, rfl⟩ := h
  exact utf8ByteSize_make hvalid number

end Stamp

end SuperForward.Backup
