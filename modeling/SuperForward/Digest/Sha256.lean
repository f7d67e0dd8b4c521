/-
  The SHA-256 digest.

  The bytes are padded to blocks of 64, each block stirs eight words of 32 bits in 64 rounds,
  and the words are the digest.
-/
import SuperForward.Text.Quoted
import SuperForward.Text.Utf8

namespace SuperForward.Digest

open SuperForward.Text (Bytes)

/-- The constants of the rounds. -/
def roundConstants : List UInt32 := [
  0x428a2f98, 0x71374491, 0xb5c0fbcf, 0xe9b5dba5, 0x3956c25b, 0x59f111f1, 0x923f82a4, 0xab1c5ed5,
  0xd807aa98, 0x12835b01, 0x243185be, 0x550c7dc3, 0x72be5d74, 0x80deb1fe, 0x9bdc06a7, 0xc19bf174,
  0xe49b69c1, 0xefbe4786, 0x0fc19dc6, 0x240ca1cc, 0x2de92c6f, 0x4a7484aa, 0x5cb0a9dc, 0x76f988da,
  0x983e5152, 0xa831c66d, 0xb00327c8, 0xbf597fc7, 0xc6e00bf3, 0xd5a79147, 0x06ca6351, 0x14292967,
  0x27b70a85, 0x2e1b2138, 0x4d2c6dfc, 0x53380d13, 0x650a7354, 0x766a0abb, 0x81c2c92e, 0x92722c85,
  0xa2bfe8a1, 0xa81a664b, 0xc24b8b70, 0xc76c51a3, 0xd192e819, 0xd6990624, 0xf40e3585, 0x106aa070,
  0x19a4c116, 0x1e376c08, 0x2748774c, 0x34b0bcb5, 0x391c0cb3, 0x4ed8aa4a, 0x5b9cca4f, 0x682e6ff3,
  0x748f82ee, 0x78a5636f, 0x84c87814, 0x8cc70208, 0x90befffa, 0xa4506ceb, 0xbef9a3f7, 0xc67178f2]

/-- The eight words. -/
structure Words where
  a : UInt32
  b : UInt32
  c : UInt32
  d : UInt32
  e : UInt32
  f : UInt32
  g : UInt32
  h : UInt32
  deriving DecidableEq, Repr

namespace Words

/-- The words before the first block. -/
def initial : Words := ⟨
  0x6a09e667, 0xbb67ae85, 0x3c6ef372, 0xa54ff53a, 0x510e527f, 0x9b05688c, 0x1f83d9ab, 0x5be0cd19⟩

/-- The words one by one. -/
def toList (w : Words) : List UInt32 := [w.a, w.b, w.c, w.d, w.e, w.f, w.g, w.h]

/-- Adds words one by one. -/
def add (v w : Words) : Words :=
  ⟨v.a + w.a, v.b + w.b, v.c + w.c, v.d + w.d, v.e + w.e, v.f + w.f, v.g + w.g, v.h + w.h⟩

end Words

/-- Turns a word to the right. -/
def rotate (w : UInt32) (n : UInt32) : UInt32 := (w >>> n) ||| (w <<< (32 - n))

/-- One round with its constant and its word of the schedule. -/
def round (w : Words) (constant scheduled : UInt32) : Words :=
  let s₁ := rotate w.e 6 ^^^ rotate w.e 11 ^^^ rotate w.e 25
  let choice := (w.e &&& w.f) ^^^ ((~~~ w.e) &&& w.g)
  let t₁ := w.h + s₁ + choice + constant + scheduled
  let s₀ := rotate w.a 2 ^^^ rotate w.a 13 ^^^ rotate w.a 22
  let majority := (w.a &&& w.b) ^^^ (w.a &&& w.c) ^^^ (w.b &&& w.c)
  ⟨t₁ + s₀ + majority, w.a, w.b, w.c, w.d + t₁, w.e, w.f, w.g⟩

/-- The next word of the schedule, from the sixteen before it. -/
def nextScheduled (window : List UInt32) : UInt32 :=
  let at₀ (i : Nat) : UInt32 := window.getD i 0
  let w₁ := at₀ 1
  let w₁₄ := at₀ 14
  let s₀ := rotate w₁ 7 ^^^ rotate w₁ 18 ^^^ (w₁ >>> 3)
  let s₁ := rotate w₁₄ 17 ^^^ rotate w₁₄ 19 ^^^ (w₁₄ >>> 10)
  at₀ 0 + s₀ + at₀ 9 + s₁

/-- All rounds; `window` holds the next sixteen words of the schedule. -/
def rounds : List UInt32 → List UInt32 → Words → Words
  | [], _, w => w
  | constant :: rest, window, w =>
    rounds rest (window.drop 1 ++ [nextScheduled window]) (round w constant (window.headD 0))

/-- The number that four bytes make. -/
def wordOf (bytes : Bytes) : UInt32 := bytes.foldl (fun w b => w * 256 + b.toUInt32) 0

/-- Cuts a list into pieces, at most `bound` of them. -/
def pieces {α : Type} (size : Nat) : (bound : Nat) → List α → List (List α)
  | 0, _ | _, [] => []
  | bound + 1, as => as.take size :: pieces size bound (as.drop size)

/-- Stirs a block into the words. -/
def stir (w : Words) (block : Bytes) : Words :=
  w.add (rounds roundConstants ((pieces 4 16 block).map wordOf) w)

/-- The last bytes: a mark, zeros up to a block less eight bytes, and the number of bits. -/
def padding (length : Nat) : Bytes :=
  let zeros := (119 - length % 64) % 64
  let bits := 8 * length
  0x80 :: List.replicate zeros 0 ++ ((List.range 8).map fun i => .ofNat (bits / Nat.pow 256 (7 - i)))

/-- The digest in hexadecimal digits. -/
def sha256 (bytes : Bytes) : String :=
  let padded := bytes ++ padding bytes.length
  let words := (pieces 64 padded.length padded).foldl stir .initial
  String.ofList (words.toList.flatMap fun w => Text.hexDigits 8 w.toNat)

end SuperForward.Digest
