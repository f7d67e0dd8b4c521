/-
  Text as bytes, in UTF-8.

  Bytes that are no text are refused with the place and the length of the first sequence that
  fails, and with what is wrong there: a byte that begins nothing, a byte that cannot go on
  what was begun, or an end in the middle.
-/
import SuperForward.Text.Quoted

namespace SuperForward.Text

/-- A sequence of bytes. -/
abbrev Bytes := List UInt8

namespace Utf8

/-- The bytes of a character. -/
def encodeChar (c : Char) : Bytes :=
  let n := c.toNat
  let tail (shift : Nat) : UInt8 := .ofNat (0x80 + n / Nat.pow 2 shift % 0x40)
  if n < 0x80 then [.ofNat n]
  else if n < 0x800 then [.ofNat (0xc0 + n / 0x40), tail 0]
  else if n < 0x10000 then [.ofNat (0xe0 + n / 0x1000), tail 6, tail 0]
  else [.ofNat (0xf0 + n / 0x40000), tail 12, tail 6, tail 0]

/-- The bytes of a text. -/
def encode (s : String) : Bytes := s.toList.flatMap encodeChar

/-! ## Decoding -/

/-- What is wrong with a sequence of bytes. -/
inductive Flaw where
  | invalidStart | invalidContinuation | unexpectedEnd
  deriving DecidableEq, Repr

namespace Flaw

/-- The wording of each flaw. -/
def reason : Flaw → String
  | .invalidStart => "invalid start byte"
  | .invalidContinuation => "invalid continuation byte"
  | .unexpectedEnd => "unexpected end of data"

end Flaw

/-- The bytes that are no text, from an offset on, and what is wrong with them. -/
structure Error where
  offset : Nat
  bytes : Bytes
  flaw : Flaw
  deriving DecidableEq, Repr

/-- How many bytes follow a first byte, and the range of the second one: a text has one
encoding only, and none for what is no character. None if no character begins so. -/
def shape? (first : UInt8) : Option (Nat × UInt8 × UInt8) :=
  if first < 0x80 then some (0, 0x80, 0xbf)
  else if first < 0xc2 then none
  else if first < 0xe0 then some (1, 0x80, 0xbf)
  else if first == 0xe0 then some (2, 0xa0, 0xbf)
  else if first == 0xed then some (2, 0x80, 0x9f)
  else if first < 0xf0 then some (2, 0x80, 0xbf)
  else if first == 0xf0 then some (3, 0x90, 0xbf)
  else if first < 0xf4 then some (3, 0x80, 0xbf)
  else if first == 0xf4 then some (3, 0x80, 0x8f)
  else none

/-- The payload of a first byte that so many bytes follow. -/
def leadBits (following : Nat) (first : UInt8) : Nat :=
  match following with
  | 0 => first.toNat
  | 1 => first.toNat % 0x20
  | 2 => first.toNat % 0x10
  | _ => first.toNat % 0x08

/-- A character that the head of some bytes encodes, and how many bytes it takes; or how many
bytes fail there, and why. -/
inductive Step where
  | char (c : Char) (length : Nat)
  | fail (length : Nat) (flaw : Flaw)
  deriving DecidableEq, Repr

/-- Takes the bytes that have to follow; `taken` have been taken, with their payload. -/
def continueFrom (low high : UInt8) (taken value : Nat) : (missing : Nat) → Bytes → Step
  | 0, _ => .char (Char.ofNat value) taken
  | _ + 1, [] => .fail taken .unexpectedEnd
  | missing + 1, b :: rest =>
    if b < low || high < b then .fail taken .invalidContinuation
    else continueFrom 0x80 0xbf (taken + 1) (value * 0x40 + b.toNat % 0x40) missing rest

/-- Takes one character. -/
def step (first : UInt8) (rest : Bytes) : Step :=
  match shape? first with
  | none => .fail 1 .invalidStart
  | some (following, low, high) =>
    continueFrom low high 1 (leadBits following first) following rest

/-- The characters of some bytes that stand at an offset. A character takes at least a byte,
so the number of bytes bounds the number of steps. -/
def decodeFrom : (bound : Nat) → (offset : Nat) → Bytes → Except Error (List Char)
  | 0, _, _ | _, _, [] => .ok []
  | bound + 1, offset, first :: rest =>
    match step first rest with
    | .char c length => do
      let cs ← decodeFrom bound (offset + length) (rest.drop (length - 1))
      return c :: cs
    | .fail length flaw => .error ⟨offset, (first :: rest).take length, flaw⟩

/-- The text of some bytes. -/
def decode (bytes : Bytes) : Except Error String :=
  String.ofList <$> decodeFrom bytes.length 0 bytes

/-- A byte as two hexadecimal digits. -/
def hexByte (b : UInt8) : List Char := hexDigits 2 b.toNat

/-- The wording of a refusal. -/
def Error.message (e : Error) : String :=
  let place := match e.bytes with
    | [b] => "byte 0x" ++ String.ofList (hexByte b) ++ " in position " ++ toString e.offset
    | bs => "bytes in position " ++ toString e.offset ++ "-" ++ toString (e.offset + bs.length - 1)
  "'utf-8' codec can't decode " ++ place ++ ": " ++ e.flaw.reason

end Utf8

/-! ## Line breaks -/

/-- The text with every line break written as one line feed. -/
def unifyBreaks : List Char → List Char
  | '\r' :: '\n' :: rest => '\n' :: unifyBreaks rest
  | '\r' :: rest => '\n' :: unifyBreaks rest
  | c :: rest => c :: unifyBreaks rest
  | [] => []

end SuperForward.Text
