/-
  Lexemes: how a text is cut into tokens, comments and blanks.

  At each place the text decides the sort of the next lexeme, and the lexeme is as long as its
  sort allows. `scan` cuts until the text ends or no lexeme begins where it stands; blanks and
  comments only travel with the token that follows them.
-/
import SuperForward.Script.Token
import SuperForward.Text.DecimalDigit

namespace SuperForward.Script

open SuperForward.Text (Position isDecimalDigit)

/-! ## Character classes -/

/-- Space, tab, form feed, carriage return and line feed separate tokens. -/
def isSeparator (c : Char) : Bool :=
  c == ' ' || c == '\t' || c == '\x0c' || c == '\r' || c == '\n'

/-- A character that a name begins with. -/
def isNameStart (c : Char) : Bool := c.isAlpha || c == '_' || c == '$'

/-- A character that a name goes on with. -/
def isNamePart (c : Char) : Bool := isNameStart c || c.isDigit

/-- A hexadecimal digit. -/
def isHexDigit (c : Char) : Bool :=
  c.isDigit || ('a' ≤ c && c ≤ 'f') || ('A' ≤ c && c ≤ 'F')

/-! ## Lengths -/

/-- How many leading characters belong to a class. -/
def runLength (p : Char → Bool) (cs : List Char) : Nat := (cs.takeWhile p).length

/-- The length of a comment that ends with the first `*/`, delimiter included. -/
def closingLength : List Char → Option Nat
  | '*' :: '/' :: _ => some 2
  | _ :: rest => (closingLength rest).map (· + 1)
  | [] => none

/-- The length of a comment at the head of a text: to the end of the line, or to the closing
delimiter. An opening delimiter that is never closed opens no comment. -/
def commentLength : List Char → Option Nat
  | '/' :: '/' :: rest => some (2 + runLength (· != '\n') rest)
  | '/' :: '*' :: rest => (closingLength rest).map (· + 2)
  | _ => none

/-- The length of an exponent, which needs at least one digit. -/
def exponentLength : List Char → Nat
  | e :: rest =>
    if e == 'e' || e == 'E' then
      let sign := match rest with
        | c :: _ => if c == '+' || c == '-' then 1 else 0
        | [] => 0
      let digits := runLength isDecimalDigit (rest.drop sign)
      if digits == 0 then 0 else 1 + sign + digits
    else 0
  | [] => 0

/-- The length of the digits after a point, point included; a point may stand alone. -/
def fractionLength : List Char → Nat
  | '.' :: rest => 1 + runLength isDecimalDigit rest
  | _ => 0

/-- The length of a decimal number: digits with an optional fraction, or a point with digits,
and then an optional exponent. Zero if none begins here. -/
def decimalLength (cs : List Char) : Nat :=
  let whole := runLength isDecimalDigit cs
  let body := whole + fractionLength (cs.drop whole)
  if whole == 0 && body ≤ 1 then 0 else body + exponentLength (cs.drop body)

/-- The length of a number: hexadecimal if a digit follows the marker, otherwise decimal. -/
def numberLength (cs : List Char) : Nat :=
  match cs with
  | '0' :: x :: rest =>
    let digits := runLength isHexDigit rest
    if (x == 'x' || x == 'X') && digits != 0 then 2 + digits else decimalLength cs
  | _ => decimalLength cs

/-- The length of the rest of a string, up to its closing quote. A line feed ends the line
and cannot stand in it, even escaped. -/
def stringLength (quote : Char) : List Char → Option Nat
  | '\\' :: c :: rest => if c == '\n' then none else (stringLength quote rest).map (· + 2)
  | c :: rest =>
    if c == quote then some 1
    else if c == '\n' || c == '\\' then none
    else (stringLength quote rest).map (· + 1)
  | [] => none

/-- The quote of templates. -/
def templateQuote : Char := '\x60'

/-- The length of the rest of a template, which may span lines. -/
def templateLength : List Char → Option Nat
  | '\\' :: _ :: rest => (templateLength rest).map (· + 2)
  | c :: rest =>
    if c == templateQuote then some 1
    else if c == '\\' then none
    else (templateLength rest).map (· + 1)
  | [] => none

/-! ## Lexemes -/

/-- The sort of a lexeme. -/
inductive LexemeKind where
  | blank
  | comment
  | token (kind : TokenKind)
  deriving DecidableEq, Repr

/-- The kind of a name: the keyword that is written so, or a plain name. -/
def wordKind (cs : List Char) : TokenKind :=
  match Keyword.ofText? (String.ofList cs) with
  | some word => .keyword word
  | none => .name

/-- The sort and length of the lexeme at the head of a text; none if the text is empty or no
lexeme begins with its first character. -/
def nextLexeme (cs : List Char) : Option (LexemeKind × Nat) :=
  match cs with
  | [] => none
  | c :: rest =>
    if isSeparator c then some (.blank, runLength isSeparator cs)
    else if isNameStart c then
      some (.token (wordKind (cs.takeWhile isNamePart)), runLength isNamePart cs)
    else if c == '"' || c == '\'' then
      (stringLength c rest).map fun n => (.token .string, n + 1)
    else if c == templateQuote then
      (templateLength rest).map fun n => (.token .template, n + 1)
    else match commentLength cs with
      | some n => some (.comment, n)
      | none =>
        let digits := numberLength cs
        if digits != 0 then some (.token .number, digits)
        else (Mark.longest? cs).map fun m => (.token (.mark m), m.text.length)

/-- Where the cutting of a text stopped. -/
inductive ScanEnd where
  | endOfText
  | badCharacter (c : Char) (place : Position)
  deriving DecidableEq, Repr

/-- The tokens of a text, and where the cutting stopped. -/
structure Scan where
  tokens : List Token
  ending : ScanEnd

/-- Cuts a text that begins at the given offset and place; `pending` are the comments since
the last token, newest first. Every lexeme has a character, so the length of the text bounds
the number of steps. -/
def scanFrom : (bound : Nat) → List Char → Nat → Position → List Comment → Scan
  | 0, _, _, _, _ => ⟨[], .endOfText⟩
  | bound + 1, cs, offset, place, pending =>
    match cs with
    | [] => ⟨[], .endOfText⟩
    | c :: _ =>
      match nextLexeme cs with
      | none => ⟨[], .badCharacter c place⟩
      | some (kind, length) =>
        let lexeme := cs.take length
        let scanRest := scanFrom bound (cs.drop length) (offset + length) (place.advance lexeme)
        match kind with
        | .blank => scanRest pending
        | .comment => scanRest (⟨String.ofList lexeme, offset, offset + length⟩ :: pending)
        | .token kind =>
          let next := scanRest []
          let token : Token :=
            ⟨kind, String.ofList lexeme, offset, offset + length, place, pending.reverse⟩
          ⟨token :: next.tokens, next.ending⟩

/-- Cuts a text into tokens. -/
def scan (cs : List Char) : Scan := scanFrom (cs.length + 1) cs 0 .origin []

end SuperForward.Script
