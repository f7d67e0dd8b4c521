/-
  Upper and lower case of any text.

  Case is taken character by character, but for the capital sigma, whose small letter at the
  end of a word is another one than within.
-/
import SuperForward.Text.CaseTable
import SuperForward.Text.Cased

namespace SuperForward.Text

/-- The characters a run moves. -/
def CaseRun.covers (run : CaseRun) (n : Nat) : Bool :=
  run.first ≤ n && n ≤ run.last && (n - run.first) % run.step == 0

/-- The character moved by the run that covers it, or itself. -/
def shiftCase (runs : List CaseRun) (c : Char) : Char :=
  match runs.find? (·.covers c.toNat) with
  | some run => Char.ofNat (Int.toNat (c.toNat + run.shift))
  | none => c

/-- The upper case of one character, which may be several. -/
def upperChars (c : Char) : List Char :=
  match upperExpansions.lookup c.toNat with
  | some codes => codes.map Char.ofNat
  | none => [shiftCase upperRuns c]

/-- The lower case of one character: two for the capital i with a dot. -/
def lowerChars (c : Char) : List Char :=
  if c == '\u0130' then ['i', '\u0307'] else [shiftCase lowerRuns c]

/-- The text in upper case. -/
def toUpper (s : String) : String := String.ofList (s.toList.flatMap upperChars)

/-- The lower case of a text. A capital sigma ends a word if a letter with case goes before it
and none comes after it; `inWord` says that the text goes on after such a letter. -/
def lowerFrom (inWord : Bool) : List Char → List Char
  | [] => []
  | c :: rest =>
    (if c == 'Σ' && inWord && !beginsCased rest then ['ς'] else lowerChars c)
      ++ lowerFrom (if isCaseIgnorable c then inWord else isCased c) rest

/-- The text in lower case. -/
def toLower (s : String) : String := String.ofList (lowerFrom false s.toList)

end SuperForward.Text
