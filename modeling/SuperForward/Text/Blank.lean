/-
  White space: the characters that a trim takes off the ends of a text.
-/
import SuperForward.Text.Ranges

namespace SuperForward.Text

/-- The runs of white space, ascending: the separators of the ASCII controls and of Unicode. -/
def blanks : Ranges := [
  (0x9, 0xd), (0x1c, 0x20), (0x85, 0x85), (0xa0, 0xa0), (0x1680, 0x1680), (0x2000, 0x200a),
  (0x2028, 0x2029), (0x202f, 0x202f), (0x205f, 0x205f), (0x3000, 0x3000)]

/-- A white-space character. -/
def isBlank (c : Char) : Bool := blanks.contains c

/-- Drops the characters of a class from the end. -/
def dropTailWhile (p : Char → Bool) (cs : List Char) : List Char :=
  (cs.reverse.dropWhile p).reverse

/-- The text without the white space at its two ends. -/
def trim (s : String) : String :=
  String.ofList (dropTailWhile isBlank (s.toList.dropWhile isBlank))

/-- The text without the leading characters of a class. -/
def trimStartOf (p : Char → Bool) (s : String) : String := String.ofList (s.toList.dropWhile p)

end SuperForward.Text
