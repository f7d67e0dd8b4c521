/-
  Cutting spans out of a text.

  A span that is cut takes with it the indentation before it, if nothing else stands before it
  on its line, and the line break after it, if nothing else stands after it. Spans that overlap
  are cut as one.
-/
import SuperForward.Data.StableSort

namespace SuperForward.Text

/-- A part of a text, from an offset up to but not including another. -/
structure Span where
  start : Nat
  stop : Nat
  deriving DecidableEq, Repr, Inhabited

/-- The span begins beyond the end of the text. -/
structure BeyondEnd where
  deriving DecidableEq, Repr

namespace BeyondEnd

/-- The wording of the fault. -/
def message (_ : BeyondEnd) : String := "string index out of range"

end BeyondEnd

namespace Span

/-- Blanks that a line is indented with. -/
def isIndent (c : Char) : Bool := c == ' ' || c == '\t'

/-- Where the line of an offset begins, if only indentation stands before the offset;
otherwise the offset itself. `before` is the text before the offset, read backwards. -/
def indentStart (before : List Char) (start : Nat) : Nat :=
  match before.dropWhile isIndent with
  | [] => 0
  | c :: rest => if c == '\n' then rest.length + 1 else start

/-- How many characters of a text make up trailing blanks and a line break; none if the line
does not end there. -/
def breakLength (after : List Char) : Option Nat :=
  let blanks := (after.takeWhile isIndent).length
  match after.drop blanks with
  | '\r' :: '\n' :: _ => some (blanks + 2)
  | '\n' :: _ => some (blanks + 1)
  | _ => none

/-- The span with the indentation before it and the line break after it. -/
def grow (text : List Char) (s : Span) : Except BeyondEnd Span :=
  if text.length < s.start then .error ⟨⟩
  else .ok ⟨indentStart (text.take s.start).reverse s.start,
    s.stop + (breakLength (text.drop s.stop)).getD 0⟩

/-- Unites each span with the following ones that begin before it ends. -/
def uniteFrom (current : Span) : List Span → List Span
  | [] => [current]
  | next :: rest =>
    if next.start < current.stop then uniteFrom ⟨current.start, max current.stop next.stop⟩ rest
    else current :: uniteFrom next rest

/-- Disjoint spans that cover the same text, in ascending order. -/
def unite (spans : List Span) : List Span :=
  match StableSort.sortBy (fun a b => decide (a.start ≤ b.start)) spans with
  | [] => []
  | first :: rest => uniteFrom first rest

/-- The text without one span. -/
def cutOne (text : List Char) (s : Span) : List Char := text.take s.start ++ text.drop s.stop

/-- The text without some disjoint spans; the last is cut first, so that offsets hold. -/
def cutAll (text : List Char) (spans : List Span) : List Char :=
  (StableSort.sortBy (fun a b => decide (b.start ≤ a.start)) spans).foldl cutOne text

end Span

/-- The text without the spans, each grown to whole lines where it can be, and the number of
places at which something was cut. -/
def removeSpans (text : String) (spans : List Span) : Except BeyondEnd (String × Nat) := do
  let united := Span.unite (← spans.mapM (Span.grow text.toList))
  return (String.ofList (Span.cutAll text.toList united), united.length)

end SuperForward.Text
