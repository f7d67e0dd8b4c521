/-
  Cutting a text at every place of a mark.
-/
namespace SuperForward.Text

/-- The pieces between the characters of a class, empty ones included. -/
def pieces (isMark : Char → Bool) : List Char → List (List Char)
  | [] => [[]]
  | c :: rest =>
    if isMark c then [] :: pieces isMark rest
    else (pieces isMark rest).modifyHead (c :: ·)

/-- The pieces of a text between the places of a mark. -/
def piecesAt (mark : Char) (s : String) : List String :=
  (pieces (· == mark) s.toList).map String.ofList

theorem pieces_ne_nil (isMark : Char → Bool) (cs : List Char) : pieces isMark cs ≠ [] := by
  induction cs with
  | nil => simp [pieces]
  | cons c rest ih =>
    by_cases hc : isMark c
    · simp [pieces, hc]
    · cases h : pieces isMark rest with
      | nil => exact absurd h ih
      | cons first others => simp [pieces, hc, h]

end SuperForward.Text
