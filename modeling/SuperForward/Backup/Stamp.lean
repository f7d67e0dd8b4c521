/-
  Stamps: what a new copy is known by.
-/
import SuperForward.Text.Quoted

namespace SuperForward.Backup

/-- The id of a copy, and the time at which it is made. -/
structure Stamp where
  id : String
  time : String
  deriving DecidableEq, Repr, Inhabited

/-- A time of day on a date. -/
structure Clock where
  year : Nat
  month : Nat
  day : Nat
  hour : Nat
  minute : Nat
  second : Nat
  microsecond : Nat
  deriving DecidableEq, Repr

namespace Clock

/-- A number with zeros before it, up to a width. -/
def padded (width n : Nat) : String :=
  let digits := toString n
  String.ofList (List.replicate (width - digits.length) '0') ++ digits

/-- The date and the time, run together. -/
def compact (c : Clock) : String :=
  padded 4 c.year ++ padded 2 c.month ++ padded 2 c.day ++ "_"
    ++ padded 2 c.hour ++ padded 2 c.minute ++ padded 2 c.second

/-- The date and the time with their parts set apart; whole seconds have no fraction. -/
def spaced (c : Clock) : String :=
  padded 4 c.year ++ "-" ++ padded 2 c.month ++ "-" ++ padded 2 c.day ++ "T"
    ++ padded 2 c.hour ++ ":" ++ padded 2 c.minute ++ ":" ++ padded 2 c.second
    ++ (if c.microsecond == 0 then "" else "." ++ padded 6 c.microsecond)

end Clock

/-- The stamp for a time and a number, which tells apart the copies of one second. -/
def Stamp.make (clock : Clock) (number : Nat) : Stamp :=
  ⟨clock.compact ++ "_" ++ String.ofList (Text.hexDigits 6 number), clock.spaced⟩

end SuperForward.Backup
