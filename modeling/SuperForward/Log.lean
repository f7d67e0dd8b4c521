/-
  What is noted down while work goes on.
-/
import SuperForward.Text.Case

namespace SuperForward.Log

/-- How important an entry is. -/
inductive Level where
  | debug | info | warning
  deriving DecidableEq, Repr, Inhabited

namespace Level

/-- The word for a level. -/
def word : Level → String
  | .debug => "DEBUG"
  | .info => "INFO"
  | .warning => "WARNING"

/-- The thresholds up to which a level is shown. -/
def number : Level → Nat
  | .debug => 10
  | .info => 20
  | .warning => 30

end Level

/-- One note. -/
structure Entry where
  level : Level
  text : String
  deriving DecidableEq, Repr, Inhabited

namespace Entry

/-- The note with its level. -/
def render (e : Entry) : String := e.level.word ++ ": " ++ e.text

end Entry

/-- The notes that a threshold lets through. -/
def shown (threshold : Nat) (log : List Entry) : List Entry :=
  log.filter fun e => decide (threshold ≤ e.level.number)

/-! ## Thresholds -/

/-- The thresholds that have names. -/
def thresholds : List (String × Nat) := [
  ("CRITICAL", 50), ("FATAL", 50), ("ERROR", 40), ("WARNING", 30), ("WARN", 30), ("INFO", 20),
  ("DEBUG", 10), ("NOTSET", 0)]

/-- The threshold of a name in capitals. -/
def threshold? (name : String) : Option Nat := thresholds.lookup name

/-- The threshold of a name in any case. -/
def thresholdOfName? (name : String) : Option Nat := threshold? (Text.toUpper name)

/-- The threshold as long as none is chosen. -/
def defaultThreshold : Nat := 30

end SuperForward.Log
