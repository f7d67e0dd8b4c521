/-
  Sets of characters given as ascending runs of code points.
-/
namespace SuperForward.Text

/-- Runs of code points, both ends included, ascending and apart. -/
abbrev Ranges := List (Nat × Nat)

namespace Ranges

/-- Looks for the run that holds a code point; the search ends at the first run above it. -/
def holds : Ranges → Nat → Bool
  | [], _ => false
  | (first, last) :: rest, n =>
    if n < first then false else if n ≤ last then true else holds rest n

/-- The character lies in one of the runs. -/
def contains (runs : Ranges) (c : Char) : Bool := holds runs c.toNat

/-- What the search finds lies in a run. -/
theorem exists_run_of_holds {runs : Ranges} {n : Nat} (h : runs.holds n = true) :
    ∃ run ∈ runs, run.1 ≤ n ∧ n ≤ run.2 := by
  induction runs with
  | nil => simp [holds] at h
  | cons run rest ih =>
    obtain ⟨first, last⟩ := run
    simp only [holds] at h
    split at h
    · simp at h
    · split at h
      · exact ⟨_, List.mem_cons_self, by omega, by omega⟩
      · obtain ⟨r, hr, hb⟩ := ih h
        exact ⟨r, List.mem_cons_of_mem _ hr, hb⟩

end Ranges

end SuperForward.Text
