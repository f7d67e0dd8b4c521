/-
  Programs of scripts that are given by their characters.

  A text is encoded, and to take it apart into characters it has to be decoded. Where the
  characters are known, reading can start from them, which is how closed facts about scripts are
  computed here.
-/
import SuperForward.Analysis
import Mathlib.Data.List.Forall2

namespace SuperForward

/-- What comes of a computation that ends can be compared as a value. -/
theorem toOption_eq_some {ε α : Type} {e : Except ε α} {a : α} :
    e.toOption = some a ↔ e = .ok a := by
  cases e with
  | error e => exact ⟨fun h => (nomatch h), fun h => (nomatch h)⟩
  | ok b => exact ⟨fun h => congrArg Except.ok (Option.some.inj h),
      fun h => congrArg some (Except.ok.inj h)⟩

/-- Texts of known characters, one after the other. -/
theorem text_append {s t : String} {cs ds : List Char} (hs : s = String.ofList cs)
    (ht : t = String.ofList ds) : s ++ t = String.ofList (cs ++ ds) := by
  rw [hs, ht, String.ofList_append]

theorem Script.read_ofList (cs : List Char) : read (String.ofList cs) = statementsOf (scan cs) := by
  unfold read
  rw [String.toList_ofList]

namespace Program

/-- Adds scripts that are given by their characters. -/
def addCharacters (p : Program) : List (String × List Char) → Program × List Script.Refusal
  | [] => (p, [])
  | (path, cs) :: rest =>
    match Script.statementsOf (Script.scan cs) with
    | .ok statements => (p.addScript path cs.length statements).1.addCharacters rest
    | .error error =>
      let (q, refusals) := p.addCharacters rest
      (q, ⟨path, error⟩ :: refusals)

/-- The sources have these characters. -/
abbrev Spelled (sources : List Source) (scripts : List (String × List Char)) : Prop :=
  List.Forall₂ (fun s script => s.path = script.1 ∧ s.text = String.ofList script.2) sources scripts

theorem addSources_of_spelled {sources : List Source} {scripts : List (String × List Char)}
    (h : Spelled sources scripts) (p : Program) : p.addSources sources = p.addCharacters scripts := by
  induction h generalizing p with
  | nil => rfl
  | @cons s script sources scripts hs _ ih =>
    obtain ⟨path, cs⟩ := script
    obtain ⟨hpath, htext⟩ := hs
    rw [addSources, addCharacters, addText, hpath, htext, Script.read_ofList, String.length_ofList]
    cases Script.statementsOf (Script.scan cs) with
    | ok statements => exact ih _
    | error e => simp only [ih]

/-- The program of a source whose characters are known. -/
theorem ofSources_one {path text : String} {cs : List Char} (h : text = String.ofList cs) :
    ofSources [⟨path, text⟩] = empty.addCharacters [(path, cs)] :=
  addSources_of_spelled (.cons ⟨rfl, h⟩ .nil) empty

/-- The program of two sources whose characters are known. -/
theorem ofSources_two {path path' text text' : String} {cs cs' : List Char}
    (h : text = String.ofList cs) (h' : text' = String.ofList cs') :
    ofSources [⟨path, text⟩, ⟨path', text'⟩] = empty.addCharacters [(path, cs), (path', cs')] :=
  addSources_of_spelled (.cons ⟨rfl, h⟩ (.cons ⟨rfl, h'⟩ .nil)) empty

end Program

end SuperForward
