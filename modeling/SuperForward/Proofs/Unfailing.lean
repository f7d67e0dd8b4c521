/-
  The whole way from sources to pruned texts.

  Whatever the sources are, nothing on the way fails: not the typing of what can be read of them,
  not removal, not a second removal, and not the cutting of the texts. The texts can be cut
  because every record tells a part of the text of its own source.
-/
import SuperForward.Proofs.Forward.Rewriting

namespace SuperForward

open SuperForward.Files (Path)
open SuperForward.Program (root)

/-! ## The whole way -/

/-- Sources are analysed, a second removal is made, and the texts are cut at the parts that the
first removal, the second one or both have recorded: nothing of this fails, if the sources can be
told apart by their paths. Sources that cannot be read are left out. -/
theorem exists_pruned_of_sources {sources : List Source}
    (hpaths : (sources.map fun s => Path.ofText s.path).Nodup) (tags : List String) :
    ∃ a again s, Analysis.ofProgram (Program.ofSources sources).1 tags = .ok a ∧
      (Removal.process root).outcome a.removal = (.ok again, s) ∧
      ∀ records : List Removed, records ⊆ a.removed ++ again →
        ∃ pruned, Pruned.ofSources sources records = .ok pruned := by
  obtain ⟨typing, types, htyping, hprogram, -, -⟩ := Typing.ofProgram_ofSources sources
  have hparsed : typing.program.Parsed := hprogram ▸ Program.parsed_ofSources sources types
  obtain ⟨taken, removed, removal, hout, hmem, -, hrecorded, hremoval⟩ :=
    Removal.outcome_process_of_parsed hparsed .here
      (s := .start typing.program typing.registry tags) ⟨rfl, rfl, rfl⟩
  have hstatements := Removal.areStatements_taken hmem
  obtain ⟨taken', again, s, hagain, hmem', -, hrecorded', -⟩ :=
    Removal.outcome_process_of_parsed (hparsed.without hstatements) .here hremoval
  refine ⟨⟨typing, removal, removed⟩, again, s, ?_, hagain, fun records hrecords => ?_⟩
  · unfold Analysis.ofProgram
    simp only [htyping, except_ok_bind]
    unfold Analysis.ofTyping
    rw [hout]
  -- the records of both removals are parts of the sources
  have hfirst : ∀ r ∈ removed, r.IsPartOf sources :=
    isPartOf_of_first hprogram (fun t ht => (hmem t).mp ht) hrecorded
  have hsecond : ∀ r ∈ again, r.IsPartOf sources :=
    isPartOf_of_recorded hprogram hstatements (fun t ht => (hmem' t).mp ht) hrecorded'
  obtain ⟨pruned, hpruned, -⟩ := Pruned.exists_of_isPartOf hpaths fun r hr =>
    (List.mem_append.mp (hrecords hr)).elim (hfirst r) (hsecond r)
  exact ⟨pruned, hpruned⟩

/-- A source that cannot be read. -/
def brokenScript : Source := ⟨"lib/../b.js", "B.prototype.m = function() \x7b"⟩

theorem exists_pruned_of_brokenScript :
    ([documentedScript, brokenScript].map fun s => Path.ofText s.path).Nodup ∧
      (Script.read brokenScript.text).isOk = false ∧
      ∃ a again s, Analysis.ofProgram (Program.ofSources [documentedScript, brokenScript]).1
          Removal.defaultExclusions = .ok a ∧
        (Removal.process root).outcome a.removal = (.ok again, s) ∧
        ∀ records : List Removed, records ⊆ a.removed ++ again →
          ∃ pruned, Pruned.ofSources [documentedScript, brokenScript] records = .ok pruned := by
  have hpaths : ([documentedScript, brokenScript].map fun s => Path.ofText s.path).Nodup := by
    decide
  exact ⟨hpaths, by rfl, exists_pruned_of_sources hpaths _⟩

end SuperForward
