/-
  Analysis of sources.

  Analysis ends on every list of sources. What it finds out of the typed program and what it
  takes out of it is put together here, with the functions that were taken out by their
  handles.
-/
import SuperForward.Proofs.Forward.Removing
import SuperForward.Proofs.Types.Calling

namespace SuperForward

open SuperForward.Program (root Below)
open SuperForward.Removal (Taken Recorded Removable)

/-- What an analysis of some sources has come to. -/
structure Analysed (sources : List Source) (tags : List String) (a : Analysis)
    (taken : List Taken) : Prop where
  types : ∃ types, a.typing.program = (Program.ofSources sources).1.withTypes types
  /-- Nodes with a type spell a name that stands for a function or a method of the type. -/
  known : ∀ n type, Forward.typeOf? a.typing.program n = some type → ∃ name : QualifiedName,
    a.typing.program.Spells n name.names ∧ a.typing.registry.typeOfCallee? name = some type
  founded : Typing.Founded a.typing.program a.typing.registry
  mem_taken : ∀ t : Taken, t ∈ taken ↔
    Removable a.typing.program a.typing.registry tags root t.fn t.statement t.name
  order : (taken.map Taken.fn).Sublist (a.typing.program.postOrder root)
  recorded : Recorded a.typing.program taken a.removed
  program : a.removal.program = a.typing.program.without (taken.map Taken.statement)

theorem Analysed.parsed {sources : List Source} {tags : List String} {a : Analysis}
    {taken : List Taken} (h : Analysed sources tags a taken) : a.typing.program.Parsed := by
  obtain ⟨types, htypes⟩ := h.types
  rw [htypes]
  exact Program.parsed_ofSources sources types

/-- Analysis ends on every list of sources. -/
theorem analysed_ofSources (sources : List Source) (tags : List String) :
    ∃ a taken, Analysis.ofProgram (Program.ofSources sources).1 tags = .ok a ∧
      Analysed sources tags a taken := by
  obtain ⟨typing, types, htyping, hprogram, hknown, hfounded⟩ := Typing.ofProgram_ofSources sources
  have hparsed : typing.program.Parsed := hprogram ▸ Program.parsed_ofSources sources types
  obtain ⟨taken, removed, removal, hout, hmem, horder, hrecorded, hremoval⟩ :=
    Removal.outcome_process_of_parsed hparsed .here
      (s := .start typing.program typing.registry tags) ⟨rfl, rfl, rfl⟩
  refine ⟨⟨typing, removal, removed⟩, taken, ?_, ⟨types, hprogram⟩, ?_, hfounded, hmem, horder,
    hrecorded, hremoval.program⟩
  · unfold Analysis.ofProgram
    simp only [htyping, except_ok_bind]
    unfold Analysis.ofTyping
    rw [hout]
  · intro n type htype
    refine hknown n type ?_
    unfold Forward.typeOf? at htype
    obtain ⟨node, hnode, hn⟩ := Option.bind_eq_some_iff.mp htype
    rw [hprogram, Program.nodes_withTypes] at hnode
    obtain ⟨_, -, rfl⟩ := Option.map_eq_some_iff.mp hnode
    exact hn

/-- What is known of the one analysis that there is. -/
theorem exists_analysed {sources : List Source} {tags : List String} {a : Analysis}
    (h : Analysis.ofProgram (Program.ofSources sources).1 tags = .ok a) :
    ∃ taken, Analysed sources tags a taken := by
  obtain ⟨a', taken, ha', hanalysed⟩ := analysed_ofSources sources tags
  rw [ha'] at h
  cases h
  exact ⟨taken, hanalysed⟩

end SuperForward
