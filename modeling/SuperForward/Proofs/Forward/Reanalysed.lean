/-
  Analysing again what is left.

  When forwards have been removed from the texts of scripts, the texts may be read and analysed
  again. What is found then can be compared with what was left of the program: nodes that are
  alike are forwards in both or in neither, unless statements were taken out of their body, or
  their callee has another type now, or is now the method of a superclass, or no longer. Removal
  does not ask whether a method that it takes out gives back the same as the method above it, so
  the callees of methods below may get another type.
-/
import SuperForward.Proofs.Forward.Again
import SuperForward.Proofs.Forward.Alike
import SuperForward.Proofs.Forward.Rewriting

namespace SuperForward

open SuperForward.Files (Path)
open SuperForward.Program (root Below Likeness SameUnplaced ShowLike scriptsOf)
open SuperForward.Removal (Removable SameCallee Taken Uncovered)

namespace Removal

/-- If the callee of a function is known alike in one direction, it is in the other one. -/
theorem SameCallee.symm {p q : Program} {f g : Handle → Handle} {r s : Registry} {fn : Handle}
    (hsame : SameCallee p q f r s fn) (h : Likeness p q f) (hp : p.Parsed) (hq : q.Parsed)
    (hg : ∀ n, p.Below root n → g (f n) = n) (hfn : p.Below root fn)
    (hkind : p.kindOf? fn = some .function) : SameCallee q p g s r (f fn) := by
  have hsymm := h.symm hp hq hg
  have hkind' : q.kindOf? (f fn) = some .function := (h.kindOf? hfn).trans hkind
  intro call callee honly hcallee
  obtain ⟨honly', hcall⟩ := onlyCall_alike hsymm hq (h.below hfn) hkind' honly
  rw [hg fn hfn] at honly'
  have hcallKind : q.kindOf? call = some .call := by
    obtain ⟨-, -, -, -, -, -, hk⟩ := honly
    exact hk
  have hbelow : q.Below root callee :=
    hcall.child (hq.forest.mem_children_iff.mp (List.mem_of_mem_head? hcallee))
  have hback : f (g callee) = callee := by
    obtain ⟨n, hn, rfl⟩ := h.surjective hp hq hbelow
    rw [hg n hn]
  have hcallee' : (p.childrenOf (g call)).head? = some (g callee) := by
    rw [hsymm.childrenOf hcall (hq.ne_root_of_kind hcallKind (by simp)), List.head?_map, hcallee]
    rfl
  obtain ⟨htype, hsuper⟩ := hsame (g call) (g callee) honly' hcallee'
  rw [hback] at htype
  refine ⟨htype.symm, fun name called hname hspells => (hsuper name called ?_ ?_).symm⟩
  · rw [← h.functionName hp hq hfn hkind]
    exact hname
  · exact hsymm.spells hq hbelow hspells

end Removal

/-- The programs show the same scripts, places apart. -/
theorem Agrees.exists_likeness {sources : List Source} {a : Analysis} {pruned : List Pruned}
    (h : Agrees sources a pruned) (hp : a.removal.program.Parsed) {tags : List String}
    {b : Analysis} {taken : List Taken}
    (hb : Analysed (sources.map (Source.prunedBy pruned)) tags b taken) :
    ∃ f, Likeness a.removal.program b.typing.program f := by
  obtain ⟨scripts, hshows, hsame⟩ := h.shows
  have hread : List.Forall₂ b.typing.program.Shows (b.typing.program.childrenOf root)
      (scriptsOf (sources.map (Source.prunedBy pruned))) := by
    obtain ⟨types, htypes⟩ := hb.types
    rw [htypes]
    exact (Program.composed_ofSources _).shows.withTypes.childrenOf
  have hscripts : List.Forall₂ SameUnplaced scripts
      (scriptsOf (sources.map (Source.prunedBy pruned))) := by
    rw [← List.forall₂_eq_eq_eq, List.forall₂_map_left_iff, List.forall₂_map_right_iff] at hsame
    exact hsame
  have hlike : List.Forall₂ (ShowLike a.removal.program b.typing.program SameUnplaced)
      (a.removal.program.childrenOf root) (b.typing.program.childrenOf root) := by
    rw [List.forall₂_iff_get] at hshows hscripts hread ⊢
    refine ⟨hshows.1.trans (hscripts.1.trans hread.1.symm), fun i h₁ h₂ => ?_⟩
    have h₃ := hshows.1 ▸ h₁
    have h₄ := hread.1 ▸ h₂
    exact ⟨_, _, hshows.2 i h₁ h₃, hread.2 i h₂ h₄, hscripts.2 i h₃ h₄⟩
  obtain ⟨f, hf, -⟩ := Program.exists_likeness hp hb.parsed SameUnplaced.children hlike
    (List.Perm.refl _) fun h => h.parts
  exact ⟨f, hf⟩

/-- Analysing what is left of the texts removes nothing exactly if no function whose body lost
statements, or whose callee is not known alike any more, has become a forward that can be taken
out. What is left of the texts is compared with what is left of the program, so the conditions
under which the two agree are asked for. -/
theorem ofProgram_pruned_again {sources : List Source} {tags : List String} {a : Analysis}
    (h : Analysis.ofProgram (Program.ofSources sources).1 tags = .ok a)
    (hread : ∀ s ∈ sources, ∃ statements, Script.read s.text = .ok statements)
    (hpaths : (sources.map fun s => Path.ofText s.path).Nodup)
    (hnamed : ∀ r ∈ a.removed, r.path ≠ some "")
    (hlisted : ∀ n above, a.typing.program.parentOf n = some above →
      a.removal.program.parentOf n = none → a.typing.program.Lists above)
    (hdocs : ∀ r ∈ a.removed, ∀ s ∈ sources, r.path = some s.path →
      DocumentedWithin s.text r.span) :
    ∃ (taken : List Taken) (pruned : List Pruned) (b : Analysis) (f : Handle → Handle),
      (∀ t : Taken, t ∈ taken ↔
        Removable a.typing.program a.typing.registry tags root t.fn t.statement t.name) ∧
      Pruned.ofSources sources a.removed = .ok pruned ∧
      Analysis.ofProgram (Program.ofSources (sources.map (Source.prunedBy pruned))).1 tags
        = .ok b ∧
      Likeness a.removal.program b.typing.program f ∧
      (b.removed = [] ↔ ∀ fn statement name, a.removal.program.Below root fn →
        (Uncovered a.typing.program (taken.map Taken.statement) fn ∨
          ¬ SameCallee a.removal.program b.typing.program f a.typing.registry b.typing.registry
            fn) →
        ¬ Removable b.typing.program b.typing.registry tags root (f fn) statement name) := by
  obtain ⟨taken, hanalysed⟩ := exists_analysed h
  obtain ⟨pruned, hpruned, hagrees⟩ :=
    hanalysed.exists_agrees hread hpaths hnamed hlisted hdocs
  obtain ⟨b, taken', hb, hanalysed'⟩ :=
    analysed_ofSources (sources.map (Source.prunedBy pruned)) tags
  have hparsed : a.removal.program.Parsed := by
    rw [hanalysed.program]
    exact hanalysed.parsed.without (Removal.areStatements_taken hanalysed.mem_taken)
  have hparsed' := hanalysed'.parsed
  obtain ⟨f, hf⟩ := hagrees.exists_likeness hparsed hanalysed'
  refine ⟨taken, pruned, b, f, hanalysed.mem_taken, hpruned, hb, hf, ?_, ?_⟩
  · intro hnone fn statement name _ _ hr
    have hmem := (hanalysed'.mem_taken ⟨f fn, statement, name⟩).mpr hr
    have hrecorded := hanalysed'.recorded
    rw [hnone] at hrecorded
    rw [List.forall₂_nil_right_iff.mp hrecorded] at hmem
    exact absurd hmem List.not_mem_nil
  · intro hsettled
    have hnone : taken' = [] := by
      rw [List.eq_nil_iff_forall_not_mem]
      intro t ht
      have hr := (hanalysed'.mem_taken t).mp ht
      obtain ⟨fn, hfn, hfnt⟩ := hf.surjective hparsed hparsed' hr.within
      rw [← hfnt] at hr
      by_cases hsame : SameCallee a.removal.program b.typing.program f a.typing.registry
          b.typing.registry fn
      · -- the function was a forward in what was left, so its body lost statements
        obtain ⟨g, hg⟩ := hf.exists_inverse hparsed hparsed'
        obtain ⟨assign, hforward⟩ := hr.forwarder
        have hkind : a.removal.program.kindOf? fn = some .function :=
          (hf.kindOf? hfn).symm.trans hforward.assigned.fn_kind
        have hback := Removal.removable_alike (hf.symm hparsed hparsed' hg) hparsed' hparsed
          (hsame.symm hf hparsed hparsed' hg hfn hkind) hr
        rw [hg fn hfn, hanalysed.program] at hback
        exact hsettled fn t.statement t.name hfn
          (.inl (hback.of_without hanalysed.parsed hanalysed.mem_taken)) hr
      · exact hsettled fn t.statement t.name hfn (.inr hsame) hr
    have hrecorded := hanalysed'.recorded
    rw [hnone] at hrecorded
    exact List.forall₂_nil_left_iff.mp hrecorded

/-- The script can be read, the forward stands where statements are listed, and its own
documentation is the only one before it. -/
theorem conditions_documentedScript :
    (∀ s ∈ [documentedScript], ∃ statements, Script.read s.text = .ok statements) ∧
      DocumentedWithin documentedScript.text ⟨122, 198⟩ ∧ ∃ a,
      Analysis.ofProgram (Program.ofSources [documentedScript]).1 Removal.defaultExclusions = .ok a ∧
        a.removed = [⟨"B.prototype.m", some "a.js", 1, 122, 198⟩] ∧
        ∀ n above, a.typing.program.parentOf n = some above →
          a.removal.program.parentOf n = none → a.typing.program.Lists above := by
  have htext : documentedScript.text = String.ofList _ :=
    text_append (text_append (text_append (text_append rfl rfl) rfl) rfl) rfl
  obtain ⟨a, ha, htest⟩ := @exists_analysis [documentedScript] (fun a =>
    decide (a.removed = [⟨"B.prototype.m", some "a.js", 1, 122, 198⟩]) &&
      decide (∀ n ∈ List.range a.typing.program.size, ∀ above ∈ a.typing.program.parentOf n,
        a.removal.program.parentOf n = none → a.typing.program.Lists above)) (by
    rw [show Program.ofSources [documentedScript] = _ from Program.ofSources_one htext]
    decide +kernel)
  rw [Bool.and_eq_true, decide_eq_true_iff, decide_eq_true_iff] at htest
  obtain ⟨hremoved, hlisted⟩ := htest
  have hread : (Script.read documentedScript.text).isOk = true := by
    rw [htext, Script.read_ofList]
    decide +kernel
  have hdocs : DocumentedWithin documentedScript.text ⟨122, 198⟩ := by
    unfold DocumentedWithin
    rw [htext, String.toList_ofList]
    decide +kernel
  refine ⟨List.forall_mem_singleton.mpr (exists_read hread), hdocs, a, ha, hremoved, ?_⟩
  intro n above hparent
  exact hlisted n (List.mem_range.mpr (Program.lt_size_of_parentOf hparent)) above hparent

theorem ofProgram_pruned_again_documentedScript : ∃ a,
    Analysis.ofProgram (Program.ofSources [documentedScript]).1 Removal.defaultExclusions = .ok a ∧
      a.removed = [⟨"B.prototype.m", some "a.js", 1, 122, 198⟩] ∧
      ∃ (taken : List Taken) (pruned : List Pruned) (b : Analysis) (f : Handle → Handle),
        (∀ t : Taken, t ∈ taken ↔ Removable a.typing.program a.typing.registry
          Removal.defaultExclusions root t.fn t.statement t.name) ∧
        Pruned.ofSources [documentedScript] a.removed = .ok pruned ∧
        Analysis.ofProgram (Program.ofSources ([documentedScript].map (Source.prunedBy pruned))).1
          Removal.defaultExclusions = .ok b ∧
        Likeness a.removal.program b.typing.program f ∧
        (b.removed = [] ↔ ∀ fn statement name, a.removal.program.Below root fn →
          (Uncovered a.typing.program (taken.map Taken.statement) fn ∨
            ¬ SameCallee a.removal.program b.typing.program f a.typing.registry b.typing.registry
              fn) →
          ¬ Removable b.typing.program b.typing.registry Removal.defaultExclusions root (f fn)
            statement name) := by
  obtain ⟨hread, hdocs, a, ha, hremoved, hlisted⟩ := conditions_documentedScript
  refine ⟨a, ha, hremoved, ofProgram_pruned_again ha hread (List.nodup_singleton _) ?_ hlisted ?_⟩
  · rw [hremoved]
    exact List.forall_mem_singleton.mpr (by simp)
  · rw [hremoved]
    exact List.forall_mem_singleton.mpr (List.forall_mem_singleton.mpr fun _ => hdocs)

/-- A forward that is documented to give something back, although the method above it does not,
and below it a method that does not pass on what its callee gives back. -/
def overridingScript : Source :=
  scriptAround "a.js" "/** @return {string} */ " (" /** @constructor @extends {B} */ " ++
    "C = function() {}; C.prototype.m = function() { C.superClass_.m.call(this); };")

/-- What is left of that script. -/
def overriddenScript : Source :=
  ⟨"a.js", "/** @constructor */ A = function() {}; A.prototype.m = function() {}; " ++
    "/** @constructor @extends {A} */ B = function() {};  /** @constructor @extends {B} */ " ++
    "C = function() {}; C.prototype.m = function() { C.superClass_.m.call(this); };"⟩

/-- Once the forward is gone, the callee of the method below it gives nothing back, and the method
is a forward too. -/
theorem removes_again_of_overridingScript :
    (∃ statements, Script.read overridingScript.text = .ok statements) ∧ ∃ a pruned b,
      Analysis.ofProgram (Program.ofSources [overridingScript]).1 Removal.defaultExclusions = .ok a ∧
      a.removed = [⟨"B.prototype.m", some "a.js", 1, 122, 205⟩] ∧
      Pruned.ofSources [overridingScript] a.removed = .ok pruned ∧
      Analysis.ofProgram (Program.ofSources ([overridingScript].map (Source.prunedBy pruned))).1
        Removal.defaultExclusions = .ok b ∧
      b.removed = [⟨"C.prototype.m", some "a.js", 1, 175, 234⟩] := by
  have htext : overridingScript.text = String.ofList _ :=
    text_append (text_append (text_append (text_append rfl rfl) rfl) rfl) (text_append rfl rfl)
  have htext' : overriddenScript.text = String.ofList _ :=
    text_append (text_append rfl rfl) rfl
  obtain ⟨a, ha, hremoved⟩ := @exists_analysis [overridingScript] (fun a =>
    decide (a.removed = [⟨"B.prototype.m", some "a.js", 1, 122, 205⟩])) (by
    rw [show Program.ofSources [overridingScript] = _ from Program.ofSources_one htext]
    decide +kernel)
  obtain ⟨b, hb, hremoved'⟩ := @exists_analysis [overriddenScript] (fun b =>
    decide (b.removed = [⟨"C.prototype.m", some "a.js", 1, 175, 234⟩])) (by
    rw [show Program.ofSources [overriddenScript] = _ from Program.ofSources_one htext']
    decide +kernel)
  rw [decide_eq_true_iff] at hremoved hremoved'
  obtain ⟨pruned, hpruned, hleft⟩ := @exists_pruned_of_characters "a.js" overridingScript.text
    overriddenScript.text _ _ ⟨"B.prototype.m", some "a.js", 1, 122, 205⟩ 1 htext htext' rfl
    (by decide +kernel)
  refine ⟨exists_read_of_removed ha (by simp [hremoved]), a, pruned, b, ha, hremoved, ?_, ?_,
    hremoved'⟩
  · rw [hremoved]
    exact hpruned
  · rw [List.map_singleton, show overridingScript.prunedBy pruned = overriddenScript from hleft]
    exact hb

end SuperForward
