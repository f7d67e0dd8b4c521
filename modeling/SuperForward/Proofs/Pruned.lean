/-
  Which parts are cut from which script.

  Records are gathered by the path of their script. A source whose path no other source has is
  cut exactly at the parts of its own records; a source without records is not cut at all.
-/
import SuperForward.Proofs.Forward.Candidates
import SuperForward.Pruned

namespace SuperForward

open SuperForward.Files (Path)
open SuperForward.Text (removeSpans BeyondEnd)

/-- A source with what is left of its text. -/
def Source.prunedBy (pruned : List Pruned) (s : Source) : Source :=
  ⟨s.path, ((pruned.find? fun q => decide (q.path = Path.ofText s.path)).map (·.text)).getD s.text⟩

/-- The path under which a record is gathered is that in the record. -/
theorem Removed.ofText_of_scriptPath? {r : Removed} {path : Path} {text : String}
    (h : r.scriptPath? = some path) (hpath : r.path = some text) : Path.ofText text = path := by
  unfold Removed.scriptPath? at h
  rw [hpath, Option.bind_some] at h
  split at h
  · cases h
  · exact Option.some.inj h

theorem Removed.scriptPath?_of_path {r : Removed} {text : String} (hpath : r.path = some text)
    (hne : text ≠ "") : r.scriptPath? = some (Path.ofText text) := by
  unfold Removed.scriptPath?
  rw [hpath, Option.bind_some]
  simp [hne]

namespace Pruned

/-! ## Records by path -/

/-- The records of the script with a path. -/
def recordsAt (removed : List Removed) (path : Path) : List Removed :=
  removed.filter fun r => decide (r.scriptPath? = some path)

theorem byPath_append (removed : List Removed) (r : Removed) :
    byPath (removed ++ [r]) = match r.scriptPath? with
      | some path => addTo (byPath removed) path r
      | none => byPath removed := by
  unfold byPath
  exact List.foldl_append

theorem nodup_byPath (removed : List Removed) : (byPath removed).keys.Nodup := by
  induction removed using List.reverseRecOn with
  | nil => exact List.nodup_nil
  | append_singleton removed r ih =>
    rw [byPath_append]
    split
    · exact OrderedMap.nodup_put ih
    · exact ih

/-- Under a path there are the records of the path, if there are any. -/
theorem get?_byPath (removed : List Removed) (path : Path) :
    (byPath removed).get? path
      = if recordsAt removed path = [] then none else some (recordsAt removed path) := by
  induction removed using List.reverseRecOn with
  | nil => rfl
  | append_singleton removed r ih =>
    have hrecords : recordsAt (removed ++ [r]) path
        = recordsAt removed path ++ if r.scriptPath? = some path then [r] else [] := by
      unfold recordsAt
      rw [List.filter_append, List.filter_cons, List.filter_nil]
      by_cases h : r.scriptPath? = some path <;> simp [h]
    have hbefore : ((byPath removed).get? path).getD [] = recordsAt removed path := by
      rw [ih]
      split
      · next h => rw [h]; rfl
      · rfl
    rw [byPath_append, hrecords]
    cases hr : r.scriptPath? with
    | none => simp [ih]
    | some q =>
      simp only [addTo, OrderedMap.get?_insert, Option.some.injEq]
      by_cases hq : q = path
      · subst hq
        simp [hbefore]
      · simp [hq, ih]

/-! ## Pruning -/

theorem lookup_spansByPath (removed : List Removed) (path : Path) :
    OrderedMap.lookup path (spansByPath removed)
      = if recordsAt removed path = [] then none
        else some ((recordsAt removed path).map Removed.span) := by
  have hmap : ∀ es : List (Path × List Removed),
      OrderedMap.lookup path (es.map fun e => (e.1, e.2.map Removed.span))
        = (OrderedMap.lookup path es).map fun rs => rs.map Removed.span := by
    intro es
    induction es with
    | nil => rfl
    | cons e es ih =>
      obtain ⟨k, rs⟩ := e
      simp only [List.map_cons, OrderedMap.lookup]
      split
      · rfl
      · exact ih
  have hget := get?_byPath removed path
  unfold OrderedMap.get? at hget
  refine (hmap _).trans ?_
  rw [hget]
  split <;> rfl

/-- An entry that was pruned successfully. -/
def PrunedTo (sources : List Source) (e : Path × List Text.Span) (q : Pruned) : Prop :=
  q.path = e.1 ∧ removeSpans ((textAt? sources e.1).getD "") e.2 = .ok (q.text, q.count)

theorem exists_pruned_mapM {sources : List Source} {es : List (Path × List Text.Span)}
    (h : ∀ e ∈ es, ∃ new count, removeSpans ((textAt? sources e.1).getD "") e.2 = .ok (new, count)) :
    ∃ qs, (es.mapM fun (path, spans) => do
        let (text, count) ← removeSpans ((textAt? sources path).getD "") spans
        return (⟨path, text, count⟩ : Pruned) : Except BeyondEnd (List Pruned)) = .ok qs ∧
      List.Forall₂ (PrunedTo sources) es qs := by
  induction es with
  | nil => exact ⟨[], rfl, .nil⟩
  | cons e es ih =>
    obtain ⟨path, spans⟩ := e
    obtain ⟨⟨new, count, hnew⟩, hrest⟩ := List.forall_mem_cons.mp h
    obtain ⟨qs, hqs, hall⟩ := ih hrest
    refine ⟨⟨path, new, count⟩ :: qs, ?_, .cons ⟨rfl, hnew⟩ hall⟩
    rw [List.mapM_cons, hqs]
    simp only [hnew, except_ok_bind, except_pure]

/-- What is found under a path among the pruned scripts. -/
theorem find?_pruned {sources : List Source} {es : List (Path × List Text.Span)}
    {qs : List Pruned} (h : List.Forall₂ (PrunedTo sources) es qs) (path : Path) :
    match OrderedMap.lookup path es with
    | some spans => ∃ q, qs.find? (fun q => decide (q.path = path)) = some q ∧
        removeSpans ((textAt? sources path).getD "") spans = .ok (q.text, q.count)
    | none => qs.find? (fun q => decide (q.path = path)) = none := by
  induction h with
  | nil => rfl
  | @cons e q es qs head _ ih =>
    obtain ⟨k, spans⟩ := e
    obtain ⟨hpath, hremove⟩ := head
    simp only at hpath hremove
    rw [OrderedMap.lookup, List.find?_cons, hpath]
    by_cases hk : k = path
    · subst hk
      simp only [if_true, decide_true]
      exact ⟨q, rfl, hremove⟩
    · simp only [if_neg hk, decide_eq_false hk]
      exact ih

theorem textAt?_of_nodup {sources : List Source}
    (h : (sources.map fun s => Path.ofText s.path).Nodup) {s : Source} (hs : s ∈ sources) :
    textAt? sources (Path.ofText s.path) = some s.text := by
  unfold textAt?
  cases hfind : sources.reverse.find? fun t => decide (Path.ofText t.path = Path.ofText s.path) with
  | none =>
    have := List.find?_eq_none.mp hfind s (List.mem_reverse.mpr hs)
    simp at this
  | some t =>
    have ht := List.mem_reverse.mp (List.mem_of_find?_eq_some hfind)
    have hsame := List.find?_some hfind
    rw [decide_eq_true_eq] at hsame
    rw [Option.map_some, List.inj_on_of_nodup_map h ht hs hsame]

theorem removeSpans_nil (text : String) : removeSpans text [] = .ok (text, 0) := by
  show Except.ok (String.ofList text.toList, 0) = _
  rw [String.ofList_toList]

/-- Sources that can be told apart by their paths are pruned one by one, each at the parts of
its own records. -/
theorem exists_ofSources {sources : List Source} {removed : List Removed}
    (hpaths : (sources.map fun s => Path.ofText s.path).Nodup)
    (hrecords : ∀ r ∈ removed, ∀ path ∈ r.scriptPath?, ∃ s ∈ sources, path = Path.ofText s.path)
    {left : Source → String}
    (hleft : ∀ s ∈ sources, ∃ count, removeSpans s.text
      ((recordsAt removed (Path.ofText s.path)).map Removed.span) = .ok (left s, count)) :
    ∃ pruned, ofSources sources removed = .ok pruned ∧
      ∀ s ∈ sources, (s.prunedBy pruned).text = left s := by
  obtain ⟨pruned, hpruned, hall⟩ : ∃ pruned, ofSources sources removed = .ok pruned ∧
      List.Forall₂ (PrunedTo sources) (spansByPath removed) pruned := by
    refine exists_pruned_mapM fun e he => ?_
    obtain ⟨⟨path, rs⟩, hentry, rfl⟩ := List.mem_map.mp he
    have hget := get?_byPath removed path
    rw [OrderedMap.get?, OrderedMap.lookup_of_mem (nodup_byPath removed) hentry] at hget
    split at hget
    · cases hget
    next hne =>
    cases hget
    obtain ⟨r, hr⟩ := List.exists_mem_of_ne_nil _ hne
    obtain ⟨hr, hpath⟩ := List.mem_filter.mp hr
    obtain ⟨s, hs, rfl⟩ := hrecords r hr path (of_decide_eq_true hpath)
    obtain ⟨count, hcount⟩ := hleft s hs
    exact ⟨left s, count, by rw [textAt?_of_nodup hpaths hs]; exact hcount⟩
  refine ⟨pruned, hpruned, fun s hs => ?_⟩
  obtain ⟨count, hcount⟩ := hleft s hs
  have hfind := find?_pruned hall (Path.ofText s.path)
  rw [lookup_spansByPath, textAt?_of_nodup hpaths hs] at hfind
  unfold Source.prunedBy
  -- a source with records is among those that were cut, and one without records is left as it is
  split at hfind
  · next spans hspans =>
    split at hspans
    · cases hspans
    obtain ⟨q, hq, hremove⟩ := hfind
    cases hspans
    rw [Option.getD_some, hcount, Except.ok.injEq, Prod.mk.injEq] at hremove
    rw [hq]
    exact hremove.1.symm
  · next hspans =>
    split at hspans
    · next hnil =>
      rw [hnil, List.map_nil, removeSpans_nil, Except.ok.injEq, Prod.mk.injEq] at hcount
      rw [hfind]
      exact hcount.1
    · cases hspans

end Pruned

end SuperForward
