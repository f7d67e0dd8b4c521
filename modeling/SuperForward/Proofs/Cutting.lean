/-
  What is left of a text when parts of it are cut out.

  A text is woven of parts that are kept and parts that are cut, in turn. Spans that are given
  in any order are sorted; if no two of them overlap none are united, and what is left when the
  last span has been cut first is the kept parts, one after the other.
-/
import SuperForward.Proofs.Sorting
import SuperForward.Text.Cut
import Mathlib.Data.List.Chain

namespace SuperForward

namespace Text

/-! ## Weaving -/

section

variable {α β : Type}

/-- Parts that are kept and parts that are cut, in turn, and what comes last. -/
def woven : List (List α × List α) → List α → List α
  | [], last => last
  | (a, m) :: turns, last => a ++ (m ++ woven turns last)

/-- The parts that are kept. -/
def kept : List (List α × List α) → List α → List α
  | [], last => last
  | (a, _) :: turns, last => a ++ kept turns last

/-- The turns with every entry replaced by some others. -/
def flatMapTurns (f : α → List β) (turns : List (List α × List α)) : List (List β × List β) :=
  turns.map fun t => (t.1.flatMap f, t.2.flatMap f)

theorem flatMap_woven (f : α → List β) (turns : List (List α × List α)) (last : List α) :
    (woven turns last).flatMap f = woven (flatMapTurns f turns) (last.flatMap f) := by
  induction turns with
  | nil => rfl
  | cons t turns ih =>
    simp only [woven, flatMapTurns, List.map_cons, List.flatMap_append, ih]

theorem flatMap_kept (f : α → List β) (turns : List (List α × List α)) (last : List α) :
    (kept turns last).flatMap f = kept (flatMapTurns f turns) (last.flatMap f) := by
  induction turns with
  | nil => rfl
  | cons t turns ih =>
    simp only [kept, flatMapTurns, List.map_cons, List.flatMap_append, ih]

end

/-! ## Spans -/

/-- The spans of the parts that are cut, in a text that begins at an offset. -/
def spansFrom (offset : Nat) : List (List Char × List Char) → List Span
  | [] => []
  | (a, m) :: turns =>
    ⟨offset + a.length, offset + a.length + m.length⟩ ::
      spansFrom (offset + a.length + m.length) turns

theorem start_of_mem_spansFrom {offset : Nat} {turns : List (List Char × List Char)} {s : Span}
    (h : s ∈ spansFrom offset turns) : offset ≤ s.start := by
  induction turns generalizing offset with
  | nil => cases h
  | cons t turns ih =>
    rcases List.mem_cons.mp h with rfl | h
    · exact Nat.le_add_right ..
    · have := ih h
      omega

/-- The spans stand one after the other. -/
theorem pairwise_spansFrom (offset : Nat) (turns : List (List Char × List Char)) :
    (spansFrom offset turns).Pairwise fun s t => s.stop ≤ t.start := by
  induction turns generalizing offset with
  | nil => exact .nil
  | cons t turns ih =>
    refine List.pairwise_cons.mpr ⟨fun s hs => ?_, ih _⟩
    exact start_of_mem_spansFrom hs

theorem start_lt_stop_of_mem_spansFrom {offset : Nat} {turns : List (List Char × List Char)}
    (hcut : ∀ t ∈ turns, t.2 ≠ []) {s : Span} (h : s ∈ spansFrom offset turns) :
    s.start < s.stop := by
  induction turns generalizing offset with
  | nil => cases h
  | cons t turns ih =>
    rcases List.mem_cons.mp h with rfl | h
    · have := List.length_pos_iff.mpr (hcut t (List.mem_cons_self ..))
      show offset + t.1.length < offset + t.1.length + t.2.length
      omega
    · exact ih (fun u hu => hcut u (List.mem_cons_of_mem _ hu)) h

/-- If every part that is cut takes up something, the spans begin one after the other. -/
theorem pairwise_start_spansFrom {turns : List (List Char × List Char)}
    (hcut : ∀ t ∈ turns, t.2 ≠ []) (offset : Nat) :
    (spansFrom offset turns).Pairwise fun s t => s.start < t.start := by
  refine List.Pairwise.imp_of_mem ?_ (pairwise_spansFrom offset turns)
  intro s t hs _ h
  have := start_lt_stop_of_mem_spansFrom hcut hs
  omega

theorem length_spansFrom (offset : Nat) (turns : List (List Char × List Char)) :
    (spansFrom offset turns).length = turns.length := by
  induction turns generalizing offset with
  | nil => rfl
  | cons t turns ih => rw [spansFrom, List.length_cons, List.length_cons, ih]

namespace Span

/-- Spans that do not overlap are not united. -/
theorem uniteFrom_eq {first : Span} {rest : List Span}
    (h : (first :: rest).Pairwise fun s t => s.stop ≤ t.start) :
    uniteFrom first rest = first :: rest := by
  induction rest generalizing first with
  | nil => rfl
  | cons next rest ih =>
    have hnext := (List.pairwise_cons.mp h).1 next (List.mem_cons_self ..)
    rw [uniteFrom, if_neg (by omega), ih (List.pairwise_cons.mp h).2]

/-- Uniting sorts spans that do not overlap. -/
theorem unite_eq {spans : List Span} {turns : List (List Char × List Char)} {offset : Nat}
    (hcut : ∀ t ∈ turns, t.2 ≠ []) (h : spans.Perm (spansFrom offset turns)) :
    unite spans = spansFrom offset turns := by
  unfold unite
  rw [StableSort.sortBy_eq_of_perm h]
  · have hpair := pairwise_spansFrom offset turns
    split
    · next heq => exact heq.symm
    · next heq =>
      rw [heq] at hpair ⊢
      exact uniteFrom_eq hpair
  · refine (pairwise_start_spansFrom hcut offset).imp fun {s t} h => ⟨?_, ?_⟩
    · exact decide_eq_true (Nat.le_of_lt h)
    · exact decide_eq_false (Nat.not_le.mpr h)

/-- What comes before a text is not touched by cuts in it. -/
theorem foldr_cutOne (turns : List (List Char × List Char)) (before last : List Char) :
    (spansFrom before.length turns).foldr (fun s text => cutOne text s)
      (before ++ woven turns last) = before ++ kept turns last := by
  induction turns generalizing before with
  | nil => rfl
  | cons t turns ih =>
    obtain ⟨a, m⟩ := t
    have hrest := ih (before ++ a ++ m)
    simp only [List.length_append] at hrest
    rw [spansFrom, List.foldr_cons, woven, kept]
    simp only [List.append_assoc] at hrest ⊢
    rw [hrest, cutOne]
    simp only
    have htake : (before ++ (a ++ (m ++ kept turns last))).take (before.length + a.length)
        = before ++ a := by
      rw [← List.append_assoc, ← List.length_append, List.take_left]
    have hdrop : (before ++ (a ++ (m ++ kept turns last))).drop
        (before.length + a.length + m.length) = kept turns last := by
      rw [← List.append_assoc, ← List.append_assoc, ← List.length_append, ← List.length_append,
        List.drop_left]
    rw [htake, hdrop, List.append_assoc]

/-- Cutting all spans leaves the parts that are kept. -/
theorem cutAll_spansFrom {turns : List (List Char × List Char)} (hcut : ∀ t ∈ turns, t.2 ≠ [])
    (last : List Char) : cutAll (woven turns last) (spansFrom 0 turns) = kept turns last := by
  unfold cutAll
  have hsort : StableSort.sortBy (fun a b => decide (b.start ≤ a.start)) (spansFrom 0 turns)
      = (spansFrom 0 turns).reverse := by
    refine StableSort.sortBy_eq_of_perm (List.reverse_perm _).symm ?_
    rw [List.pairwise_reverse]
    refine (pairwise_start_spansFrom hcut 0).imp fun {s t} h => ⟨?_, ?_⟩
    · exact decide_eq_true (Nat.le_of_lt h)
    · exact decide_eq_false (Nat.not_le.mpr h)
  rw [hsort, List.foldl_reverse]
  exact foldr_cutOne turns [] last

end Span

/-- Removing spans that grow to the parts of a text that are cut, in any order, leaves the parts
that are kept. -/
theorem removeSpans_eq {text : String} {spans : List Span}
    {turns : List (List Char × List Char)} {last : List Char} (hcut : ∀ t ∈ turns, t.2 ≠ [])
    (htext : text.toList = woven turns last) {grown : List Span}
    (hgrow : spans.mapM (Span.grow text.toList) = .ok grown)
    (hperm : grown.Perm (spansFrom 0 turns)) :
    removeSpans text spans = .ok (String.ofList (kept turns last), turns.length) := by
  unfold removeSpans
  rw [hgrow]
  show Except.ok _ = _
  rw [Span.unite_eq hcut hperm, htext, Span.cutAll_spansFrom hcut, length_spansFrom]

end Text

end SuperForward
