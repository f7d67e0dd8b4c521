/-
  What sorting by insertion gives.

  What has been sorted is in order. Entries that are alike keep the order that they had, and
  entries of which no two are alike have only one order.
-/
import SuperForward.Data.StableSort

namespace SuperForward.StableSort

variable {α : Type} {le : α → α → Bool}

theorem pairwise_insertBy (htotal : ∀ a b, le a b = true ∨ le b a = true)
    (htrans : ∀ a b c, le a b = true → le b c = true → le a c = true) {a : α} {bs : List α}
    (h : bs.Pairwise fun b c => le b c = true) :
    (insertBy le a bs).Pairwise fun b c => le b c = true := by
  induction bs with
  | nil => exact List.pairwise_singleton ..
  | cons b bs ih =>
    obtain ⟨hb, hbs⟩ := List.pairwise_cons.mp h
    rw [insertBy]
    split
    · next hle =>
      refine List.pairwise_cons.mpr ⟨fun c hc => ?_, h⟩
      rcases List.mem_cons.mp hc with rfl | hc
      · exact hle
      · exact htrans a b c hle (hb c hc)
    · next hle =>
      refine List.pairwise_cons.mpr ⟨fun c hc => ?_, ih hbs⟩
      rcases List.mem_cons.mp ((insertBy_perm le a bs).mem_iff.mp hc) with rfl | hc
      · exact (htotal c b).resolve_left hle
      · exact hb c hc

/-- What has been sorted is in order. -/
theorem pairwise_sortBy (htotal : ∀ a b, le a b = true ∨ le b a = true)
    (htrans : ∀ a b c, le a b = true → le b c = true → le a c = true) (as : List α) :
    (sortBy le as).Pairwise fun b c => le b c = true := by
  induction as with
  | nil => exact .nil
  | cons a as ih => exact pairwise_insertBy htotal htrans ih

theorem insertBy_append {a : α} {before after : List α} (hbefore : ∀ b ∈ before, le a b = false)
    (hafter : ∀ b ∈ after.head?, le a b = true) :
    insertBy le a (before ++ after) = before ++ a :: after := by
  induction before with
  | nil =>
    cases after with
    | nil => rfl
    | cons b after => rw [List.nil_append, insertBy, if_pos (hafter b rfl), List.nil_append]
  | cons b before ih =>
    rw [List.cons_append, insertBy, hbefore b (List.mem_cons_self ..), if_neg Bool.false_ne_true,
      ih fun c hc => hbefore c (List.mem_cons_of_mem _ hc), List.cons_append]

theorem filter_insertBy {P : α → Bool} (halike : ∀ a b, P a = true → P b = true → le a b = true)
    (a : α) (bs : List α) : (insertBy le a bs).filter P = (a :: bs).filter P := by
  induction bs with
  | nil => rfl
  | cons b bs ih =>
    rw [insertBy]
    split
    · rfl
    · next hle =>
      rw [List.filter_cons, ih, List.filter_cons, List.filter_cons, List.filter_cons]
      by_cases ha : P a = true
      · have hb : ¬ P b = true := fun hb => hle (halike a b ha hb)
        simp only [ha, hb, if_true, Bool.false_eq_true, if_false]
      · simp only [ha, Bool.false_eq_true, if_false]

/-- Entries that are all alike keep their order among each other. -/
theorem filter_sortBy {P : α → Bool} (halike : ∀ a b, P a = true → P b = true → le a b = true)
    (as : List α) : (sortBy le as).filter P = as.filter P := by
  induction as with
  | nil => rfl
  | cons a as ih =>
    show (insertBy le a (sortBy le as)).filter P = _
    rw [filter_insertBy halike, List.filter_cons, ih, List.filter_cons]

/-- Entries of which no two are alike have one order. -/
theorem sortBy_eq_of_perm {as sorted : List α} (h : as.Perm sorted)
    (hsorted : sorted.Pairwise fun a b => le a b = true ∧ le b a = false) :
    sortBy le as = sorted := by
  induction as generalizing sorted with
  | nil =>
    obtain rfl := h.nil_eq
    rfl
  | cons a as ih =>
    obtain ⟨before, after, rfl⟩ := List.append_of_mem (h.subset (List.mem_cons_self ..))
    have hrest : as.Perm (before ++ after) := (h.trans List.perm_middle).cons_inv
    have hpair := List.pairwise_append.mp hsorted
    rw [List.pairwise_cons] at hpair
    have hsub : (before ++ after).Pairwise fun a b => le a b = true ∧ le b a = false :=
      hsorted.sublist ((List.sublist_cons_self a after).append_left before)
    have hcons : sortBy le (a :: as) = insertBy le a (sortBy le as) := rfl
    rw [hcons, ih hrest hsub]
    refine insertBy_append (fun b hb => ?_) (fun b hb => ?_)
    · exact (hpair.2.2 b hb a (List.mem_cons_self ..)).2
    · exact (hpair.2.1.1 b (List.mem_of_mem_head? hb)).1

end SuperForward.StableSort
