/-
  Spans that overlap, and what they are united to.

  Spans are in one group if they are connected by overlaps, from one to the next. Spans that only
  touch do not overlap. Every group is united to one span, and the spans of different groups stand
  apart, so that there are as many united spans as there are groups, in whichever order the spans
  were given.
-/
import SuperForward.Text.Cut
import SuperForward.Proofs.Sorting
import Mathlib.Data.List.NodupEquivFin
import Mathlib.SetTheory.Cardinal.Finite

namespace SuperForward.Text.Span

/-- An offset lies in the span. -/
def covers (s : Span) (i : Nat) : Bool := s.start ≤ i && i < s.stop

/-- The spans have a part of the text in common. -/
def Overlaps (s t : Span) : Prop := s.start < t.stop ∧ t.start < s.stop

/-- The groups of some spans: those that are connected by overlaps are in the same one. -/
def Group (spans : List Span) : Type := Quot fun s t : {s // s ∈ spans} => Overlaps s.1 t.1

variable {spans united : List Span} {s t u v : Span}

theorem covers_iff {i : Nat} : s.covers i = true ↔ s.start ≤ i ∧ i < s.stop := by
  simp [covers]

theorem Overlaps.mono (h : Overlaps s t) (hus : u.start ≤ s.start)
    (hsu : s.stop ≤ u.stop) (hvt : v.start ≤ t.start) (htv : t.stop ≤ v.stop) : Overlaps u v :=
  ⟨Nat.lt_of_le_of_lt hus (Nat.lt_of_lt_of_le h.1 htv),
    Nat.lt_of_le_of_lt hvt (Nat.lt_of_lt_of_le h.2 hsu)⟩

/-- Groups do not depend on the order of the spans. -/
theorem card_group_congr {spans' : List Span} (h : ∀ s, s ∈ spans ↔ s ∈ spans') :
    Nat.card (Group spans) = Nat.card (Group spans') :=
  Nat.card_congr (Quot.congr (Equiv.subtypeEquivRight h) fun _ _ => Iff.rfl)

/-! ## Spans without a seam between them -/

/-- If no offset from one span to another is a seam, the two are in one group: what reaches over
the beginning of the other overlaps it, and begins earlier or overlaps the one. -/
theorem group_eq_of_seamless (hsolid : ∀ s ∈ spans, s.start < s.stop) (hs : s ∈ spans)
    (ht : t ∈ spans) (hle : s.start ≤ t.start)
    (h : ∀ i, s.start < i → i ≤ t.start → ∃ r ∈ spans, r.start < i ∧ i < r.stop) :
    (Quot.mk _ ⟨s, hs⟩ : Group spans) = Quot.mk _ ⟨t, ht⟩ := by
  induction hn : t.start using Nat.strong_induction_on generalizing t with
  | _ n ih =>
    have hsolidS := hsolid s hs
    have hsolidT := hsolid t ht
    rcases Nat.eq_or_lt_of_le hle with heq | hlt
    · exact Quot.sound ⟨by show s.start < t.stop; omega, by show t.start < s.stop; omega⟩
    · obtain ⟨r, hr, hbefore, hafter⟩ := h t.start hlt (Nat.le_refl _)
      have hrt : (Quot.mk _ ⟨r, hr⟩ : Group spans) = Quot.mk _ ⟨t, ht⟩ :=
        Quot.sound ⟨by show r.start < t.stop; omega, hafter⟩
      by_cases hrs : s.start ≤ r.start
      · refine (ih r.start (by omega) hr hrs (fun i hi hir => ?_) rfl).trans hrt
        exact h i hi (by omega)
      · have hsr : (Quot.mk _ ⟨s, hs⟩ : Group spans) = Quot.mk _ ⟨r, hr⟩ :=
          Quot.sound ⟨by show s.start < r.stop; omega, by show r.start < s.stop; omega⟩
        exact hsr.trans hrt

/-! ## What spans are united to -/

/-- The spans are united to others: these stand apart, each of them begins with one of the spans
and has no seam inside, and together they take up all spans. -/
structure Unites (spans united : List Span) : Prop where
  apart : united.Pairwise fun u v => u.stop ≤ v.start
  within : ∀ s ∈ spans, ∃ u ∈ united, u.start ≤ s.start ∧ s.stop ≤ u.stop
  begins : ∀ u ∈ united, ∃ s ∈ spans, s.start = u.start ∧ s.stop ≤ u.stop
  seamless : ∀ u ∈ united, ∀ i, u.start < i → i < u.stop → ∃ s ∈ spans, s.start < i ∧ i < s.stop

theorem unites_uniteFrom {current : Span} {rest : List Span}
    (hsorted : (current :: rest).Pairwise fun s t => s.start ≤ t.start) :
    Unites (current :: rest) (uniteFrom current rest) := by
  induction rest generalizing current with
  | nil =>
    refine ⟨List.pairwise_singleton _ _, fun s hs => ⟨s, hs, Nat.le_refl _, Nat.le_refl _⟩,
      fun u hu => ⟨u, hu, rfl, Nat.le_refl _⟩, fun u hu i hi hiu => ⟨u, hu, hi, hiu⟩⟩
  | cons next rest ih =>
    obtain ⟨hcurrent, hrest⟩ := List.pairwise_cons.mp hsorted
    have hnext := hcurrent next (List.mem_cons_self ..)
    rw [uniteFrom]
    by_cases hover : next.start < current.stop
    · rw [if_pos hover]
      -- the current span and the next one count as one that takes up both
      have hboth := @ih ⟨current.start, max current.stop next.stop⟩
        (List.pairwise_cons.mpr ⟨fun t ht => hcurrent t (List.mem_cons_of_mem _ ht),
          (List.pairwise_cons.mp hrest).2⟩)
      refine ⟨hboth.apart, fun s hs => ?_, fun u hu => ?_, fun u hu i hi hiu => ?_⟩
      · obtain ⟨u, hu, hstart, hstop⟩ := hboth.within _ (List.mem_cons_self ..)
        have hstart : u.start ≤ current.start := hstart
        have hstop : max current.stop next.stop ≤ u.stop := hstop
        rcases List.mem_cons.mp hs with rfl | hs
        · exact ⟨u, hu, hstart, by omega⟩
        rcases List.mem_cons.mp hs with rfl | hs
        · exact ⟨u, hu, by omega, by omega⟩
        · exact hboth.within s (List.mem_cons_of_mem _ hs)
      · obtain ⟨s, hs, hstart, hstop⟩ := hboth.begins u hu
        rcases List.mem_cons.mp hs with rfl | hs
        · have hstop : max current.stop next.stop ≤ u.stop := hstop
          exact ⟨current, List.mem_cons_self .., hstart, by omega⟩
        · exact ⟨s, by simp [hs], hstart, hstop⟩
      · obtain ⟨s, hs, hbefore, hafter⟩ := hboth.seamless u hu i hi hiu
        rcases List.mem_cons.mp hs with rfl | hs
        · have hbefore : current.start < i := hbefore
          have hafter : i < max current.stop next.stop := hafter
          by_cases hin : i < current.stop
          · exact ⟨current, List.mem_cons_self .., hbefore, hin⟩
          · exact ⟨next, by simp, by omega, by omega⟩
        · exact ⟨s, by simp [hs], hbefore, hafter⟩
    · rw [if_neg hover]
      have hlater := ih hrest
      refine ⟨List.pairwise_cons.mpr ⟨fun u hu => ?_, hlater.apart⟩, fun s hs => ?_,
        fun u hu => ?_, fun u hu i hi hiu => ?_⟩
      · obtain ⟨s, hs, hstart, -⟩ := hlater.begins u hu
        have hle : next.start ≤ s.start := by
          rcases List.mem_cons.mp hs with rfl | hs
          · exact Nat.le_refl _
          · exact (List.pairwise_cons.mp hrest).1 s hs
        omega
      · rcases List.mem_cons.mp hs with rfl | hs
        · exact ⟨s, List.mem_cons_self .., Nat.le_refl _, Nat.le_refl _⟩
        · obtain ⟨u, hu, hin⟩ := hlater.within s hs
          exact ⟨u, List.mem_cons_of_mem _ hu, hin⟩
      · rcases List.mem_cons.mp hu with rfl | hu
        · exact ⟨u, List.mem_cons_self .., rfl, Nat.le_refl _⟩
        · obtain ⟨s, hs, hin⟩ := hlater.begins u hu
          exact ⟨s, List.mem_cons_of_mem _ hs, hin⟩
      · rcases List.mem_cons.mp hu with rfl | hu
        · exact ⟨u, List.mem_cons_self .., hi, hiu⟩
        · obtain ⟨s, hs, hin⟩ := hlater.seamless u hu i hi hiu
          exact ⟨s, List.mem_cons_of_mem _ hs, hin⟩

/-- Spans of any order are united after they have been sorted. -/
theorem unites_unite (spans : List Span) : Unites spans (unite spans) := by
  have hperm := StableSort.sortBy_perm (fun a b : Span => decide (a.start ≤ b.start)) spans
  have hsorted : (StableSort.sortBy (fun a b : Span => decide (a.start ≤ b.start)) spans).Pairwise
      fun s t => s.start ≤ t.start := by
    refine (StableSort.pairwise_sortBy ?_ ?_ spans).imp of_decide_eq_true
    · intro s t
      simpa using Nat.le_total _ _
    · intro s t r hst htr
      simp only [decide_eq_true_eq] at hst htr ⊢
      exact hst.trans htr
  unfold unite
  split
  · next heq =>
    rw [heq] at hperm
    obtain rfl := hperm.nil_eq
    exact ⟨.nil, by simp, by simp, by simp⟩
  · next first rest heq =>
    rw [heq] at hperm hsorted
    obtain ⟨hapart, hwithin, hbegins, hseamless⟩ := unites_uniteFrom hsorted
    exact ⟨hapart, fun s hs => hwithin s (hperm.mem_iff.mpr hs),
      fun u hu => (hbegins u hu).imp fun s hs => ⟨hperm.mem_iff.mp hs.1, hs.2⟩,
      fun u hu i hi hiu => (hseamless u hu i hi hiu).imp fun s hs => ⟨hperm.mem_iff.mp hs.1, hs.2⟩⟩

namespace Unites

variable (h : Unites spans united) (hsolid : ∀ s ∈ spans, s.start < s.stop)
include h

/-- Of the united spans, no two different ones overlap. -/
theorem eq_of_overlaps (hu : u ∈ united) (hv : v ∈ united) (huv : Overlaps u v) :
    u = v := by
  by_contra hne
  have hapart : united.Pairwise fun u v => ¬ Overlaps u v :=
    h.apart.imp fun hle (hover : Overlaps _ _) => Nat.not_lt.mpr hle hover.2
  have hsymm : Std.Symm fun u v : Span => ¬ Overlaps u v :=
    ⟨fun _ _ hno hover => hno ⟨hover.2, hover.1⟩⟩
  exact hapart.forall hu hv hne huv

include hsolid

theorem start_lt_stop (hu : u ∈ united) : u.start < u.stop := by
  obtain ⟨s, hs, hstart, hstop⟩ := h.begins u hu
  have := hsolid s hs
  omega

theorem nodup : united.Nodup := by
  refine h.apart.imp_of_mem fun {u v} hu _ hle heq => ?_
  have := h.start_lt_stop hsolid hu
  rw [heq] at this hle
  omega

/-- The united spans take up the same offsets. -/
theorem any_covers (i : Nat) : united.any (·.covers i) = spans.any (·.covers i) := by
  rw [Bool.eq_iff_iff, List.any_eq_true, List.any_eq_true]
  constructor
  · rintro ⟨u, hu, hin⟩
    obtain ⟨hstart, hstop⟩ := covers_iff.mp hin
    rcases Nat.eq_or_lt_of_le hstart with heq | hlt
    · obtain ⟨s, hs, hbegin, -⟩ := h.begins u hu
      have := hsolid s hs
      exact ⟨s, hs, covers_iff.mpr ⟨by omega, by omega⟩⟩
    · obtain ⟨s, hs, hbefore, hafter⟩ := h.seamless u hu i hlt hstop
      exact ⟨s, hs, covers_iff.mpr ⟨by omega, hafter⟩⟩
  · rintro ⟨s, hs, hin⟩
    obtain ⟨u, hu, hstart, hstop⟩ := h.within s hs
    have := covers_iff.mp hin
    exact ⟨u, hu, covers_iff.mpr ⟨by omega, by omega⟩⟩

/-- Two spans are in one group if they lie within one united span. -/
theorem group_eq (hu : u ∈ united) (hs : s ∈ spans) (ht : t ∈ spans)
    (hus : u.start ≤ s.start) (hsu : s.stop ≤ u.stop) (hut : u.start ≤ t.start)
    (htu : t.stop ≤ u.stop) : (Quot.mk _ ⟨s, hs⟩ : Group spans) = Quot.mk _ ⟨t, ht⟩ := by
  have hsolidS := hsolid s hs
  have hsolidT := hsolid t ht
  rcases Nat.le_total s.start t.start with hle | hle
  · exact group_eq_of_seamless hsolid hs ht hle fun i hi hit =>
      h.seamless u hu i (by omega) (by omega)
  · exact (group_eq_of_seamless hsolid ht hs hle fun i hi his =>
      h.seamless u hu i (by omega) (by omega)).symm

/-- There are as many united spans as there are groups. -/
theorem card_group : Nat.card (Group spans) = united.length := by
  choose above habove using fun s : {s // s ∈ spans} => h.within s.1 s.2
  -- spans that overlap lie within the same united span
  let index : Group spans → {u // u ∈ united} :=
    Quot.lift (fun s => ⟨above s, (habove s).1⟩) fun s t hst => by
      obtain ⟨hs, hstart, hstop⟩ := habove s
      obtain ⟨ht, hstart', hstop'⟩ := habove t
      exact Subtype.ext (h.eq_of_overlaps hs ht (hst.mono hstart hstop hstart' hstop'))
  have hinjective : index.Injective := by
    rintro ⟨s⟩ ⟨t⟩ heq
    have heq : above s = above t := congrArg Subtype.val heq
    obtain ⟨hs, hstart, hstop⟩ := habove s
    obtain ⟨-, hstart', hstop'⟩ := habove t
    rw [← heq] at hstart' hstop'
    exact h.group_eq hsolid hs s.2 t.2 hstart hstop hstart' hstop'
  have hsurjective : index.Surjective := by
    rintro ⟨u, hu⟩
    obtain ⟨s, hs, hstart, hstop⟩ := h.begins u hu
    obtain ⟨hv, hstart', hstop'⟩ := habove ⟨s, hs⟩
    have hself : Overlaps s s := ⟨hsolid s hs, hsolid s hs⟩
    exact ⟨Quot.mk _ ⟨s, hs⟩, Subtype.ext (h.eq_of_overlaps hv hu
      (hself.mono hstart' hstop' (Nat.le_of_eq hstart.symm) hstop))⟩
  calc Nat.card (Group spans) = Nat.card {u // u ∈ united} :=
        Nat.card_eq_of_bijective index ⟨hinjective, hsurjective⟩
    _ = Nat.card (Fin united.length) :=
        (Nat.card_congr ((h.nodup hsolid).getEquiv united)).symm
    _ = united.length := Nat.card_fin _

end Unites

end SuperForward.Text.Span
