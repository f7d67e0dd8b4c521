/-
  The nearest node of some sorts above a node.

  `Program.enclosing` follows the parent links until it meets such a node. In a program of
  scripts it meets a script at the latest, because only the root is not in a script.
-/
import SuperForward.Proofs.Program.Without

namespace SuperForward.Program

/-- A node is of one of some sorts. -/
def IsOneOf (p : Program) (kinds : List NodeKind) (n : Handle) : Prop :=
  ∃ k ∈ kinds, p.kindOf? n = some k

/-- A node of some sorts hangs above another one, and no such node hangs between the two. -/
structure Nearest (p : Program) (kinds : List NodeKind) (n above : Handle) : Prop where
  ne : above ≠ n
  below : p.Below above n
  sort : p.IsOneOf kinds above
  nearest : ∀ m, m ≠ n → p.Below m n → p.IsOneOf kinds m → p.Below m above

theorem isOneOf_iff {p : Program} {kinds : List NodeKind} {n : Handle} {k : NodeKind}
    (h : p.kindOf? n = some k) : p.IsOneOf kinds n ↔ kinds.contains k = true := by
  rw [List.contains_iff_mem]
  constructor
  · rintro ⟨k', hk', hn⟩
    rw [h] at hn
    rwa [Option.some.inj hn]
  · intro hk
    exact ⟨k, hk, h⟩

/-- What hangs above a node properly hangs above its parent. -/
theorem Below.of_parent {p : Program} {m n parent : Handle} (h : p.Below m n) (hne : m ≠ n)
    (hparent : p.parentOf n = some parent) : p.Below m parent := by
  cases h with
  | here => exact absurd rfl hne
  | child up link =>
    rw [hparent] at link
    cases link
    exact up

section

variable {p : Program} (hp : p.Forest) {kinds : List NodeKind} {n parent above : Handle}
include hp

/-- The nearest one is the parent, or the nearest one above the parent. -/
theorem Forest.nearest_iff (hparent : p.parentOf n = some parent) :
    p.Nearest kinds n above ↔ (above = parent ∧ p.IsOneOf kinds parent) ∨
      (¬ p.IsOneOf kinds parent ∧ p.Nearest kinds parent above) := by
  have hne {m : Handle} (hm : p.Below m parent) : m ≠ n := by
    rintro rfl
    exact hp.parent_above hparent hm
  constructor
  · intro h
    by_cases hsort : p.IsOneOf kinds parent
    · left
      have hbelow := h.nearest parent (hne .here) (Below.here.child hparent) hsort
      exact ⟨hp.eq_of_below_of_below (h.below.of_parent h.ne hparent) hbelow, hsort⟩
    · right
      refine ⟨hsort, ?_, h.below.of_parent h.ne hparent, h.sort, ?_⟩
      · rintro rfl
        exact hsort h.sort
      · intro m _ hm hkind
        exact h.nearest m (hne hm) (hm.child hparent) hkind
  · rintro (⟨rfl, hsort⟩ | ⟨hsort, h⟩)
    · exact ⟨hne .here, Below.here.child hparent, hsort,
        fun m hm hbelow _ => hbelow.of_parent hm hparent⟩
    · refine ⟨hne h.below, h.below.child hparent, h.sort, ?_⟩
      intro m hm hbelow hkind
      refine h.nearest m ?_ (hbelow.of_parent hm hparent) hkind
      rintro rfl
      exact hsort hkind

/-- Above a node that has some node of the sorts above it, one of these is the nearest. -/
theorem Forest.exists_nearest (kinds : List NodeKind) {m : Handle} (hm : p.Below m n) (hne : m ≠ n)
    (hsort : p.IsOneOf kinds m) : ∃ above, p.Nearest kinds n above := by
  induction hm with
  | here => exact absurd rfl hne
  | @child parent n hm link ih =>
    by_cases hparent : p.IsOneOf kinds parent
    · exact ⟨parent, (hp.nearest_iff link).mpr (.inl ⟨rfl, hparent⟩)⟩
    · obtain ⟨above, h⟩ := ih fun h => hparent (h ▸ hsort)
      exact ⟨above, (hp.nearest_iff link).mpr (.inr ⟨hparent, h⟩)⟩

/-- The nearest node of some sorts is found, and nothing is found if there is none. -/
theorem Forest.enclosing_eq (kinds : List NodeKind) (hn : n < p.size) :
    ∃ above?, p.enclosing n kinds = .ok above? ∧
      ∀ above, above? = some above ↔ p.Nearest kinds n above := by
  obtain ⟨rank, hle, hrank⟩ := hp.ranked
  -- each step goes one rank up, and no rank is larger than the program, so the steps are enough
  have key : ∀ steps n, n < p.size → p.size < rank n + steps →
      ∃ above?, p.enclosingWithin kinds steps n = .ok above? ∧
        ∀ above, above? = some above ↔ p.Nearest kinds n above := by
    intro steps
    induction steps with
    | zero =>
      intro n _ hr
      have := hle n
      omega
    | succ steps ih =>
      intro n hn hr
      unfold enclosingWithin
      rw [parent_of_lt hn]
      cases hparent : p.parentOf n with
      | none =>
        refine ⟨none, rfl, fun above => ⟨fun h => absurd h (by simp), fun h => ?_⟩⟩
        cases h.below with
        | here => exact absurd rfl h.ne
        | child _ link =>
          rw [hparent] at link
          cases link
      | some parent =>
        have hlt := hrank hparent
        obtain ⟨k, hk, hkind⟩ := kind_of_lt (hp.parent_lt_size hparent)
        simp only [except_ok_bind, hk, hp.nearest_iff hparent]
        by_cases hsort : p.IsOneOf kinds parent
        · refine ⟨some parent, by rw [if_pos ((isOneOf_iff hkind).mp hsort)]; rfl, fun above => ?_⟩
          simp only [hsort, and_true, not_true_eq_false, false_and, or_false, Option.some.injEq]
          exact eq_comm
        · obtain ⟨above?, habove, hiff⟩ := ih parent (hp.parent_lt_size hparent) (by omega)
          refine ⟨above?, by rw [if_neg (mt (isOneOf_iff hkind).mpr hsort)]; exact habove,
            fun above => ?_⟩
          simp only [hsort, and_false, not_false_eq_true, true_and, false_or]
          exact hiff above
  exact key (p.size + 1) n hn (by omega)

end

/-! ## Scripts -/

namespace Parsed

variable {p : Program} (hp : p.Parsed) {n : Handle}
include hp

/-- Scripts hang at the root, and nowhere else. -/
theorem parentOf_of_script (hn : p.Below root n) (hkind : p.kindOf? n = some .script) :
    p.parentOf n = some root := by
  cases hn with
  | here =>
    rw [hp.kindOf?_root] at hkind
    cases hkind
  | @child above _ hup link =>
    have hirregular {s : Sketch} (hs : p.Shows n s) (hregular : s.Regular) : False := by
      have hfits := hregular.shaped.fits
      rw [hs.kindOf?] at hkind
      rw [Option.some.inj hkind] at hfits
      exact hfits
    rcases hp.shows_of_below hup with ⟨rfl, -⟩ | ⟨s, hs, hs'⟩
    · exact link
    · obtain ⟨t, ht, hnt⟩ := hs.child (hp.forest.mem_children_iff.mpr link)
      rcases hs' with hs' | hs'
      · exact (hirregular hnt (hs'.regular t ht)).elim
      · exact (hirregular hnt (hs'.child ht)).elim

/-- What hangs at the root is a script. -/
theorem kindOf?_of_parent_root (h : p.parentOf n = some root) : p.kindOf? n = some .script := by
  obtain ⟨scripts, hroot, hscripts⟩ := hp.shows
  obtain ⟨s, hs, hshow⟩ := hroot.child (hp.forest.mem_children_iff.mpr h)
  rw [hshow.kindOf?, (hscripts s hs).kind]

/-- Everything but the root is in a script. -/
theorem exists_script (hn : p.Below root n) (hne : n ≠ root) :
    ∃ script, p.parentOf script = some root ∧ p.kindOf? script = some .script ∧
      p.Below script n := by
  rcases hn.eq_or_child with rfl | ⟨script, hscript, hbelow⟩
  · exact absurd rfl hne
  · exact ⟨script, hscript, hp.kindOf?_of_parent_root hscript, hbelow⟩

/-- Only the root is of its sort. -/
theorem eq_root_of_kind (hn : p.Below root n) (hkind : p.kindOf? n = some .root) : n = root := by
  rcases hp.shows_of_below hn with ⟨rfl, -⟩ | ⟨s, hs, hs'⟩
  · rfl
  · rw [hs.kindOf?] at hkind
    rcases hs' with hs' | hs'
    · rw [hs'.kind] at hkind
      cases hkind
    · have hfits := hs'.shaped.fits
      rw [Option.some.inj hkind] at hfits
      exact hfits.elim

/-- What hangs above a node of a program is the root, or hangs below it. -/
theorem below_root_of_above {m : Handle} (hn : p.Below root n) (hm : p.Below m n) :
    p.Below root m := hn.of_above hp.root_parent hm

/-- The nearest function or script above a node is the nearest scope above it. -/
theorem exists_scope (hn : p.Below root n) (hroot : n ≠ root)
    (hscript : p.kindOf? n ≠ some .script) : ∃ scope, p.Nearest [.function, .script] n scope ∧
      p.Nearest [.function, .script, .root] n scope := by
  obtain ⟨script, hlink, hkind, hbelow⟩ := hp.exists_script hn hroot
  have hne : script ≠ n := fun h => hscript (h ▸ hkind)
  obtain ⟨scope, h⟩ := hp.forest.exists_nearest [.function, .script] hbelow hne
    ⟨.script, by simp, hkind⟩
  have hscope := hp.below_root_of_above hn h.below
  refine ⟨scope, h, h.ne, h.below, ?_, ?_⟩
  · obtain ⟨k, hk, hsort⟩ := h.sort
    exact ⟨k, List.mem_append_left [NodeKind.root] hk, hsort⟩
  · rintro m hm hmn ⟨k, hk, hsort⟩
    rcases List.mem_append.mp (show k ∈ [.function, .script] ++ [.root] from hk) with hk | hk
    · exact h.nearest m hm hmn ⟨k, hk, hsort⟩
    · rw [List.mem_singleton.mp hk] at hsort
      rw [hp.eq_root_of_kind (hp.below_root_of_above hn hmn) hsort]
      exact hscope

end Parsed

end SuperForward.Program
