/-
  The ancestry has no circles, and so the classes above a class can be counted.

  The search for the classes above a class has steps enough to follow every link once, so that
  what it finds is closed under links. A link to a superclass that the class is not found above
  therefore closes no circle, and from every class one comes to an end. Nothing is found twice,
  so a class has more classes above it than its superclass has.
-/
import SuperForward.Types.Ancestry
import Mathlib.Data.List.Perm.Subperm
import Mathlib.Logic.Relation
import Mathlib.Order.WellFounded

namespace SuperForward.Ancestry

variable {a : Ancestry}

theorem mem_parents {child parent : String} :
    parent ∈ a.parents child ↔ (child, parent) ∈ a.links := by
  unfold parents
  rw [List.mem_map]
  constructor
  · rintro ⟨⟨c, p⟩, hmem, rfl⟩
    obtain ⟨hlink, hc⟩ := List.mem_filter.mp hmem
    rw [beq_iff_eq] at hc
    exact hc ▸ hlink
  · intro h
    exact ⟨(child, parent), List.mem_filter.mpr ⟨h, beq_self_eq_true _⟩, rfl⟩

/-! ## The search -/

/-- How many links there are from classes that have not been seen. -/
def unseen (a : Ancestry) (seen : List String) : Nat :=
  (a.links.filter fun link => !seen.contains link.1).length

theorem unseen_le (seen : List String) : a.unseen seen ≤ a.links.length :=
  List.length_filter_le ..

/-- The links from a class that is seen now are not to be followed again. -/
theorem unseen_cons {name : String} {seen : List String} (h : seen.contains name = false) :
    (a.parents name).length + a.unseen (name :: seen) = a.unseen seen := by
  unfold unseen parents
  rw [List.length_map]
  induction a.links with
  | nil => rfl
  | cons link links ih =>
    simp only [List.contains_cons] at ih
    simp only [List.filter_cons, List.contains_cons]
    by_cases hname : link.1 = name
    · rw [hname, h]
      simp only [beq_self_eq_true, if_true, Bool.true_or, Bool.not_true, Bool.false_eq_true,
        if_false, Bool.not_false, List.length_cons]
      omega
    · rw [beq_false_of_ne hname, Bool.false_or]
      simp only [Bool.false_eq_true, if_false]
      split
      · simp only [List.length_cons]
        omega
      · exact ih

/-- A search with steps enough finds everything that is to do, and every superclass of what it
finds. -/
theorem reachWithin_closed {steps : Nat} {todo seen : List String}
    (hsteps : todo.length + a.unseen seen ≤ steps)
    (hseen : ∀ c ∈ seen, ∀ parent ∈ a.parents c, parent ∈ seen ∨ parent ∈ todo) :
    (∀ c, c ∈ todo ∨ c ∈ seen → c ∈ a.reachWithin steps todo seen) ∧
      ∀ c ∈ a.reachWithin steps todo seen, ∀ parent ∈ a.parents c,
        parent ∈ a.reachWithin steps todo seen := by
  -- once nothing is to do, what has been seen is closed
  have hdone (seen : List String)
      (hseen : ∀ c ∈ seen, ∀ parent ∈ a.parents c, parent ∈ seen ∨ parent ∈ ([] : List String)) :
      (∀ c, c ∈ ([] : List String) ∨ c ∈ seen → c ∈ seen) ∧
        ∀ c ∈ seen, ∀ parent ∈ a.parents c, parent ∈ seen :=
    ⟨fun c h => h.resolve_left List.not_mem_nil,
      fun c hc parent hparent => (hseen c hc parent hparent).resolve_right List.not_mem_nil⟩
  induction steps generalizing todo seen with
  | zero =>
    have hnil : todo = [] := List.length_eq_zero_iff.mp (by omega)
    subst hnil
    exact hdone seen hseen
  | succ steps ih =>
    cases todo with
    | nil => exact hdone seen hseen
    | cons name todo =>
      rw [List.length_cons] at hsteps
      rw [reachWithin]
      split
      · next h =>
        have hname : name ∈ seen := List.contains_iff_mem.mp h
        obtain ⟨hmem, hclosed⟩ := @ih todo seen (by omega) <| by
          intro c hc parent hparent
          rcases hseen c hc parent hparent with h | h
          · exact .inl h
          · rcases List.mem_cons.mp h with rfl | h
            · exact .inl hname
            · exact .inr h
        refine ⟨fun c hc => ?_, hclosed⟩
        rcases hc with hc | hc
        · rcases List.mem_cons.mp hc with rfl | hc
          · exact hmem _ (.inr hname)
          · exact hmem c (.inl hc)
        · exact hmem c (.inr hc)
      · next h =>
        have hcons := unseen_cons (a := a) (Bool.not_eq_true _ ▸ h)
        obtain ⟨hmem, hclosed⟩ := @ih (a.parents name ++ todo) (name :: seen)
          (by rw [List.length_append]; omega) <| by
            intro c hc parent hparent
            rcases List.mem_cons.mp hc with rfl | hc
            · exact .inr (List.mem_append_left _ hparent)
            · rcases hseen c hc parent hparent with h | h
              · exact .inl (List.mem_cons_of_mem _ h)
              · rcases List.mem_cons.mp h with rfl | h
                · exact .inl (List.mem_cons_self ..)
                · exact .inr (List.mem_append_right _ h)
        refine ⟨fun c hc => ?_, hclosed⟩
        rcases hc with hc | hc
        · rcases List.mem_cons.mp hc with rfl | hc
          · exact hmem _ (.inr (List.mem_cons_self ..))
          · exact hmem c (.inl (List.mem_append_right _ hc))
        · exact hmem c (.inr (List.mem_cons_of_mem _ hc))

/-- A class is found when what is above it is looked for. -/
theorem mem_upwards_self (name : String) : name ∈ a.upwards name := by
  have hle := a.unseen_le []
  refine (reachWithin_closed ?_ ?_).1 name (.inl (List.mem_singleton_self _))
  · rw [List.length_singleton]
    omega
  · simp

/-- With every class that is found, its superclasses are. -/
theorem mem_upwards_of_link {name child parent : String} (h : child ∈ a.upwards name)
    (hlink : (child, parent) ∈ a.links) : parent ∈ a.upwards name := by
  have hle := a.unseen_le []
  refine (reachWithin_closed ?_ ?_).2 child h parent (mem_parents.mpr hlink)
  · rw [List.length_singleton]
    omega
  · simp

/-- A class that is not led to is not found. -/
theorem not_mem_upwards {source target : String} (h : a.leadsTo source target = .ok false) :
    target ∉ a.upwards source := by
  unfold leadsTo at h
  split at h
  · cases h
  split at h
  · cases h
  · rw [← List.contains_iff_mem, Bool.not_eq_true]
    exact Except.ok.inj h

/-! ## Links -/

/-- Links come to an end from everywhere. -/
def Acyclic (a : Ancestry) : Prop := WellFounded fun parent child => (child, parent) ∈ a.links

theorem acyclic_empty : empty.Acyclic :=
  ⟨fun _ => ⟨_, fun _ h => absurd h List.not_mem_nil⟩⟩

theorem Acyclic.addClass (h : a.Acyclic) (name : String) : (a.addClass name).Acyclic := by
  unfold Ancestry.addClass
  split
  · exact h
  · exact h

theorem mem_links_addLink {child parent : String} {link : String × String} :
    link ∈ (a.addLink child parent).links ↔ link ∈ a.links ∨ link = (child, parent) := by
  unfold Ancestry.addLink
  split
  · next h =>
    rw [List.contains_iff_mem] at h
    exact ⟨.inl, fun h' => h'.elim id fun heq => heq ▸ h⟩
  · exact List.mem_append.trans (or_congr_right List.mem_singleton)

/-- A link to a superclass that the class is not above closes no circle. -/
theorem Acyclic.addLink (h : a.Acyclic) {child parent : String}
    (hnew : child ∉ a.upwards parent) : (a.addLink child parent).Acyclic := by
  -- above the superclass there are only the links that were there before
  have habove : ∀ c, c ∈ a.upwards parent →
      Acc (fun q c => (c, q) ∈ (a.addLink child parent).links) c := by
    intro c
    induction c using h.induction with
    | h c ih =>
      intro hc
      refine ⟨c, fun q hq => ?_⟩
      rcases mem_links_addLink.mp hq with hq | hq
      · exact ih q hq (mem_upwards_of_link hc hq)
      · cases hq
        exact absurd hc hnew
  refine ⟨fun c => ?_⟩
  induction c using h.induction with
  | h c ih =>
    refine ⟨c, fun q hq => ?_⟩
    rcases mem_links_addLink.mp hq with hq | hq
    · exact ih q hq
    · cases hq
      exact habove parent (mem_upwards_self parent)

/-! ## How many classes are above a class -/

/-- Links lead from the class to the other one, or they are the same. -/
def Reaches (a : Ancestry) : String → String → Prop :=
  Relation.ReflTransGen fun child parent => (child, parent) ∈ a.links

theorem reachWithin_sound {steps : Nat} {todo seen : List String} {c : String}
    (h : c ∈ a.reachWithin steps todo seen) : c ∈ seen ∨ ∃ t ∈ todo, a.Reaches t c := by
  induction steps generalizing todo seen with
  | zero => exact .inl h
  | succ steps ih =>
    cases todo with
    | nil => exact .inl h
    | cons name todo =>
      rw [reachWithin] at h
      split at h
      · rcases ih h with hc | ⟨t, ht, hr⟩
        · exact .inl hc
        · exact .inr ⟨t, List.mem_cons_of_mem _ ht, hr⟩
      · rcases ih h with hc | ⟨t, ht, hr⟩
        · rcases List.mem_cons.mp hc with rfl | hc
          · exact .inr ⟨c, List.mem_cons_self .., .refl⟩
          · exact .inl hc
        · rcases List.mem_append.mp ht with ht | ht
          · exact .inr ⟨name, List.mem_cons_self .., .head (mem_parents.mp ht) hr⟩
          · exact .inr ⟨t, List.mem_cons_of_mem _ ht, hr⟩

theorem nodup_reachWithin {steps : Nat} {todo seen : List String} (h : seen.Nodup) :
    (a.reachWithin steps todo seen).Nodup := by
  induction steps generalizing todo seen with
  | zero => exact h
  | succ steps ih =>
    cases todo with
    | nil => exact h
    | cons name todo =>
      rw [reachWithin]
      split
      · exact ih h
      · next hnew =>
        refine ih (List.nodup_cons.mpr ⟨fun hmem => hnew ?_, h⟩)
        exact List.contains_iff_mem.mpr hmem

/-- What is found above a class is what links lead to. -/
theorem mem_upwards_iff {name c : String} : c ∈ a.upwards name ↔ a.Reaches name c := by
  constructor
  · intro h
    rcases reachWithin_sound h with h | ⟨t, ht, hr⟩
    · exact absurd h List.not_mem_nil
    · exact List.mem_singleton.mp ht ▸ hr
  · intro h
    induction h with
    | refl => exact mem_upwards_self name
    | tail _ hlink ih => exact mem_upwards_of_link ih hlink

theorem nodup_upwards (name : String) : (a.upwards name).Nodup := nodup_reachWithin List.nodup_nil

/-- Links do not lead back from a superclass. -/
theorem Acyclic.not_reaches (h : a.Acyclic) {child parent : String}
    (hlink : (child, parent) ∈ a.links) : ¬ a.Reaches parent child := by
  induction child using h.induction generalizing parent with
  | h child ih =>
    intro hback
    -- the circle passes the superclass as well
    rcases hback.cases_head with rfl | ⟨next, hnext, hback⟩
    · exact ih parent hlink hlink .refl
    · exact ih parent hlink hnext (hback.tail hlink)

theorem Acyclic.length_upwards_lt (h : a.Acyclic) {child parent : String}
    (hlink : (child, parent) ∈ a.links) :
    (a.upwards parent).length < (a.upwards child).length := by
  have hnodup : (child :: a.upwards parent).Nodup :=
    List.nodup_cons.mpr ⟨fun hmem => h.not_reaches hlink (mem_upwards_iff.mp hmem),
      nodup_upwards parent⟩
  have hsubset : child :: a.upwards parent ⊆ a.upwards child := by
    intro c hc
    rcases List.mem_cons.mp hc with rfl | hc
    · exact mem_upwards_self c
    · exact mem_upwards_iff.mpr (.head hlink (mem_upwards_iff.mp hc))
  exact (hnodup.subperm hsubset).length_le

/-- A superclass is less deep than its class. -/
theorem Acyclic.depth_lt (h : a.Acyclic) {child parent : String}
    (hlink : (child, parent) ∈ a.links) (hchild : child ∈ a.classes) :
    a.depth parent < a.depth child := by
  have hlt := h.length_upwards_lt hlink
  have hpos : 0 < (a.upwards parent).length := List.length_pos_of_mem (mem_upwards_self parent)
  unfold depth
  rw [if_pos (List.contains_iff_mem.mpr hchild)]
  split
  · omega
  · omega

end SuperForward.Ancestry
