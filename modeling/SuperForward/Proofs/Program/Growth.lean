/-
  How programs grow.

  Making the nodes of a phrase leaves all earlier nodes as they were. The new nodes hang
  together among themselves, every parent is younger than its children, and what is handed on
  are nodes without a parent. Growth is transitive, so that the parts of a phrase can be made
  one after the other; nodes that are handed on stay as they are until something is put above
  them.
-/
import SuperForward.Proofs.Program.Sketch
import Mathlib.Tactic.ByContra

namespace SuperForward.Program

open SuperForward.Script (Extent)

/-- `q` has grown out of `p`, and the nodes `tops` are left to be put below others. -/
structure Grown (p q : Program) (tops : List Handle) : Prop where
  size_le : p.size ≤ q.size
  old : ∀ n : Nat, n < p.size → q.nodes[n]? = p.nodes[n]?
  new : ∀ n : Nat, n ∈ tops → p.size ≤ n ∧ n < q.size ∧ q.parentOf n = none
  nodup : tops.Nodup
  mem_children_iff : ∀ {n c : Nat}, p.size ≤ n →
    (c ∈ q.childrenOf n ↔ p.size ≤ c ∧ q.parentOf c = some n)
  nodup_children : ∀ n : Nat, p.size ≤ n → (q.childrenOf n).Nodup
  younger : ∀ {n c : Nat}, p.size ≤ c → q.parentOf c = some n → c < n ∧ n < q.size
  untyped : ∀ (n : Nat) node, p.size ≤ n → q.nodes[n]? = some node → node.type = none

/-- What `p` says of its nodes, their parents apart, `q` says as well. -/
def Keeps (p q : Program) : Prop :=
  ∀ (n : Handle) (node : Node), p.nodes[n]? = some node →
    ∃ parent : Option Handle, q.nodes[n]? = some { node with parent }

/-! ## Keeping what is shown -/

theorem Keeps.trans {p q r : Program} (hpq : Keeps p q) (hqr : Keeps q r) : Keeps p r := by
  intro n node h
  obtain ⟨a, ha⟩ := hpq n node h
  obtain ⟨b, hb⟩ := hqr n _ ha
  exact ⟨b, hb⟩

theorem forall₂_imp_of_mem {α β : Type} {R S : α → β → Prop} {as : List α} {bs : List β}
    (h : ∀ a ∈ as, ∀ b ∈ bs, R a b → S a b) (hR : List.Forall₂ R as bs) :
    List.Forall₂ S as bs := by
  induction hR with
  | nil => exact .nil
  | cons hab _ ih =>
    refine .cons (h _ (List.mem_cons_self ..) _ (List.mem_cons_self ..) hab) (ih ?_)
    intro a ha b hb
    exact h a (List.mem_cons_of_mem _ ha) b (List.mem_cons_of_mem _ hb)

theorem forall₂_exists_of_mem {α β : Type} {R : α → β → Prop} {as : List α} {bs : List β}
    (h : List.Forall₂ R as bs) {a : α} (ha : a ∈ as) : ∃ b ∈ bs, R a b := by
  induction h with
  | nil => exact absurd ha List.not_mem_nil
  | cons hab _ ih =>
    rcases List.mem_cons.mp ha with rfl | ha
    · exact ⟨_, List.mem_cons_self .., hab⟩
    · obtain ⟨b, hb, h⟩ := ih ha
      exact ⟨b, List.mem_cons_of_mem _ hb, h⟩

/-- Pairs of one list that stand in a relation give pairs of another one. -/
theorem pairwise_of_forall₂ {α β : Type} {R : α → β → Prop} {P : α → α → Prop}
    {Q : β → β → Prop} {as : List α} {bs : List β} (h : List.Forall₂ R as bs)
    (has : as.Pairwise P) (hQ : ∀ {a a' b b'}, P a a' → R a b → R a' b' → Q b b') :
    bs.Pairwise Q := by
  induction h with
  | nil => exact .nil
  | @cons a b as bs head tail ih =>
    obtain ⟨hfirst, hrest⟩ := List.pairwise_cons.mp has
    refine List.pairwise_cons.mpr ⟨fun b' hb' => ?_, ih hrest⟩
    obtain ⟨a', ha', hab'⟩ := forall₂_exists_of_mem tail.flip hb'
    exact hQ (hfirst a' ha') head hab'

/-- What is shown depends only on the nodes that are reached by way of children, and not on
their parents. -/
theorem Shows.congr {q r : Program} {S : Handle → Prop}
    (hclosed : ∀ m, S m → ∀ c ∈ q.childrenOf m, S c)
    (hagree : ∀ (m : Handle) (node : Node), S m → q.nodes[m]? = some node →
      ∃ parent : Option Handle, r.nodes[m]? = some { node with parent })
    {n : Handle} {s : Sketch} (hn : S n) (h : q.Shows n s) : r.Shows n s := by
  induction s using Sketch.induction_on generalizing n with
  | step s ih =>
    rw [shows_iff] at h ⊢
    obtain ⟨node, hnode, hkind, htext, hdoc, hextent, hchildren⟩ := h
    obtain ⟨parent, hnode'⟩ := hagree n node hn hnode
    refine ⟨_, hnode', hkind, htext, hdoc, hextent, ?_⟩
    have hS : ∀ c ∈ node.children, S c := by
      intro c hc
      apply hclosed n hn
      unfold childrenOf
      rw [hnode]
      exact hc
    exact forall₂_imp_of_mem (fun m hm c hc hs => ih c hc (hS m hm) hs) hchildren

theorem Shows.keeps {p q : Program} (h : Keeps p q) {n : Handle} {s : Sketch}
    (hs : p.Shows n s) : q.Shows n s :=
  hs.congr (S := fun _ => True) (fun _ _ _ _ => trivial) (fun m node _ hm => h m node hm) trivial

theorem Shows.lt_size {p : Program} {n : Handle} {s : Sketch} (h : p.Shows n s) :
    n < p.size := by
  obtain ⟨node, hnode, -⟩ := shows_iff.mp h
  exact lt_size_iff.mpr ⟨node, hnode⟩

theorem Grown.keeps {p q : Program} {tops : List Handle} (h : Grown p q tops) : Keeps p q := by
  intro n node hn
  refine ⟨node.parent, ?_⟩
  rw [h.old n (lt_size_iff.mpr ⟨node, hn⟩), hn]

/-! ## Growing on -/

theorem parentOf_eq_of_nodes_eq {p q : Program} {n : Handle} (h : q.nodes[n]? = p.nodes[n]?) :
    q.parentOf n = p.parentOf n := by
  unfold parentOf
  rw [h]

theorem childrenOf_eq_of_nodes_eq {p q : Program} {n : Handle} (h : q.nodes[n]? = p.nodes[n]?) :
    q.childrenOf n = p.childrenOf n := by
  unfold childrenOf
  rw [h]

theorem parentOf_of_size_le {p : Program} {n : Nat} (h : p.size ≤ n) : p.parentOf n = none := by
  unfold parentOf
  rw [Array.getElem?_eq_none h]
  rfl

theorem childrenOf_of_size_le {p : Program} {n : Nat} (h : p.size ≤ n) :
    p.childrenOf n = [] := by
  unfold childrenOf
  rw [Array.getElem?_eq_none h]
  rfl

theorem Grown.refl (p : Program) : Grown p p [] where
  size_le := Nat.le_refl _
  old _ _ := rfl
  new := by simp
  nodup := List.nodup_nil
  mem_children_iff := by
    intro n c hn
    simp only [childrenOf_of_size_le hn, List.not_mem_nil, false_iff, not_and]
    intro hc
    simp [parentOf_of_size_le hc]
  nodup_children := by
    intro n hn
    rw [childrenOf_of_size_le hn]
    exact List.nodup_nil
  younger := by
    intro n c hc h
    rw [parentOf_of_size_le hc] at h
    cases h
  untyped := by
    intro n node hn h
    exact absurd (lt_size_iff.mpr ⟨node, h⟩) (Nat.not_lt.mpr hn)

theorem Grown.trans {p q r : Program} {xs ys : List Handle} (hpq : Grown p q xs)
    (hqr : Grown q r ys) : Grown p r (xs ++ ys) where
  size_le := hpq.size_le.trans hqr.size_le
  old n hn := by
    rw [hqr.old n (hn.trans_le hpq.size_le), hpq.old n hn]
  new n hn := by
    have h1 := hpq.size_le
    have h2 := hqr.size_le
    rcases List.mem_append.mp hn with hn | hn
    · obtain ⟨hle, hlt, hparent⟩ := hpq.new n hn
      refine ⟨hle, by omega, ?_⟩
      rw [parentOf_eq_of_nodes_eq (hqr.old n hlt), hparent]
    · obtain ⟨hle, hlt, hparent⟩ := hqr.new n hn
      exact ⟨by omega, hlt, hparent⟩
  nodup := by
    rw [List.nodup_append]
    refine ⟨hpq.nodup, hqr.nodup, ?_⟩
    intro a ha b hb hab
    subst hab
    have h1 := (hpq.new a ha).2.1
    have h2 := (hqr.new a hb).1
    omega
  mem_children_iff := by
    intro n c hn
    have hsize := hpq.size_le
    -- a node of the first half was given its children there, and the second half left them alone
    by_cases hnq : n < q.size
    · rw [childrenOf_eq_of_nodes_eq (hqr.old n hnq), hpq.mem_children_iff hn]
      by_cases hcq : c < q.size
      · rw [parentOf_eq_of_nodes_eq (hqr.old c hcq)]
      · rw [parentOf_of_size_le (Nat.not_lt.mp hcq)]
        simp only [reduceCtorEq, and_false, false_iff, not_and]
        intro _ h
        have := (hqr.younger (Nat.not_lt.mp hcq) h).1
        omega
    · rw [hqr.mem_children_iff (Nat.not_lt.mp hnq)]
      constructor
      · rintro ⟨hc, h⟩
        exact ⟨by omega, h⟩
      · rintro ⟨hc, h⟩
        refine ⟨?_, h⟩
        by_contra hcq
        rw [parentOf_eq_of_nodes_eq (hqr.old c (Nat.not_le.mp hcq))] at h
        have := (hpq.younger hc h).2
        omega
  nodup_children n hn := by
    by_cases hnq : n < q.size
    · rw [childrenOf_eq_of_nodes_eq (hqr.old n hnq)]
      exact hpq.nodup_children n hn
    · exact hqr.nodup_children n (Nat.not_lt.mp hnq)
  younger := by
    intro n c hc h
    have hsize := hqr.size_le
    by_cases hcq : c < q.size
    · rw [parentOf_eq_of_nodes_eq (hqr.old c hcq)] at h
      have := hpq.younger hc h
      omega
    · exact hqr.younger (Nat.not_lt.mp hcq) h
  untyped n node hn h := by
    by_cases hnq : n < q.size
    · rw [hqr.old n hnq] at h
      exact hpq.untyped n node hn h
    · exact hqr.untyped n node (Nat.not_lt.mp hnq) h

/-- Fewer nodes may be handed on, and in another order. -/
theorem Grown.subset {p q : Program} {xs ys : List Handle} (h : Grown p q xs)
    (hsub : ys ⊆ xs) (hnodup : ys.Nodup) : Grown p q ys :=
  { h with new := fun n hn => h.new n (hsub hn), nodup := hnodup }

/-! ## Putting a node above others -/

theorem nodes_add {p : Program} {node : Node} {tops : List Handle} {n : Nat} :
    (p.add node tops).1.nodes[n]? =
      if n = p.size then some { node with children := tops }
      else (p.nodes[n]?).map fun c => if n ∈ tops then { c with parent := some p.size } else c := by
  -- the links of the children are set one by one, which changes no other node and no size
  have hfold : ∀ (q : Program) (h : Handle),
      (tops.foldl (fun (q : Program) child => q.update child fun c =>
        { c with parent := some h }) q).nodes[n]?
        = (q.nodes[n]?).map fun c => if n ∈ tops then { c with parent := some h } else c := by
    intro q h
    induction tops generalizing q with
    | nil => simp
    | cons m tops ih =>
      rw [List.foldl_cons, ih]
      unfold Program.update
      rw [Array.getElem?_modify]
      by_cases hmn : m = n
      · subst hmn
        cases q.nodes[m]? <;> simp
      · cases q.nodes[n]? with
        | none => simp [hmn]
        | some c => simp [hmn, Ne.symm hmn]
  have hsize : ∀ q : Program, (tops.foldl (fun (q : Program) child => q.update child fun c =>
      { c with parent := some p.size }) q).nodes.size = q.nodes.size := by
    intro q
    clear hfold
    induction tops generalizing q with
    | nil => rfl
    | cons m tops ih =>
      rw [List.foldl_cons, ih]
      simp [Program.update]
  show (Array.push _ _)[n]? = _
  rw [Array.getElem?_push, hsize, hfold]
  rfl

theorem size_add {p : Program} {node : Node} {tops : List Handle} :
    (p.add node tops).1.size = p.size + 1 := by
  apply Nat.le_antisymm
  · apply Nat.le_of_not_lt
    intro h
    obtain ⟨x, hx⟩ := lt_size_iff.mp h
    have hne : ¬ p.size + 1 = p.size := by omega
    have hnone : p.nodes[p.size + 1]? = none := Array.getElem?_eq_none (Nat.le_succ _)
    rw [nodes_add, if_neg hne, hnone] at hx
    cases hx
  · exact lt_size_iff.mpr ⟨_, by rw [nodes_add, if_pos rfl]⟩

theorem keeps_add {p : Program} {node : Node} {tops : List Handle} :
    Keeps p (p.add node tops).1 := by
  intro n c hn
  have hlt : n < p.size := lt_size_iff.mpr ⟨c, hn⟩
  rw [nodes_add, if_neg (Nat.ne_of_lt hlt), hn, Option.map_some]
  split
  · exact ⟨some p.size, rfl⟩
  · exact ⟨c.parent, rfl⟩

theorem parentOf_add {p : Program} {node : Node} (hnode : node.parent = none)
    {tops : List Handle} {n : Nat} (htops : ∀ n : Nat, n ∈ tops → n < p.size) :
    (p.add node tops).1.parentOf n = if n ∈ tops then some p.size else p.parentOf n := by
  unfold parentOf
  rw [nodes_add]
  by_cases hn : n = p.size
  · have hnot : n ∉ tops := fun h => absurd (htops n h) (by omega)
    rw [if_pos hn, if_neg hnot, Array.getElem?_eq_none (Nat.le_of_eq hn.symm)]
    exact hnode
  · rw [if_neg hn]
    split
    · next hmem =>
      obtain ⟨c, hc⟩ := lt_size_iff.mp (htops n hmem)
      rw [hc]
      rfl
    · cases p.nodes[n]? <;> rfl

theorem childrenOf_add {p : Program} {node : Node} {tops : List Handle} {n : Nat} :
    (p.add node tops).1.childrenOf n = if n = p.size then tops else p.childrenOf n := by
  unfold childrenOf
  rw [nodes_add]
  split
  · rfl
  · cases p.nodes[n]? with
    | none => rfl
    | some c =>
      simp only [Option.map_some, Option.getD_some]
      split <;> rfl

section Adding

variable {p q : Program} {xs ys : List Handle} (h : Grown p q (xs ++ ys)) {node : Node}
include h

theorem Grown.new_left {n : Handle} (hn : n ∈ xs) :
    p.size ≤ n ∧ n < q.size ∧ q.parentOf n = none := h.new n (List.mem_append_left ys hn)

theorem Grown.parentOf_add (hparent : node.parent = none) {n : Nat} :
    (q.add node xs).1.parentOf n = if n ∈ xs then some q.size else q.parentOf n :=
  Program.parentOf_add hparent fun _ hn => (h.new_left hn).2.1

/-- The children of the new node are those that it was put above; no other node loses a child,
because a node that is put below the new one had no parent before. -/
theorem Grown.mem_children_add (hparent : node.parent = none) {n c : Nat} (hn : p.size ≤ n) :
    c ∈ (q.add node xs).1.childrenOf n ↔
      p.size ≤ c ∧ (q.add node xs).1.parentOf c = some n := by
  rw [childrenOf_add, h.parentOf_add hparent]
  by_cases hnq : n = q.size
  · rw [if_pos hnq]
    constructor
    · intro hc
      rw [if_pos hc, hnq]
      exact ⟨(h.new_left hc).1, rfl⟩
    · rintro ⟨hc, hparent'⟩
      split at hparent'
      · assumption
      · have := (h.younger hc hparent').2
        omega
  · rw [if_neg hnq, h.mem_children_iff hn]
    constructor
    · rintro ⟨hc, hparent'⟩
      have hnot : c ∉ xs := by
        intro hmem
        rw [(h.new_left hmem).2.2] at hparent'
        cases hparent'
      exact ⟨hc, by rw [if_neg hnot, hparent']⟩
    · rintro ⟨hc, hparent'⟩
      split at hparent'
      · exact absurd (Option.some.inj hparent').symm hnq
      · exact ⟨hc, hparent'⟩

/-- A node is put above some of the nodes that were handed on; the others are still there. -/
theorem Grown.add (node : Node) (hparent : node.parent = none) (htype : node.type = none) :
    Grown p (q.add node xs).1 ((q.add node xs).2 :: ys) where
  size_le := by
    rw [size_add]
    exact Nat.le_succ_of_le h.size_le
  old n hn := by
    have hsize := h.size_le
    have hne : ¬ n = q.size := by omega
    have hnot : n ∉ xs := fun hmem => absurd (h.new_left hmem).1 (by omega)
    rw [nodes_add, if_neg hne, ← h.old n hn]
    cases q.nodes[n]? <;> simp [hnot]
  new n hn := by
    have hsize := h.size_le
    rw [size_add, h.parentOf_add hparent]
    -- the node itself is handed on, and those that were before and are not below it
    rcases List.mem_cons.mp hn with rfl | hn
    · show p.size ≤ q.size ∧ q.size < q.size + 1 ∧
        (if q.size ∈ xs then some q.size else q.parentOf q.size) = none
      have hnot : q.size ∉ xs := fun hmem => absurd (h.new_left hmem).2.1 (Nat.lt_irrefl _)
      exact ⟨hsize, by omega, by rw [if_neg hnot, parentOf_of_size_le (Nat.le_refl _)]⟩
    · obtain ⟨hle, hlt, hnone⟩ := h.new n (List.mem_append_right xs hn)
      have hnot : n ∉ xs := fun hmem => (List.nodup_append.mp h.nodup).2.2 n hmem n hn rfl
      exact ⟨hle, by omega, by rw [if_neg hnot, hnone]⟩
  nodup := by
    have hnew : q.size ∉ ys := fun hmem =>
      absurd (h.new _ (List.mem_append_right xs hmem)).2.1 (Nat.lt_irrefl _)
    exact List.nodup_cons.mpr ⟨hnew, (List.nodup_append.mp h.nodup).2.1⟩
  mem_children_iff := h.mem_children_add hparent
  nodup_children n hn := by
    rw [childrenOf_add]
    split
    · exact (List.nodup_append.mp h.nodup).1
    · exact h.nodup_children n hn
  younger := by
    intro n c hc hparent'
    rw [size_add]
    rw [h.parentOf_add hparent] at hparent'
    -- what is put below the node is older than it
    split at hparent'
    · next hmem =>
      cases hparent'
      exact ⟨(h.new_left hmem).2.1, Nat.lt_succ_self _⟩
    · have := h.younger hc hparent'
      omega
  untyped n c hn hc := by
    rw [nodes_add] at hc
    split at hc
    · cases hc
      exact htype
    · obtain ⟨c', hc', rfl⟩ := Option.map_eq_some_iff.mp hc
      have := h.untyped n c' hn hc'
      split <;> exact this

end Adding

/-- The node that is put above others shows them below it. -/
theorem shows_add {q : Program} (kind : NodeKind) (text : String) (e : Extent) {xs : List Handle}
    {ss : List Sketch} (hss : List.Forall₂ q.Shows xs ss) :
    (q.add (.fresh kind text e.start e.stop e.line) xs).1.Shows
      (q.add (.fresh kind text e.start e.stop e.line) xs).2 (.fresh kind text e ss) := by
  rw [shows_iff]
  refine ⟨_, nodes_add.trans (if_pos rfl), rfl, rfl, rfl, rfl, ?_⟩
  exact hss.imp fun n s hs => hs.keeps keeps_add

end SuperForward.Program
