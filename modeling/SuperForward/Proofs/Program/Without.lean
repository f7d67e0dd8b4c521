/-
  Taking nodes out of a program.

  `without` says in one step what detaching some nodes one after the other comes to: they lose
  their parents, and their parents lose them. Everything else stays.
-/
import SuperForward.Proofs.Program.Editing
import SuperForward.Proofs.Program.Parsed
import SuperForward.Proofs.Program.Walk

namespace SuperForward.Program

/-- The program in which some nodes have been taken off their parents. -/
def without (p : Program) (removed : List Handle) : Program :=
  ⟨p.nodes.mapIdx fun n node => { node with
    parent := if n ∈ removed then none else node.parent
    children := node.children.filter (· ∉ removed) }⟩

section Fields

variable {p : Program} {removed : List Handle} {n : Handle}

theorem nodes_without : (p.without removed).nodes[n]? = (p.nodes[n]?).map fun node =>
    { node with
      parent := if n ∈ removed then none else node.parent
      children := node.children.filter (· ∉ removed) } := by
  unfold without
  rw [Array.getElem?_mapIdx]

theorem node_without (removed : List Handle) {node : Node} (h : p.nodes[n]? = some node) :
    (p.without removed).node n = .ok { node with
      parent := if n ∈ removed then none else node.parent
      children := node.children.filter (· ∉ removed) } := by
  rw [node_eq_ok_iff, nodes_without, h]
  rfl

@[simp] theorem size_without : (p.without removed).size = p.size := by
  simp [without, Program.size]

@[simp] theorem kindOf?_without : (p.without removed).kindOf? n = p.kindOf? n := by
  unfold kindOf?
  rw [nodes_without]
  cases p.nodes[n]? <;> rfl

@[simp] theorem textOf?_without : (p.without removed).textOf? n = p.textOf? n := by
  unfold textOf?
  rw [nodes_without]
  cases p.nodes[n]? <;> rfl

@[simp] theorem docOf?_without : (p.without removed).docOf? n = p.docOf? n := by
  unfold docOf?
  rw [nodes_without]
  cases p.nodes[n]? <;> rfl

theorem parentOf_without :
    (p.without removed).parentOf n = if n ∈ removed then none else p.parentOf n := by
  unfold parentOf
  rw [nodes_without]
  cases p.nodes[n]? with
  | none => simp
  | some node => rfl

theorem childrenOf_without :
    (p.without removed).childrenOf n = (p.childrenOf n).filter (· ∉ removed) := by
  unfold childrenOf
  rw [nodes_without]
  cases p.nodes[n]? <;> rfl

end Fields

@[simp] theorem without_nil (p : Program) : p.without [] = p := by
  apply ext_nodes
  intro n
  rw [nodes_without]
  cases p.nodes[n]? <;> simp

theorem without_without (p : Program) (as bs : List Handle) :
    (p.without as).without bs = p.without (as ++ bs) := by
  apply ext_nodes
  intro n
  rw [nodes_without, nodes_without, nodes_without]
  cases p.nodes[n]? with
  | none => rfl
  | some node =>
    simp only [Option.map_some, List.filter_filter, List.mem_append, Option.some.injEq,
      Node.mk.injEq, true_and, and_true]
    refine ⟨?_, ?_⟩
    · apply List.filter_congr
      intro c _
      by_cases ha : c ∈ as <;> by_cases hb : c ∈ bs <;> simp [ha, hb]
    · by_cases ha : n ∈ as <;> by_cases hb : n ∈ bs <;> simp [ha, hb]

/-- Links that are left agree in both directions. -/
theorem Forest.without {p : Program} (hp : Forest p) (removed : List Handle) :
    Forest (p.without removed) where
  mem_children_iff := by
    intro n c
    rw [childrenOf_without, parentOf_without, List.mem_filter, hp.mem_children_iff]
    by_cases hc : c ∈ removed <;> simp [hc]
  nodup_children n := by
    rw [childrenOf_without]
    exact (hp.nodup_children n).filter _
  ranked := by
    obtain ⟨rank, hle, hrank⟩ := hp.ranked
    refine ⟨rank, fun n => by rw [size_without]; exact hle n, ?_⟩
    intro n c hc
    rw [parentOf_without] at hc
    split at hc
    · cases hc
    · exact hrank hc

/-- What hangs below a node in what is left hung there before. -/
theorem Below.of_without {p : Program} {removed : List Handle} {n m : Handle}
    (h : (p.without removed).Below n m) : p.Below n m := by
  induction h with
  | here => exact .here
  | child _ link ih =>
    rw [parentOf_without] at link
    split at link
    · cases link
    · exact ih.child link

/-- A node stays below another one if nothing above it is taken out. -/
theorem Below.without {p : Program} {removed : List Handle} {n m : Handle} (h : p.Below n m)
    (hclear : ∀ d ∈ removed, ¬ p.Below d m) : (p.without removed).Below n m := by
  induction h with
  | here => exact .here
  | @child m c _ link ih =>
    refine .child (ih fun d hd hdm => hclear d hd (hdm.child link)) ?_
    rw [parentOf_without, if_neg (fun hc => hclear c hc .here)]
    exact link

/-- What hangs below a node that was taken out does not hang below the root any more. -/
theorem not_below_of_mem_removed {p : Program} (hroot : p.parentOf root = none)
    {removed : List Handle} {d m : Handle} (hd : d ∈ removed) (hne : d ≠ root)
    (hdm : p.Below d m) : ¬ (p.without removed).Below root m := by
  induction hdm with
  | here =>
    intro h
    cases h with
    | here => exact hne rfl
    | child _ link =>
      rw [parentOf_without, if_pos hd] at link
      cases link
  | @child m c _ link ih =>
    intro h
    cases h with
    | here =>
      rw [hroot] at link
      cases link
    | child above link' =>
      rw [parentOf_without] at link'
      split at link'
      · cases link'
      · rw [link] at link'
        cases link'
        exact ih above

/-! ## Questions that taking out leaves alone -/

/-- The nearest ancestor of some sort can be asked for, and the answer does not depend on what
is taken out elsewhere. -/
theorem Forest.enclosing_without {p : Program} (hp : Forest p) (removed : List Handle)
    {n : Handle} (hn : n < p.size) (hclear : ∀ d ∈ removed, ¬ p.Below d n)
    (kinds : List NodeKind) :
    ∃ above, p.enclosing n kinds = .ok above ∧ (∀ m ∈ above, m < p.size) ∧
      (p.without removed).enclosing n kinds = .ok above := by
  -- the way up is the same in both programs, node by node, as none of those on it is taken out
  have key : ∀ steps n, n < p.size → (∀ d ∈ removed, ¬ p.Below d n) →
      ∃ above, p.enclosingWithin kinds steps n = .ok above ∧ (∀ m ∈ above, m < p.size) ∧
        (p.without removed).enclosingWithin kinds steps n = .ok above := by
    intro steps
    induction steps with
    | zero => exact fun n _ _ => ⟨none, rfl, by simp, rfl⟩
    | succ steps ih =>
      intro n hn hclear
      have hkeep : n ∉ removed := fun hmem => hclear n hmem .here
      have hn' : n < (p.without removed).size := by rwa [size_without]
      unfold enclosingWithin
      rw [parent_of_lt hn, parent_of_lt hn', parentOf_without, if_neg hkeep]
      cases hparent : p.parentOf n with
      | none => exact ⟨none, rfl, by simp, rfl⟩
      | some above =>
        have habove : above < p.size := hp.parent_lt_size hparent
        have habove' : above < (p.without removed).size := by rwa [size_without]
        obtain ⟨k, hk, hkind⟩ := kind_of_lt habove
        obtain ⟨k', hk', hkind'⟩ := kind_of_lt habove'
        have hsame : k' = k := by
          rw [kindOf?_without, hkind] at hkind'
          exact (Option.some.inj hkind').symm
        subst hsame
        simp only [except_ok_bind, hk, hk']
        split
        · exact ⟨some above, rfl, by simpa using habove, rfl⟩
        · exact ih above habove fun d hd hbelow => hclear d hd (hbelow.child hparent)
  have hsize : (p.without removed).size = p.size := size_without
  unfold enclosing
  rw [hsize]
  exact key _ n hn hclear

/-! ## Detaching -/

/-- In a forest, writing both links of a node anew takes it out. -/
theorem Forest.setParent_unlist_eq {p : Program} (hp : Forest p) {n parent : Handle}
    (h : p.parentOf n = some parent) : (p.unlist parent n).setParent n none = p.without [n] := by
  apply ext_nodes
  intro m
  unfold setParent unlist
  rw [nodes_without, nodes_update, nodes_update]
  cases hx : p.nodes[m]? with
  | none => simp
  | some x =>
    -- only the parent lists the node, and only once
    have hchildren : x.children = p.childrenOf m := by simp [childrenOf, hx]
    have hfilter : x.children.filter (· ∉ [n])
        = if parent = m then x.children.erase n else x.children := by
      split
      · next hm =>
        rw [hchildren, (hp.nodup_children m).erase_eq_filter]
        apply List.filter_congr
        intro c _
        by_cases hc : c = n <;> simp [hc]
      · next hm =>
        rw [List.filter_eq_self]
        intro c hc
        have hne : c ≠ n := by
          rintro rfl
          rw [hchildren, hp.mem_children_iff, h] at hc
          exact hm (Option.some.inj hc)
        simpa using hne
    have hmem : m ∈ [n] ↔ n = m := by rw [List.mem_singleton, eq_comm]
    simp only [Option.map_some, hfilter, hmem]
    split <;> split <;> rfl

/-- Detaching a node takes it out. -/
theorem Forest.detach_eq {p : Program} (hp : Forest p) {n parent : Handle}
    (h : p.parentOf n = some parent) : (detach n).outcome p = (.ok (), p.without [n]) := by
  have hcases := detach_outcome p n
  generalize (detach n).outcome p = result at hcases
  cases hcases with
  | missing hn => exact absurd (lt_size_of_parentOf h) (Nat.not_lt.mpr hn)
  | loose _ hnone =>
    rw [h] at hnone
    cases hnone
  | nowhere h' hparent => exact absurd (hp.parent_lt_size h') (Nat.not_lt.mpr hparent)
  | unlisted h' _ hnot => exact absurd (hp.mem_children_iff.mpr h') hnot
  | done h' _ => rw [hp.setParent_unlist_eq h']

/-- What can be detached has a parent. -/
theorem exists_parent_of_detach {p q : Program} {n : Handle}
    (h : (detach n).outcome p = (.ok (), q)) : ∃ parent, p.parentOf n = some parent := by
  have hcases := detach_outcome p n
  rw [h] at hcases
  cases hcases with
  | done h' _ => exact ⟨_, h'⟩

/-- Detaching nodes one after the other takes them out. -/
theorem Forest.eq_without_of_detach {p q : Program} (hp : p.Forest) {detached : List Handle}
    (h : (detached.forM detach).outcome p = (.ok (), q)) : q = p.without detached := by
  induction detached generalizing p with
  | nil =>
    rw [without_nil]
    exact (congrArg Prod.snd h).symm
  | cons n rest ih =>
    obtain ⟨_, p', hn, hrest⟩ := Task.outcome_bind_eq_ok h
    obtain ⟨parent, hparent⟩ := exists_parent_of_detach hn
    rw [hp.detach_eq hparent] at hn
    cases hn
    rw [ih (hp.without [n]) hrest, without_without]
    rfl

end SuperForward.Program
