/-
  Attaching and detaching nodes.

  For both edits one lemma lists everything that they can come to, from any program at all: the
  links need not agree, and a handle may be past the end. Detaching looks everything up before
  it writes. Attaching writes the parent of the child before it looks the parent up; that is
  the only failure that is not without a trace.
-/
import SuperForward.Proofs.Outcome
import SuperForward.Proofs.Program.Forest

namespace SuperForward.Program

/-! ## Changing one node -/

section Update

variable {p : Program} {m n : Handle} {f : Node → Node}

theorem nodes_update :
    (p.update m f).nodes[n]? = if m = n then (p.nodes[n]?).map f else p.nodes[n]? := by
  unfold update
  rw [Array.getElem?_modify]

@[simp] theorem size_update : (p.update m f).size = p.size := by
  simp [Program.size, Program.update]

theorem childrenOf_update_of_eq (h : ∀ node, (f node).children = node.children) :
    (p.update m f).childrenOf n = p.childrenOf n := by
  unfold childrenOf
  rw [nodes_update]
  split
  · cases p.nodes[n]? with
    | none => rfl
    | some node => exact h node
  · rfl

end Update

/-! ## The writes -/

/-- The parent of a node is written, whether there is such a parent or not. -/
def setParent (p : Program) (n : Handle) (parent : Option Handle) : Program :=
  p.update n fun node => { node with parent }

/-- A node is listed last by another one. -/
def listLast (p : Program) (n child : Handle) : Program :=
  p.update n fun node => { node with children := node.children ++ [child] }

/-- A node is no longer listed by another one. -/
def unlist (p : Program) (n child : Handle) : Program :=
  p.update n fun node => { node with children := node.children.erase child }

section Writes

variable {p : Program} {m n c : Handle} {parent : Option Handle}

@[simp] theorem size_setParent : (p.setParent m parent).size = p.size := size_update

@[simp] theorem childrenOf_setParent : (p.setParent m parent).childrenOf n = p.childrenOf n :=
  childrenOf_update_of_eq fun _ => rfl

theorem parentOf_setParent (h : n < p.size) : (p.setParent n parent).parentOf n = parent := by
  obtain ⟨node, hnode⟩ := lt_size_iff.mp h
  unfold setParent parentOf
  rw [nodes_update, if_pos rfl, hnode]
  rfl

end Writes

/-! ## What the edits come to -/

/-- Everything that detaching a node can come to. -/
inductive Detaching (p : Program) (n : Handle) : Except Fault Unit × Program → Prop
  | missing (h : p.size ≤ n) : Detaching p n (.error .noSuchNode, p)
  | loose (hn : n < p.size) (h : p.parentOf n = none) :
      Detaching p n (.error (.notAttached n), p)
  | nowhere {parent : Handle} (h : p.parentOf n = some parent) (hparent : p.size ≤ parent) :
      Detaching p n (.error .noSuchNode, p)
  | unlisted {parent : Handle} (h : p.parentOf n = some parent) (hparent : parent < p.size)
      (hnot : n ∉ p.childrenOf parent) : Detaching p n (.error .notAmongChildren, p)
  | done {parent : Handle} (h : p.parentOf n = some parent) (hmem : n ∈ p.childrenOf parent) :
      Detaching p n (.ok (), (p.unlist parent n).setParent n none)

/-- Everything that attaching a node can come to. -/
inductive Appending (p : Program) (parent child : Handle) : Except Fault Unit × Program → Prop
  | missing (h : p.size ≤ child) : Appending p parent child (.error .noSuchNode, p)
  | taken {above : Handle} (h : p.parentOf child = some above) :
      Appending p parent child (.error (.hasParent child above), p)
  | nowhere (hchild : child < p.size) (h : p.parentOf child = none) (hparent : p.size ≤ parent) :
      Appending p parent child (.error .noSuchNode, p.setParent child (some parent))
  | done (hchild : child < p.size) (h : p.parentOf child = none) (hparent : parent < p.size) :
      Appending p parent child (.ok (), (p.setParent child (some parent)).listLast parent child)

theorem node_of_le {p : Program} {n : Handle} (h : p.size ≤ n) :
    p.node n = .error .noSuchNode := by
  unfold Program.node
  rw [Array.getElem?_eq_none h]

theorem detach_outcome (p : Program) (n : Handle) : p.Detaching n ((detach n).outcome p) := by
  unfold detach
  rw [Task.outcome_get_bind]
  rcases Nat.lt_or_ge n p.size with hn | hn
  · obtain ⟨node, hok, hnode⟩ := node_of_lt hn
    rw [Task.outcome_ofExcept_bind hok]
    have hparent : p.parentOf n = node.parent := by simp [parentOf, hnode]
    cases habove : node.parent with
    | none => exact .loose hn (hparent.trans habove)
    | some parent =>
      rw [habove] at hparent
      dsimp only
      rw [Task.outcome_get_bind]
      rcases Nat.lt_or_ge parent p.size with hlt | hge
      · obtain ⟨above, hok', habove'⟩ := node_of_lt hlt
        have hchildren : p.childrenOf parent = above.children := by simp [childrenOf, habove']
        rw [Task.outcome_ofExcept_bind hok']
        by_cases hmem : n ∈ above.children
        · rw [if_pos (List.contains_iff_mem.mpr hmem)]
          exact .done hparent (hchildren ▸ hmem)
        · rw [if_neg (fun h => hmem (List.contains_iff_mem.mp h))]
          exact .unlisted hparent hlt (hchildren ▸ hmem)
      · rw [node_of_le hge]
        exact .nowhere hparent hge
  · rw [node_of_le hn]
    exact .missing hn

theorem append_outcome (p : Program) (parent child : Handle) :
    p.Appending parent child ((append parent child).outcome p) := by
  unfold append
  rw [Task.outcome_get_bind]
  rcases Nat.lt_or_ge child p.size with hchild | hchild
  · obtain ⟨node, hok, hnode⟩ := node_of_lt hchild
    rw [Task.outcome_ofExcept_bind hok]
    have hparent : p.parentOf child = node.parent := by simp [parentOf, hnode]
    cases habove : node.parent with
    | some above => exact .taken (hparent.trans habove)
    | none =>
      rw [habove] at hparent
      dsimp only
      rw [Task.outcome_bind_ok (Task.outcome_modify _ _), Task.outcome_get_bind]
      -- the parent is looked up in the program in which the child already has it
      let q := p.setParent child (some parent)
      change p.Appending parent child (Task.outcome
        (Task.ofExcept (q.node parent) >>= fun _ => modify fun p => p.listLast parent child) q)
      rcases Nat.lt_or_ge parent p.size with hlt | hge
      · obtain ⟨above, hok', -⟩ := node_of_lt (p := q) (size_setParent.symm ▸ hlt)
        rw [Task.outcome_ofExcept_bind hok']
        exact .done hchild hparent hlt
      · have hfail : (Task.ofExcept (q.node parent)).outcome q = (.error .noSuchNode, q) := by
          rw [Task.outcome_ofExcept, node_of_le (p := q) (size_setParent.symm ▸ hge)]
        rw [Task.outcome_bind_error hfail]
        exact .nowhere hchild hparent hge
  · rw [node_of_le hchild]
    exact .missing hchild

/-! ## Failing edits -/

/-- An edit of the links. -/
inductive Edit where
  | append (parent child : Handle)
  | detach (n : Handle)
  deriving DecidableEq, Repr

namespace Edit

/-- Makes the edit. -/
def run : Edit → Task Program Unit
  | .append parent child => Program.append parent child
  | .detach n => Program.detach n

/-- A node that is there and has no parent would get one past the end. -/
def PastEnd (p : Program) : Edit → Prop
  | .append parent child => child < p.size ∧ p.parentOf child = none ∧ p.size ≤ parent
  | .detach _ => False

instance (p : Program) (e : Edit) : Decidable (e.PastEnd p) := by
  cases e <;> unfold PastEnd <;> infer_instance

end Edit

/-- Every node has the same parent and the same children in both programs. -/
def SameLinks (p q : Program) : Prop :=
  ∀ n, q.parentOf n = p.parentOf n ∧ q.childrenOf n = p.childrenOf n

theorem SameLinks.refl (p : Program) : SameLinks p p := fun _ => ⟨rfl, rfl⟩

/-- A failing edit leaves the program, or the parent past the end that it gave to a node. -/
theorem eq_or_setParent_of_failing (p : Program) (e : Edit) {fault : Fault}
    (h : (e.run.outcome p).1 = .error fault) :
    ¬ e.PastEnd p ∧ (e.run.outcome p).2 = p ∨
      ∃ parent child, e = .append parent child ∧ e.PastEnd p ∧
        (e.run.outcome p).2 = p.setParent child (some parent) := by
  cases e with
  | detach n =>
    have hcases : p.Detaching n ((Edit.detach n).run.outcome p) := detach_outcome p n
    generalize (Edit.detach n).run.outcome p = result at h hcases
    cases hcases with
    | missing | loose | nowhere | unlisted => exact .inl ⟨id, rfl⟩
    | done => cases h
  | append parent child =>
    have hcases : p.Appending parent child ((Edit.append parent child).run.outcome p) :=
      append_outcome p parent child
    generalize (Edit.append parent child).run.outcome p = result at h hcases
    cases hcases with
    | missing hchild => exact .inl ⟨fun hpast => absurd hpast.1 (Nat.not_lt.mpr hchild), rfl⟩
    | taken habove =>
      refine .inl ⟨fun hpast => ?_, rfl⟩
      rw [hpast.2.1] at habove
      cases habove
    | nowhere hchild hfree hparent =>
      exact .inr ⟨parent, child, rfl, ⟨hchild, hfree, hparent⟩, rfl⟩
    | done => cases h

/-- A failing edit leaves all links as they are exactly if it is not one that gives a node a
parent past the end. It never changes what a node lists. -/
theorem sameLinks_iff_of_failing (p : Program) (e : Edit) {fault : Fault}
    (h : (e.run.outcome p).1 = .error fault) :
    (SameLinks p (e.run.outcome p).2 ↔ ¬ e.PastEnd p) ∧
      ∀ n, (e.run.outcome p).2.childrenOf n = p.childrenOf n := by
  rcases eq_or_setParent_of_failing p e h with ⟨hnot, heq⟩ | ⟨parent, child, rfl, hpast, heq⟩
  · rw [heq]
    exact ⟨iff_of_true (SameLinks.refl p) hnot, fun _ => rfl⟩
  · rw [heq]
    refine ⟨iff_of_false (fun hsame => ?_) (not_not_intro hpast), fun _ => childrenOf_setParent⟩
    have hwritten := (hsame child).1
    rw [parentOf_setParent hpast.1, hpast.2.1] at hwritten
    cases hwritten

/-- A program with a name that hangs nowhere. -/
def looseName : Program := ((newNode (.fresh .name "x" 0 0 0) []).outcome empty).2

/-- Both edits of a node without a parent fail; only one of them leaves the links. -/
theorem sameLinks_iff_of_failing_looseName :
    ((Edit.append 99 1).run.outcome looseName).1 = .error .noSuchNode ∧
      (Edit.append 99 1).PastEnd looseName ∧
      ((SameLinks looseName ((Edit.append 99 1).run.outcome looseName).2 ↔
          ¬ (Edit.append 99 1).PastEnd looseName) ∧
        ∀ n, ((Edit.append 99 1).run.outcome looseName).2.childrenOf n
          = looseName.childrenOf n) ∧
    ((Edit.detach 1).run.outcome looseName).1 = .error (.notAttached 1) ∧
      ¬ (Edit.detach 1).PastEnd looseName ∧
      ((SameLinks looseName ((Edit.detach 1).run.outcome looseName).2 ↔
          ¬ (Edit.detach 1).PastEnd looseName) ∧
        ∀ n, ((Edit.detach 1).run.outcome looseName).2.childrenOf n
          = looseName.childrenOf n) :=
  have happend : ((Edit.append 99 1).run.outcome looseName).1 = .error .noSuchNode := by decide
  have hdetach : ((Edit.detach 1).run.outcome looseName).1 = .error (.notAttached 1) := by decide
  ⟨happend, by decide, sameLinks_iff_of_failing looseName _ happend,
    hdetach, by decide, sameLinks_iff_of_failing looseName _ hdetach⟩

/-- The node has the parent past the end although attaching it failed. -/
theorem parent_left_of_failing_append :
    ((append 99 1).outcome looseName).1 = .error .noSuchNode ∧
      looseName.parentOf 1 = none ∧ ((append 99 1).outcome looseName).2.parentOf 1 = some 99 := by
  decide

end SuperForward.Program
