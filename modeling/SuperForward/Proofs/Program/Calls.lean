/-
  Programs that are made by calls.

  A call makes a node or edits the links, and a run is any number of calls on nodes that exist,
  failing ones included. What a call that fails has done before it failed stays done: `after`
  is the program that is left. Every run keeps the links in agreement: a node lists another one
  once if it is its parent, and not at all otherwise. Nothing keeps a run from hanging a node
  below itself; where no node is its own ancestor, a program with agreeing links is a forest.
-/
import SuperForward.Proofs.Program.Editing
import SuperForward.Proofs.Program.Growth
import Mathlib.Data.Finset.Card

namespace SuperForward.Program

/-! ## The changes of links -/

/-- A node is added that is not linked to any other. -/
def withNode (p : Program) (node : Node) : Program := ⟨p.nodes.push node⟩

/-- A node gets a parent, which lists it last. -/
def adopt (p : Program) (parent child : Handle) : Program :=
  (p.setParent child (some parent)).listLast parent child

/-- A node loses its parent, which no longer lists it. -/
def release (p : Program) (parent n : Handle) : Program := (p.unlist parent n).setParent n none

section Links

variable {p : Program} {parent child m n : Handle} {node : Node}

theorem parentOf_update_of_eq {f : Node → Node} (h : ∀ node, (f node).parent = node.parent) :
    (p.update m f).parentOf n = p.parentOf n := by
  unfold parentOf
  rw [nodes_update]
  split
  · cases p.nodes[n]? with
    | none => rfl
    | some node => exact h node
  · rfl

theorem parentOf_update_parent {parent : Option Handle} (hm : m < p.size) :
    (p.setParent m parent).parentOf n = if n = m then parent else p.parentOf n := by
  split
  · next h =>
    subst h
    exact parentOf_setParent hm
  · next h =>
    unfold setParent parentOf
    rw [nodes_update, if_neg (Ne.symm h)]

theorem childrenOf_update_children {f : List Handle → List Handle} (hm : m < p.size) :
    (p.update m fun node => { node with children := f node.children }).childrenOf n
      = if n = m then f (p.childrenOf n) else p.childrenOf n := by
  unfold childrenOf
  rw [nodes_update]
  split
  · next h =>
    subst h
    obtain ⟨node, hnode⟩ := lt_size_iff.mp hm
    rw [if_pos rfl, hnode]
    rfl
  · next h => rw [if_neg (Ne.symm h)]

theorem size_withNode : (p.withNode node).size = p.size + 1 := by
  simp [withNode, Program.size]

@[simp] theorem size_adopt : (p.adopt parent child).size = p.size := by
  simp [adopt, listLast]

@[simp] theorem size_release : (p.release parent n).size = p.size := by
  simp [release, unlist]

theorem nodes_withNode :
    (p.withNode node).nodes[n]? = if n = p.size then some node else p.nodes[n]? := by
  unfold withNode
  rw [Array.getElem?_push]
  rfl

theorem parentOf_withNode (h : node.parent = none) :
    (p.withNode node).parentOf n = p.parentOf n := by
  unfold parentOf
  rw [nodes_withNode]
  split
  · next hn => rw [Array.getElem?_eq_none (Nat.le_of_eq hn.symm), Option.bind_some, h]; rfl
  · rfl

theorem childrenOf_withNode (h : node.children = []) :
    (p.withNode node).childrenOf n = p.childrenOf n := by
  unfold childrenOf
  rw [nodes_withNode]
  split
  · next hn => rw [Array.getElem?_eq_none (Nat.le_of_eq hn.symm), Option.map_some, h]; rfl
  · rfl

theorem parentOf_adopt (hchild : child < p.size) :
    (p.adopt parent child).parentOf n = if n = child then some parent else p.parentOf n := by
  unfold adopt
  rw [show ((p.setParent child (some parent)).listLast parent child).parentOf n
      = (p.setParent child (some parent)).parentOf n from parentOf_update_of_eq fun _ => rfl]
  exact parentOf_update_parent hchild

theorem childrenOf_adopt (hparent : parent < p.size) :
    (p.adopt parent child).childrenOf n
      = if n = parent then p.childrenOf n ++ [child] else p.childrenOf n := by
  have hsize : parent < (p.setParent child (some parent)).size := by rwa [size_setParent]
  have hlist := childrenOf_update_children (n := n) (f := (· ++ [child])) hsize
  rw [childrenOf_setParent] at hlist
  exact hlist

theorem parentOf_release (hn : n < p.size) :
    (p.release parent n).parentOf m = if m = n then none else p.parentOf m := by
  unfold release
  rw [parentOf_update_parent (by simpa [unlist] using hn),
    show (p.unlist parent n).parentOf m = p.parentOf m from parentOf_update_of_eq fun _ => rfl]

theorem childrenOf_release (hparent : parent < p.size) :
    (p.release parent n).childrenOf m
      = if m = parent then (p.childrenOf m).erase n else p.childrenOf m := by
  unfold release
  rw [childrenOf_setParent]
  exact childrenOf_update_children (f := (·.erase n)) hparent

end Links

/-! ## Links in agreement -/

/-- A node lists another one once if it is its parent, and not at all otherwise. -/
def Linked (p : Program) : Prop :=
  ∀ n c, (p.childrenOf n).count c = if p.parentOf c = some n then 1 else 0

namespace Linked

variable {p : Program} (hp : p.Linked) {parent child n c : Handle}
include hp

theorem mem_children_iff : c ∈ p.childrenOf n ↔ p.parentOf c = some n := by
  rw [← List.count_pos_iff, hp n c]
  split <;> simp_all

theorem nodup_children (n : Handle) : (p.childrenOf n).Nodup := by
  rw [List.nodup_iff_count_le_one]
  intro c
  rw [hp n c]
  split <;> omega

theorem parent_lt_size (h : p.parentOf c = some n) : n < p.size :=
  lt_size_of_mem_children (hp.mem_children_iff.mpr h)

theorem withNode {node : Node} (hparent : node.parent = none) (hchildren : node.children = []) :
    (p.withNode node).Linked := by
  intro n c
  rw [childrenOf_withNode hchildren, parentOf_withNode hparent]
  exact hp n c

theorem adopt (hparent : parent < p.size) (hchild : child < p.size)
    (hfree : p.parentOf child = none) : (p.adopt parent child).Linked := by
  intro n c
  have hold := hp n c
  rw [childrenOf_adopt hparent, parentOf_adopt hchild]
  by_cases hc : c = child
  · -- no node lists the child so far
    subst hc
    rw [hfree] at hold
    by_cases hn : n = parent
    · simp_all
    · simp_all [Ne.symm hn]
  · by_cases hn : n = parent
    · simp_all [Ne.symm hc]
    · simp_all

theorem release (h : p.parentOf n = some parent) : (p.release parent n).Linked := by
  intro m c
  have hold := hp m c
  rw [childrenOf_release (hp.parent_lt_size h), parentOf_release (lt_size_of_parentOf h)]
  by_cases hm : m = parent
  · subst hm
    rw [if_pos rfl, List.count_erase]
    by_cases hc : c = n
    · subst hc
      simp_all
    · simp_all [Ne.symm hc]
  · rw [if_neg hm]
    by_cases hc : c = n
    · subst hc
      simp_all [Ne.symm hm]
    · simp_all

end Linked

/-! ## Calls -/

/-- A call that makes a node, with the nodes that it is to adopt, or one that edits the links. -/
inductive Call where
  | newNode (kind : NodeKind) (text : String) (start stop line : Nat) (children : List Handle)
  | edit (e : Edit)
  deriving DecidableEq, Repr

namespace Call

/-- Makes the call. -/
def run : Call → Task Program Unit
  | .newNode kind text start stop line children => do
    let _ ← Program.newNode (.fresh kind text start stop line) children
  | .edit e => e.run

/-- The program that a call leaves, whether it fails or not. -/
def after (p : Program) (call : Call) : Program := (call.run.outcome p).2

/-- All nodes that a call names exist. -/
def OnExisting (p : Program) : Call → Prop
  | .newNode _ _ _ _ _ children => ∀ c ∈ children, c < p.size
  | .edit (.append parent child) => parent < p.size ∧ child < p.size
  | .edit (.detach n) => n < p.size

instance (p : Program) (call : Call) : Decidable (call.OnExisting p) := by
  rcases call with _ | (_ | _) <;> unfold OnExisting <;> infer_instance

end Call

/-- The program that calls leave, one after the other. -/
def afterAll (p : Program) (calls : List Call) : Program := calls.foldl Call.after p

/-- Every call names nodes that exist when it is made. -/
def AllOnExisting : Program → List Call → Prop
  | _, [] => True
  | p, call :: calls => call.OnExisting p ∧ AllOnExisting (call.after p) calls

instance decidableAllOnExisting : (p : Program) → (calls : List Call) →
    Decidable (AllOnExisting p calls)
  | _, [] => .isTrue trivial
  | p, call :: calls =>
    have := decidableAllOnExisting (call.after p) calls
    inferInstanceAs (Decidable (call.OnExisting p ∧ AllOnExisting (call.after p) calls))

/-! ## What a call does -/

section Outcomes

variable {p : Program}

/-- Among nodes that exist, a node that has a parent is refused, and any other is adopted. -/
theorem outcome_append {parent child : Handle} (hparent : parent < p.size)
    (hchild : child < p.size) :
    (∃ above, p.parentOf child = some above ∧
        (append parent child).outcome p = (.error (.hasParent child above), p)) ∨
      p.parentOf child = none ∧
        (append parent child).outcome p = (.ok (), p.adopt parent child) := by
  have hcases := append_outcome p parent child
  generalize (append parent child).outcome p = result at hcases
  cases hcases with
  | missing h => exact absurd hchild (Nat.not_lt.mpr h)
  | taken h => exact .inl ⟨_, h, rfl⟩
  | nowhere _ _ h => exact absurd hparent (Nat.not_lt.mpr h)
  | done _ h _ => exact .inr ⟨h, rfl⟩

/-- Where the links agree, a node without a parent is refused, and any other is released. -/
theorem Linked.outcome_detach (hp : p.Linked) {n : Handle} (hn : n < p.size) :
    (p.parentOf n = none ∧ (detach n).outcome p = (.error (.notAttached n), p)) ∨
      ∃ parent, p.parentOf n = some parent ∧
        (detach n).outcome p = (.ok (), p.release parent n) := by
  have hcases := detach_outcome p n
  generalize (detach n).outcome p = result at hcases
  cases hcases with
  | missing h => exact absurd hn (Nat.not_lt.mpr h)
  | loose _ h => exact .inl ⟨h, rfl⟩
  | nowhere h hle => exact absurd (hp.parent_lt_size h) (Nat.not_lt.mpr hle)
  | unlisted h _ hnot => exact absurd (hp.mem_children_iff.mpr h) hnot
  | done h _ => exact .inr ⟨_, h, rfl⟩

/-- What holds once a node is made, and is kept when it adopts one of the given nodes, holds of
the program that is left; the adoptions stop at the first node that has a parent. The new node
itself has no parent all the while. -/
theorem newNode_invariant {kind : NodeKind} {text : String} {start stop line : Nat}
    {children : List Handle} (hchildren : ∀ c ∈ children, c < p.size) {I : Program → Prop}
    (hmade : I (p.withNode (.fresh kind text start stop line)))
    (hadopt : ∀ (q : Program) (c : Handle), c < p.size → p.size < q.size →
      q.parentOf p.size = none → q.parentOf c = none → I q → I (q.adopt p.size c)) :
    I (Call.after p (.newNode kind text start stop line children)) := by
  let made : Program := p.withNode (.fresh kind text start stop line)
  have hfree : made.parentOf p.size = none := by
    rw [parentOf_withNode rfl, parentOf_of_size_le (Nat.le_refl _)]
  -- while nodes are adopted, the new node stays in the program and stays loose
  have loop : ∀ (cs : List Handle) (q : Program), (∀ c ∈ cs, c < p.size) → p.size < q.size →
      q.parentOf p.size = none → I q →
      I ((for c in cs do append p.size c : Task Program Unit).outcome q).2 := by
    intro cs
    induction cs with
    | nil => exact fun q _ _ _ hq => hq
    | cons c cs ih =>
      intro q hcs hsize hnone hq
      obtain ⟨hc, hrest⟩ := List.forall_mem_cons.mp hcs
      rcases outcome_append hsize (hc.trans hsize) with ⟨above, -, hout⟩ | ⟨hparent, hout⟩
      · rw [Task.outcome_forIn_error hout]
        exact hq
      · rw [Task.outcome_forIn_cons hout]
        apply ih
        · exact hrest
        · rwa [size_adopt]
        · rw [parentOf_adopt (hc.trans hsize), if_neg (Nat.ne_of_gt hc)]
          exact hnone
        · exact hadopt q c hc hsize hnone hparent hq
  have hleft := loop children made hchildren (by rw [size_withNode]; omega) hfree hmade
  -- handing the new node on changes nothing
  have hafter : Call.after p (.newNode kind text start stop line children)
      = ((for c in children do append p.size c : Task Program Unit).outcome made).2 := by
    unfold Call.after Call.run newNode
    rw [Task.snd_outcome_bind fun _ _ => rfl, Task.outcome_get_bind,
      Task.outcome_bind_ok (Task.outcome_modify _ p), Task.snd_outcome_bind fun _ _ => rfl,
      Task.snd_outcome_bind fun _ _ => rfl]
    rfl
  rw [hafter]
  exact hleft

end Outcomes

/-! ## Runs -/

section Steps

variable {p : Program} (hp : p.Linked) {call : Call} (hcall : call.OnExisting p)
include hp hcall

/-- Everything that a call can do to a program whose links agree: nothing; a node is made, and
adopts some nodes; a node without a parent gets one; or a node loses its parent. -/
theorem Linked.after_invariant {I : Program → Prop} (hsame : I p)
    (hmade : ∀ node : Node, node.parent = none → node.children = [] → I (p.withNode node))
    (hfilled : ∀ (q : Program) (c : Handle), c < p.size → p.size < q.size →
      q.parentOf p.size = none → q.parentOf c = none → I q → I (q.adopt p.size c))
    (hadopted : ∀ parent child, call = .edit (.append parent child) → parent < p.size →
      child < p.size → p.parentOf child = none → I (p.adopt parent child))
    (hreleased : ∀ parent n, p.parentOf n = some parent → I (p.release parent n)) :
    I (call.after p) := by
  cases call with
  | newNode kind text start stop line children =>
    exact newNode_invariant hcall (hmade _ rfl rfl) hfilled
  | edit e =>
    cases e with
    | append parent child =>
      obtain ⟨hparent, hchild⟩ := hcall
      show I ((append parent child).outcome p).2
      rcases outcome_append hparent hchild with ⟨above, -, hout⟩ | ⟨hfree, hout⟩
      · rw [hout]
        exact hsame
      · rw [hout]
        exact hadopted parent child rfl hparent hchild hfree
    | detach n =>
      show I ((detach n).outcome p).2
      rcases hp.outcome_detach hcall with ⟨-, hout⟩ | ⟨parent, hparent, hout⟩
      · rw [hout]
        exact hsame
      · rw [hout]
        exact hreleased parent n hparent

/-- A call on nodes that exist keeps the links in agreement. -/
theorem Linked.after : (call.after p).Linked := by
  apply hp.after_invariant hcall (I := Linked) hp
  · exact fun node => hp.withNode
  · intro q c hc hsize _ hfree hq
    exact hq.adopt hsize (hc.trans hsize) hfree
  · exact fun parent child _ hparent hchild hfree => hp.adopt hparent hchild hfree
  · exact fun parent n => hp.release

/-- No call takes a node out of the program. -/
theorem Linked.size_le_after : p.size ≤ (call.after p).size := by
  apply hp.after_invariant hcall (I := fun q => p.size ≤ q.size) (Nat.le_refl _)
  · intro node _ _
    rw [size_withNode]
    exact Nat.le_succ _
  · intro q c _ _ _ _ hq
    rwa [size_adopt]
  · intro parent child _ _ _ _
    rw [size_adopt]
  · intro parent n _
    rw [size_release]

end Steps

/-- A run of calls on nodes that exist keeps the links in agreement, and all nodes. -/
theorem Linked.afterAll {p : Program} (hp : p.Linked) {calls : List Call}
    (hcalls : AllOnExisting p calls) :
    (p.afterAll calls).Linked ∧ p.size ≤ (p.afterAll calls).size := by
  induction calls generalizing p with
  | nil => exact ⟨hp, Nat.le_refl _⟩
  | cons call calls ih =>
    obtain ⟨hlinked, hsize⟩ := ih (hp.after hcalls.1) hcalls.2
    exact ⟨hlinked, (hp.size_le_after hcalls.1).trans hsize⟩

theorem linked_empty : empty.Linked := by
  intro n c
  match n, c with
  | 0, 0 | 0, _ + 1 | _ + 1, 0 | _ + 1, _ + 1 => simp [childrenOf, parentOf, empty, Node.fresh]

/-! ## Circles -/

/-- A node is an ancestor of another one: its parent, or an ancestor of its parent. -/
def Ancestor (p : Program) (a n : Handle) : Prop :=
  ∃ parent, p.parentOf n = some parent ∧ p.Below a parent

/-- No node is its own ancestor. -/
def Acyclic (p : Program) : Prop := ∀ n, ¬ p.Ancestor n n

/-- No node is its own ancestor if some rank grows from every node to its parent. -/
theorem acyclic_of_rank {p : Program} (rank : Handle → Nat)
    (h : ∀ c n, p.parentOf c = some n → rank c < rank n) : p.Acyclic := by
  have rank_le : ∀ {a n : Handle}, p.Below a n → rank n ≤ rank a := by
    intro a n hbelow
    induction hbelow with
    | here => exact Nat.le_refl _
    | child _ link ih => exact (Nat.le_of_lt (h _ _ link)).trans ih
  rintro n ⟨parent, hlink, hbelow⟩
  have hlt := h n parent hlink
  have hle := rank_le hbelow
  omega

open Classical in
/-- Where the links agree and no node is its own ancestor, the number of nodes below a node is
a rank: a parent is below itself, and not below its child. -/
theorem Linked.forest {p : Program} (hp : p.Linked) (hacyclic : p.Acyclic) : p.Forest where
  mem_children_iff := hp.mem_children_iff
  nodup_children := hp.nodup_children
  ranked := by
    let below (n : Handle) : Finset Handle := (Finset.range p.size).filter fun m => p.Below n m
    refine ⟨fun n => (below n).card, fun n => ?_, fun {n c} hlink => ?_⟩
    · calc (below n).card ≤ (Finset.range p.size).card := Finset.card_filter_le _ _
        _ = p.size := Finset.card_range p.size
    · have hsub : below c ⊆ below n := by
        intro m hm
        obtain ⟨hlt, hcm⟩ := Finset.mem_filter.mp hm
        exact Finset.mem_filter.mpr ⟨hlt, (Below.here.child hlink).trans hcm⟩
      have hn : n ∈ below n :=
        Finset.mem_filter.mpr ⟨Finset.mem_range.mpr (hp.parent_lt_size hlink), .here⟩
      have hnot : n ∉ below c := fun hmem =>
        hacyclic c ⟨n, hlink, (Finset.mem_filter.mp hmem).2⟩
      exact Finset.card_lt_card ((Finset.ssubset_iff_of_subset hsub).mpr ⟨n, hn, hnot⟩)

/-- Whether a handle is below the root is asked of the nodes below the root, and of no others. -/
theorem Forest.isAttached_iff {p : Program} (hp : p.Forest) (hsize : root < p.size) (n : Handle) :
    p.isAttached n = .ok true ↔ p.Below root n := by
  rcases Nat.lt_or_ge n p.size with hn | hn
  · obtain ⟨b, hb, hiff⟩ := hp.isAttached_eq hn
    rw [hb, ← hiff, Except.ok.injEq]
  · refine iff_of_false (fun h => ?_) (fun h => Nat.not_lt.mpr hn (h.lt_size hsize))
    have hroot : n ≠ root := (Nat.lt_of_lt_of_le hsize hn).ne'
    simp [isAttached, reachesRoot, hroot, Program.parent, node_of_le hn, bind, Except.bind] at h

/-- After every run of calls on nodes that exist, failing ones included, a node lists another
one once if it is its parent and not at all otherwise. If no node is its own ancestor, the walk
down from the root meets no node twice, and it meets those nodes from which the walk up comes to
the root. -/
theorem links_agree_of_calls (calls : List Call) (hcalls : AllOnExisting empty calls) :
    (∀ n c, ((empty.afterAll calls).childrenOf n).count c
        = if (empty.afterAll calls).parentOf c = some n then 1 else 0) ∧
      ((empty.afterAll calls).Acyclic → ∃ met, (empty.afterAll calls).subtree root = .ok met ∧
        met.Nodup ∧ (∀ n < (empty.afterAll calls).size,
          ∃ b, (empty.afterAll calls).isAttached n = .ok b) ∧
        ∀ n, n ∈ met ↔ (empty.afterAll calls).isAttached n = .ok true) := by
  obtain ⟨hlinked, hsize⟩ := linked_empty.afterAll hcalls
  refine ⟨hlinked, fun hacyclic => ?_⟩
  have hp := hlinked.forest hacyclic
  have hroot : root < (empty.afterAll calls).size := hsize
  refine ⟨_, hp.subtree_eq hroot, ?_, fun n hn => ?_, fun n => ?_⟩
  · exact (hp.preOrder_perm root).nodup_iff.mpr (hp.nodup_postOrder root)
  · obtain ⟨b, hb, -⟩ := hp.isAttached_eq hn
    exact ⟨b, hb⟩
  · rw [hp.mem_preOrder_iff, hp.isAttached_iff hroot]

/-- Two names. A block that is to adopt the first one twice, and a script that is to adopt both,
are made although this fails. The script is put below the root, the first name taken off the
block, and the block put below the script. -/
def callsWithFailures : List Call := [
  .newNode .name "a" 0 1 1 [], .newNode .name "b" 1 2 1 [],
  .newNode .block "" 0 1 1 [1, 1, 2], .newNode .script "a.js" 0 2 1 [2, 1],
  .edit (.append 0 4), .edit (.detach 1), .edit (.append 4 3)]

/-- Both nodes keep what they had adopted before the failure, and only the first name is not
in the program in the end. -/
theorem links_agree_of_callsWithFailures :
    ((callsWithFailures[2].run).outcome (empty.afterAll (callsWithFailures.take 2))).1
        = .error (.hasParent 1 3) ∧
      ((callsWithFailures[3].run).outcome (empty.afterAll (callsWithFailures.take 3))).1
        = .error (.hasParent 1 3) ∧
      AllOnExisting empty callsWithFailures ∧
      ((∀ n c, ((empty.afterAll callsWithFailures).childrenOf n).count c
          = if (empty.afterAll callsWithFailures).parentOf c = some n then 1 else 0) ∧
        ∃ met, (empty.afterAll callsWithFailures).subtree root = .ok met ∧ met.Nodup ∧
          (∀ n < (empty.afterAll callsWithFailures).size,
            ∃ b, (empty.afterAll callsWithFailures).isAttached n = .ok b) ∧
          ∀ n, n ∈ met ↔ (empty.afterAll callsWithFailures).isAttached n = .ok true) ∧
      (empty.afterAll callsWithFailures).subtree root = .ok [0, 4, 2, 3] := by
  have hcalls : AllOnExisting empty callsWithFailures := by decide
  have hacyclic : (empty.afterAll callsWithFailures).Acyclic := by
    apply acyclic_of_rank fun n => if n = 0 then 2 else if n = 4 then 1 else 0
    intro c n hlink
    have hc : c < 5 := lt_size_of_parentOf hlink
    have hlinks : ∀ c < 5, ∀ n ∈ (empty.afterAll callsWithFailures).parentOf c,
        (if c = 0 then 2 else if c = 4 then 1 else 0)
          < (if n = 0 then 2 else if n = 4 then 1 else 0) := by decide
    exact hlinks c hc n hlink
  obtain ⟨hlinks, hmet⟩ := links_agree_of_calls callsWithFailures hcalls
  exact ⟨by decide, by decide, hcalls, ⟨hlinks, hmet hacyclic⟩, by decide⟩

end SuperForward.Program
