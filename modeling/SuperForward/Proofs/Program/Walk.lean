/-
  Walks as folds.

  A visitor that cannot fail and leaves the program as it is turns `traverse` into a fold over
  the nodes below the start, children before parents.
-/
import SuperForward.Program.Traversal
import SuperForward.Proofs.Outcome
import SuperForward.Proofs.Program.Forest
import Mathlib.Algebra.GroupWithZero.Nat

namespace SuperForward

namespace Program

variable {σ : Type}

/-- How many steps it takes to be done with one step and what it leads to. -/
def Step.cost (p : Program) : Step → Nat
  | .reach n => 2 * (p.postOrder n).length
  | .visit _ => 1

/-- The nodes that are visited until one step and what it leads to are done. -/
def Step.visits (p : Program) : Step → List Handle
  | .reach n => p.postOrder n
  | .visit n => [n]

/-- The node of a step. -/
def Step.handle : Step → Handle
  | .reach n => n
  | .visit n => n

section Turns

variable {program : σ → Program} {visitor : Handle → Option Handle → Task σ Unit} {n : Handle}
  {s : σ}

/-- A visit comes before the steps that are left. -/
theorem outcome_walk_visit {parent : Option Handle} (h : (program s).parent n = .ok parent)
    (bound : Nat) (rest : List Step) :
    (walk program visitor (bound + 1) (.visit n :: rest)).outcome s
      = (visitor n parent >>= fun _ => walk program visitor bound rest).outcome s := by
  simp only [walk, Task.outcome_get_bind, h]
  rw [Task.outcome_bind_ok (Task.outcome_ofExcept _ _)]

/-- The children that a node has when it is reached come before its visit. -/
theorem outcome_walk_reach {children : List Handle} (h : (program s).children n = .ok children)
    (bound : Nat) (rest : List Step) :
    (walk program visitor (bound + 1) (.reach n :: rest)).outcome s
      = (walk program visitor bound (children.map Step.reach ++ .visit n :: rest)).outcome s := by
  simp only [walk, Task.outcome_get_bind, h]
  rw [Task.outcome_bind_ok (Task.outcome_ofExcept _ _)]

end Turns

namespace Forest

variable {p : Program} (hp : Forest p)
include hp

/-- Reaching a node stands for reaching its children and visiting it. -/
theorem visits_children (n : Handle) (rest : List Step) :
    ((p.childrenOf n).map Step.reach ++ .visit n :: rest).flatMap (Step.visits p)
      = (Step.reach n :: rest).flatMap (Step.visits p) := by
  simp only [List.flatMap_append, List.flatMap_cons, Step.visits, hp.postOrder_eq n,
    List.flatMap_map, List.append_assoc]

/-- Reaching a node takes one step more than what it leads to. -/
theorem cost_children (n : Handle) (rest : List Step) :
    (((p.childrenOf n).map Step.reach ++ .visit n :: rest).map (Step.cost p)).sum + 1
      = ((Step.reach n :: rest).map (Step.cost p)).sum := by
  have hsum : ∀ cs : List Handle, ((cs.map Step.reach).map (Step.cost p)).sum
      = 2 * (cs.flatMap p.postOrder).length := by
    intro cs
    induction cs with
    | nil => rfl
    | cons c cs ih =>
      simp only [List.map_cons, List.sum_cons, Step.cost, List.flatMap_cons,
        List.length_append, ih]
      omega
  simp only [List.map_append, List.sum_append, hsum, List.map_cons, List.sum_cons,
    Step.cost, hp.postOrder_eq n, List.length_append, List.length_singleton]
  omega

/-- Every step costs something. -/
theorem cost_pos (step : Step) : 0 < Step.cost p step := by
  cases step with
  | visit n => exact Nat.one_pos
  | reach n =>
    rw [Step.cost, hp.postOrder_eq, List.length_append, List.length_singleton]
    omega

end Forest

/-- A walk visits the nodes that its steps stand for, if the visitor leaves the program. `S`
holds of the nodes that the walk comes to. -/
theorem Forest.walk_eq {p : Program} (hp : Forest p) {program : σ → Program}
    {visitor : Handle → Option Handle → Task σ Unit} {Inv : σ → Prop} {f : σ → Handle → σ}
    {S : Handle → Prop} (hlt : ∀ n, S n → n < p.size)
    (hclosed : ∀ n, S n → ∀ c ∈ p.childrenOf n, S c) (hprogram : ∀ s, Inv s → program s = p)
    (hvisit : ∀ s n, Inv s → S n →
      (visitor n (p.parentOf n)).outcome s = (.ok (), f s n) ∧ Inv (f s n))
    (bound : Nat) (steps : List Step) (s : σ) (hs : Inv s)
    (hsteps : ∀ step ∈ steps, S step.handle)
    (hbound : (steps.map (Step.cost p)).sum ≤ bound) :
    (walk program visitor bound steps).outcome s
      = (.ok (), (steps.flatMap (Step.visits p)).foldl f s) ∧
    Inv ((steps.flatMap (Step.visits p)).foldl f s) := by
  -- each turn of the walk replaces its first step by cheaper ones that stand for the same nodes
  induction bound generalizing steps s with
  | zero =>
    cases steps with
    | nil => exact ⟨rfl, hs⟩
    | cons step rest =>
      have hpos := hp.cost_pos step
      rw [List.map_cons, List.sum_cons] at hbound
      omega
  | succ bound ih =>
    cases steps with
    | nil => exact ⟨rfl, hs⟩
    | cons step rest =>
      have hrest : ∀ step ∈ rest, S step.handle :=
        fun step h => hsteps step (List.mem_cons_of_mem _ h)
      rw [List.map_cons, List.sum_cons] at hbound
      cases step with
      | visit n =>
        have hn : S n := hsteps (.visit n) (List.mem_cons_self ..)
        obtain ⟨hvis, hinv⟩ := hvisit s n hs hn
        have hparent : (program s).parent n = .ok (p.parentOf n) := by
          rw [hprogram s hs, parent_of_lt (hlt n hn)]
        rw [outcome_walk_visit hparent, Task.outcome_bind_ok hvis, List.flatMap_cons, Step.visits]
        exact ih rest (f s n) hinv hrest (by simp [Step.cost] at hbound; omega)
      | reach n =>
        have hn : S n := hsteps (.reach n) (List.mem_cons_self ..)
        have hchildren : (program s).children n = .ok (p.childrenOf n) := by
          rw [hprogram s hs, children_of_lt (hlt n hn)]
        have hcost := hp.cost_children n rest
        rw [List.map_cons, List.sum_cons] at hcost
        rw [outcome_walk_reach hchildren, ← hp.visits_children]
        refine ih _ s hs ?_ (by omega)
        intro step hstep
        rw [List.mem_append, List.mem_cons, List.mem_map] at hstep
        rcases hstep with ⟨c, hc, rfl⟩ | rfl | hstep
        · exact hclosed n hn c hc
        · exact hn
        · exact hrest step hstep

/-- A traversal with a visitor that leaves the program visits the nodes below its start. -/
theorem Forest.traverse_eq {p : Program} (hp : Forest p) (program : σ → Program)
    {visitor : Handle → Option Handle → Task σ Unit} {I : σ → Prop} (f : σ → Handle → σ)
    (hprogram : ∀ s, I s → program s = p) {start : Handle} (hstart : start < p.size)
    (hvisit : ∀ s n, I s → p.Below start n →
      (visitor n (p.parentOf n)).outcome s = (.ok (), f s n) ∧ I (f s n))
    (s : σ) (hs : I s) :
    (traverse program visitor start).outcome s = (.ok (), (p.postOrder start).foldl f s) ∧
    I ((p.postOrder start).foldl f s) := by
  have h := hp.walk_eq (S := p.Below start) (fun n hn => hn.lt_size hstart)
    (fun n hn c hc => hn.child (hp.mem_children_iff.mp hc)) hprogram hvisit
    (2 * (program s).size + 1) [.reach start] s hs
    (by
      intro step hstep
      rw [List.mem_singleton] at hstep
      subst hstep
      exact .here)
    (by
      have hle := hp.length_postOrder_le hstart
      simp only [List.map_cons, List.map_nil, List.sum_cons, List.sum_nil, Step.cost,
        hprogram s hs]
      omega)
  simpa [traverse, Step.visits] using h

/-! ## What no visitor changes -/

section Leaves

variable {γ : Type} {view : σ → γ} (program : σ → Program)
  {visitor : Handle → Option Handle → Task σ Unit}

theorem leaves_walk (h : ∀ n parent, Task.Leaves view (visitor n parent)) (bound : Nat)
    (steps : List Step) : Task.Leaves view (walk program visitor bound steps) := by
  induction bound generalizing steps with
  | zero => exact Task.leaves_pure ()
  | succ bound ih =>
    cases steps with
    | nil => exact Task.leaves_pure ()
    | cons step rest =>
      cases step with
      | visit n =>
        exact .get_bind fun s => .bind (Task.leaves_ofExcept _) fun parent =>
          .bind (h n parent) fun _ => ih rest
      | reach n =>
        exact .get_bind fun s => .bind (Task.leaves_ofExcept _) fun children => ih _

/-- What the visits leave as it is, the traversal leaves as it is. -/
theorem leaves_traverse (h : ∀ n parent, Task.Leaves view (visitor n parent)) (start : Handle) :
    Task.Leaves view (traverse program visitor start) :=
  .get_bind fun _ => leaves_walk program h _ _

end Leaves

end Program

end SuperForward
