/-
  Walks whose visitor takes nodes off.

  `Runs` says what happens on a walk, step by step and without a bound: which nodes are reached,
  with the children they have at that moment, and which are visited. While nodes are taken off,
  what is left to be visited below a node can only become less. This bounds the walk, and it
  keeps the walk from visiting a node twice.
-/
import SuperForward.Proofs.Program.Without
import Mathlib.Data.List.Flatten

namespace SuperForward.Program

/-! ## What happens on a walk -/

/-- A node is reached, and its children are noted; or it is visited. -/
inductive Event where
  | reached (n : Handle) (children : List Handle)
  | visited (n : Handle)
  deriving DecidableEq, Repr

/-- The nodes that are visited, in order. -/
def visitsOf (es : List Event) : List Handle :=
  es.flatMap fun e => match e with
    | .reached _ _ => []
    | .visited n => [n]

/-- The nodes that are reached, in order. -/
def reachesOf (es : List Event) : List Handle :=
  es.flatMap fun e => match e with
    | .reached n _ => [n]
    | .visited _ => []

variable {σ : Type}

/-- The steps that are left, taken from a state, lead to some events and come to a result. The
children of a node are those that it has when it is reached, and its parent is the one that it
has when it is visited. -/
inductive Runs (program : σ → Program) (visitor : Handle → Option Handle → Task σ Unit) :
    List Step → σ → List Event → Except Fault Unit × σ → Prop
  | done {s : σ} : Runs program visitor [] s [] (.ok (), s)
  | reach {n : Handle} {rest : List Step} {s : σ} {children : List Handle} {es : List Event}
      {result : Except Fault Unit × σ} (h : (program s).children n = .ok children)
      (next : Runs program visitor (children.map Step.reach ++ .visit n :: rest) s es result) :
      Runs program visitor (.reach n :: rest) s (.reached n children :: es) result
  | visit {n : Handle} {rest : List Step} {s s' : σ} {parent : Option Handle} {es : List Event}
      {result : Except Fault Unit × σ} (hparent : (program s).parent n = .ok parent)
      (h : (visitor n parent).outcome s = (.ok (), s'))
      (next : Runs program visitor rest s' es result) :
      Runs program visitor (.visit n :: rest) s (.visited n :: es) result
  | failed {n : Handle} {rest : List Step} {s s' : σ} {parent : Option Handle} {fault : Fault}
      (hparent : (program s).parent n = .ok parent)
      (h : (visitor n parent).outcome s = (.error fault, s')) :
      Runs program visitor (.visit n :: rest) s [.visited n] (.error fault, s')

/-- All that a visit does to a program with agreeing links is that it takes some nodes off their
parents, one after the other; what else it does to the state, and whether it fails, is left
open. -/
def OnlyDetaches (program : σ → Program) (visitor : Handle → Option Handle → Task σ Unit) :
    Prop :=
  ∀ s, (program s).Forest → ∀ n parent, ∃ detached : List Handle,
    (detached.forM detach).outcome (program s)
      = (.ok (), program ((visitor n parent).outcome s).2)

/-- What a visitor that takes at most one node off does is what detaching says. -/
theorem exists_detached (p : Program) (n : Handle) :
    ∃ detached : List Handle,
      (detached.forM detach).outcome p = (.ok (), ((detach n).outcome p).2) := by
  have hcases := detach_outcome p n
  cases h : (detach n).outcome p with
  | mk result q =>
    rw [h] at hcases
    cases hcases with
    | missing | loose | nowhere | unlisted => exact ⟨[], rfl⟩
    | done => exact ⟨[n], Task.outcome_bind_ok h⟩

/-! ## Less to be visited -/

/-- Fewer elements, each with a part of what it had. -/
theorem flatMap_filter_sublist {α β : Type} {keep : α → Bool} {f g : α → List β} {xs : List α}
    (h : ∀ x ∈ xs, (f x).Sublist (g x)) :
    ((xs.filter keep).flatMap f).Sublist (xs.flatMap g) :=
  (List.filter_sublist.flatMap f).trans (.flatMap_right xs h)

/-- The nodes that are reached until one step and what it leads to are done. -/
def Step.reaches (p : Program) : Step → List Handle
  | .reach n => p.preOrder n
  | .visit _ => []

section Orders

variable {p : Program} (hp : p.Forest) (detached : List Handle)
include hp

theorem Forest.postOrder_without_sublist (n : Handle) :
    ((p.without detached).postOrder n).Sublist (p.postOrder n) := by
  refine hp.induction_on
    (motive := fun n => ((p.without detached).postOrder n).Sublist (p.postOrder n)) n ?_
  intro n ih
  rw [(hp.without detached).postOrder_eq, hp.postOrder_eq, childrenOf_without]
  exact (flatMap_filter_sublist ih).append_right [n]

theorem Forest.preOrder_without_sublist (n : Handle) :
    ((p.without detached).preOrder n).Sublist (p.preOrder n) := by
  refine hp.induction_on
    (motive := fun n => ((p.without detached).preOrder n).Sublist (p.preOrder n)) n ?_
  intro n ih
  rw [(hp.without detached).preOrder_eq, hp.preOrder_eq, childrenOf_without]
  exact (flatMap_filter_sublist ih).cons_cons n

theorem Forest.visits_without_sublist (step : Step) :
    (step.visits (p.without detached)).Sublist (step.visits p) := by
  cases step with
  | reach n => exact hp.postOrder_without_sublist detached n
  | visit n => exact .refl _

theorem Forest.reaches_without_sublist (step : Step) :
    (step.reaches (p.without detached)).Sublist (step.reaches p) := by
  cases step with
  | reach n => exact hp.preOrder_without_sublist detached n
  | visit n => exact .refl _

theorem Forest.cost_without_le (steps : List Step) :
    (steps.map (Step.cost (p.without detached))).sum ≤ (steps.map (Step.cost p)).sum := by
  induction steps with
  | nil => exact le_refl _
  | cons step rest ih =>
    have hle : step.cost (p.without detached) ≤ step.cost p := by
      cases step with
      | reach n => exact Nat.mul_le_mul_left 2 (hp.postOrder_without_sublist detached n).length_le
      | visit n => exact le_refl _
    simp only [List.map_cons, List.sum_cons]
    omega

end Orders

/-! ## Every traversal runs -/

section Detaching

variable {program : σ → Program} {visitor : Handle → Option Handle → Task σ Unit}

theorem OnlyDetaches.exists_without (hvisitor : OnlyDetaches program visitor) {s : σ}
    (hp : (program s).Forest) (n : Handle) (parent : Option Handle) :
    ∃ detached, program ((visitor n parent).outcome s).2 = (program s).without detached := by
  obtain ⟨detached, h⟩ := hvisitor s hp n parent
  exact ⟨detached, hp.eq_without_of_detach h⟩

/-- A walk with enough steps runs to its end. -/
theorem exists_runs (hvisitor : OnlyDetaches program visitor) (bound : Nat) (steps : List Step)
    (s : σ) (hp : (program s).Forest) (hsteps : ∀ step ∈ steps, step.handle < (program s).size)
    (hbound : (steps.map (Step.cost (program s))).sum ≤ bound) :
    ∃ es, Runs program visitor steps s es ((walk program visitor bound steps).outcome s) := by
  induction bound generalizing steps s with
  | zero =>
    cases steps with
    | nil => exact ⟨[], .done⟩
    | cons step rest =>
      have hpos := hp.cost_pos step
      rw [List.map_cons, List.sum_cons] at hbound
      omega
  | succ bound ih =>
    cases steps with
    | nil => exact ⟨[], .done⟩
    | cons step rest =>
      obtain ⟨hn, hrest⟩ := List.forall_mem_cons.mp hsteps
      cases step with
      | visit n =>
        have hparent : (program s).parent n = .ok ((program s).parentOf n) := parent_of_lt hn
        obtain ⟨detached, hprogram⟩ := hvisitor.exists_without hp n ((program s).parentOf n)
        rw [outcome_walk_visit hparent, Task.outcome_bind]
        rcases hout : (visitor n ((program s).parentOf n)).outcome s with ⟨_ | _, s'⟩
        · exact ⟨[.visited n], .failed hparent hout⟩
        · rw [hout] at hprogram
          -- what is left costs no more in the program that the visit leaves
          have hle := hp.cost_without_le detached rest
          rw [List.map_cons, List.sum_cons, Step.cost] at hbound
          obtain ⟨es, hes⟩ := ih rest s' (hprogram ▸ hp.without detached)
            (by rw [hprogram, size_without]; exact hrest) (by rw [hprogram]; omega)
          exact ⟨.visited n :: es, .visit hparent hout hes⟩
      | reach n =>
        have hchildren : (program s).children n = .ok ((program s).childrenOf n) :=
          children_of_lt hn
        have hcost := hp.cost_children n rest
        rw [outcome_walk_reach hchildren]
        have hnext : ∀ step ∈ ((program s).childrenOf n).map Step.reach ++ .visit n :: rest,
            step.handle < (program s).size := by
          intro step hstep
          rw [List.mem_append, List.mem_cons, List.mem_map] at hstep
          rcases hstep with ⟨c, hc, rfl⟩ | rfl | hstep
          · exact hp.lt_size_of_mem hc
          · exact hn
          · exact hrest step hstep
        obtain ⟨es, hes⟩ := ih _ s hp hnext (by omega)
        exact ⟨.reached n ((program s).childrenOf n) :: es, .reach hchildren hes⟩

/-- Every traversal of a forest runs, from a node that is there. -/
theorem exists_runs_traverse (hvisitor : OnlyDetaches program visitor) {start : Handle} {s : σ}
    (hp : (program s).Forest) (hstart : start < (program s).size) :
    ∃ es, Runs program visitor [.reach start] s es
      ((traverse program visitor start).outcome s) := by
  have hle := hp.length_postOrder_le hstart
  refine exists_runs hvisitor (2 * (program s).size + 1) [.reach start] s hp
    (List.forall_mem_singleton.mpr hstart) ?_
  simp only [List.map_cons, List.map_nil, List.sum_cons, List.sum_nil, Step.cost]
  omega

/-! ## What holds of every run -/

theorem childrenOf_eq_of_ok {p : Program} {n : Handle} {children : List Handle}
    (h : p.children n = .ok children) : p.childrenOf n = children := by
  obtain ⟨node, hnode, hchildren⟩ := except_bind_eq_ok.mp h
  rw [node_eq_ok_iff] at hnode
  rw [childrenOf, hnode]
  exact Except.ok.inj hchildren

namespace Runs

variable {steps : List Step} {s : σ} {es : List Event} {result : Except Fault Unit × σ}

/-- What is seen of the events is among what is seen of the steps, if reaching a node and then
doing what it leads to shows no more than the node does, and taking nodes off shows no more. -/
theorem sublist (h : Runs program visitor steps s es result)
    (hvisitor : OnlyDetaches program visitor) (hp : (program s).Forest)
    {ofEvent : Event → List Handle} {ofStep : Program → Step → List Handle}
    (hwithout : ∀ {p : Program}, p.Forest → ∀ detached step,
      (ofStep (p.without detached) step).Sublist (ofStep p step))
    (hreach : ∀ {p : Program}, p.Forest → ∀ n,
      (ofEvent (.reached n (p.childrenOf n))
          ++ ((p.childrenOf n).map Step.reach ++ [Step.visit n]).flatMap (ofStep p)).Sublist
        (ofStep p (.reach n)))
    (hvisit : ∀ p n, (ofEvent (.visited n)).Sublist (ofStep p (.visit n))) :
    (es.flatMap ofEvent).Sublist (steps.flatMap (ofStep (program s))) := by
  induction h with
  | done => exact .refl _
  | @reach n rest s children es result h _ ih =>
    obtain rfl := childrenOf_eq_of_ok h
    have hnext := (ih hp).append_left (ofEvent (.reached n ((program s).childrenOf n)))
    have hhead := (hreach hp n).append_right (rest.flatMap (ofStep (program s)))
    rw [List.flatMap_cons, List.flatMap_cons]
    refine hnext.trans ?_
    simpa only [List.flatMap_append, List.flatMap_cons, List.flatMap_nil, List.append_nil,
      List.append_assoc] using hhead
  | @visit n rest s s' parent es result _ h _ ih =>
    obtain ⟨detached, hprogram⟩ := hvisitor.exists_without hp n parent
    rw [h] at hprogram
    dsimp only at hprogram
    rw [hprogram] at ih
    have hrest : (rest.flatMap (ofStep ((program s).without detached))).Sublist
        (rest.flatMap (ofStep (program s))) :=
      .flatMap_right rest fun step _ => hwithout hp detached step
    rw [List.flatMap_cons, List.flatMap_cons]
    exact (hvisit _ n).append ((ih (hp.without detached)).trans hrest)
  | @failed n rest s _ _ _ _ _ =>
    rw [List.flatMap_cons, List.flatMap_cons, List.flatMap_nil]
    exact (hvisit _ n).append (List.nil_sublist _)

/-- Nothing is visited that the walk did not have before it, and nothing more often. -/
theorem visitsOf_sublist (h : Runs program visitor steps s es result)
    (hvisitor : OnlyDetaches program visitor) (hp : (program s).Forest) :
    (visitsOf es).Sublist (steps.flatMap (Step.visits (program s))) := by
  refine h.sublist hvisitor hp Forest.visits_without_sublist ?_ fun _ _ => .refl _
  intro p hp n
  have hvisits := hp.visits_children n []
  rw [List.flatMap_cons, List.flatMap_nil, List.append_nil] at hvisits
  rw [hvisits]
  exact .refl _

/-- Nothing is reached more often than the walk had it before it. -/
theorem reachesOf_sublist (h : Runs program visitor steps s es result)
    (hvisitor : OnlyDetaches program visitor) (hp : (program s).Forest) :
    (reachesOf es).Sublist (steps.flatMap (Step.reaches (program s))) := by
  refine h.sublist hvisitor hp Forest.reaches_without_sublist ?_ fun _ _ => .refl _
  intro p hp n
  simp only [List.flatMap_append, List.flatMap_cons, List.flatMap_nil, List.flatMap_map,
    List.append_nil, Step.reaches, hp.preOrder_eq n, List.singleton_append]
  exact .refl _

/-- A visit that comes after the children of a node are reached is that of the node, or comes
later. -/
theorem visit_of_append {children : List Handle} {m n : Handle} {rest pre post : List Step}
    (h : children.map Step.reach ++ .visit m :: rest = pre ++ .visit n :: post) :
    (m = n ∧ pre = children.map Step.reach) ∨
      ∃ more, pre = children.map Step.reach ++ .visit m :: more ∧
        rest = more ++ .visit n :: post := by
  induction children generalizing pre with
  | nil =>
    rcases List.cons_eq_append_iff.mp h with ⟨rfl, hpost⟩ | ⟨more, rfl, hrest⟩
    · cases hpost
      exact .inl ⟨rfl, rfl⟩
    · exact .inr ⟨more, rfl, hrest⟩
  | cons c cs ih =>
    rcases List.cons_eq_append_iff.mp h with ⟨-, hpost⟩ | ⟨pre, rfl, hrest⟩
    · cases hpost
    · rcases ih hrest with ⟨rfl, rfl⟩ | ⟨more, rfl, rfl⟩
      · exact .inl ⟨rfl, rfl⟩
      · exact .inr ⟨more, rfl, rfl⟩

/-- Before a node is visited it was reached, and the children noted then were visited; unless
the walk began with all of this done. -/
theorem visited_after (h : Runs program visitor steps s es result) {before after : List Event}
    {n : Handle} (hes : es = before ++ .visited n :: after) :
    (∃ cs, .reached n cs ∈ before ∧ ∀ c ∈ cs, .visited c ∈ before) ∨
      ∃ pre post, steps = pre ++ .visit n :: post ∧
        ∀ step ∈ pre, .visited step.handle ∈ before := by
  induction h generalizing before with
  | done => exact absurd hes (by simp)
  | @reach m rest s children es result _ _ ih =>
    rcases List.cons_eq_append_iff.mp hes with ⟨rfl, he⟩ | ⟨before, rfl, rfl⟩
    · cases he
    · rcases ih rfl with ⟨cs, hcs, hvisited⟩ | ⟨pre, post, hsteps, hpre⟩
      · exact .inl ⟨cs, .tail _ hcs, fun c hc => .tail _ (hvisited c hc)⟩
      -- the visit belongs to the node that is reached here, or was among the steps before
      · rcases visit_of_append hsteps with ⟨rfl, rfl⟩ | ⟨more, rfl, rfl⟩
        · refine .inl ⟨children, .head _, fun c hc => .tail _ ?_⟩
          exact hpre (.reach c) (List.mem_map_of_mem hc)
        · refine .inr ⟨.reach m :: more, post, rfl, fun step hstep => .tail _ ?_⟩
          rcases List.mem_cons.mp hstep with rfl | hstep
          · exact hpre (.visit m) (List.mem_append_right _ (.head _))
          · exact hpre step (List.mem_append_right _ (.tail _ hstep))
  | @visit m rest s s' parent es result _ _ _ ih =>
    rcases List.cons_eq_append_iff.mp hes with ⟨rfl, he⟩ | ⟨before, rfl, rfl⟩
    · cases he
      exact .inr ⟨[], rest, rfl, fun _ h => nomatch h⟩
    · rcases ih rfl with ⟨cs, hcs, hvisited⟩ | ⟨pre, post, rfl, hpre⟩
      · exact .inl ⟨cs, .tail _ hcs, fun c hc => .tail _ (hvisited c hc)⟩
      · refine .inr ⟨.visit m :: pre, post, rfl, fun step hstep => ?_⟩
        rcases List.mem_cons.mp hstep with rfl | hstep
        · exact .head _
        · exact .tail _ (hpre step hstep)
  | @failed m rest s _ _ _ _ _ =>
    rcases List.cons_eq_append_iff.mp hes with ⟨rfl, he⟩ | ⟨before, rfl, hnil⟩
    · cases he
      exact .inr ⟨[], rest, rfl, fun _ h => nomatch h⟩
    · exact absurd hnil (by simp)

/-- What is visited was among the steps, or is a child that was noted on the way. -/
theorem noted_of_visited (h : Runs program visitor steps s es result) {x : Handle}
    (hx : .visited x ∈ es) :
    (∃ step ∈ steps, step.handle = x) ∨ ∃ n cs, .reached n cs ∈ es ∧ x ∈ cs := by
  induction h with
  | done => cases hx
  | @reach m rest s children es result _ _ ih =>
    rcases List.mem_cons.mp hx with h | hx
    · cases h
    · rcases ih hx with ⟨step, hstep, rfl⟩ | ⟨n, cs, hn, hmem⟩
      · rw [List.mem_append, List.mem_cons, List.mem_map] at hstep
        rcases hstep with ⟨c, hc, rfl⟩ | rfl | hstep
        · exact .inr ⟨m, children, .head _, hc⟩
        · exact .inl ⟨.reach m, .head _, rfl⟩
        · exact .inl ⟨step, .tail _ hstep, rfl⟩
      · exact .inr ⟨n, cs, .tail _ hn, hmem⟩
  | @visit m rest s s' parent es result _ _ _ ih =>
    rcases List.mem_cons.mp hx with h | hx
    · cases h
      exact .inl ⟨.visit x, .head _, rfl⟩
    · rcases ih hx with ⟨step, hstep, rfl⟩ | ⟨n, cs, hn, hmem⟩
      · exact .inl ⟨step, .tail _ hstep, rfl⟩
      · exact .inr ⟨n, cs, .tail _ hn, hmem⟩
  | @failed m rest s _ _ _ _ _ =>
    cases List.mem_singleton.mp hx
    exact .inl ⟨.visit x, .head _, rfl⟩

/-- A run that does not fail visits what was among its steps, every node that it reaches, and
the children that it notes. -/
theorem visited_of_ok (h : Runs program visitor steps s es result) (hok : result.1 = .ok ()) :
    (∀ step ∈ steps, .visited step.handle ∈ es) ∧
      ∀ n cs, .reached n cs ∈ es → .visited n ∈ es ∧ ∀ c ∈ cs, .visited c ∈ es := by
  induction h with
  | done => exact ⟨fun _ h => (nomatch h), fun _ _ h => (nomatch h)⟩
  | @reach m rest s children es result _ _ ih =>
    obtain ⟨hsteps, hreached⟩ := ih hok
    have hm : Event.visited m ∈ es := hsteps (.visit m) (List.mem_append_right _ (.head _))
    refine ⟨fun step hstep => .tail _ ?_, fun n cs hn => ?_⟩
    · rcases List.mem_cons.mp hstep with rfl | hstep
      · exact hm
      · exact hsteps step (List.mem_append_right _ (.tail _ hstep))
    · rcases List.mem_cons.mp hn with h | hn
      · cases h
        refine ⟨.tail _ hm, fun c hc => .tail _ ?_⟩
        exact hsteps (.reach c) (List.mem_append_left _ (List.mem_map_of_mem hc))
      · exact ⟨.tail _ (hreached n cs hn).1, fun c hc => .tail _ ((hreached n cs hn).2 c hc)⟩
  | @visit m rest s s' parent es result _ _ _ ih =>
    obtain ⟨hsteps, hreached⟩ := ih hok
    refine ⟨fun step hstep => ?_, fun n cs hn => ?_⟩
    · rcases List.mem_cons.mp hstep with rfl | hstep
      · exact .head _
      · exact .tail _ (hsteps step hstep)
    · rcases List.mem_cons.mp hn with h | hn
      · cases h
      · exact ⟨.tail _ (hreached n cs hn).1, fun c hc => .tail _ ((hreached n cs hn).2 c hc)⟩
  | failed => cases hok

/-- A run fails only where a visit fails. -/
theorem ok_of_visits (h : Runs program visitor steps s es result)
    (hvisits : ∀ n parent s, ((visitor n parent).outcome s).1 = .ok ()) : result.1 = .ok () := by
  induction h with
  | done => rfl
  | reach _ _ ih => exact ih
  | visit _ _ _ ih => exact ih
  | @failed n rest s s' parent fault _ h =>
    have hok := hvisits n parent s
    rw [h] at hok
    cases hok

/-- A run that does not fail and leaves the program visits what its steps stand for. -/
theorem visitsOf_eq (h : Runs program visitor steps s es result) (hok : result.1 = .ok ())
    (hp : (program s).Forest)
    (hleaves : ∀ n parent s, program ((visitor n parent).outcome s).2 = program s) :
    visitsOf es = steps.flatMap (Step.visits (program s)) := by
  induction h with
  | done => rfl
  | @reach n rest s children es result h _ ih =>
    obtain rfl := childrenOf_eq_of_ok h
    rw [← hp.visits_children]
    exact ih hok hp
  | @visit n rest s s' parent es result _ h _ ih =>
    have hprogram := hleaves n parent s
    rw [h] at hprogram
    have hrest := ih hok (hprogram ▸ hp)
    rw [hprogram] at hrest
    rw [List.flatMap_cons, ← hrest]
    rfl
  | failed => cases hok

end Runs

/-! ## Traversals -/

/-- What holds of the events of a traversal that comes to a result. -/
structure Orderly (start : Handle) (es : List Event) (result : Except Fault Unit) : Prop where
  /-- No node is visited twice. -/
  visited_once : (visitsOf es).Nodup
  /-- No node is reached twice: its children are noted once. -/
  reached_once : (reachesOf es).Nodup
  /-- A node is visited after it was reached, and after all children that were noted then. -/
  children_first : ∀ before n after, es = before ++ .visited n :: after →
    ∃ cs, .reached n cs ∈ before ∧ ∀ c ∈ cs, .visited c ∈ before
  /-- What is visited is the start, or a child that was noted for some node. -/
  noted : ∀ x ∈ visitsOf es, x = start ∨ ∃ n cs, .reached n cs ∈ es ∧ x ∈ cs
  /-- Unless a visit fails, exactly these are visited. -/
  complete : result = .ok () → ∀ x, x ∈ visitsOf es ↔
    x = start ∨ ∃ n cs, n ∈ visitsOf es ∧ .reached n cs ∈ es ∧ x ∈ cs

theorem mem_visitsOf {es : List Event} {x : Handle} : x ∈ visitsOf es ↔ .visited x ∈ es := by
  unfold visitsOf
  rw [List.mem_flatMap]
  constructor
  · rintro ⟨e, he, hx⟩
    cases e with
    | reached => cases hx
    | visited n => exact List.mem_singleton.mp hx ▸ he
  · intro h
    exact ⟨.visited x, h, List.mem_singleton.mpr rfl⟩

/-- The events of a traversal are orderly. -/
theorem Runs.orderly {start : Handle} {s : σ} {es : List Event} {result : Except Fault Unit × σ}
    (h : Runs program visitor [.reach start] s es result)
    (hvisitor : OnlyDetaches program visitor) (hp : (program s).Forest) :
    Orderly start es result.1 where
  visited_once := by
    have hsublist := h.visitsOf_sublist hvisitor hp
    rw [List.flatMap_cons, List.flatMap_nil, List.append_nil] at hsublist
    exact (hp.nodup_postOrder start).sublist hsublist
  reached_once := by
    have hsublist := h.reachesOf_sublist hvisitor hp
    rw [List.flatMap_cons, List.flatMap_nil, List.append_nil] at hsublist
    exact ((hp.preOrder_perm start).nodup_iff.mpr (hp.nodup_postOrder start)).sublist hsublist
  -- the run starts with a single step, so what is visited was reached before
  children_first before n after hes := by
    rcases h.visited_after hes with hreached | ⟨pre, post, hsteps, -⟩
    · exact hreached
    · rcases List.cons_eq_append_iff.mp hsteps with ⟨-, h⟩ | ⟨_, -, h⟩
      · cases h
      · exact absurd h (by simp)
  noted x hx := by
    rcases h.noted_of_visited (mem_visitsOf.mp hx) with ⟨step, hstep, rfl⟩ | hnoted
    · rw [List.mem_singleton.mp hstep]
      exact .inl rfl
    · exact .inr hnoted
  complete hok x := by
    obtain ⟨hsteps, hreached⟩ := h.visited_of_ok hok
    constructor
    · intro hx
      rcases h.noted_of_visited (mem_visitsOf.mp hx) with ⟨step, hstep, rfl⟩ | ⟨n, cs, hn, hmem⟩
      · rw [List.mem_singleton.mp hstep]
        exact .inl rfl
      · exact .inr ⟨n, cs, mem_visitsOf.mpr (hreached n cs hn).1, hn, hmem⟩
    · rintro (rfl | ⟨n, cs, -, hn, hmem⟩)
      · exact mem_visitsOf.mpr (hsteps _ (.head _))
      · exact mem_visitsOf.mpr ((hreached n cs hn).2 x hmem)

/-- A traversal of a forest from a node that is there, whose visitor only takes nodes off. It
runs without being cut short, and its events are orderly. It fails only if a visit fails. If the
visitor leaves the program as it is, the visits are the subtree with children before parents. -/
theorem traverse_orderly (hvisitor : OnlyDetaches program visitor) {start : Handle} {s : σ}
    (hp : (program s).Forest) (hstart : start < (program s).size) :
    ∃ es, Runs program visitor [.reach start] s es
        ((traverse program visitor start).outcome s) ∧
      Orderly start es ((traverse program visitor start).outcome s).1 ∧
      ((∀ n parent s, ((visitor n parent).outcome s).1 = .ok ()) →
        ((traverse program visitor start).outcome s).1 = .ok ()) ∧
      (((traverse program visitor start).outcome s).1 = .ok () →
        (∀ n parent s, program ((visitor n parent).outcome s).2 = program s) →
        visitsOf es = (program s).postOrder start) := by
  obtain ⟨es, hes⟩ := exists_runs_traverse hvisitor hp hstart
  refine ⟨es, hes, hes.orderly hvisitor hp, hes.ok_of_visits, fun hok hleaves => ?_⟩
  rw [hes.visitsOf_eq hok hp hleaves, List.flatMap_cons, List.flatMap_nil, List.append_nil]
  rfl

/-- A script of two statements. -/
def twoStatements : Program := (ofSources [⟨"a.js", "a; b;"⟩]).1

/-- At the first statement, takes the second one off. -/
def takesSecondOff (n : Handle) (_ : Option Handle) : Task Program Unit :=
  if n = 2 then detach 4 else pure ()

/-- The second statement is visited although it was taken off when the first one was. -/
theorem traverse_orderly_twoStatements :
    OnlyDetaches id takesSecondOff ∧ (id twoStatements).Forest ∧ root < (id twoStatements).size ∧
      (∃ es, Runs id takesSecondOff [.reach root] twoStatements es
          ((traverse id takesSecondOff root).outcome twoStatements) ∧
        Orderly root es ((traverse id takesSecondOff root).outcome twoStatements).1 ∧
        ((∀ n parent s, ((takesSecondOff n parent).outcome s).1 = .ok ()) →
          ((traverse id takesSecondOff root).outcome twoStatements).1 = .ok ()) ∧
        (((traverse id takesSecondOff root).outcome twoStatements).1 = .ok () →
          (∀ n parent s, id ((takesSecondOff n parent).outcome s).2 = id s) →
          visitsOf es = (id twoStatements).postOrder root)) ∧
      twoStatements.parentOf 4 = some 5 ∧
      ((traverse id takesSecondOff root).outcome twoStatements).1 = .ok () ∧
      ((traverse id takesSecondOff root).outcome twoStatements).2.parentOf 4 = none := by
  have hvisitor : OnlyDetaches id takesSecondOff := by
    intro p _ n parent
    unfold takesSecondOff
    split
    · exact exists_detached p 4
    · exact ⟨[], rfl⟩
  have hcomposed := composed_ofSources [⟨"a.js", "a; b;"⟩]
  exact ⟨hvisitor, hcomposed.forest, hcomposed.root_lt_size,
    traverse_orderly hvisitor hcomposed.forest hcomposed.root_lt_size,
    by decide +kernel, by decide +kernel, by decide +kernel⟩

end Detaching

end SuperForward.Program
