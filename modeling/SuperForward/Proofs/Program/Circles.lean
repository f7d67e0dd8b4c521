/-
  Circles.

  A node without a parent may be put below any node, itself and its own descendants included:
  attaching asks only whether the node has a parent. A run keeps every node from being its own
  ancestor exactly as long as it makes no such call. This is what the walks along the links
  depend on. They count no steps and remember no node, so they are described here turn by turn:
  they all end from every node exactly if no node is its own ancestor, and then they come to
  what the walks with a bound on their steps give.
-/
import SuperForward.Proofs.Program.Calls
import SuperForward.Proofs.Program.Traversing

namespace SuperForward.Program

/-! ## Closing a circle -/

/-- The call puts a node without a parent below itself or below one of its descendants. -/
def Call.ClosesCircle (p : Program) : Call → Prop
  | .edit (.append parent child) => p.parentOf child = none ∧ p.Below child parent
  | .newNode .. | .edit (.detach _) => False

section Steps

variable {p q : Program} {parent child n m : Handle}

theorem Below.mono (h : ∀ c n, p.parentOf c = some n → q.parentOf c = some n)
    (hbelow : p.Below n m) : q.Below n m := by
  induction hbelow with
  | here => exact .here
  | child _ link ih => exact ih.child (h _ _ link)

/-- Where there are no more links there are no more circles. -/
theorem Acyclic.mono (hp : p.Acyclic) (h : ∀ c n, q.parentOf c = some n → p.parentOf c = some n) :
    q.Acyclic := by
  rintro n ⟨parent, hlink, hbelow⟩
  exact hp n ⟨parent, h n parent hlink, hbelow.mono h⟩

/-- What hangs below a node after an adoption hung there before, or it hangs below the child
and the parent hangs below that node. -/
theorem Below.of_adopt (hchild : child < p.size) (hnot : ¬ p.Below child parent)
    (h : (p.adopt parent child).Below n m) :
    p.Below n m ∨ p.Below n parent ∧ p.Below child m := by
  induction h with
  | here => exact .inl .here
  | @child m c _ link ih =>
    rw [parentOf_adopt hchild] at link
    split at link
    · next hc =>
      -- the link that is new leads from the child to the parent
      cases link
      rcases ih with hn | ⟨-, hcircle⟩
      · exact .inr ⟨hn, hc ▸ .here⟩
      · exact absurd hcircle hnot
    · rcases ih with hn | ⟨hn, hm⟩
      · exact .inl (hn.child link)
      · exact .inr ⟨hn, hm.child link⟩

/-- An adoption closes a circle exactly if the parent hangs below the child. -/
theorem Acyclic.adopt_iff (hp : p.Acyclic) (hchild : child < p.size)
    (hfree : p.parentOf child = none) :
    (p.adopt parent child).Acyclic ↔ ¬ p.Below child parent := by
  constructor
  · intro hacyclic hbelow
    refine hacyclic child ⟨parent, by rw [parentOf_adopt hchild, if_pos rfl], ?_⟩
    refine hbelow.mono fun c n link => ?_
    have hc : c ≠ child := by
      rintro rfl
      rw [hfree] at link
      cases link
    rw [parentOf_adopt hchild, if_neg hc, link]
  · rintro hnot n ⟨above, hlink, hbelow⟩
    rw [parentOf_adopt hchild] at hlink
    split at hlink
    · next hn =>
      cases hlink
      subst hn
      rcases hbelow.of_adopt hchild hnot with h | ⟨h, -⟩
      · exact hnot h
      · exact hnot h
    · rcases hbelow.of_adopt hchild hnot with h | ⟨hparent, habove⟩
      · exact hp n ⟨above, hlink, h⟩
      · exact hnot ((habove.child hlink).trans hparent)

/-- A call on nodes that exist leaves a program without circles exactly if it does not close
one. A new node closes none: it has no parent while it adopts others. -/
theorem Acyclic.after_iff (hp : p.Acyclic) (hlinked : p.Linked) {call : Call}
    (hcall : call.OnExisting p) : (call.after p).Acyclic ↔ ¬ call.ClosesCircle p := by
  constructor
  · intro hacyclic hcloses
    match call, hcall, hcloses with
    | .edit (.append parent child), ⟨hparent, hchild⟩, ⟨hfree, hbelow⟩ =>
      rcases outcome_append hparent hchild with ⟨above, habove, -⟩ | ⟨-, hout⟩
      · rw [hfree] at habove
        cases habove
      · change ((append parent child).outcome p).2.Acyclic at hacyclic
        rw [hout] at hacyclic
        exact (hp.adopt_iff hchild hfree).mp hacyclic hbelow
  · intro hnot
    apply hlinked.after_invariant hcall (I := Acyclic) hp
    · intro node hparent _
      refine hp.mono fun c n link => ?_
      rwa [parentOf_withNode hparent] at link
    · -- the new node is loose, so it does not hang below what it adopts
      intro q c hc hsize hloose hfree hq
      refine (hq.adopt_iff (hc.trans hsize) hfree).mpr fun hbelow => ?_
      cases hbelow with
      | here => exact absurd hc (Nat.lt_irrefl _)
      | child _ link =>
        rw [hloose] at link
        cases link
    · rintro parent child rfl _ hchild hfree
      exact (hp.adopt_iff hchild hfree).mpr fun hbelow => hnot ⟨hfree, hbelow⟩
    · intro parent n hlink
      refine hp.mono fun c m link => ?_
      rw [parentOf_release (lt_size_of_parentOf hlink)] at link
      split at link
      · cases link
      · exact link

theorem acyclic_empty : empty.Acyclic := by
  rintro n ⟨parent, hlink, -⟩
  have hn : n < 1 := lt_size_of_parentOf hlink
  have hnone : ∀ n < 1, empty.parentOf n = none := by decide
  rw [hnone n hn] at hlink
  cases hlink

/-- No program on the way has a circle exactly if no call closes one. -/
theorem Acyclic.afterAll_iff (hp : p.Acyclic) (hlinked : p.Linked) {calls : List Call}
    (hcalls : AllOnExisting p calls) :
    (∀ made left, calls = made ++ left → (p.afterAll made).Acyclic) ↔
      ∀ made call left, calls = made ++ call :: left →
        ¬ call.ClosesCircle (p.afterAll made) := by
  -- by the first call: it keeps the program free of circles exactly if it closes none
  induction calls generalizing p with
  | nil =>
    refine iff_of_true (fun made left h => ?_) (fun made call left h => by simp at h)
    obtain ⟨rfl, -⟩ := List.append_eq_nil_iff.mp h.symm
    exact hp
  | cons first rest ih =>
    have hstep := hp.after_iff hlinked hcalls.1
    constructor
    · intro hall
      have hnext : (first.after p).Acyclic := hall [first] rest rfl
      have hrest := (ih hnext (hlinked.after hcalls.1) hcalls.2).mp
        fun made left h => hall (first :: made) left (by rw [h]; rfl)
      intro made call left h
      cases made with
      | nil =>
        cases h
        exact hstep.mp hnext
      | cons _ made =>
        cases h
        exact hrest made call left rfl
    · intro hnone
      have hnext : (first.after p).Acyclic := hstep.mpr (hnone [] first rest rfl)
      have hrest := (ih hnext (hlinked.after hcalls.1) hcalls.2).mpr
        fun made call left h => hnone (first :: made) call left (by rw [h]; rfl)
      intro made left h
      cases made with
      | nil => exact hp
      | cons _ made =>
        cases h
        exact hrest made left rfl

end Steps

/-! ## Walks turn by turn -/

/-- What one turn of a loop comes to. -/
inductive Turn (σ α : Type) where
  | again (s : σ)
  | done (a : α)

/-- A loop that is in a state takes finitely many turns and comes to a result. -/
inductive Ends {σ α : Type} (turn : σ → Turn σ α) : σ → α → Prop
  | now {s : σ} {a : α} (h : turn s = .done a) : Ends turn s a
  | later {s s' : σ} {a : α} (h : turn s = .again s') (rest : Ends turn s' a) : Ends turn s a

/-- A turn on the way up to the root. -/
def attachedTurn (p : Program) : Option Handle → Turn (Option Handle) (Except Fault Bool)
  | none => .done (.ok false)
  | some n =>
    if n = root then .done (.ok true)
    else match p.parent n with
      | .ok above => .again above
      | .error e => .done (.error e)

/-- A turn on the way up to a node of some sorts. -/
def enclosingTurn (p : Program) (kinds : List NodeKind) :
    Option Handle → Turn (Option Handle) (Except Fault (Option Handle))
  | none => .done (.ok none)
  | some n =>
    match p.kind n, p.parent n with
    | .ok kind, .ok above => if kinds.contains kind then .done (.ok (some n)) else .again above
    | .error e, _ | _, .error e => .done (.error e)

/-- A turn on the way down, with the nodes that are still to be met and those that have been. -/
def subtreeTurn (p : Program) :
    List Handle × List Handle → Turn (List Handle × List Handle) (Except Fault (List Handle))
  | ([], met) => .done (.ok met)
  | (n :: left, met) =>
    match p.children n with
    | .ok children => .again (children ++ left, met ++ [n])
    | .error e => .done (.error e)

/-- The walks from a node end, and come to what the walks with a bound on their steps give. The
visitor of the traversal may take nodes off. -/
structure WalksEnd (p : Program) (n : Handle) : Prop where
  isAttached : Ends p.attachedTurn (some n) (p.isAttached n)
  enclosing : ∀ kinds, ∃ above, p.parent n = .ok above ∧
    Ends (p.enclosingTurn kinds) above (p.enclosing n kinds)
  subtree : Ends p.subtreeTurn ([n], []) (p.subtree n)
  traverse : ∀ {σ : Type} (program : σ → Program) (visitor : Handle → Option Handle → Task σ Unit),
    OnlyDetaches program visitor → ∀ s, program s = p →
      ∃ es, Runs program visitor [.reach n] s es ((traverse program visitor n).outcome s)

section Walks

variable {p : Program}

namespace Forest

variable (hp : p.Forest)
include hp

/-- The way up to the root ends. -/
theorem ends_attachedTurn {n : Handle} (hn : n < p.size) :
    Ends p.attachedTurn (some n) (p.isAttached n) := by
  obtain ⟨rank, hle, hrank⟩ := hp.ranked
  -- ranks grow on the way up and are bounded, so the steps of the walk with a bound suffice
  have key : ∀ steps n, n < p.size → p.size < rank n + steps →
      Ends p.attachedTurn (some n) (p.reachesRoot steps n) := by
    intro steps
    induction steps with
    | zero =>
      intro n _ hr
      have := hle n
      omega
    | succ steps ih =>
      intro n hn hr
      unfold reachesRoot
      by_cases hroot : n = root
      · rw [if_pos hroot]
        exact .now (by simp [attachedTurn, hroot])
      · have hturn : p.attachedTurn (some n) = .again (p.parentOf n) := by
          simp only [attachedTurn, if_neg hroot, parent_of_lt hn]
        refine .later hturn ?_
        simp only [if_neg hroot, parent_of_lt hn, except_ok_bind]
        cases hlink : p.parentOf n with
        | none => exact .now rfl
        | some above =>
          have hlt := hrank hlink
          exact ih above (hp.parent_lt_size hlink) (by omega)
  exact key (p.size + 1) n hn (by omega)

/-- The way up to a node of some sorts ends. -/
theorem ends_enclosingTurn (kinds : List NodeKind) {n : Handle} (hn : n < p.size) :
    Ends (p.enclosingTurn kinds) (p.parentOf n) (p.enclosing n kinds) := by
  obtain ⟨rank, hle, hrank⟩ := hp.ranked
  -- each turn goes one rank up, and no rank is larger than the program, so the steps are enough
  have key : ∀ steps n, n < p.size → p.size < rank n + steps →
      Ends (p.enclosingTurn kinds) (p.parentOf n) (p.enclosingWithin kinds steps n) := by
    intro steps
    induction steps with
    | zero =>
      intro n _ hr
      have := hle n
      omega
    | succ steps ih =>
      intro n hn hr
      unfold enclosingWithin
      simp only [parent_of_lt hn, except_ok_bind]
      cases hlink : p.parentOf n with
      | none => exact .now rfl
      | some above =>
        have hlt := hrank hlink
        have habove := hp.parent_lt_size hlink
        obtain ⟨k, hk, -⟩ := kind_of_lt habove
        simp only [hk, except_ok_bind]
        split
        · next hmem =>
          exact .now (by simp only [enclosingTurn, hk, parent_of_lt habove, if_pos hmem]; rfl)
        · next hmem =>
          have hturn : p.enclosingTurn kinds (some above) = .again (p.parentOf above) := by
            simp only [enclosingTurn, hk, parent_of_lt habove, if_neg hmem]
          exact .later hturn (ih above habove (by omega))
  exact key (p.size + 1) n hn (by omega)

/-- The way down meets the nodes of a subtree before those that are left. -/
theorem ends_subtreeTurn {n : Handle} (hn : n < p.size) {left met : List Handle}
    {a : Except Fault (List Handle)} (h : Ends p.subtreeTurn (left, met ++ p.preOrder n) a) :
    Ends p.subtreeTurn (n :: left, met) a := by
  revert hn left met
  refine hp.induction_on (motive := fun n => n < p.size → ∀ {left met : List Handle},
    Ends p.subtreeTurn (left, met ++ p.preOrder n) a →
      Ends p.subtreeTurn (n :: left, met) a) n ?_
  intro n ih hn left met h
  have hturn : p.subtreeTurn (n :: left, met) = .again (p.childrenOf n ++ left, met ++ [n]) := by
    simp only [subtreeTurn, children_of_lt hn]
  -- the subtrees of the children are met one after the other
  have hchildren : ∀ (cs : List Handle), (∀ c ∈ cs, c ∈ p.childrenOf n) → ∀ met,
      Ends p.subtreeTurn (left, met ++ cs.flatMap p.preOrder) a →
        Ends p.subtreeTurn (cs ++ left, met) a := by
    intro cs
    induction cs with
    | nil =>
      intro _ met hrest
      simpa using hrest
    | cons c cs ihcs =>
      intro hcs met hrest
      obtain ⟨hc, hcs⟩ := List.forall_mem_cons.mp hcs
      apply ih c hc (hp.lt_size_of_mem hc)
      apply ihcs hcs
      simpa [List.append_assoc] using hrest
  refine .later hturn (hchildren _ (fun _ hc => hc) _ ?_)
  rw [hp.preOrder_eq] at h
  simpa [List.append_assoc] using h

/-- In a forest all walks end. -/
theorem walksEnd {n : Handle} (hn : n < p.size) : p.WalksEnd n where
  isAttached := hp.ends_attachedTurn hn
  enclosing kinds := ⟨_, parent_of_lt hn, hp.ends_enclosingTurn kinds hn⟩
  subtree := by
    rw [hp.subtree_eq hn]
    exact hp.ends_subtreeTurn hn (.now rfl)
  traverse program visitor hvisitor s hs := by
    subst hs
    exact exists_runs_traverse hvisitor hp hn

end Forest

/-- A parent of a node that is its own ancestor is its own ancestor, too. -/
theorem Ancestor.parent {n above : Handle} (h : p.Ancestor n n) (hlink : p.parentOf n = some above) :
    p.Ancestor above above := by
  obtain ⟨parent, hparent, hbelow⟩ := h
  rw [hlink] at hparent
  cases hparent
  cases hbelow with
  | here => exact ⟨n, hlink, .here⟩
  | child hup link => exact ⟨_, link, (Below.here.child hlink).trans hup⟩

/-- The way up that looks for nothing does not end on a circle. -/
theorem not_ends_of_ancestor {n : Handle} (h : p.Ancestor n n)
    {a : Except Fault (Option Handle)} : ¬ Ends (p.enclosingTurn []) (some n) a := by
  -- by the turns that are left: a turn leads from one node of the circle to the next
  have key : ∀ {s : Option Handle}, Ends (p.enclosingTurn []) s a →
      ∀ n, s = some n → ¬ p.Ancestor n n := by
    intro s hends
    have hturn : ∀ n, p.Ancestor n n → ∃ above, p.parentOf n = some above ∧
        p.enclosingTurn [] (some n) = .again (some above) := by
      rintro n ⟨above, hlink, -⟩
      have hn := lt_size_of_parentOf hlink
      obtain ⟨k, hk, -⟩ := kind_of_lt hn
      exact ⟨above, hlink, by simp [enclosingTurn, hk, parent_of_lt hn, hlink]⟩
    induction hends with
    | now hdone =>
      rintro n rfl hn
      obtain ⟨above, -, hagain⟩ := hturn n hn
      rw [hagain] at hdone
      cases hdone
    | later hagain _ ih =>
      rintro n rfl hn
      obtain ⟨above, hlink, hagain'⟩ := hturn n hn
      rw [hagain'] at hagain
      cases hagain
      exact ih above rfl (hn.parent hlink)
  exact fun hends => key hends n rfl h

/-- All walks end from all nodes exactly if no node is its own ancestor. -/
theorem Linked.acyclic_iff_walksEnd (hp : p.Linked) :
    p.Acyclic ↔ ∀ n < p.size, p.WalksEnd n := by
  constructor
  · exact fun hacyclic n hn => (hp.forest hacyclic).walksEnd hn
  · rintro hends n ⟨above, hlink, hbelow⟩
    have hlt := lt_size_of_parentOf hlink
    obtain ⟨above', habove', hup⟩ := (hends n hlt).enclosing []
    rw [parent_of_lt hlt, hlink] at habove'
    cases habove'
    exact not_ends_of_ancestor (Ancestor.parent ⟨above, hlink, hbelow⟩ hlink) hup

end Walks

/-- A run of calls on nodes that exist never makes a node its own ancestor exactly if no call
puts a node without a parent below itself or below one of its descendants. In the program that
it leaves, all walks end from all nodes exactly if no node is its own ancestor. -/
theorem acyclic_iff_no_circle_closed (calls : List Call) (hcalls : AllOnExisting empty calls) :
    ((∀ made left, calls = made ++ left → (empty.afterAll made).Acyclic) ↔
        ∀ made call left, calls = made ++ call :: left →
          ¬ call.ClosesCircle (empty.afterAll made)) ∧
      ((empty.afterAll calls).Acyclic ↔
        ∀ n < (empty.afterAll calls).size, (empty.afterAll calls).WalksEnd n) :=
  ⟨acyclic_empty.afterAll_iff linked_empty hcalls,
    (linked_empty.afterAll hcalls).1.acyclic_iff_walksEnd⟩

/-- A name that is put below itself. -/
def nameBelowItself : List Call := [.newNode .name "x" 0 1 1 [], .edit (.append 1 1)]

/-- With a name that is put below itself, both sides are false; without that call they are
true. -/
theorem acyclic_iff_no_circle_closed_nameBelowItself :
    AllOnExisting empty nameBelowItself ∧
      (((∀ made left, nameBelowItself = made ++ left → (empty.afterAll made).Acyclic) ↔
          ∀ made call left, nameBelowItself = made ++ call :: left →
            ¬ call.ClosesCircle (empty.afterAll made)) ∧
        ((empty.afterAll nameBelowItself).Acyclic ↔
          ∀ n < (empty.afterAll nameBelowItself).size,
            (empty.afterAll nameBelowItself).WalksEnd n)) ∧
      (Call.edit (.append 1 1)).ClosesCircle (empty.afterAll (nameBelowItself.take 1)) :=
  have hcalls : AllOnExisting empty nameBelowItself := by decide
  ⟨hcalls, acyclic_iff_no_circle_closed nameBelowItself hcalls, by decide, .here⟩

/-- The call does not fail, and the name is its own ancestor: the way up from it does not
end. -/
theorem ancestor_of_itself_nameBelowItself :
    AllOnExisting empty nameBelowItself ∧
      ((append 1 1).outcome (empty.afterAll (nameBelowItself.take 1))).1 = .ok () ∧
      (empty.afterAll nameBelowItself).Ancestor 1 1 ∧
      ¬ ∃ a, Ends ((empty.afterAll nameBelowItself).enclosingTurn []) (some 1) a := by
  have hancestor : (empty.afterAll nameBelowItself).Ancestor 1 1 := ⟨1, by decide, .here⟩
  exact ⟨by decide, by decide, hancestor, fun ⟨_, hends⟩ => not_ends_of_ancestor hancestor hends⟩

end SuperForward.Program
