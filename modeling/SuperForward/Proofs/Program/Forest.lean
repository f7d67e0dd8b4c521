/-
  The links of a program.

  A program is a forest when the children of a node are exactly the nodes whose parent it is,
  each listed once, and some bounded rank grows from every node to its parent. In a forest the
  walks with a bound on their steps are what they are meant to be: `subtree` gives the nodes
  below a handle, each once, and `postOrder` is the same walk with children before parents.
-/
import SuperForward.Program.Navigation
import Mathlib.Data.List.Basic
import Mathlib.Data.List.Nodup
import Mathlib.Data.List.Range
import Mathlib.Data.List.Perm.Subperm
import Mathlib.Data.List.Forall2

namespace SuperForward

@[simp] theorem except_ok_bind {ε α β : Type} (a : α) (f : α → Except ε β) :
    (Except.ok a >>= f) = f a := rfl

/-- A computation gives a value if its first part does and what follows does. -/
theorem except_bind_eq_ok {ε α β : Type} {e : Except ε α} {f : α → Except ε β} {b : β} :
    (e >>= f) = .ok b ↔ ∃ a, e = .ok a ∧ f a = .ok b := by
  cases e with
  | error e => exact ⟨fun h => (nomatch h), fun ⟨_, h, _⟩ => (nomatch h)⟩
  | ok a => exact ⟨fun h => ⟨a, rfl, h⟩, fun ⟨_, h, h'⟩ => (Except.ok.inj h) ▸ h'⟩

@[simp] theorem except_pure {ε α : Type} (a : α) : (pure a : Except ε α) = .ok a := rfl

end SuperForward

namespace SuperForward.Program

/-! ## Links -/

/-- The children of a handle; none if there is no such node. -/
def childrenOf (p : Program) (n : Handle) : List Handle :=
  (p.nodes[n]?.map (·.children)).getD []

/-- The parent of a handle, if there is such a node and it has one. -/
def parentOf (p : Program) (n : Handle) : Option Handle := p.nodes[n]?.bind (·.parent)

/-- The sort of a handle, if there is such a node. -/
def kindOf? (p : Program) (n : Handle) : Option NodeKind := p.nodes[n]?.map (·.kind)

/-- The links agree in both directions, and they lead upwards. -/
structure Forest (p : Program) : Prop where
  mem_children_iff : ∀ {n c}, c ∈ p.childrenOf n ↔ p.parentOf c = some n
  nodup_children : ∀ n, (p.childrenOf n).Nodup
  ranked : ∃ rank : Handle → Nat, (∀ n, rank n ≤ p.size) ∧
    ∀ {n c}, p.parentOf c = some n → rank c < rank n

/-- A node hangs below another one, or is the same. -/
inductive Below (p : Program) (n : Handle) : Handle → Prop
  | here : Below p n n
  | child {m c : Handle} (above : Below p n m) (link : p.parentOf c = some m) : Below p n c

/-! ## Questions about nodes that exist -/

theorem lt_size_iff {p : Program} {n : Handle} : n < p.size ↔ ∃ node, p.nodes[n]? = some node := by
  constructor
  · intro h
    exact ⟨p.nodes[n], Array.getElem?_eq_getElem h⟩
  · rintro ⟨node, h⟩
    exact (Array.getElem?_eq_some_iff.mp h).1

theorem node_eq_ok_iff {p : Program} {n : Handle} {node : Node} :
    p.node n = .ok node ↔ p.nodes[n]? = some node := by
  unfold Program.node
  cases p.nodes[n]? <;> simp

theorem node_of_lt {p : Program} {n : Handle} (h : n < p.size) :
    ∃ node, p.node n = .ok node ∧ p.nodes[n]? = some node := by
  obtain ⟨node, hnode⟩ := lt_size_iff.mp h
  exact ⟨node, node_eq_ok_iff.mpr hnode, hnode⟩

theorem children_of_lt {p : Program} {n : Handle} (h : n < p.size) :
    p.children n = .ok (p.childrenOf n) := by
  obtain ⟨node, hok, hnode⟩ := node_of_lt h
  simp only [children, hok, childrenOf, hnode]
  rfl

theorem parent_of_lt {p : Program} {n : Handle} (h : n < p.size) :
    p.parent n = .ok (p.parentOf n) := by
  obtain ⟨node, hok, hnode⟩ := node_of_lt h
  simp only [parent, hok, parentOf, hnode]
  rfl

theorem isKind_of_lt {p : Program} {k : NodeKind} {n : Handle} (h : n < p.size) :
    p.isKind k n = .ok (decide (p.kindOf? n = some k)) := by
  obtain ⟨node, hok, hnode⟩ := node_of_lt h
  simp only [isKind, hok, kindOf?, hnode]
  by_cases hk : node.kind = k
  · simp [hk, pure, Except.pure, bind, Except.bind]
  · simp [hk, pure, Except.pure, bind, Except.bind]

theorem kind_of_lt {p : Program} {n : Handle} (h : n < p.size) :
    ∃ k, p.kind n = .ok k ∧ p.kindOf? n = some k := by
  obtain ⟨node, hok, hnode⟩ := node_of_lt h
  refine ⟨node.kind, ?_, ?_⟩
  · simp only [kind, hok]
    rfl
  · simp [kindOf?, hnode]

theorem lt_size_of_parentOf {p : Program} {n c : Handle} (h : p.parentOf c = some n) :
    c < p.size := by
  unfold parentOf at h
  obtain ⟨node, hnode, -⟩ := Option.bind_eq_some_iff.mp h
  exact lt_size_iff.mpr ⟨node, hnode⟩

theorem lt_size_of_kindOf? {p : Program} {n : Handle} {k : NodeKind} (h : p.kindOf? n = some k) :
    n < p.size := by
  unfold kindOf? at h
  obtain ⟨node, hnode, -⟩ := Option.map_eq_some_iff.mp h
  exact lt_size_iff.mpr ⟨node, hnode⟩

theorem lt_size_of_mem_children {p : Program} {n c : Handle} (h : c ∈ p.childrenOf n) :
    n < p.size := by
  cases hnode : p.nodes[n]? with
  | none => simp [childrenOf, hnode] at h
  | some node => exact lt_size_iff.mpr ⟨node, hnode⟩

theorem ext_nodes {p q : Program} (h : ∀ n : Handle, p.nodes[n]? = q.nodes[n]?) : p = q := by
  obtain ⟨ps⟩ := p
  obtain ⟨qs⟩ := q
  congr 1
  exact Array.ext_getElem? h

/-! ## Descent -/

theorem Below.trans {p : Program} {a b c : Handle} (hab : p.Below a b) (hbc : p.Below b c) :
    p.Below a c := by
  induction hbc with
  | here => exact hab
  | child _ link ih => exact ih.child link

theorem Below.lt_size {p : Program} {n m : Handle} (h : p.Below n m) (hn : n < p.size) :
    m < p.size := by
  cases h with
  | here => exact hn
  | child _ link => exact lt_size_of_parentOf link

/-- A proper descendant hangs below a child. -/
theorem Below.eq_or_child {p : Program} {n m : Handle} (h : p.Below n m) :
    n = m ∨ ∃ c, p.parentOf c = some n ∧ p.Below c m := by
  induction h with
  | here => exact .inl rfl
  | child _ link ih =>
    rcases ih with rfl | ⟨c, hc, hcm⟩
    · exact .inr ⟨_, link, .here⟩
    · exact .inr ⟨c, hc, hcm.child link⟩

/-- Of two nodes above a third, one is above the other: a node has only one parent. -/
theorem Below.comparable {p : Program} {a b m : Handle} (ha : p.Below a m) (hb : p.Below b m) :
    p.Below a b ∨ p.Below b a := by
  induction ha with
  | here => exact .inr hb
  | child above link ih =>
    cases hb with
    | here => exact .inl (above.child link)
    | child above' link' =>
      rw [link] at link'
      cases link'
      exact ih above'

/-- What hangs above a node is below the topmost one above it. -/
theorem Below.of_above {p : Program} {top m n : Handle} (htop : p.parentOf top = none)
    (hn : p.Below top n) (hm : p.Below m n) : p.Below top m := by
  rcases hm.comparable hn with h | h
  · cases h with
    | here => exact .here
    | child _ link =>
      rw [htop] at link
      cases link
  · exact h

namespace Forest

variable {p : Program} (hp : Forest p)
include hp

theorem lt_size_of_mem {n c : Handle} (h : c ∈ p.childrenOf n) : c < p.size :=
  lt_size_of_parentOf (hp.mem_children_iff.mp h)

theorem parent_lt_size {n c : Handle} (h : p.parentOf c = some n) : n < p.size :=
  lt_size_of_mem_children (hp.mem_children_iff.mpr h)

theorem parent_above {n c : Handle} (h : p.parentOf c = some n) : ¬ p.Below c n := by
  obtain ⟨rank, -, hrank⟩ := hp.ranked
  have below_le : ∀ {a b : Handle}, p.Below a b → rank b ≤ rank a := by
    intro a b hab
    induction hab with
    | here => exact le_refl _
    | child _ link ih => exact le_trans (le_of_lt (hrank link)) ih
  intro hcn
  have h1 := below_le hcn
  have h2 := hrank h
  omega

theorem eq_of_below_of_below {a b : Handle} (hab : p.Below a b) (hba : p.Below b a) : a = b := by
  rcases hab.eq_or_child with h | ⟨c, hc, hcb⟩
  · exact h
  · exact absurd (hcb.trans hba) (hp.parent_above hc)

/-- What hangs below a node is the node or hangs below one of its children. -/
theorem eq_or_mem_below {n m : Handle} (h : p.Below n m) :
    m = n ∨ ∃ c ∈ p.childrenOf n, p.Below c m := by
  rcases h.eq_or_child with rfl | ⟨c, hc, hcm⟩
  · exact .inl rfl
  · exact .inr ⟨c, hp.mem_children_iff.mpr hc, hcm⟩

/-- Different children of one node share no descendant. -/
theorem child_eq_of_below {n a b m : Handle} (ha : p.parentOf a = some n)
    (hb : p.parentOf b = some n) (ham : p.Below a m) (hbm : p.Below b m) : a = b := by
  have key : ∀ {x y : Handle}, p.parentOf x = some n → p.parentOf y = some n →
      p.Below x y → x = y := by
    intro x y hx hy hxy
    cases hxy with
    | here => rfl
    | child above link =>
      rw [hy] at link
      cases link
      exact absurd above (hp.parent_above hx)
  rcases ham.comparable hbm with h | h
  · exact key ha hb h
  · exact (key hb ha h).symm

/-- Descent to the children ends everywhere. -/
theorem induction_on {motive : Handle → Prop} (n : Handle)
    (step : ∀ n, (∀ c ∈ p.childrenOf n, motive c) → motive n) : motive n := by
  obtain ⟨rank, -, hrank⟩ := hp.ranked
  induction hr : rank n using Nat.strongRecOn generalizing n with
  | ind r ih =>
    apply step
    intro c hc
    exact ih (rank c) (hr ▸ hrank (hp.mem_children_iff.mp hc)) c rfl

end Forest

/-! ## Orders -/

/-- The nodes of a subtree, children before parents, no deeper than some levels. -/
def postOrderWithin (p : Program) : (levels : Nat) → Handle → List Handle
  | 0, _ => []
  | levels + 1, n => (p.childrenOf n).flatMap (p.postOrderWithin levels) ++ [n]

/-- The node and all nodes below it, children before parents, siblings in order. -/
def postOrder (p : Program) (n : Handle) : List Handle := p.postOrderWithin (p.size + 1) n

/-- The nodes of a subtree, parents before children, no deeper than some levels. -/
def preOrderWithin (p : Program) : (levels : Nat) → Handle → List Handle
  | 0, _ => []
  | levels + 1, n => n :: (p.childrenOf n).flatMap (p.preOrderWithin levels)

/-- The node and all nodes below it, parents before children, siblings in order. -/
def preOrder (p : Program) (n : Handle) : List Handle := p.preOrderWithin (p.size + 1) n

/-- A walk that needs no more levels than its rank goes on is not cut short. -/
theorem Forest.levels_suffice {p : Program} (hp : Forest p) {α : Type}
    (f : Nat → Handle → α) (g : Handle → List α → α)
    (hf : ∀ levels n, f (levels + 1) n = g n ((p.childrenOf n).map (f levels))) (n : Handle) :
    f (p.size + 1) n = g n ((p.childrenOf n).map (f (p.size + 1))) := by
  obtain ⟨rank, hle, hrank⟩ := hp.ranked
  have key : ∀ r n, rank n = r → ∀ a b, r < a → r < b → f a n = f b n := by
    intro r
    induction r using Nat.strongRecOn with
    | ind r ih =>
      intro n hn a b ha hb
      obtain ⟨a, rfl⟩ : ∃ a', a = a' + 1 := ⟨a - 1, by omega⟩
      obtain ⟨b, rfl⟩ : ∃ b', b = b' + 1 := ⟨b - 1, by omega⟩
      rw [hf, hf]
      congr 1
      apply List.map_congr_left
      intro c hc
      have hlt := hrank (hp.mem_children_iff.mp hc)
      exact ih (rank c) (by omega) c rfl a b (by omega) (by omega)
  rw [hf]
  congr 1
  apply List.map_congr_left
  intro c hc
  have hlt := hrank (hp.mem_children_iff.mp hc)
  have hn := hle n
  exact key (rank c) c rfl p.size (p.size + 1) (by omega) (by omega)

theorem Forest.postOrder_eq {p : Program} (hp : Forest p) (n : Handle) :
    p.postOrder n = (p.childrenOf n).flatMap p.postOrder ++ [n] :=
  hp.levels_suffice p.postOrderWithin (fun n parts => parts.flatten ++ [n])
    (fun levels n => by simp [postOrderWithin, List.flatMap]) n

theorem Forest.preOrder_eq {p : Program} (hp : Forest p) (n : Handle) :
    p.preOrder n = n :: (p.childrenOf n).flatMap p.preOrder :=
  hp.levels_suffice p.preOrderWithin (fun n parts => n :: parts.flatten)
    (fun levels n => by simp [preOrderWithin, List.flatMap]) n

theorem Forest.mem_postOrder_iff {p : Program} (hp : Forest p) {n m : Handle} :
    m ∈ p.postOrder n ↔ p.Below n m := by
  constructor
  · refine hp.induction_on (motive := fun n => m ∈ p.postOrder n → p.Below n m) n ?_
    intro n ih h
    rw [hp.postOrder_eq, List.mem_append, List.mem_flatMap, List.mem_singleton] at h
    rcases h with ⟨c, hc, hm⟩ | rfl
    · exact (Below.here.child (hp.mem_children_iff.mp hc)).trans (ih c hc hm)
    · exact .here
  · refine hp.induction_on (motive := fun n => p.Below n m → m ∈ p.postOrder n) n ?_
    intro n ih h
    rw [hp.postOrder_eq, List.mem_append, List.mem_flatMap, List.mem_singleton]
    rcases h.eq_or_child with rfl | ⟨c, hc, hcm⟩
    · exact .inr rfl
    · have hmem := hp.mem_children_iff.mpr hc
      exact .inl ⟨c, hmem, ih c hmem hcm⟩

theorem Forest.mem_preOrder_iff {p : Program} (hp : Forest p) {n m : Handle} :
    m ∈ p.preOrder n ↔ p.Below n m := by
  constructor
  · refine hp.induction_on (motive := fun n => m ∈ p.preOrder n → p.Below n m) n ?_
    intro n ih h
    rw [hp.preOrder_eq, List.mem_cons, List.mem_flatMap] at h
    rcases h with rfl | ⟨c, hc, hm⟩
    · exact .here
    · exact (Below.here.child (hp.mem_children_iff.mp hc)).trans (ih c hc hm)
  · refine hp.induction_on (motive := fun n => p.Below n m → m ∈ p.preOrder n) n ?_
    intro n ih h
    rw [hp.preOrder_eq, List.mem_cons, List.mem_flatMap]
    rcases h.eq_or_child with rfl | ⟨c, hc, hcm⟩
    · exact .inl rfl
    · have hmem := hp.mem_children_iff.mpr hc
      exact .inr ⟨c, hmem, ih c hmem hcm⟩

/-- The walk meets no node twice. -/
theorem Forest.nodup_postOrder {p : Program} (hp : Forest p) (n : Handle) :
    (p.postOrder n).Nodup := by
  refine hp.induction_on (motive := fun n => (p.postOrder n).Nodup) n ?_
  intro n ih
  rw [hp.postOrder_eq, List.nodup_append]
  refine ⟨?_, List.nodup_singleton n, ?_⟩
  · rw [List.nodup_flatMap]
    refine ⟨ih, ?_⟩
    refine (hp.nodup_children n).imp_of_mem ?_
    intro a b ha hb hne m hma hmb
    exact hne (hp.child_eq_of_below (hp.mem_children_iff.mp ha) (hp.mem_children_iff.mp hb)
      (hp.mem_postOrder_iff.mp hma) (hp.mem_postOrder_iff.mp hmb))
  · intro a ha b hb hab
    rw [List.mem_singleton] at hb
    subst hb hab
    obtain ⟨c, hc, hm⟩ := List.mem_flatMap.mp ha
    exact hp.parent_above (hp.mem_children_iff.mp hc) (hp.mem_postOrder_iff.mp hm)

/-- Both orders visit the same nodes. -/
theorem Forest.preOrder_perm {p : Program} (hp : Forest p) (n : Handle) :
    (p.preOrder n).Perm (p.postOrder n) := by
  refine hp.induction_on (motive := fun n => (p.preOrder n).Perm (p.postOrder n)) n ?_
  intro n ih
  rw [hp.preOrder_eq, hp.postOrder_eq]
  exact ((List.Perm.flatMap_left _ ih).cons n).trans (List.perm_append_singleton n _).symm

theorem Forest.length_postOrder_le {p : Program} (hp : Forest p) {n : Handle}
    (hn : n < p.size) : (p.postOrder n).length ≤ p.size := by
  have hsub : p.postOrder n ⊆ List.range p.size := by
    intro m hm
    exact List.mem_range.mpr ((hp.mem_postOrder_iff.mp hm).lt_size hn)
  simpa using ((hp.nodup_postOrder n).subperm hsub).length_le

/-! ## Walks of the program -/

theorem mapM_ok {α β : Type} {ε : Type} {f : α → Except ε β} {g : α → β} {l : List α}
    (h : ∀ a ∈ l, f a = .ok (g a)) : l.mapM f = .ok (l.map g) := by
  induction l with
  | nil => rfl
  | cons a l ih =>
    rw [List.mapM_cons, h a (List.mem_cons_self ..),
      ih fun b hb => h b (List.mem_cons_of_mem _ hb)]
    rfl

theorem exists_mapM_ok {α β : Type} {ε : Type} {f : α → Except ε β} {l : List α}
    (h : ∀ a ∈ l, ∃ b, f a = .ok b) :
    ∃ bs, l.mapM f = .ok bs ∧ ∀ b ∈ bs, ∃ a ∈ l, f a = .ok b := by
  induction l with
  | nil => exact ⟨[], rfl, by simp⟩
  | cons a l ih =>
    obtain ⟨⟨b, hb⟩, h⟩ := List.forall_mem_cons.mp h
    obtain ⟨bs, hbs, hfrom⟩ := ih h
    refine ⟨b :: bs, by rw [List.mapM_cons, hb, hbs]; rfl, ?_⟩
    refine List.forall_mem_cons.mpr ⟨⟨a, List.mem_cons_self .., hb⟩, fun b' hb' => ?_⟩
    obtain ⟨a', ha', heq⟩ := hfrom b' hb'
    exact ⟨a', List.mem_cons_of_mem _ ha', heq⟩

theorem Forest.subtreeWithin_eq {p : Program} (hp : Forest p) (levels : Nat) {n : Handle}
    (hn : n < p.size) : p.subtreeWithin levels n = .ok (p.preOrderWithin levels n) := by
  induction levels generalizing n with
  | zero => rfl
  | succ levels ih =>
    have hbelow : (p.childrenOf n).mapM (p.subtreeWithin levels)
        = .ok ((p.childrenOf n).map (p.preOrderWithin levels)) :=
      mapM_ok fun c hc => ih (hp.lt_size_of_mem hc)
    simp only [subtreeWithin, children_of_lt hn, preOrderWithin, List.flatMap]
    rw [show (Except.ok (p.childrenOf n) >>= fun cs => do
        let below ← cs.mapM (p.subtreeWithin levels)
        pure (n :: below.flatten)) = ((p.childrenOf n).mapM (p.subtreeWithin levels) >>=
          fun below => pure (n :: below.flatten)) from rfl, hbelow]
    rfl

/-- The subtree of a node is the walk that visits parents first. -/
theorem Forest.subtree_eq {p : Program} (hp : Forest p) {n : Handle} (hn : n < p.size) :
    p.subtree n = .ok (p.preOrder n) := hp.subtreeWithin_eq _ hn

/-- Within enough steps the parent links lead to the root from the nodes below it, and from no
others. -/
theorem Forest.isAttached_eq {p : Program} (hp : Forest p) {n : Handle} (hn : n < p.size) :
    ∃ b : Bool, p.isAttached n = .ok b ∧ (b = true ↔ p.Below root n) := by
  obtain ⟨rank, hle, hrank⟩ := hp.ranked
  -- each step goes one rank up, and no rank is larger than the program, so the steps are enough
  have key : ∀ steps n, n < p.size → p.size < rank n + steps →
      ∃ b : Bool, p.reachesRoot steps n = .ok b ∧ (b = true ↔ p.Below root n) := by
    intro steps
    induction steps with
    | zero =>
      intro n _ hr
      have := hle n
      omega
    | succ steps ih =>
      intro n hn hr
      unfold reachesRoot
      by_cases hroot : n = root
      · exact ⟨true, by simp [hroot], by simp [hroot, Below.here]⟩
      · simp only [hroot, if_false, parent_of_lt hn]
        cases hparent : p.parentOf n with
        | none =>
          refine ⟨false, rfl, ?_⟩
          simp only [Bool.false_eq_true, false_iff]
          intro h
          cases h with
          | here => exact hroot rfl
          | child _ link => rw [hparent] at link; cases link
        | some above =>
          have hlt := hrank hparent
          obtain ⟨b, hb, hiff⟩ := ih above (hp.parent_lt_size hparent) (by omega)
          refine ⟨b, hb, hiff.trans ⟨fun h => h.child hparent, fun h => ?_⟩⟩
          cases h with
          | here => exact absurd rfl hroot
          | child up link =>
            rw [hparent] at link
            cases link
            exact up
  exact key (p.size + 1) n hn (by omega)

end SuperForward.Program
