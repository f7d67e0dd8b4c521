/-
  Every node of a program of scripts hangs below the root.

  Making the nodes of a phrase leaves no node over: the new nodes without a parent are those
  that are handed on, to be put below others. This holds as long as a function has no more than
  one list of parameters and no more than one body, which the grammar sees to; a second one
  would be made and then forgotten.
-/
import SuperForward.Proofs.Program.Ordering

namespace SuperForward

open SuperForward.Script
open SuperForward.Program (Grown root)

namespace Program

/-- `q` has grown out of `p`, and of its new nodes only the nodes `tops` have no parent. -/
structure Filled (p q : Program) (tops : List Handle) : Prop extends Grown p q tops where
  complete : ∀ n : Nat, p.size ≤ n → n < q.size → q.parentOf n = none → n ∈ tops

theorem Filled.refl (p : Program) : Filled p p [] :=
  ⟨.refl p, fun _ hle hlt _ => absurd hlt (Nat.not_lt.mpr hle)⟩

theorem Filled.trans {p q r : Program} {xs ys : List Handle} (hpq : Filled p q xs)
    (hqr : Filled q r ys) : Filled p r (xs ++ ys) where
  toGrown := hpq.toGrown.trans hqr.toGrown
  complete n hle hlt hnone := by
    rw [List.mem_append]
    by_cases hn : n < q.size
    · rw [parentOf_eq_of_nodes_eq (hqr.old n hn)] at hnone
      exact .inl (hpq.complete n hle hn hnone)
    · exact .inr (hqr.complete n (Nat.not_lt.mp hn) hlt hnone)

/-- The nodes that are handed on may come in another order. -/
theorem Filled.perm {p q : Program} {xs ys : List Handle} (h : Filled p q xs)
    (hperm : xs.Perm ys) : Filled p q ys :=
  ⟨h.toGrown.subset hperm.symm.subset (hperm.nodup_iff.mp h.nodup),
    fun n hle hlt hnone => hperm.subset (h.complete n hle hlt hnone)⟩

/-- A node is put above some of the nodes that were handed on. -/
theorem Filled.add {p q : Program} {xs ys : List Handle} (h : Filled p q (xs ++ ys)) (node : Node)
    (hparent : node.parent = none) (htype : node.type = none) :
    Filled p (q.add node xs).1 ((q.add node xs).2 :: ys) where
  toGrown := h.toGrown.add node hparent htype
  complete n hle hlt hnone := by
    rw [size_add] at hlt
    rw [parentOf_add hparent fun m hm => (h.new m (List.mem_append_left ys hm)).2.1] at hnone
    rcases Nat.lt_succ_iff_lt_or_eq.mp hlt with hn | rfl
    · split at hnone
      · cases hnone
      · next hnot =>
        have hmem := h.complete n hle hn hnone
        exact List.mem_cons_of_mem _ ((List.mem_append.mp hmem).resolve_left hnot)
    · exact List.mem_cons_self ..

/-- The documentation of a new node is attached to a new node. -/
theorem Grown.le_docTarget {p q : Program} {tops : List Handle} (h : Grown p q tops) {n : Nat}
    (hn : p.size ≤ n) : p.size ≤ q.docTarget n := by
  unfold docTarget
  split
  · next node hnode =>
    split
    · next child _ hchild =>
      have hmem : child ∈ q.childrenOf n := by
        unfold childrenOf
        rw [hnode]
        exact List.mem_of_mem_head? hchild
      split
      · exact ((h.mem_children_iff hn).mp hmem).1
      · exact hn
    · exact hn
  · exact hn

theorem Filled.setDoc {p q : Program} {tops : List Handle} (h : Filled p q tops) {m : Nat}
    (hm : p.size ≤ m) (d : Option DocComment) : Filled p (q.setDoc m d) tops where
  toGrown := h.toGrown.setDoc hm d
  complete n hle hlt hnone := by
    rw [size_setDoc] at hlt
    rw [parentOf_setDoc] at hnone
    exact h.complete n hle hlt hnone

end Program

open SuperForward.Program (Filled)

/-! ## Making the nodes of a phrase -/

namespace Build

/-- The program grows by a node and by what hangs below it, and by nothing else. -/
def Fills (b : Build Handle) : Prop := ∀ p : Program, Filled p (b.run p).2 [(b.run p).1]

/-- The program grows by nodes and by what hangs below them, and by nothing else. -/
def FillsAll (b : Build (List Handle)) : Prop := ∀ p : Program, Filled p (b.run p).2 (b.run p).1

theorem FillsAll.make {b : Build (List Handle)} (h : FillsAll b) (kind : NodeKind) (text : String)
    (e : Extent) : Fills (b >>= make kind text e) := by
  intro p
  rw [run_bind, run_make]
  have hfilled : Filled p (b.run p).2 ((b.run p).1 ++ []) := by
    rw [List.append_nil]
    exact h p
  exact hfilled.add _ rfl rfl

theorem fillsAll_nil : FillsAll (pure []) := .refl

theorem fills_leaf (kind : NodeKind) (text : String) (e : Extent) :
    Fills (make kind text e []) := fillsAll_nil.make kind text e

theorem Fills.singleton {b : Build Handle} (h : Fills b) : FillsAll (do return [← b]) := h

theorem Fills.cons {b : Build Handle} (h : Fills b) {c : Build (List Handle)} (hc : FillsAll c) :
    FillsAll (do let n ← b; let ns ← c; return n :: ns) :=
  fun p => (h p).trans (hc (b.run p).2)

theorem ofToken_fills (t : Token) : Fills (ofToken t) := by
  unfold ofToken
  cases t.kind <;> exact fills_leaf _ _ _

/-- A part of a phrase leaves nothing over, whether its own node is made or only those of the
phrases inside it. -/
structure PartFills (y : Tree) : Prop where
  own : Fills (ofTree y)
  inner : FillsAll (inside y)

section Parts

variable {parts : List Tree} (hparts : ∀ y ∈ parts, PartFills y)
include hparts

theorem ownOf_fills : FillsAll (ownOf (piecesOf parts)) := by
  induction parts with
  | nil => exact fillsAll_nil
  | cons y ys ih =>
    obtain ⟨hy, hys⟩ := List.forall_mem_cons.mp hparts
    rw [piecesOf, ownOf]
    split
    · exact hy.own.cons (ih hys)
    · exact ih hys

omit hparts in
/-- Where there is no list of parameters, none is made. -/
theorem functionParts_fst {xs : List Tree} (h : ∀ x ∈ xs, ¬ ∃ ps, x = .node .params ps)
    (p : Program) : ((functionParts (piecesOf xs)).run p).1.1 = [] := by
  induction xs generalizing p with
  | nil => rfl
  | cons x xs ih =>
    obtain ⟨hx, hxs⟩ := List.forall_mem_cons.mp h
    cases x with
    | leaf t =>
      rw [piecesOf, functionParts_leaf rfl]
      exact ih hxs p
    | node r ps =>
      rw [piecesOf, functionParts_node rfl (by rintro rfl; exact hx ⟨ps, rfl⟩), run_bind]
      exact ih hxs _

omit hparts in
/-- Where there are only tokens, neither parameters nor a body are made. -/
theorem functionParts_leaves {xs : List Tree} (h : ∀ x ∈ xs, ∃ t, x = .leaf t) :
    functionParts (piecesOf xs) = pure ([], []) := by
  induction xs with
  | nil => rfl
  | cons x xs ih =>
    obtain ⟨⟨t, rfl⟩, hxs⟩ := List.forall_mem_cons.mp h
    rw [piecesOf, functionParts_leaf rfl]
    exact ih hxs

/-- The parameters and the body of a function leave nothing over. -/
theorem functionParts_fills (hfirst : Sketch.ParamsFirst parts) (p : Program) :
    Filled p ((functionParts (piecesOf parts)).run p).2
      (((functionParts (piecesOf parts)).run p).1.1
        ++ ((functionParts (piecesOf parts)).run p).1.2) := by
  induction parts generalizing p with
  | nil => exact .refl p
  | cons y ys ih =>
    obtain ⟨hy, hys⟩ := List.forall_mem_cons.mp hparts
    have hrest := (List.pairwise_cons.mp hfirst).2
    cases y with
    | leaf t =>
      rw [piecesOf, functionParts_leaf rfl]
      exact ih hys hrest p
    | node r ps =>
      by_cases hr : r = .params
      · subst hr
        rw [piecesOf, functionParts_params rfl]
        have htail := ih hys hrest ((inside (.node .params ps)).run p).2
        rw [functionParts_fst hfirst.after_params, List.nil_append] at htail
        exact (hy.inner p).trans htail
      · rw [piecesOf, functionParts_node rfl hr, functionParts_leaves (hfirst.after_body hr)]
        exact hy.own p

end Parts

/-- The name, the list of the parameters and the function itself are put above parameters and
a body that were made before. -/
theorem functionAbove_fills {p q : Program} {params body : List Handle}
    (hparts : Filled p q (params ++ body)) (nameText : String) (nameExtent here : Extent)
    (text : String) (e : Extent) (b : Build Handle)
    (hb : b = do
      let nameNode ← make .name nameText nameExtent []
      let paramList ← make .paramList "" here params
      make .function text e (nameNode :: paramList :: body)) :
    Filled p (b.run q).2 [(b.run q).1] := by
  subst hb
  have hnamed := fills_leaf .name nameText nameExtent q
  simp only [run_bind]
  generalize (make .name nameText nameExtent []).run q = named at hnamed ⊢
  obtain ⟨nameNode, r⟩ := named
  dsimp only at hnamed ⊢
  simp only [run_make]
  have hall : Filled p r (params ++ (body ++ [nameNode])) := by
    rw [← List.append_assoc]
    exact hparts.trans hnamed
  have hlisted := hall.add (.fresh .paramList "" here.start here.stop here.line) rfl rfl
  generalize r.add (.fresh .paramList "" here.start here.stop here.line) params = listed
    at hlisted ⊢
  obtain ⟨r', list⟩ := listed
  dsimp only at hlisted ⊢
  have hperm : (list :: (body ++ [nameNode])).Perm ((nameNode :: list :: body) ++ []) := by
    rw [List.append_nil]
    exact (List.Perm.cons _ List.perm_append_comm).trans (.swap _ _ _)
  exact (hlisted.perm hperm).add _ rfl rfl

theorem function_fills (x : Tree) {parts : List Tree} (hparts : ∀ y ∈ parts, PartFills y)
    (hfirst : Sketch.ParamsFirst parts) : Fills (function x (piecesOf parts)) := by
  intro p
  have hfilled := functionParts_fills hparts hfirst p
  unfold function
  simp only [run_bind]
  cases functionName? (piecesOf parts) with
  | none => exact functionAbove_fills hfilled _ _ _ _ _ _ rfl
  | some t => exact functionAbove_fills hfilled _ _ _ _ _ _ rfl

theorem FillsAll.parenthesized {b : Build (List Handle)} (h : FillsAll b) (text : String)
    (e : Extent) :
    Fills (do
      match ← b with
      | [n] => return n
      | ns => Build.make .other text e ns) := by
  intro p
  have hfilled := h p
  have hmake := h.make .other text e p
  rw [run_bind] at hmake ⊢
  generalize b.run p = made at hfilled hmake ⊢
  obtain ⟨ns, q⟩ := made
  match ns with
  | [] => exact hmake
  | [_] => exact hfilled
  | _ :: _ :: _ => exact hmake

/-- A rule leaves nothing over: what its parts have made is put below its node. -/
theorem ofRule_fills (x : Tree) {rule : Rule} {parts : List Tree}
    (hparts : ∀ y ∈ parts, PartFills y)
    (hfirst : rule = .functionDeclaration ∨ rule = .functionExpression →
      Sketch.ParamsFirst parts) : Fills (ofRule x rule (piecesOf parts)) := by
  have hown := ownOf_fills hparts
  have hother (word : String) :
      Fills (ownOf (piecesOf parts) >>= make .other word x.extent) := hown.make _ _ _
  -- most rules make one node over all parts; the others look at the first parts, and are
  -- followed part by part
  cases rule
  case parenthesized => exact hown.parenthesized _ _
  case functionDeclaration => exact function_fills x hparts (hfirst (.inl rfl))
  case functionExpression => exact function_fills x hparts (hfirst (.inr rfl))
  case declarator =>
    cases parts with
    | nil => exact hother _
    | cons y ys => exact (ownOf_fills (List.forall_mem_cons.mp hparts).2).make _ _ _
  case getProp =>
    rcases parts with _ | ⟨a, _ | ⟨b, _ | ⟨c, _ | ⟨d, ds⟩⟩⟩⟩
    case cons.cons.cons.nil =>
      have htwo : ∀ y ∈ [a, b], PartFills y := fun y hy =>
        hparts y (List.mem_append_left [c] hy)
      exact (ownOf_fills htwo).make _ _ _
    all_goals exact hother _
  case call =>
    rcases parts with _ | ⟨a, _ | ⟨b, _ | ⟨c, cs⟩⟩⟩
    case cons.cons.nil =>
      exact ((hparts a (by simp)).own.cons (hparts b (by simp)).inner).make _ _ _
    all_goals exact hother _
  case assign =>
    rcases parts with _ | ⟨a, _ | ⟨b, _ | ⟨c, _ | ⟨d, ds⟩⟩⟩⟩
    case cons.cons.cons.nil =>
      have hboth := (hparts a (by simp)).own.cons (hparts c (by simp)).own.singleton
      simp only [piecesOf, ofRule]
      split
      · exact hboth.make _ _ _
      · exact hboth.make _ _ _
    all_goals exact hother _
  case name => exact fills_leaf _ _ _
  case simpleParam => exact fills_leaf _ _ _
  case this => exact fills_leaf _ _ _
  case number => exact fills_leaf _ _ _
  case string => exact fills_leaf _ _ _
  case template => exact fills_leaf _ _ _
  all_goals exact hown.make _ _ _

/-- Documentation makes no nodes. -/
theorem documented_fills (x : Tree) {rule : Rule} {parts : List Tree}
    (hrule : Fills (ofRule x rule (piecesOf parts))) :
    Fills (documented x rule (piecesOf parts)) := by
  unfold documented
  cases rule.isStatement with
  | false => exact hrule
  | true =>
    cases hdoc : x.docBefore? with
    | none =>
      simp only [attachDoc, hdoc]
      exact hrule
    | some d =>
      intro p
      have hfilled := hrule p
      have hnew := (hfilled.new _ (List.mem_singleton_self _)).1
      simp only [attachDoc, hdoc]
      exact hfilled.setDoc (hfilled.toGrown.le_docTarget hnew) _

/-- The nodes of a phrase that the grammar forms leave nothing over. -/
theorem partFills_of_formed {depth : Nat} {c : Category} {x : Tree} (h : Formed depth c x) :
    PartFills x := by
  have hleaf (t : Token) : PartFills (.leaf t) := ⟨ofToken_fills t, fillsAll_nil⟩
  induction x using Tree.induction_on generalizing depth c with
  | leaf t => exact hleaf t
  | node r parts ih =>
    obtain ⟨hparts, hfirst⟩ := Sketch.parts_of_formed h
    have hfills : ∀ y ∈ parts, PartFills y := by
      intro y hy
      rcases hparts y hy with ⟨t, rfl⟩ | ⟨d, c', hy'⟩
      · exact hleaf t
      · exact ih y hy hy'
    exact ⟨documented_fills _ (ofRule_fills _ hfills hfirst), ownOf_fills hfills⟩

end Build

/-! ## Programs of scripts -/

namespace Program

/-- Only the root has no parent. -/
def Whole (p : Program) : Prop := ∀ n < p.size, p.parentOf n = none → n = root

theorem whole_empty : empty.Whole := fun _ hn _ => Nat.lt_one_iff.mp hn

/-- A script is put below the root with everything that is new. -/
theorem Whole.hang {p q : Program} (hp : p.Whole) (hroot : root < p.size) {n : Nat}
    (h : Filled p q [n]) : (q.hang n).Whole := by
  obtain ⟨hle, hlt, -⟩ := h.new n (List.mem_singleton_self n)
  have hne : n ≠ root := Nat.ne_of_gt (Nat.lt_of_lt_of_le hroot hle)
  intro m hm hnone
  rw [size_hang] at hm
  rw [parentOf_hang hne hlt] at hnone
  split at hnone
  · cases hnone
  · next hmn =>
    by_cases hmp : m < p.size
    · rw [parentOf_eq_of_nodes_eq (h.old m hmp)] at hnone
      exact hp m hmp hnone
    · exact absurd (List.mem_singleton.mp (h.complete m (Nat.not_lt.mp hmp) hm hnone)) hmn

theorem Whole.addSources {p : Program} {scripts : List Sketch} (hcomposed : p.Composed scripts)
    (hp : p.Whole) (sources : List Source) : (p.addSources sources).1.Whole := by
  induction sources generalizing p scripts with
  | nil => exact hp
  | cons s rest ih =>
    unfold Program.addSources addText
    cases hread : Script.read s.text with
    | error e => exact ih hcomposed hp
    | ok statements =>
      have hfills : ∀ x ∈ statements, Build.PartFills x := by
        intro x hx
        obtain ⟨depth, hformed⟩ := mem_statements (statementsStand_of_read hread).1 x hx
        exact Build.partFills_of_formed hformed
      have hscript := (Build.ownOf_fills hfills).make .script s.path ⟨0, s.text.length, 1⟩ p
      exact ih (hcomposed.addScript s.path s.text.length statements)
        (hp.hang hcomposed.root_lt_size hscript)

/-- Above every node of a forest, or at it, there is one that has no parent. -/
theorem Forest.exists_top {p : Program} (hp : p.Forest) {n : Handle} (hn : n < p.size) :
    ∃ top < p.size, p.Below top n ∧ p.parentOf top = none := by
  obtain ⟨rank, hle, hrank⟩ := hp.ranked
  -- ranks grow upwards, and are bounded
  induction hk : p.size - rank n using Nat.strong_induction_on generalizing n with
  | _ k ih =>
    cases hparent : p.parentOf n with
    | none => exact ⟨n, hn, .here, hparent⟩
    | some above =>
      have hlt := hrank hparent
      have hbound := hle above
      obtain ⟨top, htop, hbelow, hnone⟩ :=
        ih _ (by omega) (hp.parent_lt_size hparent) rfl
      exact ⟨top, htop, hbelow.child hparent, hnone⟩

/-- Only the root of the program of some sources has no parent. -/
theorem whole_ofSources (sources : List Source) : (ofSources sources).1.Whole :=
  whole_empty.addSources composed_empty sources

end Program

end SuperForward
