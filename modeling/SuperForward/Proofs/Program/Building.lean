/-
  The nodes of a phrase show its sketch.

  Making the nodes of a phrase grows the program by nodes that show the sketch of the phrase.
  This is proved along the tree: what is made first stays as it is while the rest is made, so
  that the node above finds everything below it in place. Adding whole scripts gives a forest
  in which every node below the root belongs to the sketch of a script.
-/
import SuperForward.Proofs.Program.Growth

namespace SuperForward

open SuperForward.Script
open SuperForward.Program (Grown Keeps)

/-! ## Documentation -/

namespace Program

theorem nodes_setDoc {q : Program} {m n : Handle} {d : Option DocComment} :
    (q.setDoc m d).nodes[n]? =
      (q.nodes[n]?).map fun node => if m = n then { node with doc := d } else node := by
  unfold Program.setDoc Program.update
  rw [Array.getElem?_modify]
  by_cases h : m = n
  · simp [h]
  · cases q.nodes[n]? <;> simp [h]

theorem size_setDoc {q : Program} {m : Handle} {d : Option DocComment} :
    (q.setDoc m d).size = q.size := by
  simp [Program.size, Program.setDoc, Program.update]

theorem parentOf_setDoc {q : Program} {m n : Handle} {d : Option DocComment} :
    (q.setDoc m d).parentOf n = q.parentOf n := by
  unfold parentOf
  rw [nodes_setDoc]
  cases q.nodes[n]? with
  | none => rfl
  | some node =>
    simp only [Option.map_some, Option.bind_some]
    split <;> rfl

theorem childrenOf_setDoc {q : Program} {m n : Handle} {d : Option DocComment} :
    (q.setDoc m d).childrenOf n = q.childrenOf n := by
  unfold childrenOf
  rw [nodes_setDoc]
  cases q.nodes[n]? with
  | none => rfl
  | some node =>
    simp only [Option.map_some, Option.getD_some]
    split <;> rfl

theorem Grown.setDoc {p q : Program} {tops : List Handle} (h : Grown p q tops) {m : Nat}
    (hm : p.size ≤ m) (d : Option DocComment) : Grown p (q.setDoc m d) tops where
  size_le := by
    rw [size_setDoc]
    exact h.size_le
  old n hn := by
    have hne : ¬ m = n := by omega
    rw [nodes_setDoc, h.old n hn]
    cases p.nodes[n]? <;> simp [hne]
  new n hn := by
    rw [size_setDoc, parentOf_setDoc]
    exact h.new n hn
  nodup := h.nodup
  mem_children_iff := by
    intro n c hn
    rw [childrenOf_setDoc, parentOf_setDoc]
    exact h.mem_children_iff hn
  nodup_children n hn := by
    rw [childrenOf_setDoc]
    exact h.nodup_children n hn
  younger := by
    intro n c hc hparent
    rw [parentOf_setDoc] at hparent
    rw [size_setDoc]
    exact h.younger hc hparent
  untyped n node hn hnode := by
    rw [nodes_setDoc] at hnode
    obtain ⟨node', hnode', rfl⟩ := Option.map_eq_some_iff.mp hnode
    have := h.untyped n node' hn hnode'
    split <;> exact this

theorem Grown.shows_setDoc {p q : Program} {tops : List Handle} (h : Grown p q tops) {n : Nat}
    (hn : p.size ≤ n) {s : Sketch} (hs : q.Shows n s) (d : DocComment) :
    (q.setDoc n (some d)).Shows n (s.setDoc d) := by
  obtain ⟨node, hnode, hkind, htext, -, hextent, hchildren⟩ := shows_iff.mp hs
  rw [shows_iff]
  refine ⟨{ node with doc := some d }, ?_, ?_⟩
  · rw [nodes_setDoc, hnode, Option.map_some, if_pos rfl]
  -- the nodes below are older, and nothing is said about them
  have hbelow : List.Forall₂ (q.setDoc n (some d)).Shows node.children s.children := by
    have hold : ∀ c : Nat, c ∈ node.children → p.size ≤ c ∧ c < n := by
      intro c hc
      have hc' : c ∈ q.childrenOf n := by
        unfold childrenOf
        rw [hnode]
        exact hc
      obtain ⟨hle, hparent⟩ := (h.mem_children_iff hn).mp hc'
      exact ⟨hle, (h.younger hle hparent).1⟩
    refine forall₂_imp_of_mem (fun c hc s' _ hs' => ?_) hchildren
    refine hs'.congr (S := fun m => p.size ≤ m ∧ m < n) ?_ ?_ (hold c hc)
    · rintro m ⟨hle, hlt⟩ c hc
      obtain ⟨hle', hparent⟩ := (h.mem_children_iff hle).mp hc
      exact ⟨hle', (h.younger hle' hparent).1.trans hlt⟩
    · rintro m node' ⟨-, hlt⟩ hm
      have hne : ¬ n = m := Nat.ne_of_gt hlt
      refine ⟨node'.parent, ?_⟩
      rw [nodes_setDoc, hm, Option.map_some, if_neg hne]
  cases s with
  | mk kind text doc extent children => exact ⟨hkind, htext, rfl, hextent, hbelow⟩

theorem docTarget_eq {q : Program} {n : Handle} {s : Sketch} (h : q.Shows n s) :
    (q.docTarget n = n ∧ ∀ d, s.document d = s.setDoc d) ∨
    ∃ c cs s' ss, q.childrenOf n = c :: cs ∧ s.children = s' :: ss ∧ q.Shows c s' ∧
      List.Forall₂ q.Shows cs ss ∧ q.docTarget n = c ∧
      ∀ d, s.document d = .mk s.kind s.text s.doc s.extent (s'.setDoc d :: ss) := by
  obtain ⟨node, hnode, hkind, -, -, -, hchildren⟩ := shows_iff.mp h
  cases s with
  | mk kind text doc extent children =>
    simp only [Sketch.kind, Sketch.children] at hkind hchildren
    unfold docTarget
    rw [hnode]
    -- only an assignment that is a statement hands its comment on, to its first child
    by_cases hexpr : kind = .exprResult
    · subst hexpr
      cases hchildren' : node.children with
      | nil =>
        rw [hchildren', List.forall₂_nil_left_iff] at hchildren
        subst hchildren
        left
        simp [hkind, hchildren', Sketch.document]
      | cons c cs =>
        rw [hchildren', List.forall₂_cons_left_iff] at hchildren
        obtain ⟨s', ss, hs', hss, rfl⟩ := hchildren
        obtain ⟨cnode, hcnode, hckind, -⟩ := shows_iff.mp hs'
        by_cases hassign : s'.kind = .assign
        · right
          refine ⟨c, cs, s', ss, ?_, rfl, hs', hss, ?_, ?_⟩
          · unfold childrenOf
            rw [hnode]
            exact hchildren'
          · simp [hkind, hchildren', hcnode, hckind, hassign]
          · intro d
            rw [Sketch.document, if_pos hassign]
            rfl
        · left
          refine ⟨?_, ?_⟩
          · simp [hkind, hchildren', hcnode, hckind, hassign]
          · intro d
            simp [Sketch.document, hassign, Sketch.setDoc]
    · left
      refine ⟨?_, ?_⟩
      · simp [hkind, hexpr]
      · intro d
        cases kind <;> first | rfl | exact absurd rfl hexpr

/-- A statement gets its documentation as its sketch does. -/
theorem Grown.shows_document {p q : Program} {tops : List Handle} (h : Grown p q tops) {n : Nat}
    (hn : p.size ≤ n) {s : Sketch} (hs : q.Shows n s) (d : DocComment) :
    Grown p (q.setDoc (q.docTarget n) (some d)) tops ∧
      (q.setDoc (q.docTarget n) (some d)).Shows n (s.document d) := by
  rcases docTarget_eq hs with ⟨htarget, hdocument⟩ |
    ⟨c, cs, s', ss, hchildren, -, hs', hss, htarget, hdocument⟩
  · rw [htarget, hdocument]
    exact ⟨h.setDoc hn _, h.shows_setDoc hn hs d⟩
  · rw [htarget, hdocument]
    have hc : p.size ≤ c ∧ q.parentOf c = some n :=
      (h.mem_children_iff hn).mp (hchildren ▸ List.mem_cons_self ..)
    refine ⟨h.setDoc hc.1 _, ?_⟩
    obtain ⟨node, hnode, hkind, htext, hdoc, hextent, -⟩ := shows_iff.mp hs
    have hcn : c < n := (h.younger hc.1 hc.2).1
    have hne : ¬ c = n := Nat.ne_of_lt hcn
    rw [shows_iff]
    refine ⟨node, ?_, hkind, htext, hdoc, hextent, ?_⟩
    · rw [nodes_setDoc, hnode, Option.map_some, if_neg hne]
    have hnode_children : node.children = c :: cs := by
      rw [← hchildren]
      unfold childrenOf
      rw [hnode]
      rfl
    rw [hnode_children]
    refine .cons (h.shows_setDoc hc.1 hs' d) ?_
    -- the other children do not have the first one below them
    refine forall₂_imp_of_mem (fun m hm t _ ht => ?_) hss
    have hm' : m ∈ q.childrenOf n := hchildren ▸ List.mem_cons_of_mem _ hm
    obtain ⟨hle, hparent⟩ := (h.mem_children_iff hn).mp hm'
    have hnodup := h.nodup_children n hn
    rw [hchildren] at hnodup
    have hmc : m ≠ c := fun h => (List.nodup_cons.mp hnodup).1 (h ▸ hm)
    refine ht.congr (S := fun m => p.size ≤ m ∧ m < n ∧ m ≠ c) ?_ ?_
      ⟨hle, (h.younger hle hparent).1, hmc⟩
    · rintro k ⟨hk, hkn, -⟩ k' hk'
      obtain ⟨hle', hparent'⟩ := (h.mem_children_iff hk).mp hk'
      refine ⟨hle', (h.younger hle' hparent').1.trans hkn, ?_⟩
      rintro rfl
      rw [hc.2] at hparent'
      exact absurd (Option.some.inj hparent') (Nat.ne_of_gt hkn)
    · rintro k node' ⟨-, -, hkc⟩ hk
      have hne' : ¬ c = k := fun h => hkc h.symm
      refine ⟨node'.parent, ?_⟩
      rw [nodes_setDoc, hk, Option.map_some, if_neg hne']

end Program

/-! ## Making the nodes of a phrase -/

namespace Build

/-- The program grows by nodes that show the sketch. -/
def Makes (b : Build Handle) (s : Sketch) : Prop :=
  ∀ p : Program, Grown p (b.run p).2 [(b.run p).1] ∧ (b.run p).2.Shows (b.run p).1 s

/-- The program grows by nodes that show the sketches, one by one. -/
def MakesAll (b : Build (List Handle)) (ss : List Sketch) : Prop :=
  ∀ p : Program, Grown p (b.run p).2 (b.run p).1 ∧
    List.Forall₂ (b.run p).2.Shows (b.run p).1 ss

theorem run_bind {α β : Type} (b : Build α) (f : α → Build β) (p : Program) :
    (b >>= f).run p = (f (b.run p).1).run (b.run p).2 := rfl

theorem run_make (kind : NodeKind) (text : String) (e : Extent) (ns : List Handle)
    (p : Program) : (make kind text e ns).run p
      = ((p.add (.fresh kind text e.start e.stop e.line) ns).2,
        (p.add (.fresh kind text e.start e.stop e.line) ns).1) := rfl

theorem forall₂_keeps {p q : Program} (h : Keeps p q)
    {ns : List Handle} {ss : List Sketch} (hss : List.Forall₂ p.Shows ns ss) :
    List.Forall₂ q.Shows ns ss :=
  hss.imp fun _ _ hs => hs.keeps h

/-- A node is put above nodes that were made before. -/
theorem MakesAll.make {b : Build (List Handle)} {ss : List Sketch} (h : MakesAll b ss)
    (kind : NodeKind) (text : String) (e : Extent) :
    Makes (b >>= make kind text e) (.fresh kind text e ss) := by
  intro p
  obtain ⟨hgrown, hshows⟩ := h p
  rw [run_bind, run_make]
  refine ⟨?_, Program.shows_add _ _ _ hshows⟩
  have hgrown' : Grown p (b.run p).2 ((b.run p).1 ++ []) := by
    rw [List.append_nil]
    exact hgrown
  exact hgrown'.add _ rfl rfl

theorem makesAll_nil : MakesAll (pure []) [] := fun p => ⟨.refl p, .nil⟩

/-- A node without anything below it. -/
theorem makes_leaf (kind : NodeKind) (text : String) (e : Extent) :
    Makes (make kind text e []) (.fresh kind text e []) := makesAll_nil.make kind text e

theorem Makes.singleton {b : Build Handle} {s : Sketch} (h : Makes b s) :
    MakesAll (do return [← b]) [s] := fun p => ⟨(h p).1, .cons (h p).2 .nil⟩

theorem Makes.cons {b : Build Handle} {s : Sketch} (h : Makes b s) {c : Build (List Handle)}
    {ss : List Sketch} (hc : MakesAll c ss) :
    MakesAll (do let n ← b; let ns ← c; return n :: ns) (s :: ss) := by
  intro p
  obtain ⟨hgrown, hshows⟩ := h p
  obtain ⟨hgrown', hshows'⟩ := hc (b.run p).2
  exact ⟨hgrown.trans hgrown', .cons (hshows.keeps hgrown'.keeps) hshows'⟩

theorem ofToken_makes (t : Token) : Makes (ofToken t) (Sketch.ofToken t) := by
  unfold ofToken Sketch.ofToken
  cases t.kind <;> exact makes_leaf _ _ _

/-- A part of a phrase makes what its sketch says. -/
structure PieceMakes (x : Piece) (y : Sketch.Piece) : Prop where
  tree : y.tree = x.tree
  own : Makes x.own y.own
  inner : MakesAll x.inner y.inner

theorem ownOf_makes {xs : List Piece} {ys : List Sketch.Piece}
    (h : List.Forall₂ PieceMakes xs ys) : MakesAll (ownOf xs) (Sketch.ownOf ys) := by
  induction h with
  | nil => exact makesAll_nil
  | cons hxy _ ih =>
    rw [ownOf, Sketch.ownOf, hxy.tree]
    split
    · exact hxy.own.cons ih
    · exact ih

theorem functionName?_eq {xs : List Piece} {ys : List Sketch.Piece}
    (h : List.Forall₂ PieceMakes xs ys) : Sketch.functionName? ys = functionName? xs := by
  unfold functionName? Sketch.functionName?
  induction h with
  | nil => rfl
  | @cons x _ _ _ hxy _ ih =>
    rw [List.findSome?_cons, List.findSome?_cons, hxy.tree]
    cases x.tree <;> simp only [ih]

theorem functionParts_leaf {x : Piece} {xs : List Piece} {t : Token} (h : x.tree = .leaf t) :
    functionParts (x :: xs) = functionParts xs := by
  rw [functionParts, h]

theorem functionParts_params {x : Piece} {xs : List Piece} {parts : List Tree}
    (h : x.tree = .node .params parts) :
    functionParts (x :: xs) = (do
      let ns ← x.inner
      let rest ← functionParts xs
      return (ns, rest.2)) := by
  rw [functionParts, h]

theorem functionParts_node {x : Piece} {xs : List Piece} {r : Rule} {parts : List Tree}
    (h : x.tree = .node r parts) (hr : r ≠ .params) :
    functionParts (x :: xs) = (do
      let n ← x.own
      let rest ← functionParts xs
      return (rest.1, [n])) := by
  rw [functionParts, h]
  split
  · next h' => cases h'
  · next h' => cases h'; exact absurd rfl hr
  · rfl

/-- Nodes of the parameters and of the body of a function, which are put below it later. -/
theorem functionParts_makes {xs : List Piece} {ys : List Sketch.Piece}
    (h : List.Forall₂ PieceMakes xs ys) (p : Program) :
    Grown p ((functionParts xs).run p).2
      (((functionParts xs).run p).1.1 ++ ((functionParts xs).run p).1.2) ∧
    List.Forall₂ ((functionParts xs).run p).2.Shows ((functionParts xs).run p).1.1
      (Sketch.functionParts ys).1 ∧
    List.Forall₂ ((functionParts xs).run p).2.Shows ((functionParts xs).run p).1.2
      (Sketch.functionParts ys).2 := by
  -- the parameters are put below another node than the rest, so their pieces are told apart here
  induction h generalizing p with
  | nil => exact ⟨.refl p, .nil, .nil⟩
  | @cons x y xs ys hxy _ ih =>
    have htree := hxy.tree
    cases hx : x.tree with
    | leaf t =>
      rw [functionParts_leaf hx, Sketch.functionParts_leaf (htree.trans hx)]
      exact ih p
    | node r parts =>
      by_cases hr : r = .params
      · subst hr
        rw [functionParts_params hx, Sketch.functionParts_params (htree.trans hx)]
        obtain ⟨hgrown, hshows⟩ := hxy.inner p
        obtain ⟨hgrown', -, hbody⟩ := ih (x.inner.run p).2
        refine ⟨?_, forall₂_keeps hgrown'.keeps hshows, hbody⟩
        -- of what the rest makes, only the body is handed on, so what is handed on is a part of
        -- what was made
        have hall := hgrown.trans hgrown'
        have hsub : ((x.inner.run p).1 ++ ((functionParts xs).run (x.inner.run p).2).1.2).Sublist
            ((x.inner.run p).1 ++ (((functionParts xs).run (x.inner.run p).2).1.1
              ++ ((functionParts xs).run (x.inner.run p).2).1.2)) :=
          (List.sublist_append_right _ _).append_left _
        exact hall.subset hsub.subset (hall.nodup.sublist hsub)
      · rw [functionParts_node hx hr, Sketch.functionParts_node (htree.trans hx) hr]
        obtain ⟨hgrown, hshows⟩ := hxy.own p
        obtain ⟨hgrown', hparams, -⟩ := ih (x.own.run p).2
        refine ⟨?_, hparams, .cons (hshows.keeps hgrown'.keeps) .nil⟩
        have hall := hgrown.trans hgrown'
        have hperm : (((functionParts xs).run (x.own.run p).2).1.1
            ++ [(x.own.run p).1]).Perm
            ([(x.own.run p).1] ++ ((functionParts xs).run (x.own.run p).2).1.1) :=
          List.perm_append_comm
        have hsub : ([(x.own.run p).1] ++ ((functionParts xs).run (x.own.run p).2).1.1).Sublist
            ([(x.own.run p).1] ++ (((functionParts xs).run (x.own.run p).2).1.1
              ++ ((functionParts xs).run (x.own.run p).2).1.2)) :=
          (List.sublist_append_left _ _).append_left _
        exact hall.subset (fun n hn => hsub.subset (hperm.subset hn))
          (hperm.nodup_iff.mpr (hall.nodup.sublist hsub))

/-- The name, the list of the parameters and the function itself are put above parameters and
a body that were made before. -/
theorem functionAbove_makes {p q : Program} {params body : List Handle} {ps bs : List Sketch}
    (hparts : Grown p q (params ++ body)) (hparams : List.Forall₂ q.Shows params ps)
    (hbody : List.Forall₂ q.Shows body bs) (nameText : String) (nameExtent here : Extent)
    (text : String) (e : Extent) (b : Build Handle)
    (hb : b = do
      let nameNode ← make .name nameText nameExtent []
      let paramList ← make .paramList "" here params
      make .function text e (nameNode :: paramList :: body)) :
    Grown p (b.run q).2 [(b.run q).1] ∧
    (b.run q).2.Shows (b.run q).1 (.fresh .function text e
      (.fresh .name nameText nameExtent [] :: .fresh .paramList "" here ps :: bs)) := by
  subst hb
  obtain ⟨hgrown, hshows⟩ := makes_leaf .name nameText nameExtent q
  simp only [run_bind]
  generalize (make .name nameText nameExtent []).run q = named at hgrown hshows ⊢
  obtain ⟨nameNode, r⟩ := named
  dsimp only at hgrown hshows ⊢
  simp only [run_make]
  have hall : Grown p r (params ++ (body ++ [nameNode])) := by
    rw [← List.append_assoc]
    exact hparts.trans hgrown
  have hlisted := hall.add (.fresh .paramList "" here.start here.stop here.line) rfl rfl
  have hlist := Program.shows_add .paramList "" here
    (forall₂_keeps hgrown.keeps hparams)
  have hkeeps : Keeps r (r.add (.fresh .paramList "" here.start here.stop here.line) params).1 :=
    Program.keeps_add
  generalize r.add (.fresh .paramList "" here.start here.stop here.line) params = listed
    at hlisted hlist hkeeps ⊢
  obtain ⟨r', list⟩ := listed
  dsimp only at hlisted hlist hkeeps ⊢
  -- the nodes are made in another order than they stand in, so the list is rearranged once
  have hperm : (nameNode :: list :: body).Perm (list :: (body ++ [nameNode])) :=
    (List.Perm.swap _ _ _).trans
      (.cons _ (List.perm_append_comm : ([nameNode] ++ body).Perm (body ++ [nameNode])))
  have htops : Grown p r' ((nameNode :: list :: body) ++ []) := by
    rw [List.append_nil]
    exact hlisted.subset hperm.subset (hperm.nodup_iff.mpr hlisted.nodup)
  refine ⟨htops.add _ rfl rfl, Program.shows_add _ _ _ ?_⟩
  exact .cons (hshows.keeps hkeeps) (.cons hlist
    (forall₂_keeps (hgrown.keeps.trans hkeeps) hbody))

theorem function_makes (x : Tree) {xs : List Piece} {ys : List Sketch.Piece}
    (h : List.Forall₂ PieceMakes xs ys) : Makes (function x xs) (Sketch.function x ys) := by
  intro p
  obtain ⟨hparts, hparams, hbody⟩ := functionParts_makes h p
  unfold function Sketch.function
  simp only [run_bind, functionName?_eq h]
  cases functionName? xs with
  | none => exact functionAbove_makes hparts hparams hbody _ _ _ _ _ _ rfl
  | some t => exact functionAbove_makes hparts hparams hbody _ _ _ _ _ _ rfl

/-- Parentheses leave the only node that was made inside them. -/
theorem MakesAll.parenthesized {b : Build (List Handle)} {ss : List Sketch} (h : MakesAll b ss)
    (text : String) (e : Extent) :
    Makes (do
      match ← b with
      | [n] => return n
      | ns => Build.make .other text e ns) (.parenthesized text e ss) := by
  intro p
  obtain ⟨hgrown, hshows⟩ := h p
  have hmake := h.make .other text e p
  rw [run_bind] at hmake
  rw [run_bind]
  generalize b.run p = made at hgrown hshows hmake ⊢
  obtain ⟨ns, q⟩ := made
  dsimp only at hgrown hshows hmake ⊢
  cases hshows with
  | nil => exact hmake
  | cons hn hns =>
    cases hns with
    | nil => exact ⟨hgrown, hn⟩
    | cons => exact hmake

/-- A rule makes the node of a phrase above those of its parts. -/
theorem ofRule_makes (x : Tree) (rule : Rule) {xs : List Piece} {ys : List Sketch.Piece}
    (h : List.Forall₂ PieceMakes xs ys) :
    Makes (ofRule x rule xs) (Sketch.ofRule x rule ys) := by
  have hown := ownOf_makes h
  have hother (word : String) : Makes (ownOf xs >>= make .other word x.extent)
      (.fresh .other word x.extent (Sketch.ownOf ys)) := hown.make _ _ _
  cases rule
  case parenthesized => exact hown.parenthesized _ _
  case functionDeclaration => exact function_makes x h
  case functionExpression => exact function_makes x h
  case declarator =>
    cases h with
    | nil => exact hother _
    | cons _ hxs => exact (ownOf_makes hxs).make _ _ _
  case getProp =>
    -- a target, the dot and the name of the property
    cases h with
    | nil => exact hother _
    | cons h₁ h =>
      cases h with
      | nil => exact hother _
      | cons h₂ h =>
        cases h with
        | nil => exact hother _
        | cons h₃ h =>
          cases h with
          | cons => exact hother _
          | nil =>
            rw [ofRule, Sketch.ofRule, h₃.tree]
            exact (ownOf_makes (.cons h₁ (.cons h₂ .nil))).make _ _ _
  case call =>
    cases h with
    | nil => exact hother _
    | cons h₁ h =>
      cases h with
      | nil => exact hother _
      | cons h₂ h =>
        cases h with
        | cons => exact hother _
        | nil => exact (h₁.own.cons h₂.inner).make _ _ _
  case assign =>
    cases h with
    | nil => exact hother _
    | cons h₁ h =>
      cases h with
      | nil => exact hother _
      | cons h₂ h =>
        cases h with
        | nil => exact hother _
        | cons h₃ h =>
          cases h with
          | cons => exact hother _
          | nil =>
            rw [ofRule, Sketch.ofRule, h₂.tree]
            split
            · exact (h₁.own.cons h₃.own.singleton).make _ _ _
            · exact (h₁.own.cons h₃.own.singleton).make _ _ _
  case name => exact makes_leaf _ _ _
  case simpleParam => exact makes_leaf _ _ _
  case this => exact makes_leaf _ _ _
  case number => exact makes_leaf _ _ _
  case string => exact makes_leaf _ _ _
  case template => exact makes_leaf _ _ _
  all_goals exact hown.make _ _ _

/-- The documentation of a statement is attached where its sketch has it. -/
theorem documented_makes (x : Tree) (rule : Rule) {xs : List Piece} {ys : List Sketch.Piece}
    (h : List.Forall₂ PieceMakes xs ys) :
    Makes (documented x rule xs) (Sketch.documented x rule ys) := by
  have hrule := ofRule_makes x rule h
  unfold documented Sketch.documented
  cases rule.isStatement with
  | false => exact hrule
  | true =>
    cases hdoc : x.docBefore? with
    | none =>
      simp only [attachDoc, hdoc]
      exact hrule
    | some d =>
      intro p
      obtain ⟨hgrown, hshows⟩ := hrule p
      have hn := (hgrown.new _ (List.mem_singleton_self _)).1
      have hmade := hgrown.shows_document hn hshows d
      simp only [attachDoc, hdoc]
      exact hmade

mutual

/-- The nodes of a phrase show its sketch. -/
theorem ofTree_makes (x : Tree) : Makes (ofTree x) (Sketch.ofTree x) := by
  cases x with
  | leaf t => exact ofToken_makes t
  | node rule parts =>
    rw [ofTree, Sketch.ofTree]
    exact documented_makes _ rule (piecesOf_make parts)

/-- The nodes of the phrases inside a phrase show their sketches. -/
theorem inside_makes (x : Tree) : MakesAll (inside x) (Sketch.inside x) := by
  cases x with
  | leaf t => exact makesAll_nil
  | node rule parts =>
    rw [inside, Sketch.inside]
    exact ownOf_makes (piecesOf_make parts)

theorem piecesOf_make (xs : List Tree) :
    List.Forall₂ PieceMakes (piecesOf xs) (Sketch.piecesOf xs) := by
  cases xs with
  | nil => exact .nil
  | cons x xs =>
    rw [piecesOf, Sketch.piecesOf]
    exact .cons ⟨rfl, ofTree_makes x, inside_makes x⟩ (piecesOf_make xs)

end

theorem ofTrees_makes (xs : List Tree) : MakesAll (ofTrees xs) (Sketch.ofTrees xs) :=
  ownOf_makes (piecesOf_make xs)

end Build

end SuperForward
