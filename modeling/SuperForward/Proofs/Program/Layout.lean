/-
  Programs from scripts with spacing put in.

  Two builds agree if they give the same handles and the same nodes, places apart, from programs
  that are the same, places apart. The nodes of a phrase are made in the same order from other
  tokens like its own, so a script with spacing put in between two lexemes is appended as the
  script itself, with its nodes in other places.
-/
import SuperForward.Proofs.Program.Characters
import SuperForward.Proofs.Program.Losing
import SuperForward.Proofs.Script.Layout

namespace SuperForward

open SuperForward.Script

/-! ## Programs without places -/

/-- The node with no places on it. -/
def Node.unplaced (node : Node) : Node :=
  { node with doc := node.doc.map DocComment.unplaced, start := 0, stop := 0, line := 0 }

namespace Program

/-- The program with no places on its nodes. -/
def unplaced (p : Program) : Program := ⟨p.nodes.map Node.unplaced⟩

@[simp] theorem size_unplaced (p : Program) : p.unplaced.size = p.size := Array.size_map ..

@[simp] theorem nodes_unplaced (p : Program) (n : Handle) :
    p.unplaced.nodes[n]? = p.nodes[n]?.map Node.unplaced := Array.getElem?_map ..

/-- What is changed in a node apart from its places is changed without them. -/
theorem unplaced_update (p : Program) (n : Handle) {f g : Node → Node}
    (h : ∀ node, (f node).unplaced = g node.unplaced) :
    (p.update n f).unplaced = p.unplaced.update n g := by
  unfold unplaced update
  congr 1
  ext i hi hi'
  · simp
  · simp only [Array.getElem_map, Array.getElem_modify]
    split
    · exact h _
    · rfl

theorem unplaced_add (p : Program) (node : Node) (tops : List Handle) :
    (p.add node tops).1.unplaced = (p.unplaced.add node.unplaced tops).1 := by
  have hlinked (q : Program) : (tops.foldl (fun (q : Program) child =>
      q.update child fun c => { c with parent := some p.size }) q).unplaced
      = tops.foldl (fun (q : Program) child =>
        q.update child fun c => { c with parent := some p.size }) q.unplaced := by
    induction tops generalizing q with
    | nil => rfl
    | cons c tops ih =>
      rw [List.foldl_cons, List.foldl_cons, ih,
        unplaced_update q c (g := fun c => { c with parent := some p.size }) fun _ => rfl]
  unfold add
  simp only [size_unplaced]
  rw [← hlinked p]
  unfold unplaced
  rw [Array.map_push]
  rfl

theorem docTarget_unplaced (p : Program) (n : Handle) :
    p.unplaced.docTarget n = p.docTarget n := by
  unfold docTarget
  simp only [nodes_unplaced]
  cases p.nodes[n]? with
  | none => rfl
  | some node =>
    simp only [Option.map_some, Option.map_map]
    rfl

end Program

/-! ## Builds that agree -/

namespace Build

/-- From programs that are the same, places apart, the builds give the same result, and programs
that are the same, places apart. -/
def Agree {α : Type} (b b' : Build α) : Prop :=
  ∀ p p' : Program, p.unplaced = p'.unplaced →
    (b.run p).1 = (b'.run p').1 ∧ (b.run p).2.unplaced = (b'.run p').2.unplaced

theorem agree_pure {α : Type} (a : α) : Agree (pure a) (pure a) := fun _ _ h => ⟨rfl, h⟩

theorem Agree.bind {α β : Type} {b b' : Build α} (h : Agree b b') {f f' : α → Build β}
    (hf : ∀ a, Agree (f a) (f' a)) : Agree (b >>= f) (b' >>= f') := by
  intro p p' hp
  obtain ⟨hresult, hprogram⟩ := h p p' hp
  rw [run_bind, run_bind, hresult]
  exact hf _ _ _ hprogram

/-- Where a phrase stands does not matter to what is made for it. -/
theorem agree_make {kind : NodeKind} {text : String} {e e' : Extent} {ns : List Handle} :
    Agree (make kind text e ns) (make kind text e' ns) := by
  intro p p' hp
  rw [run_make, run_make]
  refine ⟨?_, ?_⟩
  · show p.size = p'.size
    rw [← p.size_unplaced, hp, p'.size_unplaced]
  · rw [Program.unplaced_add, Program.unplaced_add, hp]
    rfl

/-- Documentation that is the same, places apart, goes to the same node. -/
theorem agree_attachDoc {x x' : Tree}
    (h : x'.docBefore?.map DocComment.unplaced = x.docBefore?.map DocComment.unplaced)
    (n : Handle) : Agree (attachDoc x n) (attachDoc x' n) := by
  unfold attachDoc
  cases hx : x.docBefore? <;> cases hx' : x'.docBefore? <;> rw [hx, hx'] at h
  · exact agree_pure ()
  · cases h
  · cases h
  · rename_i d d'
    intro p p' hp
    refine ⟨rfl, ?_⟩
    have hset (p : Program) (d : DocComment) : (p.setDoc (p.docTarget n) (some d)).unplaced
        = p.unplaced.setDoc (p.unplaced.docTarget n) (some d.unplaced) := by
      rw [p.docTarget_unplaced]
      exact p.unplaced_update _ fun _ => rfl
    show (p.setDoc (p.docTarget n) (some d)).unplaced
      = (p'.setDoc (p'.docTarget n) (some d')).unplaced
    rw [hset, hset, hp, Option.some.inj h]

/-- The tokens of the phrase are exchanged for others like them, and its nodes are made as
before. -/
structure Respaced (x x' : Tree) : Prop where
  prunes : Prunes Token.Like x [] x'
  own : Agree (ofTree x) (ofTree x')
  inner : Agree (inside x) (inside x')

section

variable {parts parts' : List Tree} (h : List.Forall₂ Respaced parts parts')
include h

theorem agree_ownOf : Agree (ownOf (piecesOf parts)) (ownOf (piecesOf parts')) := by
  induction h with
  | nil => exact agree_pure []
  | cons head _ ih =>
    rw [piecesOf, piecesOf, ownOf, ownOf]
    simp only [Sketch.makesNode_of_prunes Token.Like.kind head.prunes]
    split
    · exact head.own.bind fun n => ih.bind fun ns => agree_pure (n :: ns)
    · exact ih

theorem agree_functionParts :
    Agree (functionParts (piecesOf parts)) (functionParts (piecesOf parts')) := by
  induction h with
  | nil => exact agree_pure ([], [])
  | @cons x x' xs xs' head _ ih =>
    have hown := head.own
    have hinner := head.inner
    cases head.prunes with
    | leaf =>
      rw [piecesOf, piecesOf, functionParts_leaf rfl, functionParts_leaf rfl]
      exact ih
    | @node r =>
      by_cases hr : r = .params
      · subst hr
        rw [piecesOf, piecesOf, functionParts_params rfl, functionParts_params rfl]
        exact hinner.bind fun ns => ih.bind fun rest => agree_pure (ns, rest.2)
      · rw [piecesOf, piecesOf, functionParts_node rfl hr, functionParts_node rfl hr]
        exact hown.bind fun n => ih.bind fun rest => agree_pure (rest.1, [n])

theorem functionName_respaced : (functionName? (piecesOf parts)).map (·.text)
    = (functionName? (piecesOf parts')).map (·.text) := by
  rw [← functionName?_eq (piecesOf_make parts), ← functionName?_eq (piecesOf_make parts')]
  exact (Sketch.unplaced_functionParts (h.imp fun _ _ hx => Sketch.relabeled Token.Like.sameWord hx.prunes
    fun _ _ _ _ _ _ _ ht => ht.doc)).2.2

theorem agree_function (x x' : Tree) :
    Agree (function x (piecesOf parts)) (function x' (piecesOf parts')) := by
  have hname := functionName_respaced h
  unfold function
  refine (agree_functionParts h).bind fun (params, body) => ?_
  simp only [hname]
  cases hl : functionName? (piecesOf parts) <;> cases hr : functionName? (piecesOf parts') <;>
    rw [hl, hr] at hname
  · exact agree_make.bind fun nameNode => agree_make.bind fun paramList => agree_make
  · cases hname
  · cases hname
  · simp only [Option.some.inj hname]
    exact agree_make.bind fun nameNode => agree_make.bind fun paramList => agree_make

theorem agree_ofRule {x x' : Tree} (hhead : x'.headText = x.headText) (r : Rule) :
    Agree (ofRule x r (piecesOf parts)) (ofRule x' r (piecesOf parts')) := by
  have hown := agree_ownOf h
  have hover {kind : NodeKind} {text : String} {e e' : Extent} :
      Agree (ownOf (piecesOf parts) >>= make kind text e)
        (ownOf (piecesOf parts') >>= make kind text e') := hown.bind fun ns => agree_make
  -- most rules make one node over all parts; the others look at the first parts, and are
  -- followed part by part
  cases r
  case parenthesized =>
    refine hown.bind fun ns => ?_
    split
    · exact agree_pure _
    · exact agree_make
  case functionDeclaration => exact agree_function h x x'
  case functionExpression => exact agree_function h x x'
  case declarator =>
    cases h with
    | nil => exact hover
    | cons head tail =>
      simp only [piecesOf, ofRule, hhead]
      exact (agree_ownOf tail).bind fun ns => agree_make
  case getProp =>
    rcases h with _ | ⟨ha, _ | ⟨hb, _ | ⟨hc, _ | ⟨hd, hds⟩⟩⟩⟩
    case cons.cons.cons.nil =>
      have htwo := agree_ownOf (.cons ha (.cons hb .nil))
      simp only [piecesOf, ofRule, Sketch.headText_of_prunes Token.Like.text hc.prunes]
      exact htwo.bind fun ns => agree_make
    all_goals exact hover
  case call =>
    rcases h with _ | ⟨ha, _ | ⟨hb, _ | ⟨hc, hcs⟩⟩⟩
    case cons.cons.nil =>
      exact ha.own.bind fun callee => hb.inner.bind fun arguments => agree_make
    all_goals exact hover
  case assign =>
    rcases h with _ | ⟨ha, _ | ⟨hb, _ | ⟨hc, _ | ⟨hd, hds⟩⟩⟩⟩
    case cons.cons.cons.nil =>
      simp only [piecesOf, ofRule, Sketch.headText_of_prunes Token.Like.text hb.prunes]
      refine ha.own.bind fun target => hc.own.bind fun value => ?_
      split <;> exact agree_make
    all_goals exact hover
  all_goals
    simp only [ofRule, hhead]
    first
      | exact agree_make
      | exact hover

end

theorem agree_documented {x x' : Tree} (hx : Prunes Token.Like x [] x') {r : Rule}
    {ps ps' : List Piece} (h : Agree (ofRule x r ps) (ofRule x' r ps')) :
    Agree (documented x r ps) (documented x' r ps') := by
  refine h.bind fun n => ?_
  split
  · exact (agree_attachDoc (Sketch.docBefore_of_prunes hx fun _ _ _ ht => ht.doc) n).bind
      fun _ => agree_pure n
  · exact agree_pure n

/-- The nodes of a phrase are made as before from other tokens like its own. -/
theorem respaced {x x' : Tree} (h : Prunes Token.Like x [] x') : Respaced x x' := by
  -- on the tree: kinds, texts and documentation of the tokens are all that is looked at
  induction x using Tree.induction_on generalizing x' with
  | leaf t =>
    cases h with
    | @leaf _ t' ht =>
      refine ⟨.leaf ht, ?_, agree_pure []⟩
      simp only [ofTree, ofToken, ← ht.kind, ← ht.text]
      cases t.kind <;> exact agree_make
  | node r parts ih =>
    have hhead := Sketch.headText_of_prunes Token.Like.text h
    cases hx : h with
    | @node _ _ _ parts' hparts =>
      have hall : List.Forall₂ Respaced parts parts' :=
        Program.forall₂_imp_of_mem (fun y hy _ _ h => ih y hy h)
          (Sketch.forall₂_of_prunesAll hparts)
      refine ⟨h, ?_, agree_ownOf hall⟩
      rw [ofTree, ofTree]
      exact agree_documented h (agree_ofRule hall hhead r)

/-- The nodes of several phrases are made as before from other tokens like theirs. -/
theorem agree_ofTrees {lists b : Bool} {xs xs' : List Tree}
    (h : PrunesAll (Prunes Token.Like) lists b xs [] xs') : Agree (ofTrees xs) (ofTrees xs') :=
  agree_ownOf ((Sketch.forall₂_of_prunesAll h).imp fun _ _ hx => respaced hx)

end Build

/-! ## Scripts -/

namespace Program

theorem unplaced_hang (q : Program) (n : Handle) : (q.hang n).unplaced = q.unplaced.hang n := by
  unfold hang
  rw [unplaced_update _ root (g := fun node => { node with children := node.children ++ [n] })
      fun _ => rfl,
    unplaced_update q n (g := fun node => { node with parent := some root }) fun _ => rfl]

/-- Statements with other tokens like theirs are appended as they are. -/
theorem unplaced_addScript (p : Program) (path : String) (length length' : Nat)
    {statements statements' : List Tree}
    (h : PrunesAll (Prunes Token.Like) true true statements [] statements') :
    (p.addScript path length statements).2 = (p.addScript path length' statements').2 ∧
      (p.addScript path length statements).1.unplaced
        = (p.addScript path length' statements').1.unplaced := by
  have hmade (length : Nat) (statements : List Tree) : p.addScript path length statements
      = let made := (Build.ofTrees statements >>= Build.make .script path ⟨0, length, 1⟩).run p
        (made.2.hang made.1, made.1) := rfl
  have hagree : Build.Agree (Build.ofTrees statements >>= Build.make .script path ⟨0, length, 1⟩)
      (Build.ofTrees statements' >>= Build.make .script path ⟨0, length', 1⟩) :=
    (Build.agree_ofTrees h).bind fun ns => Build.agree_make
  obtain ⟨hscript, hnodes⟩ := hagree p p rfl
  rw [hmade, hmade]
  refine ⟨hscript, ?_⟩
  simp only [unplaced_hang, hscript, hnodes]

/-- Layout does not matter: a text with spacing put in between two lexemes is appended as the text
itself, with the same handle for the script, and only the places of the nodes and of their
documentation are others. -/
theorem unplaced_addText {p q : Program} {path : String} {script : Handle}
    {before spacing after : List Char}
    (h : p.addText path (String.ofList (before ++ after)) = .ok (q, script))
    (hplace : Between before after) (hspacing : Spacing spacing) :
    ∃ q', p.addText path (String.ofList (before ++ spacing ++ after)) = .ok (q', script) ∧
      q'.unplaced = q.unplaced := by
  unfold addText at h ⊢
  split at h
  · next statements hread =>
    obtain ⟨statements', hread', hlike⟩ := exists_read_spaced hread hplace hspacing
    obtain ⟨hscript, hprogram⟩ := p.unplaced_addScript path
      (String.ofList (before ++ after)).length
      (String.ofList (before ++ spacing ++ after)).length hlike
    rw [Except.ok.injEq] at h
    rw [h] at hscript hprogram
    refine ⟨_, ?_, hprogram.symm⟩
    rw [hread', show script = _ from hscript]
  · cases h

/-- Plain comments go between documentation and its statement. -/
theorem unplaced_addText_documented :
    let before := "/** @const */".toList
    let after := "x=1;".toList
    let spacing := " /* a */ // b\n".toList
    ∃ q, Program.empty.addText "a.js" (String.ofList (before ++ after)) = .ok (q, 5) ∧
      Between before after ∧ Spacing spacing ∧
      ∃ q', Program.empty.addText "a.js" (String.ofList (before ++ spacing ++ after))
          = .ok (q', 5) ∧ q'.unplaced = q.unplaced := by
  have hcut : CutInto ("/** @const */".toList ++ "x=1;".toList)
      ([⟨.comment, "/** @const */".toList⟩] ++
        [⟨.token .name, ['x']⟩, ⟨.token (.mark .assign), ['=']⟩, ⟨.token .number, ['1']⟩,
          ⟨.token (.mark .semicolon), [';']⟩]) :=
    .lexeme (n := 13) rfl (by simp) (.lexeme (n := 1) rfl (by simp) (.lexeme (n := 1) rfl (by simp)
      (.lexeme (n := 1) rfl (by simp) (.lexeme (n := 1) rfl (by simp) .nil))))
  have hplace : Between "/** @const */".toList "x=1;".toList := by
    refine between_of_cutInto hcut rfl ?_
    rintro _ ⟨⟩ ⟨-, hline⟩
    revert hline
    decide
  have hline : Spacing " // b\n".toList :=
    @Spacing.line ' ' " b".toList [] (by decide) (by decide) (.separator (by decide) .nil)
  have hspacing : Spacing " /* a */ // b\n".toList :=
    @Spacing.comment ' ' ' ' " a */".toList "// b\n".toList (by decide) (by decide) (by decide)
      (by decide) (by simp [DocComment.isDocComment]) hline
  -- what is not closed by itself is the text, which is read from its characters
  have hadded : (Program.empty.addText "a.js"
      (String.ofList ("/** @const */".toList ++ "x=1;".toList))).toOption.map Prod.snd
        = some 5 := by
    rw [addText, Script.read_ofList, String.length_ofList]
    decide +kernel
  rcases hq : Program.empty.addText "a.js"
      (String.ofList ("/** @const */".toList ++ "x=1;".toList)) with refusal | ⟨q, script⟩
  · rw [hq] at hadded
    cases hadded
  · rw [hq] at hadded
    obtain rfl : script = 5 := Option.some.inj hadded
    exact ⟨q, hq, hplace, hspacing, unplaced_addText hq hplace hspacing⟩

end Program

end SuperForward
