/-
  Sketches that statements are taken out of.

  Where a sketch lists statements, expression statements may be taken out of it; `Loses` says
  which sketches a sketch loses. What the sketch of a phrase can lose, the phrase can be pruned
  of: what is left is the sketch of the pruned phrase, its places apart.
-/
import SuperForward.Proofs.Program.Growth
import SuperForward.Proofs.Program.Origin
import SuperForward.Proofs.Script.Pruning

namespace SuperForward

open SuperForward.Script

namespace Sketch

/-! ## Sketches without places -/

mutual

/-- The sketch with no places on it. -/
def unplaced : Sketch → Sketch
  | .mk kind text doc _ children =>
    .mk kind text (doc.map DocComment.unplaced) ⟨0, 0, 0⟩ (unplacedAll children)

/-- Several sketches with no places on them. -/
def unplacedAll : List Sketch → List Sketch
  | [] => []
  | s :: ss => s.unplaced :: unplacedAll ss

end

theorem unplacedAll_eq (ss : List Sketch) : unplacedAll ss = ss.map unplaced := by
  induction ss with
  | nil => rfl
  | cons s ss ih => rw [unplacedAll, ih, List.map_cons]

theorem unplaced_fresh (kind : NodeKind) (text : String) (e : Extent) (ss : List Sketch) :
    (fresh kind text e ss).unplaced = fresh kind text ⟨0, 0, 0⟩ (ss.map unplaced) := by
  rw [fresh, unplaced, unplacedAll_eq]
  rfl

theorem kind_unplaced (s : Sketch) : s.unplaced.kind = s.kind := by
  cases s
  rfl

theorem unplaced_parenthesized (text : String) (e : Extent) (ss : List Sketch) :
    (parenthesized text e ss).unplaced = parenthesized text ⟨0, 0, 0⟩ (ss.map unplaced) := by
  rcases ss with _ | ⟨s, _ | ⟨t, ts⟩⟩
  · rfl
  · rfl
  · exact unplaced_fresh ..

theorem unplaced_document (s : Sketch) (d : DocComment) :
    (s.document d).unplaced = s.unplaced.document d.unplaced := by
  obtain ⟨kind, text, doc, e, cs⟩ := s
  cases kind
  case exprResult =>
    cases cs with
    | nil => rfl
    | cons c cs =>
      simp only [document, unplaced, unplacedAll, kind_unplaced]
      split
      · cases c
        rfl
      · rfl
  all_goals rfl

/-! ## Losing statements -/

/-- A node of this sort and text lists statements. -/
def lists (kind : NodeKind) (text : String) : Bool :=
  kind = .script || kind = .block || kind = .other && (text = "case_clause" || text = "default_clause")

/-- Some sketches lose others one by one, and where statements are listed, expression
statements may be lost. -/
inductive LosesAll (P : Sketch → List Sketch → Sketch → Prop) :
    Bool → List Sketch → List Sketch → List Sketch → Prop
  | nil (lists : Bool) : LosesAll P lists [] [] []
  | keep {lists s gone s₀ ss more ss₀} (head : P s gone s₀) (tail : LosesAll P lists ss more ss₀) :
      LosesAll P lists (s :: ss) (gone ++ more) (s₀ :: ss₀)
  | drop {s ss more ss₀} (kind : s.kind = .exprResult) (tail : LosesAll P true ss more ss₀) :
      LosesAll P true (s :: ss) (s :: more) ss₀

/-- A sketch loses some statements below it. -/
inductive Loses : Sketch → List Sketch → Sketch → Prop
  | mk {kind text doc extent children gone left}
      (h : LosesAll Loses (lists kind text) children gone left) :
      Loses (.mk kind text doc extent children) gone (.mk kind text doc extent left)

theorem Loses.kind_eq {s s₀ : Sketch} {gone : List Sketch} (h : Loses s gone s₀) :
    s₀.kind = s.kind := by
  cases h
  rfl

/-- A sketch that loses nothing is kept. -/
theorem LosesAll.keep_nil {P : Sketch → List Sketch → Sketch → Prop} {lists : Bool}
    {s s₀ : Sketch} {ss more ss₀ : List Sketch} (head : P s [] s₀)
    (tail : LosesAll P lists ss more ss₀) : LosesAll P lists (s :: ss) more (s₀ :: ss₀) :=
  .keep head tail

theorem losesAll_refl (lists : Bool) {ss : List Sketch} (h : ∀ s ∈ ss, Loses s [] s) :
    LosesAll Loses lists ss [] ss := by
  induction ss with
  | nil => exact .nil _
  | cons s ss ih =>
    exact LosesAll.keep_nil (h s (List.mem_cons_self ..))
      (ih fun t ht => h t (List.mem_cons_of_mem _ ht))

theorem loses_refl (s : Sketch) : Loses s [] s := by
  induction s using Sketch.induction_on with
  | step s ih =>
    obtain ⟨kind, text, doc, e, cs⟩ := s
    exact .mk (losesAll_refl _ ih)

/-- What documentation a node has does not matter to what it loses. -/
theorem Loses.of_document {s s₀ : Sketch} {d : DocComment} {gone : List Sketch}
    (h : Loses (s.document d) gone s₀) : ∃ s₁, Loses s gone s₁ ∧ s₀ = s₁.document d := by
  obtain ⟨kind, text, doc, e, cs⟩ := s
  cases kind
  -- the comment goes to the assignment in the statement, if there is one, and nothing is lost
  -- there but below
  case exprResult =>
    cases cs with
    | nil =>
      cases h with
      | mk h =>
        cases h
        exact ⟨_, .mk (.nil _), rfl⟩
    | cons c cs =>
      rw [document] at h
      split at h
      · next hassign =>
        cases h with
        | mk h =>
          generalize hset : c.setDoc d = c' at h
          cases h with
          | @keep _ _ _ c₀ _ _ ss₀ head tail =>
            obtain ⟨k, t, doc', e', us⟩ := c
            cases hset
            cases head with
            | @mk _ _ _ _ _ _ left hus =>
              refine ⟨.mk .exprResult text doc e (.mk k t doc' e' left :: ss₀),
                .mk (.keep (.mk hus) tail), ?_⟩
              have hassign' : (Sketch.mk k t doc' e' left).kind = .assign := hassign
              rw [document, if_pos hassign']
              rfl
      · next hassign =>
        cases h with
        | mk h =>
          cases h with
          | @keep _ _ _ c₀ _ _ ss₀ head tail =>
            refine ⟨.mk .exprResult text doc e (c₀ :: ss₀), .mk (.keep head tail), ?_⟩
            rw [document, if_neg (by rwa [head.kind_eq])]
  all_goals
    cases h with
    | mk h => exact ⟨_, .mk h, rfl⟩

/-! ## Pruned phrases -/

section

variable {R : Token → Token → Prop} {x x₀ : Tree} {gone : List Tree}

theorem makesNode_of_prunes (hR : ∀ {t t'}, R t t' → t.kind = t'.kind)
    (h : Prunes R x gone x₀) : x₀.makesNode = x.makesNode := by
  cases h with
  | leaf h => simp only [Tree.makesNode, hR h]
  | @node r => cases r <;> rfl

theorem headText_of_prunes (hR : ∀ {t t'}, R t t' → t.text = t'.text)
    (h : Prunes R x gone x₀) : x₀.headText = x.headText := by
  unfold Tree.headText
  rw [Tree.firstToken?_eq, Tree.firstToken?_eq]
  rcases h.head with ⟨hx, hx₀⟩ | ⟨t, ts, t₀, ts₀, hx, hx₀, ht⟩
  · rw [hx, hx₀]
  · rw [hx, hx₀, List.head?_cons, List.head?_cons, Option.map_some, Option.map_some, hR ht]

theorem docBefore_of_prunes (h : Prunes R x gone x₀)
    (hR : ∀ t ∈ x.tokens.head?, ∀ t', R t t' →
      t.doc?.map DocComment.unplaced = t'.doc?.map DocComment.unplaced) :
    x₀.docBefore?.map DocComment.unplaced = x.docBefore?.map DocComment.unplaced := by
  have hdoc (x : Tree) : x.docBefore? = x.tokens.head?.bind Token.doc? := by
    rw [← Tree.firstToken?_eq]
    rfl
  rw [hdoc, hdoc]
  rcases h.head with ⟨hx, hx₀⟩ | ⟨t, ts, t₀, ts₀, hx, hx₀, ht⟩
  · rw [hx, hx₀]
  · rw [hx, hx₀]
    exact (hR t (by rw [hx]; rfl) _ ht).symm

end

/-- The sketches of a rule are the same without places, if they are before the documentation
is put on them. -/
theorem unplaced_documented {x x' : Tree} {r : Rule} {ps' : List Piece}
    (hdoc : r.isStatement = true →
      x'.docBefore?.map DocComment.unplaced = x.docBefore?.map DocComment.unplaced)
    {s : Sketch} (h : s.unplaced = (ofRule x' r ps').unplaced) :
    (if r.isStatement then
        match x.docBefore? with
        | some d => s.document d
        | none => s
      else s).unplaced = (documented x' r ps').unplaced := by
  unfold documented
  split
  · next hstatement =>
    replace hdoc := hdoc hstatement
    cases hx : x.docBefore? <;> cases hx' : x'.docBefore? <;> rw [hx, hx'] at hdoc
    · exact h
    · cases hdoc
    · cases hdoc
    · rename_i d d'
      have hd : d'.unplaced = d.unplaced := Option.some.inj hdoc
      simp only [unplaced_document, h, hd]
  · exact h

/-! ### Other tokens -/

/-- The tokens of the phrase are exchanged for others, which nothing is made of but places. -/
structure Relabeled (x x' : Tree) : Prop where
  prunes : Prunes Token.SameWord x [] x'
  own : (ofTree x).unplaced = (ofTree x').unplaced
  inner : (inside x).map unplaced = (inside x').map unplaced

section

variable {parts parts' : List Tree} (h : List.Forall₂ Relabeled parts parts')
include h

theorem unplaced_ownOf : (ownOf (piecesOf parts)).map unplaced
    = (ownOf (piecesOf parts')).map unplaced := by
  induction h with
  | nil => rfl
  | cons head _ ih =>
    rw [piecesOf, piecesOf, ownOf, ownOf]
    simp only [makesNode_of_prunes Token.SameWord.kind head.prunes]
    split
    · rw [List.map_cons, List.map_cons, head.own, ih]
    · exact ih

theorem unplaced_functionParts :
    (functionParts (piecesOf parts)).1.map unplaced
        = (functionParts (piecesOf parts')).1.map unplaced ∧
      (functionParts (piecesOf parts)).2.map unplaced
        = (functionParts (piecesOf parts')).2.map unplaced ∧
      (functionName? (piecesOf parts)).map (·.text)
        = (functionName? (piecesOf parts')).map (·.text) := by
  induction h with
  | nil => exact ⟨rfl, rfl, rfl⟩
  | @cons x x' xs xs' head _ ih =>
    obtain ⟨ih₁, ih₂, ih₃⟩ := ih
    have hown := head.own
    have hinner := head.inner
    cases head.prunes with
    | @leaf t t' ht =>
      rw [piecesOf, piecesOf, functionParts_leaf rfl, functionParts_leaf rfl]
      refine ⟨ih₁, ih₂, ?_⟩
      simp only [functionName?, List.findSome?_cons, ← ht.kind]
      by_cases hkind : t.kind = .name
      · simp only [if_pos hkind, Option.map_some, ht.text]
      · simp only [if_neg hkind]
        exact ih₃
    | @node r parts _ parts' =>
      have hname : (functionName? (piecesOf (.node r parts :: xs))).map (·.text)
          = (functionName? (piecesOf (.node r parts' :: xs'))).map (·.text) := ih₃
      by_cases hr : r = .params
      · subst hr
        rw [piecesOf, piecesOf, functionParts_params rfl, functionParts_params rfl]
        exact ⟨hinner, ih₂, hname⟩
      · rw [piecesOf, piecesOf, functionParts_node rfl hr, functionParts_node rfl hr]
        refine ⟨ih₁, ?_, hname⟩
        rw [List.map_singleton, List.map_singleton, hown]

theorem unplaced_function (x x' : Tree) :
    (function x (piecesOf parts)).unplaced = (function x' (piecesOf parts')).unplaced := by
  obtain ⟨hparams, hbody, hname⟩ := unplaced_functionParts h
  have hnode : (functionNameNode x (functionName? (piecesOf parts))).unplaced
      = (functionNameNode x' (functionName? (piecesOf parts'))).unplaced := by
    cases hl : functionName? (piecesOf parts) <;> cases hr : functionName? (piecesOf parts') <;>
      rw [hl, hr] at hname
    · rfl
    · cases hname
    · cases hname
    · simp only [functionNameNode, unplaced_fresh, Option.some.inj hname]
  unfold function
  simp only [unplaced_fresh, List.map_cons, hparams, hbody, hname, hnode]

theorem unplaced_ofRule {x x' : Tree} (hhead : x'.headText = x.headText) (r : Rule) :
    (ofRule x r (piecesOf parts)).unplaced = (ofRule x' r (piecesOf parts')).unplaced := by
  have hown := unplaced_ownOf h
  have hother (text : String) (e e' : Extent) :
      (fresh .other text e (ownOf (piecesOf parts))).unplaced
        = (fresh .other text e' (ownOf (piecesOf parts'))).unplaced := by
    rw [unplaced_fresh, unplaced_fresh, hown]
  have hleaf {kind : NodeKind} {text text' : String} {e e' : Extent} (ht : text' = text) :
      (fresh kind text e []).unplaced = (fresh kind text' e' []).unplaced := by
    rw [unplaced_fresh, unplaced_fresh, ht]
  -- most rules make one node over all parts; the others look at the first parts, and are
  -- followed part by part
  cases r
  case parenthesized => simp only [ofRule, unplaced_parenthesized, hown]
  case functionDeclaration => exact unplaced_function h x x'
  case functionExpression => exact unplaced_function h x x'
  case name => exact hleaf hhead
  case simpleParam => exact hleaf hhead
  case this => exact hleaf rfl
  case number => exact hleaf hhead
  case string => exact hleaf (by rw [hhead])
  case template => exact hleaf (by rw [hhead])
  case declarator =>
    cases h with
    | nil => exact hother _ _ _
    | cons head tail =>
      simp only [piecesOf, ofRule, unplaced_fresh, unplaced_ownOf tail, hhead]
  case getProp =>
    rcases h with _ | ⟨ha, _ | ⟨hb, _ | ⟨hc, _ | ⟨hd, hds⟩⟩⟩⟩
    case cons.cons.cons.nil =>
      have htwo := unplaced_ownOf (.cons ha (.cons hb .nil))
      have htext := headText_of_prunes Token.SameWord.text hc.prunes
      simp only [piecesOf] at htwo
      simp only [piecesOf, ofRule, unplaced_fresh, htwo, htext]
    all_goals exact hother _ _ _
  case call =>
    rcases h with _ | ⟨ha, _ | ⟨hb, _ | ⟨hc, hcs⟩⟩⟩
    case cons.cons.nil =>
      simp only [piecesOf, ofRule, unplaced_fresh, List.map_cons, ha.own, hb.inner]
    all_goals exact hother _ _ _
  case assign =>
    rcases h with _ | ⟨ha, _ | ⟨hb, _ | ⟨hc, _ | ⟨hd, hds⟩⟩⟩⟩
    case cons.cons.cons.nil =>
      simp only [piecesOf, ofRule, headText_of_prunes Token.SameWord.text hb.prunes]
      split <;> simp only [unplaced_fresh, List.map_cons, ha.own, hc.own]
    all_goals exact hother _ _ _
  all_goals simp only [ofRule, unplaced_fresh, hown, hhead]

end

theorem forall₂_of_prunesAll {R : Token → Token → Prop} {lists b : Bool} {xs xs' : List Tree}
    (h : PrunesAll (Prunes R) lists b xs [] xs') :
    List.Forall₂ (fun x x' => Prunes R x [] x') xs xs' := by
  generalize hgone : ([] : List Tree) = gone at h
  induction h with
  | nil => exact .nil
  | @keep _ _ _ gone _ _ more _ head _ ih =>
    obtain ⟨rfl, rfl⟩ := List.append_eq_nil_iff.mp hgone.symm
    exact .cons head (ih rfl)
  | drop => cases hgone

theorem prunesAll_of_forall₂ {R : Token → Token → Prop} {lists b : Bool} {xs xs' : List Tree}
    (h : List.Forall₂ (fun x x' => Prunes R x [] x') xs xs') :
    PrunesAll (Prunes R) lists b xs [] xs' := by
  induction h generalizing b with
  | nil => exact .nil _ _
  | cons head _ ih => exact PrunesAll.keep_nil head ih

/-- Other tokens with the same words make the same nodes in other places, if the statements in the
phrase have the same documentation. -/
theorem relabeled {R : Token → Token → Prop} (hword : ∀ {t t'}, R t t' → t.SameWord t')
    {x x' : Tree} (h : Prunes R x [] x')
    (hdoc : ∀ r parts, (Script.Tree.node r parts).Inside x → r.isStatement = true →
      ∀ t ∈ (Script.Tree.node r parts).tokens.head?, ∀ t', R t t' →
        t.doc?.map DocComment.unplaced = t'.doc?.map DocComment.unplaced) : Relabeled x x' := by
  induction x using Tree.induction_on generalizing x' with
  | leaf t =>
    cases h with
    | @leaf _ t' ht =>
      refine ⟨.leaf (hword ht), ?_, rfl⟩
      simp only [ofTree, ofToken, ← (hword ht).kind, ← (hword ht).text]
      cases t.kind <;> simp only [unplaced_fresh]
  | node r parts ih =>
    have hhead := headText_of_prunes (fun h => (hword h).text) h
    cases hx : h with
    | @node _ _ _ parts' hparts =>
      have hall : List.Forall₂ Relabeled parts parts' :=
        Program.forall₂_imp_of_mem (fun y hy _ _ h => ih y hy h fun r ps hin =>
          hdoc r ps (.part hy hin)) (forall₂_of_prunesAll hparts)
      refine ⟨.node (prunesAll_of_forall₂ (hall.imp fun _ _ h => h.prunes)), ?_,
        unplaced_ownOf hall⟩
      rw [ofTree, ofTree]
      exact unplaced_documented (fun hr => docBefore_of_prunes h (hdoc r parts .here hr))
        (unplaced_ofRule hall hhead r)

/-! ### Fewer statements -/

theorem Loses.of_fresh {kind : NodeKind} {text : String} {e : Extent} {cs gone : List Sketch}
    {s₀ : Sketch} (h : Loses (fresh kind text e cs) gone s₀) :
    ∃ cs₀, s₀ = fresh kind text e cs₀ ∧ LosesAll Loses (lists kind text) cs gone cs₀ := by
  cases h with
  | mk h => exact ⟨_, rfl, h⟩

/-- What the sketch of a phrase can lose, or those of the phrases inside it, the phrase can be
pruned of. -/
structure Prunable (x : Tree) : Prop where
  own : ∀ {gone s₀}, Loses (ofTree x) gone s₀ → ∃ ys x₀, Prunes Eq x ys x₀ ∧
    gone.Perm (ys.map ofTree) ∧ s₀.unplaced = (ofTree x₀).unplaced
  inner : ∀ {gone ss₀}, LosesAll Loses false (inside x) gone ss₀ → ∃ ys x₀, Prunes Eq x ys x₀ ∧
    gone.Perm (ys.map ofTree) ∧ ss₀.map unplaced = (inside x₀).map unplaced

/-- Among some phrases only expression statements after a boundary make nodes of their sort. -/
def Listed : Bool → List Tree → Prop
  | _, [] => True
  | b, x :: xs =>
    (x.makesNode = true → (ofTree x).kind = .exprResult → b = true ∧ ∃ y t,
      x = .node .expressionStatement [y, .leaf t] ∧ t.kind = .mark .semicolon) ∧
    Listed (flagAfter b x.tokens) xs

theorem length_of_prunesAll {P : Tree → List Tree → Tree → Prop} {b : Bool}
    {xs gone xs₀ : List Tree} (h : PrunesAll P false b xs gone xs₀) : xs₀.length = xs.length := by
  generalize hlists : false = lists at h
  induction h with
  | nil => rfl
  | keep _ _ ih => rw [List.length_cons, List.length_cons, ih hlists]
  | drop => cases hlists

/-- The parts of a phrase can be pruned so that the sketch which its rule makes of them is `s₀`,
places apart, and that the statements `gone` are what is taken out. -/
def PrunesTo (r : Rule) (parts : List Tree) (gone : List Sketch) (s₀ : Sketch) : Prop :=
  ∃ ys parts₀, PrunesAll (Prunes Eq) r.lists false parts ys parts₀ ∧ gone.Perm (ys.map ofTree) ∧
    s₀.unplaced = (ofRule (.node r parts₀) r (piecesOf parts₀)).unplaced

/-- A node without any below it. -/
theorem prunesTo_leaf {r : Rule} {x : Tree} {parts : List Tree} {gone : List Sketch} {s₀ : Sketch}
    {kind : NodeKind} {text : String} {e : Extent}
    (heq : ofRule x r (piecesOf parts) = fresh kind text e [])
    (hagain : ofRule (.node r parts) r (piecesOf parts) = fresh kind text e [])
    (h : Loses (ofRule x r (piecesOf parts)) gone s₀) : PrunesTo r parts gone s₀ := by
  rw [heq] at h
  obtain ⟨cs₀, rfl, hcs⟩ := h.of_fresh
  generalize lists kind text = l at hcs
  cases hcs
  exact ⟨[], parts, .refl _ _ fun y _ => .refl y, .refl _, by rw [hagain]⟩

/-- The name that a function carries loses nothing. -/
theorem eq_of_loses_functionNameNode {x : Tree} {name : Option Token}
    {gone : List Sketch} {s₀ : Sketch}
    (h : Loses (functionNameNode x name) gone s₀) : gone = [] ∧ s₀ = functionNameNode x name := by
  cases name <;>
  · obtain ⟨cs₀, rfl, hcs⟩ := h.of_fresh
    replace hcs : LosesAll Loses false [] gone cs₀ := hcs
    cases hcs
    exact ⟨rfl, rfl⟩

/-- A node with the nodes of a phrase and of a third one below it, and nothing of what stands
between the two. -/
theorem exists_pruned_outer {a o c : Tree} (ha : Prunable a) (hc : Prunable c) {kind : NodeKind}
    {text : String} {e : Extent} {gone : List Sketch} {s₀ : Sketch} (hlists : lists kind text = false)
    (h : Loses (fresh kind text e [ofTree a, ofTree c]) gone s₀) :
    ∃ ys a₀ c₀, PrunesAll (Prunes Eq) false false [a, o, c] ys [a₀, o, c₀] ∧
      gone.Perm (ys.map ofTree) ∧
      ∀ e', s₀.unplaced = (fresh kind text e' [ofTree a₀, ofTree c₀]).unplaced := by
  obtain ⟨cs₀, rfl, hcs⟩ := h.of_fresh
  rw [hlists] at hcs
  cases hcs with
  | keep ha' hcs =>
    cases hcs with
    | keep hc' hcs =>
      cases hcs
      obtain ⟨ys, a₀, hpa, hys, ha₀⟩ := ha.own ha'
      obtain ⟨zs, c₀, hpc, hzs, hc₀⟩ := hc.own hc'
      refine ⟨_, a₀, c₀, .keep hpa (.keep (.refl o) (.keep hpc (.nil _ _))), ?_, ?_⟩
      · rw [List.append_nil, List.append_nil, List.nil_append, List.map_append]
        exact hys.append hzs
      · intro e'
        simp only [unplaced_fresh, List.map_cons, List.map_nil, ha₀, hc₀]

section

variable {parts : List Tree} (hparts : ∀ y ∈ parts, Prunable y)
include hparts

theorem exists_pruned_ownOf {lists lists' b : Bool} {gone ss₀ : List Sketch}
    (hlisted : lists = true → lists' = true ∧ Listed b parts)
    (h : LosesAll Loses lists (ownOf (piecesOf parts)) gone ss₀) :
    ∃ ys parts₀, PrunesAll (Prunes Eq) lists' b parts ys parts₀ ∧ gone.Perm (ys.map ofTree) ∧
      ss₀.map unplaced = (ownOf (piecesOf parts₀)).map unplaced := by
  induction parts generalizing b gone ss₀ with
  | nil =>
    cases h
    exact ⟨[], [], .nil _ _, .refl _, rfl⟩
  | cons x xs ih =>
    have hrest {b' : Bool} {gone ss₀} (hb : lists = true → flagAfter b x.tokens = b')
        (h : LosesAll Loses lists (ownOf (piecesOf xs)) gone ss₀) :=
      @ih (fun y hy => hparts y (List.mem_cons_of_mem _ hy)) b' gone ss₀
        (fun hl => ⟨(hlisted hl).1, hb hl ▸ (hlisted hl).2.2⟩) h
    rw [piecesOf, ownOf] at h
    -- a part that makes a node is kept or, among statements, dropped with its semicolon; any
    -- other part stays
    split at h
    · next hnode =>
      cases h with
      | keep head tail =>
        obtain ⟨ys, x₀, hx, hys, hs₀⟩ := (hparts x (List.mem_cons_self ..)).own head
        obtain ⟨zs, xs₀, hxs, hzs, hss₀⟩ := hrest (fun _ => rfl) tail
        refine ⟨ys ++ zs, x₀ :: xs₀, .keep hx hxs, ?_, ?_⟩
        · rw [List.map_append]
          exact hys.append hzs
        · rw [piecesOf, ownOf, if_pos (by rwa [makesNode_of_prunes (fun h => congrArg _ h) hx]),
            List.map_cons, List.map_cons, hs₀, hss₀]
      | drop kind tail =>
        obtain ⟨hl, hx, -⟩ := hlisted rfl
        obtain ⟨rfl, y, t, rfl, hsemicolon⟩ := hx hnode kind
        subst hl
        obtain ⟨zs, xs₀, hxs, hzs, hss₀⟩ := @hrest true _ _
          (fun _ => flagAfter_of_getLast? ⟨t, by simp [Tree.tokens, Tree.tokensOfAll], hsemicolon⟩ _)
          tail
        exact ⟨_ :: zs, xs₀, .drop hsemicolon hxs, hzs.cons _, hss₀⟩
    · next hnode =>
      obtain ⟨zs, xs₀, hxs, hzs, hss₀⟩ := hrest (fun _ => rfl) h
      refine ⟨zs, x :: xs₀, PrunesAll.keep_nil (.refl x) hxs, hzs, ?_⟩
      rw [piecesOf, ownOf, if_neg hnode, hss₀]

/-- The parts of a phrase can be pruned of what their sketches lose where no statement is
listed. -/
theorem exists_pruned_unlisted (b : Bool) {gone ss₀ : List Sketch}
    (h : LosesAll Loses false (ownOf (piecesOf parts)) gone ss₀) :
    ∃ ys parts₀, PrunesAll (Prunes Eq) false b parts ys parts₀ ∧ gone.Perm (ys.map ofTree) ∧
      ss₀.map unplaced = (ownOf (piecesOf parts₀)).map unplaced :=
  exists_pruned_ownOf hparts (fun h => absurd h Bool.false_ne_true) h

theorem exists_pruned_functionParts {b : Bool} {gone gone' params₀ body₀ : List Sketch}
    (h : LosesAll Loses false (functionParts (piecesOf parts)).1 gone params₀)
    (h' : LosesAll Loses false (functionParts (piecesOf parts)).2 gone' body₀) :
    ∃ ys parts₀, PrunesAll (Prunes Eq) false b parts ys parts₀ ∧
      (gone ++ gone').Perm (ys.map ofTree) ∧
      params₀.map unplaced = (functionParts (piecesOf parts₀)).1.map unplaced ∧
      body₀.map unplaced = (functionParts (piecesOf parts₀)).2.map unplaced ∧
      functionName? (piecesOf parts₀) = functionName? (piecesOf parts) := by
  -- parameters and body are lost from separately, but the parts they come from are one list
  induction parts generalizing b gone gone' params₀ body₀ with
  | nil =>
    cases h
    cases h'
    exact ⟨[], [], .nil _ _, .refl _, rfl, rfl, rfl⟩
  | cons x xs ih =>
    have hrest {b' : Bool} {gone gone' params₀ body₀} :=
      @ih (fun y hy => hparts y (List.mem_cons_of_mem _ hy)) b' gone gone' params₀ body₀
    have hrefl (ss : List Sketch) : LosesAll Loses false ss [] ss :=
      losesAll_refl _ fun s _ => loses_refl s
    cases x with
    | leaf t =>
      rw [piecesOf, functionParts_leaf rfl] at h h'
      obtain ⟨zs, xs₀, hxs, hzs, hparams, hbody, hname⟩ := hrest h h'
      refine ⟨zs, .leaf t :: xs₀, PrunesAll.keep_nil (.refl _) hxs, hzs, ?_, ?_, ?_⟩
      · rw [piecesOf, functionParts_leaf rfl, hparams]
      · rw [piecesOf, functionParts_leaf rfl, hbody]
      · unfold functionName? at hname ⊢
        rw [piecesOf, piecesOf, List.findSome?_cons, List.findSome?_cons, hname]
    | node r ps =>
      by_cases hr : r = .params
      · subst hr
        rw [piecesOf, functionParts_params rfl] at h h'
        obtain ⟨ys, x₀, hx, hys, hinner⟩ := (hparts _ (List.mem_cons_self ..)).inner h
        obtain ⟨zs, xs₀, hxs, hzs, -, hbody, hname⟩ := hrest (hrefl _) h'
        cases hx with
        | @node _ _ _ ps₀ hx =>
          refine ⟨ys ++ zs, _, .keep (.node hx) hxs, ?_, ?_, ?_, ?_⟩
          · rw [List.map_append]
            exact hys.append hzs
          · rw [piecesOf, functionParts_params rfl, hinner]
          · rw [piecesOf, functionParts_params rfl, hbody]
          · exact hname
      · rw [piecesOf, functionParts_node rfl hr] at h h'
        cases h' with
        | keep head tail =>
          cases tail
          obtain ⟨ys, x₀, hx, hys, hown⟩ := (hparts _ (List.mem_cons_self ..)).own head
          obtain ⟨zs, xs₀, hxs, hzs, hparams, -, hname⟩ := hrest h (hrefl _)
          cases hx with
          | @node _ _ _ ps₀ hx =>
            refine ⟨ys ++ zs, _, .keep (.node hx) hxs, ?_, ?_, ?_, ?_⟩
            · rw [List.map_append]
              rw [List.append_nil] at hzs ⊢
              exact (List.perm_append_comm.trans (hys.append hzs))
            · rw [piecesOf, functionParts_node rfl hr, hparams]
            · rw [piecesOf, functionParts_node rfl hr, List.map_singleton, List.map_singleton, hown]
            · exact hname

section

variable {r : Rule} {x : Tree} {gone : List Sketch} {s₀ : Sketch}

/-- A node with the nodes of all parts below it. -/
theorem prunesTo_own (hlisted : r.lists = true → Listed false parts) {kind : NodeKind}
    {text : String} {e : Extent}
    (heq : ofRule x r (piecesOf parts) = fresh kind text e (ownOf (piecesOf parts)))
    (hlists : lists kind text = r.lists)
    (hagain : ∀ ys parts₀, PrunesAll (Prunes Eq) r.lists false parts ys parts₀ →
      ∃ e', ofRule (.node r parts₀) r (piecesOf parts₀)
        = fresh kind text e' (ownOf (piecesOf parts₀)))
    (h : Loses (ofRule x r (piecesOf parts)) gone s₀) : PrunesTo r parts gone s₀ := by
  rw [heq] at h
  obtain ⟨cs₀, rfl, hcs⟩ := h.of_fresh
  rw [hlists] at hcs
  obtain ⟨ys, parts₀, hprunes, hys, hcs₀⟩ :=
    exists_pruned_ownOf hparts (fun hl => ⟨hl, hlisted hl⟩) hcs
  obtain ⟨e', heq'⟩ := hagain ys parts₀ hprunes
  exact ⟨ys, parts₀, hprunes, hys, by rw [heq', unplaced_fresh, unplaced_fresh, hcs₀]⟩

/-- A phrase that has other parts than its rule asks for. -/
theorem prunesTo_other (hlists : r.lists = false)
    (heq : ofRule x r (piecesOf parts) = fresh .other r.word x.extent (ownOf (piecesOf parts)))
    (hword : lists .other r.word = false)
    (hagain : ∀ parts₀, parts₀.length = parts.length →
      ofRule (.node r parts₀) r (piecesOf parts₀)
        = fresh .other r.word (Script.Tree.node r parts₀).extent (ownOf (piecesOf parts₀)))
    (h : Loses (ofRule x r (piecesOf parts)) gone s₀) : PrunesTo r parts gone s₀ :=
  prunesTo_own hparts (fun hl => absurd (hlists.symm.trans hl) Bool.false_ne_true) heq
    (hword.trans hlists.symm)
    (fun _ parts₀ hp => ⟨_, hagain parts₀ (length_of_prunesAll (hlists ▸ hp))⟩) h

/-- A function: its parameters and its body are pruned, and its name stays. -/
theorem prunesTo_function (hlists : r.lists = false)
    (heq : ofRule x r (piecesOf parts) = function x (piecesOf parts))
    (hagain : ∀ parts₀, ofRule (.node r parts₀) r (piecesOf parts₀)
      = function (.node r parts₀) (piecesOf parts₀))
    (h : Loses (ofRule x r (piecesOf parts)) gone s₀) : PrunesTo r parts gone s₀ := by
  rw [heq] at h
  obtain ⟨cs₀, rfl, hcs⟩ := h.of_fresh
  replace hcs : LosesAll Loses false (_ :: _ :: _) gone cs₀ := hcs
  cases hcs with
  | keep hname hcs =>
    cases hcs with
    | keep hlist hbody =>
      obtain ⟨rfl, rfl⟩ := eq_of_loses_functionNameNode hname
      obtain ⟨params₀, rfl, hparams⟩ := hlist.of_fresh
      obtain ⟨ys, parts₀, hprunes, hys, hparams₀, hbody₀, hname'⟩ :=
        exists_pruned_functionParts hparts (b := false) hparams hbody
      refine ⟨ys, parts₀, hlists ▸ hprunes, hys, ?_⟩
      have hnode : (functionNameNode x (functionName? (piecesOf parts))).unplaced
          = (functionNameNode (.node r parts₀) (functionName? (piecesOf parts))).unplaced := by
        unfold functionNameNode
        split <;> rfl
      rw [hagain, function, hname']
      simp only [unplaced_fresh, List.map_cons, hparams₀, hbody₀, hnode]

/-- What parentheses leave: a single part is kept whatever it is, and otherwise there is a node
that lists no statements. -/
theorem prunesTo_parenthesized
    (h : Loses (ofRule x .parenthesized (piecesOf parts)) gone s₀) :
    PrunesTo .parenthesized parts gone s₀ := by
  obtain ⟨cs₀, hcs, hs₀⟩ : ∃ cs₀, LosesAll Loses false (ownOf (piecesOf parts)) gone cs₀ ∧
      s₀.unplaced = parenthesized Rule.parenthesized.word ⟨0, 0, 0⟩ (cs₀.map unplaced) := by
    rw [ofRule] at h
    generalize ownOf (piecesOf parts) = ss at h
    rcases ss with _ | ⟨s, _ | ⟨t, ts⟩⟩
    · obtain ⟨cs₀, rfl, hcs⟩ := h.of_fresh
      replace hcs : LosesAll Loses false [] gone cs₀ := hcs
      cases hcs
      exact ⟨[], .nil _, rfl⟩
    · refine ⟨[s₀], ?_, rfl⟩
      rw [← List.append_nil gone]
      exact .keep h (.nil _)
    · obtain ⟨cs₀, rfl, hcs⟩ := h.of_fresh
      replace hcs : LosesAll Loses false (s :: t :: ts) gone cs₀ := hcs
      refine ⟨cs₀, hcs, ?_⟩
      rw [unplaced_fresh]
      -- at least two are left, so they are not taken for what was in the parentheses
      cases hcs with
      | keep _ hcs =>
        cases hcs with
        | keep => rfl
  obtain ⟨ys, parts₀, hprunes, hys, hcs₀⟩ := exists_pruned_unlisted hparts false hcs
  exact ⟨ys, parts₀, hprunes, hys, by rw [hs₀, hcs₀, ofRule, unplaced_parenthesized]⟩

/-- A variable: its name is the text of its node, and only the parts after it make nodes. -/
theorem prunesTo_declarator (h : Loses (ofRule x .declarator (piecesOf parts)) gone s₀)
    (hx : x = .node .declarator parts) : PrunesTo .declarator parts gone s₀ := by
  cases parts with
  | nil =>
    exact prunesTo_other hparts rfl rfl rfl
      (fun parts₀ hl => by rw [List.length_eq_zero_iff.mp hl]; rfl) h
  | cons y ys =>
    obtain ⟨cs₀, rfl, hcs⟩ := h.of_fresh
    obtain ⟨gone', ys₀, hprunes, hgone, hcs₀⟩ := exists_pruned_unlisted
      (fun z hz => hparts z (List.mem_cons_of_mem _ hz)) (flagAfter false y.tokens) hcs
    have hp : PrunesAll (Prunes Eq) false false (y :: ys) gone' (y :: ys₀) :=
      PrunesAll.keep_nil (.refl y) hprunes
    have hhead := headText_of_prunes (fun h => congrArg _ h) (Prunes.node (r := .declarator) hp)
    refine ⟨gone', y :: ys₀, hp, hgone, ?_⟩
    rw [piecesOf, ofRule, unplaced_fresh, unplaced_fresh, hcs₀, hhead, hx]

/-- A property access: the property is the text of its node, and what stands before the dot is
below it. -/
theorem prunesTo_getProp (h : Loses (ofRule x .getProp (piecesOf parts)) gone s₀) :
    PrunesTo .getProp parts gone s₀ := by
  rcases parts with _ | ⟨a, _ | ⟨o, _ | ⟨c, _ | ⟨d, ds⟩⟩⟩⟩
  case cons.cons.cons.nil =>
    obtain ⟨cs₀, rfl, hcs⟩ := h.of_fresh
    have htwo : ∀ y ∈ [a, o], Prunable y := fun y hy => hparts y (by
      rcases List.mem_cons.mp hy with rfl | hy
      · simp
      · rw [List.mem_singleton.mp hy]
        simp)
    obtain ⟨ys, parts₀, hprunes, hys, hcs₀⟩ := exists_pruned_unlisted htwo false hcs
    cases hprunes with
    | @keep _ _ _ _ a₀ _ _ _ ha hprunes =>
      cases hprunes with
      | @keep _ _ _ _ o₀ _ _ _ ho hprunes =>
        cases hprunes
        refine ⟨_, [a₀, o₀, c], .keep ha (.keep ho (.keep (.refl c) (.nil _ _))), hys, ?_⟩
        simp only [piecesOf] at hcs₀
        simp only [piecesOf, ofRule, unplaced_fresh, hcs₀]
  all_goals
    refine prunesTo_other hparts rfl rfl rfl (fun parts₀ hl => ?_) h
    rcases parts₀ with _ | ⟨_, _ | ⟨_, _ | ⟨_, _ | ⟨_, _⟩⟩⟩⟩ <;> first
      | rfl
      | simp at hl

/-- A call: the node of the callee and the nodes of the arguments are below its node. -/
theorem prunesTo_call (h : Loses (ofRule x .call (piecesOf parts)) gone s₀) :
    PrunesTo .call parts gone s₀ := by
  rcases parts with _ | ⟨a, _ | ⟨c, _ | ⟨d, ds⟩⟩⟩
  case cons.cons.nil =>
    obtain ⟨cs₀, rfl, hcs⟩ := h.of_fresh
    replace hcs : LosesAll Loses false (ofTree a :: inside c) gone cs₀ := hcs
    cases hcs with
    | keep ha hc =>
      obtain ⟨ys, a₀, hpa, hys, ha₀⟩ := (hparts a (by simp)).own ha
      obtain ⟨zs, c₀, hpc, hzs, hc₀⟩ := (hparts c (by simp)).inner hc
      refine ⟨_, [a₀, c₀], .keep hpa (.keep hpc (.nil _ _)), ?_, ?_⟩
      · rw [List.append_nil, List.map_append]
        exact hys.append hzs
      · simp only [piecesOf, ofRule, unplaced_fresh, List.map_cons, ha₀, hc₀]
  all_goals
    refine prunesTo_other hparts rfl rfl rfl (fun parts₀ hl => ?_) h
    rcases parts₀ with _ | ⟨_, _ | ⟨_, _ | ⟨_, _ | ⟨_, _⟩⟩⟩⟩ <;> first
      | rfl
      | simp at hl

/-- An assignment, or with another operator a node that has the operator as its text. -/
theorem prunesTo_assign
    (hassign : ∀ a o c, parts = [a, o, c] → lists .other o.headText = false)
    (h : Loses (ofRule x .assign (piecesOf parts)) gone s₀) : PrunesTo .assign parts gone s₀ := by
  rcases parts with _ | ⟨a, _ | ⟨o, _ | ⟨c, _ | ⟨d, ds⟩⟩⟩⟩
  case cons.cons.cons.nil =>
    have ha := hparts a (by simp)
    have hc := hparts c (by simp)
    simp only [piecesOf, ofRule] at h
    split at h
    · next heq =>
      obtain ⟨ys, a₀, c₀, hprunes, hys, hs₀⟩ := exists_pruned_outer ha hc rfl h
      refine ⟨ys, [a₀, o, c₀], hprunes, hys, ?_⟩
      simp only [piecesOf, ofRule, if_pos heq]
      exact hs₀ _
    · next heq =>
      obtain ⟨ys, a₀, c₀, hprunes, hys, hs₀⟩ := exists_pruned_outer ha hc (hassign a o c rfl) h
      refine ⟨ys, [a₀, o, c₀], hprunes, hys, ?_⟩
      simp only [piecesOf, ofRule, if_neg heq]
      exact hs₀ _
  all_goals
    refine prunesTo_other hparts rfl rfl rfl (fun parts₀ hl => ?_) h
    rcases parts₀ with _ | ⟨_, _ | ⟨_, _ | ⟨_, _ | ⟨_, _⟩⟩⟩⟩ <;> first
      | rfl
      | simp at hl

end

/-- What the sketch of a rule can lose, the parts of the phrase can be pruned of. -/
theorem prunesTo_ofRule {r : Rule} {x : Tree} (hx : x = .node r parts)
    (hlisted : r.lists = true → Listed false parts)
    (hassign : ∀ a o c, r = .assign → parts = [a, o, c] → lists .other o.headText = false)
    {gone : List Sketch} {s₀ : Sketch} (h : Loses (ofRule x r (piecesOf parts)) gone s₀) :
    PrunesTo r parts gone s₀ := by
  have hhead {ys parts₀} (hp : PrunesAll (Prunes Eq) r.lists false parts ys parts₀) :
      (Script.Tree.node r parts₀).headText = x.headText :=
    hx ▸ headText_of_prunes (fun h => congrArg _ h) (.node hp)
  subst hx
  cases r
  case name => exact prunesTo_leaf rfl rfl h
  case simpleParam => exact prunesTo_leaf rfl rfl h
  case this => exact prunesTo_leaf rfl rfl h
  case number => exact prunesTo_leaf rfl rfl h
  case string => exact prunesTo_leaf rfl rfl h
  case template => exact prunesTo_leaf rfl rfl h
  case varStatement =>
    exact prunesTo_own hparts hlisted rfl rfl (fun ys parts₀ hp => ⟨_, by rw [ofRule, hhead hp]⟩) h
  case functionDeclaration => exact prunesTo_function hparts rfl rfl (fun _ => rfl) h
  case functionExpression => exact prunesTo_function hparts rfl rfl (fun _ => rfl) h
  case parenthesized => exact prunesTo_parenthesized hparts h
  case declarator => exact prunesTo_declarator hparts h rfl
  case getProp => exact prunesTo_getProp hparts h
  case call => exact prunesTo_call hparts h
  case assign => exact prunesTo_assign hparts (fun a o c => hassign a o c rfl) h
  all_goals exact prunesTo_own hparts hlisted rfl rfl (fun _ _ _ => ⟨_, rfl⟩) h

/-- A phrase can be pruned of what its sketch loses if its parts can. -/
theorem prunable_node {r : Rule} (hlisted : r.lists = true → Listed false parts)
    (hassign : ∀ a o c, r = .assign → parts = [a, o, c] → lists .other o.headText = false) :
    Prunable (.node r parts) where
  own := by
    intro gone s₀ h
    rw [ofTree] at h
    -- the comment is taken off first, so that what is lost is lost from the rule
    obtain ⟨s₁, hs₁, heq⟩ : ∃ s₁,
        Loses (ofRule (.node r parts) r (piecesOf parts)) gone s₁ ∧
        s₀ = if r.isStatement then
            match (Script.Tree.node r parts).docBefore? with
            | some d => s₁.document d
            | none => s₁
          else s₁ := by
      unfold documented at h
      split at h
      · next hstatement =>
        simp only [if_pos hstatement]
        cases hdoc : (Script.Tree.node r parts).docBefore? with
        | some d =>
          rw [hdoc] at h
          exact h.of_document
        | none =>
          rw [hdoc] at h
          exact ⟨s₀, h, rfl⟩
      · next hstatement =>
        simp only [if_neg hstatement]
        exact ⟨s₀, h, rfl⟩
    obtain ⟨ys, parts₀, hprunes, hys, hs⟩ := prunesTo_ofRule hparts rfl hlisted hassign hs₁
    have hp : Prunes Eq (.node r parts) ys (.node r parts₀) := .node hprunes
    refine ⟨ys, _, hp, hys, ?_⟩
    rw [heq, ofTree]
    exact unplaced_documented
      (fun _ => docBefore_of_prunes hp fun _ _ _ h => congrArg _ (congrArg _ h)) hs
  inner := by
    intro gone ss₀ h
    obtain ⟨ys, parts₀, hprunes, hys, hss₀⟩ :=
      exists_pruned_ownOf hparts (fun h => absurd h Bool.false_ne_true) h
    exact ⟨ys, .node r parts₀, .node hprunes, hys, hss₀⟩

end

theorem prunable_leaf (t : Token) : Prunable (.leaf t) where
  own := by
    intro gone s₀ h
    refine ⟨[], .leaf t, .leaf rfl, ?_⟩
    have hfresh : ∃ kind text e, ofTree (.leaf t) = fresh kind text e [] := by
      rw [ofTree, ofToken]
      cases t.kind <;> exact ⟨_, _, _, rfl⟩
    obtain ⟨kind, text, e, heq⟩ := hfresh
    rw [heq] at h ⊢
    obtain ⟨cs₀, rfl, hcs⟩ := h.of_fresh
    generalize lists kind text = l at hcs
    cases hcs
    exact ⟨.refl _, rfl⟩
  inner := by
    intro gone ss₀ h
    cases h
    exact ⟨[], .leaf t, .leaf rfl, .refl _, rfl⟩

/-! ### Phrases that the grammar forms -/

/-- What a phrase that the grammar forms is made of. -/
theorem formed_parts {depth : Nat} {c : Category} {r : Rule} {parts : List Tree}
    (h : Formed depth c (.node r parts)) :
    (r ∉ extendingRules ∧ ∃ d, itemsFit (Formed d) r.items parts) ∨
      r ∈ extendingRules ∧ ∃ d d' c' y ys, parts = y :: ys ∧ IsExpression c' ∧ Formed d' c' y ∧
        itemsFit (Formed d) r.items ys := by
  induction depth generalizing c with
  | zero => exact h.elim
  | succ depth ih =>
    replace h : FormedPhrase (Formed depth) c (.node r parts) := h
    cases h with
    | through _ inner => exact ih inner
    | rule predicted items =>
      obtain h | ⟨r, hr, h⟩ | ⟨_, -, h⟩ := Category.predict_eq predicted
      · cases h
      · cases h
        exact .inl ⟨Category.not_extending hr, depth, items⟩
      · cases h
    | extended inner extension items =>
      obtain ⟨hr, hc⟩ := Category.extension_eq extension
      exact .inr ⟨hr, depth, depth + 1, c, _, _, rfl, hc.imp_right .inr, inner, items⟩

theorem leaf_or_formed {parts : List Tree} {is : List Item} {d : Nat}
    (h : itemsFit (Formed d) is parts) :
    ∀ y ∈ parts, (∃ t, y = .leaf t) ∨ ∃ d c, Formed d c y := by
  intro y hy
  obtain ⟨p, -, hp⟩ := itemsFit_mem h y hy
  cases p with
  | token kind =>
    obtain ⟨t, rfl, -⟩ := hp
    exact .inl ⟨t, rfl⟩
  | phrase c => exact .inr ⟨d, c, hp⟩

/-- A phrase of a category without single tokens, narrower phrases and extensions is formed by
one of the rules of the category. -/
theorem formed_by_rule {depth : Nat} {c : Category} {x : Tree} (h : Formed depth c x)
    (htoken : ∀ kind, c.acceptsToken kind = false) (hnarrower : c.narrower? = none)
    (hextension : ∀ rank kind, c.extension rank kind = none) :
    ∃ r parts d, x = .node r parts ∧ r ∈ c.rules ∧ itemsFit (Formed d) r.items parts := by
  cases depth with
  | zero => exact h.elim
  | succ depth =>
    replace h : FormedPhrase (Formed depth) c x := h
    cases h with
    | token accepted =>
      rw [htoken] at accepted
      cases accepted
    | through predicted =>
      obtain h | ⟨_, -, h⟩ | ⟨d, hd, -⟩ := Category.predict_eq predicted
      · cases h
      · cases h
      · rw [hnarrower] at hd
        cases hd
    | rule predicted items =>
      obtain h | ⟨r, hr, h⟩ | ⟨_, -, h⟩ := Category.predict_eq predicted
      · cases h
      · cases h
        exact ⟨_, _, depth, rfl, hr, items⟩
      · cases h
    | extended _ extension =>
      rw [hextension] at extension
      cases extension

/-- A statement is formed by a rule of statements. -/
theorem formed_statement {depth : Nat} {x : Tree} (h : Formed depth .statement x) :
    ∃ r parts d, x = .node r parts ∧ r ∈ statementRules ∧ itemsFit (Formed d) r.items parts :=
  formed_by_rule h (fun _ => rfl) rfl fun _ _ => rfl

/-- A statement whose node is an expression statement is one. -/
theorem eq_expressionStatement {depth : Nat} {x : Tree} (h : Formed depth .statement x)
    (hkind : (ofTree x).kind = .exprResult) : ∃ y t,
      x = .node .expressionStatement [y, .leaf t] ∧ t.kind = .mark .semicolon := by
  obtain ⟨r, parts, d, rfl, hr, hitems⟩ := formed_statement h
  rw [ofTree, kind_documented] at hkind
  rcases eq_of_kind_exprResult hkind with rfl | ⟨hnot, -⟩
  · simp only [Rule.items, itemsFit_one, itemsFit_nil] at hitems
    obtain ⟨y, _, rfl, -, _, _, rfl, ⟨t, rfl, ht⟩, rfl⟩ := hitems
    exact ⟨y, t, rfl, ht⟩
  · have hstatement : ∀ r ∈ statementRules, r.isStatement = true := by decide
    rw [hstatement r hr] at hnot
    cases hnot

theorem listed_append {b : Bool} {xs ys : List Tree} (hxs : Listed b xs)
    (hys : Listed (flagAfter b (Tree.tokensOfAll xs)) ys) : Listed b (xs ++ ys) := by
  induction xs generalizing b with
  | nil => exact hys
  | cons x xs ih =>
    rw [Tree.tokensOfAll, flagAfter_append] at hys
    exact ⟨hxs.1, ih hxs.2 hys⟩

/-- Statements end at boundaries, so those among them that are expression statements come after
one. -/
theorem listed_statements {xs : List Tree} (h : ∀ x ∈ xs, ∃ d, Formed d .statement x) :
    Listed true xs := by
  induction xs with
  | nil => trivial
  | cons x xs ih =>
    obtain ⟨d, hx⟩ := h x (List.mem_cons_self ..)
    refine ⟨fun _ hkind => ⟨rfl, eq_expressionStatement hx hkind⟩, ?_⟩
    rw [flagAfter_mono (hx.closed rfl)]
    exact ih fun y hy => h y (List.mem_cons_of_mem _ hy)

/-- A part that makes no node or a plain one. -/
theorem listed_single {b : Bool} {x : Tree}
    (h : x.makesNode = true → (ofTree x).kind ≠ .exprResult) : Listed b [x] :=
  ⟨fun hnode hkind => absurd hkind (h hnode), trivial⟩

theorem statements_of_fits {d : Nat} {xs : List Tree}
    (h : (Item.repeated [.phrase .statement]).Fits (Formed d) xs) :
    ∀ x ∈ xs, ∃ d, Formed d .statement x := by
  intro x hx
  obtain ⟨groups, rfl, hgroups⟩ := h
  obtain ⟨g, hg, hxg⟩ := List.mem_flatten.mp hx
  obtain ⟨p, hp, hfit⟩ := partsFit_mem (hgroups g hg) x hxg
  rw [List.mem_singleton.mp hp] at hfit
  exact ⟨d, hfit⟩

theorem listed_mark {b : Bool} {m : Mark} {x : Tree} (h : Part.Fits (Formed d) (.token (.mark m)) x) :
    Listed b [x] ∧ flagAfter b x.tokens = m.isBoundary := by
  obtain ⟨t, rfl, ht⟩ := h
  refine ⟨listed_single fun hnode => ?_, congrArg TokenKind.isBoundary ht⟩
  simp [Tree.makesNode, ht] at hnode

/-- Where a rule lists statements, they come after a boundary. -/
theorem listed_of_fits {r : Rule} {parts : List Tree} {d : Nat} (hr : r.lists = true)
    (h : itemsFit (Formed d) r.items parts) (htokens : ∀ t ∈ Tree.tokensOfAll parts, t.Spelled) :
    Listed false parts := by
  -- the statements, and what stands before and after them
  have hbraces (h : itemsFit (Formed d)
      [.mark .lbrace, .repeated [.phrase .statement], .mark .rbrace] parts) :
      Listed false parts := by
    obtain ⟨x, _, rfl, hx, ys, zs, rfl, hys, hzs⟩ := itemsFit_one.mp h
    obtain ⟨z, _, rfl, hz, rfl⟩ := itemsFit_one.mp hzs
    obtain ⟨hx, hbrace⟩ := listed_mark (b := false) hx
    refine ⟨hx.1, ?_⟩
    rw [hbrace]
    exact listed_append (listed_statements (statements_of_fits hys)) (listed_mark hz).1
  have hcase {b : Bool} {xs : List Tree} (h : itemsFit (Formed d)
      [.mark .colon, .repeated [.phrase .statement]] xs) : Listed b xs := by
    obtain ⟨x, _, rfl, hx, ys, _, rfl, hys, rfl⟩ := itemsFit_one.mp h
    obtain ⟨hx, hcolon⟩ := listed_mark (b := b) hx
    rw [List.append_nil]
    refine ⟨hx.1, ?_⟩
    rw [hcolon]
    exact listed_statements (statements_of_fits hys)
  have hword {b : Bool} {w : Keyword} {x : Tree} {xs : List Tree}
      (hx : Part.Fits (Formed d) (.token (.keyword w)) x)
      (hxs : Listed (flagAfter b x.tokens) xs) : Listed b (x :: xs) := by
    obtain ⟨t, rfl, ht⟩ := hx
    refine ⟨fun hnode => ?_, hxs⟩
    simp [Tree.makesNode, ht] at hnode
  cases r <;> first | (cases hr; done) | skip
  case block => exact hbraces h
  case functionBody => exact hbraces h
  case caseClause =>
    obtain ⟨x, _, rfl, hx, h⟩ := itemsFit_one.mp h
    obtain ⟨y, ys, rfl, hy, h⟩ := itemsFit_one.mp h
    refine hword hx ⟨fun _ hkind => ?_, hcase h⟩
    have hlawful : Lawful .anyExpression y := lawful_of_formed hy fun t ht =>
      htokens t (by simp [Tree.tokensOfAll, ht])
    exact absurd hkind (hlawful.plain (by simp) (by simp)).ne_exprResult
  case defaultClause =>
    obtain ⟨x, _, rfl, hx, h⟩ := itemsFit_one.mp h
    exact hword hx (hcase h)

/-- An operator does not list statements. -/
theorem lists_operator {d : Nat} {x : Tree} (h : Formed d .assignOperator x)
    (htokens : ∀ t ∈ x.tokens, t.Spelled) : lists .other x.headText = false := by
  cases d with
  | zero => exact h.elim
  | succ d =>
    replace h : FormedPhrase (Formed d) .assignOperator x := h
    cases h with
    | @token t accepted =>
      have hspelled := htokens t (List.mem_singleton_self t)
      unfold Token.Spelled at hspelled
      cases hkind : t.kind with
      | mark m =>
        rw [hkind] at hspelled
        have htext : (Script.Tree.leaf t).headText = m.text := hspelled
        rw [htext]
        cases m <;> decide
      | _ => rw [hkind] at accepted; cases accepted
    | through predicted =>
      obtain h | ⟨_, -, h⟩ | ⟨_, hd, -⟩ := Category.predict_eq predicted
      · cases h
      · cases h
      · cases hd
    | rule predicted =>
      obtain h | ⟨_, hr, -⟩ | ⟨_, -, h⟩ := Category.predict_eq predicted
      · cases h
      · cases hr
      · cases h
    | extended _ extension => obtain ⟨-, ⟨_, _, h⟩ | h⟩ := Category.extension_eq extension <;> cases h

/-- A phrase that the grammar forms can be pruned of what its sketch loses. -/
theorem prunable_of_formed {depth : Nat} {c : Category} {x : Tree} (h : Formed depth c x)
    (htokens : ∀ t ∈ x.tokens, t.Spelled) : Prunable x := by
  induction x using Tree.induction_on generalizing depth c with
  | leaf t => exact prunable_leaf t
  | node r parts ih =>
    have hpart {y : Tree} (hy : y ∈ parts)
        (h : (∃ t, y = .leaf t) ∨ ∃ d c, Formed d c y) : Prunable y := by
      rcases h with ⟨t, rfl⟩ | ⟨d, c, h⟩
      · exact prunable_leaf t
      · exact ih y hy h fun t ht => htokens t (mem_tokensOfAll hy ht)
    rcases formed_parts h with ⟨hr, d, hitems⟩ | ⟨hr, d, d', c', y, ys, rfl, -, hy, hitems⟩
    · refine prunable_node (fun y hy => hpart hy (leaf_or_formed hitems y hy))
        (fun hl => listed_of_fits hl hitems htokens) ?_
      rintro a o c rfl
      exact absurd (by decide) hr
    · refine prunable_node (fun z hz => hpart hz ?_) (fun hl => ?_) ?_
      · rcases List.mem_cons.mp hz with rfl | hz
        · exact .inr ⟨d', c', hy⟩
        · exact leaf_or_formed hitems z hz
      · have hnot : ∀ r ∈ extendingRules, r.lists = false := by decide
        rw [hnot r hr] at hl
        cases hl
      · rintro a o c rfl heq
        obtain ⟨rfl, rfl⟩ := List.cons.inj heq
        obtain ⟨o', _, heq', ho, -⟩ := itemsFit_one.mp hitems
        obtain ⟨rfl, -⟩ := List.cons.inj heq'
        exact lists_operator ho fun t ht => htokens t (mem_tokensOfAll (by simp) ht)

end Sketch

end SuperForward
