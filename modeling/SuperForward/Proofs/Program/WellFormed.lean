/-
  Which children the nodes of a program have.

  A program of sources is one tree of scripts, and the sort of a node tells how many children it
  has and of which sorts. Most of this is the shape that the rules of the grammar give to a
  sketch. What the shape leaves open follows from the rules in the same way: an element has a
  target and an index, a declaration has variables, and only a function has a list of parameters.
-/
import SuperForward.Proofs.Program.Documenting
import SuperForward.Proofs.Program.Enclosing

namespace SuperForward

open SuperForward.Script

namespace Sketch

/-! ## What the shape leaves open -/

/-- The name of a declared variable, with an initialiser below it or nothing. -/
def IsVariable (s : Sketch) : Prop := s.kind = .name ∧ s.children.length ≤ 1

/-- An element has a target and an index, a declaration has variables, and a list of parameters
hangs at a function. -/
structure Neat (s : Sketch) : Prop where
  getElem : s.kind = .getElem → ∃ target index, s.children = [target, index]
  var : s.kind = .var → s.children ≠ [] ∧ ∀ c ∈ s.children, c.IsVariable
  paramList : ∀ c ∈ s.children, c.kind = .paramList → s.kind = .function

/-- All nodes are neat. -/
def Tidy (s : Sketch) : Prop := ∀ t, Within t s → t.Neat

/-- The node may stand anywhere in a tidy sketch. -/
structure Settled (s : Sketch) : Prop where
  tidy : s.Tidy
  ne_paramList : s.kind ≠ .paramList

theorem tidy_of_children {s : Sketch} (h : s.Neat) (hcs : ∀ c ∈ s.children, c.Tidy) : s.Tidy :=
  forall_within h hcs

section Fresh

variable {kind : NodeKind} {text : String} {e : Extent} {cs : List Sketch}

/-- Most nodes are neat above whatever is settled. -/
theorem tidy_fresh (helem : kind ≠ .getElem) (hvar : kind ≠ .var) (hcs : ∀ c ∈ cs, c.Settled) :
    (fresh kind text e cs).Tidy :=
  tidy_of_children ⟨fun h => absurd h helem, fun h => absurd h hvar,
    fun c hc h => absurd h (hcs c hc).ne_paramList⟩ fun c hc => (hcs c hc).tidy

theorem settled_fresh (helem : kind ≠ .getElem) (hvar : kind ≠ .var) (hlist : kind ≠ .paramList)
    (hcs : ∀ c ∈ cs, c.Settled) : (fresh kind text e cs).Settled :=
  ⟨tidy_fresh helem hvar hcs, hlist⟩

theorem settled_name : (fresh .name text e []).Settled :=
  settled_fresh (by simp) (by simp) (by simp) (List.forall_mem_nil _)

theorem settled_getElem {target index : Sketch} (htarget : target.Settled)
    (hindex : index.Settled) : (fresh .getElem text e [target, index]).Settled := by
  have hcs : ∀ c ∈ [target, index], c.Settled :=
    List.forall_mem_cons.mpr ⟨htarget, List.forall_mem_singleton.mpr hindex⟩
  refine ⟨tidy_of_children ⟨fun _ => ⟨target, index, rfl⟩, by simp [fresh, kind], ?_⟩ ?_,
    by simp [fresh, kind]⟩
  · exact fun c hc h => absurd h (hcs c hc).ne_paramList
  · exact fun c hc => (hcs c hc).tidy

theorem settled_var (hne : cs ≠ []) (hvariables : ∀ c ∈ cs, c.IsVariable)
    (hcs : ∀ c ∈ cs, c.Settled) : (fresh .var text e cs).Settled := by
  refine ⟨tidy_of_children ⟨by simp [fresh, kind], fun _ => ⟨hne, hvariables⟩, ?_⟩ ?_,
    by simp [fresh, kind]⟩
  · exact fun c hc h => absurd h (hcs c hc).ne_paramList
  · exact fun c hc => (hcs c hc).tidy

end Fresh

/-- A function is settled if its parameters and its body are. -/
theorem settled_function (x : Tree) {parts : List Piece}
    (hparams : ∀ c ∈ (functionParts parts).1, c.Settled)
    (hbody : ∀ c ∈ (functionParts parts).2, c.Settled) : (function x parts).Settled := by
  have hname : (functionNameNode x (functionName? parts)).Settled := by
    unfold functionNameNode
    split <;> exact settled_name
  rw [function_eq]
  refine ⟨tidy_of_children ⟨by simp [fresh, kind], by simp [fresh, kind], fun _ _ _ => rfl⟩ ?_,
    by simp [fresh, kind]⟩
  exact List.forall_mem_cons.mpr ⟨hname.tidy, List.forall_mem_cons.mpr
    ⟨tidy_fresh (by simp) (by simp) hparams, fun c hc => (hbody c hc).tidy⟩⟩

/-! ### Documentation -/

theorem Tidy.setDoc {s : Sketch} (h : s.Tidy) (d : DocComment) : (s.setDoc d).Tidy := by
  cases s with
  | mk kind text doc e cs =>
    have hs := h _ .here
    exact tidy_of_children ⟨hs.getElem, hs.var, hs.paramList⟩ fun c hc t ht => h t (.child hc ht)

/-- Documentation changes no children. -/
theorem Settled.document {s : Sketch} (h : s.Settled) (d : DocComment) :
    (s.document d).Settled := by
  refine ⟨?_, by rw [kind_document]; exact h.ne_paramList⟩
  rcases document_eq s d with heq | ⟨text, doc, e, c, cs, rfl, -, heq⟩
  · exact heq ▸ h.tidy.setDoc d
  rw [heq]
  have hbelow {c' : Sketch} (hc' : c' ∈ c :: cs) : c'.Tidy :=
    fun t ht => h.tidy t (.child hc' ht)
  refine tidy_of_children ⟨by simp [kind], by simp [kind], ?_⟩ ?_
  · have hlist := (h.tidy _ .here).paramList
    rw [children, List.forall_mem_cons] at hlist ⊢
    rwa [kind_setDoc]
  · exact List.forall_mem_cons.mpr
      ⟨(hbelow (.head _)).setDoc d, fun c' hc' => hbelow (.tail _ hc')⟩

/-! ## Sketches of phrases -/

/-- The sketches of a phrase and of the phrases inside it are settled. -/
structure Settles (x : Tree) : Prop where
  own : (ofTree x).Settled
  inner : ∀ s ∈ inside x, s.Settled

/-- Sketches that are strung from phrases are settled if those of the phrases are. -/
theorem Strung.settled {cs : List Sketch} {xs : List Tree} (h : Strung cs xs)
    (hxs : ∀ x ∈ xs, Settles x) : ∀ c ∈ cs, c.Settled := by
  intro c hc
  obtain ⟨x, hx, rfl | hinside⟩ := h.mem hc
  · exact (hxs x hx).own
  · exact (hxs x hx).inner c hinside

/-- A declared variable makes its name, with what initialises it below. -/
theorem isVariable_of_formed {depth : Nat} {y : Tree} (h : Formed depth .declarator y) :
    y.makesNode = true ∧ (ofTree y).IsVariable := by
  obtain ⟨r, parts, d, rfl, hr, hitems⟩ := formed_by_rule h (fun _ => rfl) rfl fun _ _ => rfl
  obtain rfl : r = .declarator := List.mem_singleton.mp hr
  obtain ⟨name, rest, rfl, -, zs, ws, rfl, hzs, hws⟩ := itemsFit_one.mp hitems
  cases itemsFit_nil.mp hws
  refine ⟨rfl, rfl, ?_⟩
  change (ownOf (piecesOf (zs ++ []))).length ≤ 1
  rcases hzs with rfl | ⟨_, _, rfl, ⟨t, rfl, ht⟩, value, _, rfl, -, rfl⟩
  · exact Nat.zero_le 1
  · have hmark : (Tree.leaf t).makesNode = false := makesNode_leaf (.inr ⟨_, ht⟩)
    rw [List.append_nil, ownOf_cons_skip hmark, ownOf_piecesOf, List.length_map]
    exact List.length_filter_le ..

/-- A declaration makes the names of its variables, and has at least one. -/
theorem variables_of_fits {d : Nat} {parts : List Tree}
    (h : itemsFit (Formed d) Rule.varStatement.items parts) :
    ownOf (piecesOf parts) ≠ [] ∧ ∀ c ∈ ownOf (piecesOf parts), c.IsVariable := by
  constructor
  · obtain ⟨word, _, rfl, -, ys, zs, rfl, hys, -⟩ := itemsFit_one.mp h
    obtain ⟨hempty, -⟩ | ⟨y, ys, rfl, hy, -⟩ := hys
    · cases hempty
    · have hmem : ofTree y ∈ ownOf (piecesOf (word :: (y :: ys ++ zs))) := by
        rw [ownOf_piecesOf]
        exact List.mem_map_of_mem (List.mem_filter.mpr ⟨by simp, (isVariable_of_formed hy).1⟩)
      exact List.ne_nil_of_mem hmem
  · intro c hc
    obtain ⟨y, hy, hnode, rfl⟩ := mem_ownOf hc
    obtain ⟨p, hp, hfit⟩ := itemsFit_mem h y hy
    have hasks : p = .phrase .declarationWord ∨ p = .phrase .declarator ∨
        p = .token (.mark .comma) ∨ p = .token (.mark .semicolon) := by
      simpa [Rule.items, Item.asks, or_assoc] using hp
    -- of these only the variables make nodes
    rcases hasks with rfl | rfl | rfl | rfl
    · obtain ⟨t, rfl, ht⟩ := Formable.eq_leaf ⟨d, hfit⟩ rfl rfl rfl
      have hword : ∃ w, t.kind = .keyword w := by
        cases hkind : t.kind <;> rw [hkind] at ht <;> first | exact ⟨_, rfl⟩ | cases ht
      rw [makesNode_leaf (.inl hword)] at hnode
      cases hnode
    · exact (isVariable_of_formed hfit).2
    · obtain ⟨t, rfl, ht⟩ := hfit
      rw [makesNode_leaf (.inr ⟨_, ht⟩)] at hnode
      cases hnode
    · obtain ⟨t, rfl, ht⟩ := hfit
      rw [makesNode_leaf (.inr ⟨_, ht⟩)] at hnode
      cases hnode

/-- The target and the index are what makes nodes in an element. -/
theorem elements_of_formed {d d' : Nat} {c : Category} {y : Tree} {ys : List Tree}
    (hc : IsExpression c) (hy : Formed d' c y)
    (hitems : itemsFit (Formed d) Rule.getElem.items ys)
    (hspelled : ∀ t ∈ Tree.tokensOfAll (y :: ys), t.Spelled) :
    ∃ index ∈ ys, ownOf (piecesOf (y :: ys)) = [ofTree y, ofTree index] := by
  simp only [Rule.items, itemsFit_one, itemsFit_nil] at hitems
  obtain ⟨_, _, rfl, ⟨opening, rfl, hopening⟩, index, _, rfl, hindex,
    _, _, rfl, ⟨closing, rfl, hclosing⟩, rfl⟩ := hitems
  have hnode {x : Tree} {d : Nat} {c : Category} (hc : IsExpression c) (hx : Formed d c x)
      (hmem : x ∈ [y, .leaf opening, index, .leaf closing]) : x.makesNode = true :=
    (lawful_of_formed hx fun t ht => hspelled t (mem_tokensOfAll hmem ht)).makesNode hc
  refine ⟨index, by simp, ?_⟩
  rw [ownOf_cons_node (hnode hc hy (by simp)),
    ownOf_cons_skip (makesNode_leaf (.inr ⟨_, hopening⟩)),
    ownOf_cons_node (hnode (.inl ⟨_, _, rfl⟩) hindex (by simp)),
    ownOf_cons_skip (makesNode_leaf (.inr ⟨_, hclosing⟩))]
  rfl

/-- The node of a rule is settled if its parts are. Elements and declarations have the parts that
their rules ask for. -/
theorem settled_ofRule {x : Tree} {r : Rule} {parts : List Tree} (hparts : ∀ y ∈ parts, Settles y)
    (helem : r = .getElem → ∃ target ∈ parts, ∃ index ∈ parts,
      ownOf (piecesOf parts) = [ofTree target, ofTree index])
    (hvar : r = .varStatement → ownOf (piecesOf parts) ≠ [] ∧
      ∀ c ∈ ownOf (piecesOf parts), c.IsVariable)
    (hfunction : r = .functionDeclaration ∨ r = .functionExpression → ParamsFirst parts) :
    (ofRule x r (piecesOf parts)).Settled := by
  have hown := (strung_ownOf parts).settled hparts
  by_cases hr : r = .getElem
  · subst hr
    obtain ⟨target, htarget, index, hindex, heq⟩ := helem rfl
    have hrule : ofRule x .getElem (piecesOf parts)
        = fresh .getElem "" x.extent (ownOf (piecesOf parts)) := rfl
    rw [hrule, heq]
    exact settled_getElem (hparts target htarget).own (hparts index hindex).own
  by_cases hr' : r = .varStatement
  · subst hr'
    exact settled_var (hvar rfl).1 (hvar rfl).2 hown
  have hmade := madeBy_ofRule x r parts
  generalize ofRule x r (piecesOf parts) = s at hmade
  cases hmade with
  | @node kind _ _ hkind hstrung =>
    have hne : kind ≠ .getElem ∧ kind ≠ .var ∧ kind ≠ .paramList := by
      rcases hkind with rfl | rfl
      · cases r <;> simp_all [sortOf]
      · simp
    exact settled_fresh hne.1 hne.2.1 hne.2.2 (hstrung.settled hparts)
  | held _ hy => exact (hparts _ hy).own
  | function hr =>
    have hall := (strung_functionParts (hfunction hr)).settled hparts
    exact settled_function x (fun c hc => hall c (List.mem_append_left _ hc))
      fun c hc => hall c (List.mem_append_right _ hc)

/-- What the grammar forms has settled sketches. -/
theorem settles_of_formed {depth : Nat} {c : Category} {x : Tree} (h : Formed depth c x)
    (hspelled : ∀ t ∈ x.tokens, t.Spelled) : Settles x := by
  have hleaf (t : Token) : Settles (.leaf t) := by
    refine ⟨?_, List.forall_mem_nil _⟩
    rw [ofTree_leaf, ofToken]
    cases t.kind <;> exact settled_fresh (by simp) (by simp) (by simp) (List.forall_mem_nil _)
  induction x using Tree.induction_on generalizing depth c with
  | leaf t => exact hleaf t
  | node r parts ih =>
    obtain ⟨hparts, hparams⟩ := parts_of_formed h
    have hsettles : ∀ y ∈ parts, Settles y := by
      intro y hy
      rcases hparts y hy with ⟨t, rfl⟩ | ⟨d, c', hy'⟩
      · exact hleaf t
      · exact ih y hy hy' fun t ht => hspelled t (mem_tokensOfAll hy ht)
    refine ⟨?_, (strung_ownOf parts).settled hsettles⟩
    have hrule : (ofRule (.node r parts) r (piecesOf parts)).Settled := by
      refine settled_ofRule hsettles ?_ ?_ hparams
      -- an access by index extends a phrase, so its index is found behind what it extends
      · rintro rfl
        rcases formed_parts h with ⟨hnot, -⟩ | ⟨-, d, d', c', y, ys, rfl, hc', hy, hitems⟩
        · exact absurd (by decide) hnot
        · obtain ⟨index, hindex, heq⟩ := elements_of_formed hc' hy hitems hspelled
          exact ⟨y, .head _, index, .tail _ hindex, heq⟩
      · rintro rfl
        rcases formed_parts h with ⟨-, d, hitems⟩ | ⟨hr, -⟩
        · exact variables_of_fits hitems
        · exact absurd hr (by decide)
    rw [ofTree]
    rcases documented_eq (.node r parts) r (piecesOf parts) with heq | ⟨d, -, heq⟩
    · exact heq ▸ hrule
    · exact heq ▸ hrule.document d

/-- The sketch of a script that can be read is tidy. -/
theorem tidy_scriptSketch {path text : String} {statements : List Tree}
    (h : Script.read text = .ok statements) :
    (Program.scriptSketch path text.length statements).Tidy := by
  refine tidy_fresh (by simp) (by simp) ((strung_ownOf statements).settled fun x hx => ?_)
  obtain ⟨depth, hx'⟩ := Program.mem_statements (Program.statementsStand_of_read h).1 x hx
  exact settles_of_formed hx' fun t ht => Program.spelled_of_read h t (mem_tokensOfAll hx ht)

end Sketch

/-! ## Programs of sources -/

namespace Program

/-- Every node hangs once below the root, and its children are those that its sort demands. -/
structure WellFormed (p : Program) : Prop where
  /-- The walk from the root comes to every node, and to none twice. -/
  reached : ∃ ns, p.subtree root = .ok ns ∧ ns.Perm (List.range p.size)
  /-- A node is among the children of its parent, once, and of no other node. -/
  links : ∀ n c, c ∈ p.childrenOf n ↔ p.parentOf c = some n
  once : ∀ n, (p.childrenOf n).Nodup
  /-- Children are made before their parents, but scripts hang at the root, which is there
  first. -/
  younger : ∀ n c, c ∈ p.childrenOf n → n ≠ root → c < n
  script : ∀ n, p.kindOf? n = some .script ↔ p.parentOf n = some root
  function : ∀ n, p.kindOf? n = some .function → ∃ name params body,
    p.childrenOf n = [name, params, body] ∧ p.kindOf? name = some .name ∧
      p.kindOf? params = some .paramList ∧ p.kindOf? body = some .block
  /-- Lists of parameters are nowhere else. -/
  paramList : ∀ n, p.kindOf? n = some .paramList → ∃ fn name body,
    p.kindOf? fn = some .function ∧ p.childrenOf fn = [name, n, body]
  params : ∀ n, p.kindOf? n = some .paramList → ∀ c ∈ p.childrenOf n,
    p.kindOf? c = some .name → p.childrenOf c = []
  call : ∀ n, p.kindOf? n = some .call → p.childrenOf n ≠ []
  getProp : ∀ n, p.kindOf? n = some .getProp → ∃ text target,
    p.textOf? n = some text ∧ text ≠ "" ∧ p.childrenOf n = [target]
  getElem : ∀ n, p.kindOf? n = some .getElem → ∃ target index, p.childrenOf n = [target, index]
  assign : ∀ n, p.kindOf? n = some .assign → ∃ target value, p.childrenOf n = [target, value]
  exprResult : ∀ n, p.kindOf? n = some .exprResult → ∃ c, p.childrenOf n = [c]
  returnStmt : ∀ n, p.kindOf? n = some .returnStmt → (p.childrenOf n).length ≤ 1
  /-- A declaration has variables, each with an initialiser or none. -/
  var : ∀ n, p.kindOf? n = some .var → p.childrenOf n ≠ [] ∧
    ∀ c ∈ p.childrenOf n, p.kindOf? c = some .name ∧ (p.childrenOf c).length ≤ 1

section

variable {sources : List Source} {n : Handle}

theorem below_root_of_kind {kind : NodeKind} (h : (ofSources sources).1.kindOf? n = some kind) :
    (ofSources sources).1.Below root n := below_root_ofSources (lt_size_of_kindOf? h)

/-- Every node but the root shows a neat sketch. -/
theorem exists_neat {kind : NodeKind} (h : (ofSources sources).1.kindOf? n = some kind)
    (hroot : kind ≠ .root) : ∃ s, (ofSources sources).1.Shows n s ∧ s.Neat ∧ s.kind = kind := by
  obtain ⟨source, script, hscript, hbelow⟩ := exists_script (lt_size_of_kindOf? h)
    ((parsed_untyped sources).ne_root_of_kind h hroot)
  obtain ⟨before, after, -, ⟨statements, hread⟩, -⟩ := id hscript
  obtain ⟨s, hs, hwithin⟩ := (hscript.shows_statements hread).below
    (composed_ofSources sources).forest hbelow
  rw [hs.kindOf?] at h
  exact ⟨s, hs, Sketch.tidy_scriptSketch hread s hwithin, Option.some.inj h⟩

/-- A list of parameters hangs at a function, between its name and its body. -/
theorem exists_function (h : (ofSources sources).1.kindOf? n = some .paramList) :
    ∃ fn name body, (ofSources sources).1.kindOf? fn = some .function ∧
      (ofSources sources).1.childrenOf fn = [name, n, body] := by
  have hparsed := parsed_untyped sources
  cases below_root_of_kind h with
  | here =>
    rw [hparsed.kindOf?_root] at h
    cases h
  | @child fn _ hfn link =>
    have hmem := hparsed.forest.mem_children_iff.mpr link
    obtain ⟨kind, -, hkind⟩ := kind_of_lt (hparsed.forest.parent_lt_size link)
    -- what hangs at the root is a script
    have hroot : kind ≠ .root := by
      rintro rfl
      rw [hparsed.eq_root_of_kind hfn hkind] at link
      rw [hparsed.kindOf?_of_parent_root link] at h
      cases h
    obtain ⟨s, hs, hneat, rfl⟩ := exists_neat hkind hroot
    obtain ⟨t, ht, hshow⟩ := hs.child hmem
    have hlist : t.kind = .paramList := by
      rw [hshow.kindOf?] at h
      exact Option.some.inj h
    rw [hneat.paramList t ht hlist] at hkind
    obtain ⟨name, params, body, hchildren, hname, -, hbody⟩ := hparsed.children_function hfn hkind
    rw [hchildren] at hmem
    -- the name and the body are of other sorts
    have hn : n = params := by
      simp only [List.mem_cons, List.not_mem_nil, or_false] at hmem
      rcases hmem with rfl | rfl | rfl
      · rw [h] at hname
        cases hname
      · rfl
      · rw [h] at hbody
        cases hbody
    exact ⟨fn, name, body, hkind, hn ▸ hchildren⟩

theorem children_getElem (h : (ofSources sources).1.kindOf? n = some .getElem) :
    ∃ target index, (ofSources sources).1.childrenOf n = [target, index] := by
  obtain ⟨s, hs, hneat, hkind⟩ := exists_neat h (by simp)
  obtain ⟨target, index, heq⟩ := hneat.getElem hkind
  have hlength := hs.childrenOf.length_eq
  rw [heq] at hlength
  exact List.length_eq_two.mp hlength

theorem children_var (h : (ofSources sources).1.kindOf? n = some .var) :
    (ofSources sources).1.childrenOf n ≠ [] ∧ ∀ c ∈ (ofSources sources).1.childrenOf n,
      (ofSources sources).1.kindOf? c = some .name ∧
        ((ofSources sources).1.childrenOf c).length ≤ 1 := by
  obtain ⟨s, hs, hneat, hkind⟩ := exists_neat h (by simp)
  obtain ⟨hne, hvariables⟩ := hneat.var hkind
  refine ⟨?_, fun c hc => ?_⟩
  · have hlength := hs.childrenOf.length_eq
    exact List.ne_nil_of_length_pos (hlength ▸ List.length_pos_of_ne_nil hne)
  · obtain ⟨t, ht, hshow⟩ := hs.child hc
    obtain ⟨hname, hlength⟩ := hvariables t ht
    exact ⟨hname ▸ hshow.kindOf?, hshow.childrenOf.length_eq ▸ hlength⟩

end

/-- A program of sources is well-formed, whichever of the sources can be read, and has a script
for each of these. -/
theorem wellFormed_ofSources (sources : List Source) :
    (ofSources sources).1.WellFormed ∧ (ofSources sources).1.HasScripts sources := by
  have hcomposed := composed_ofSources sources
  have hforest := hcomposed.forest
  have hparsed := parsed_untyped sources
  have hbelow {n : Handle} {kind : NodeKind} (h : (ofSources sources).1.kindOf? n = some kind) :=
    below_root_of_kind h
  refine ⟨?_, hasScripts_ofSources sources⟩
  exact {
    reached := by
      refine ⟨_, hforest.subtree_eq hcomposed.root_lt_size, ?_⟩
      -- what is visited from the root is every handle, each of them once
      have hnodup := (hforest.preOrder_perm root).nodup_iff.mpr (hforest.nodup_postOrder root)
      refine (List.perm_ext_iff_of_nodup hnodup List.nodup_range).mpr fun n => ?_
      rw [hforest.mem_preOrder_iff, List.mem_range]
      exact ⟨fun h => h.lt_size hcomposed.root_lt_size, below_root_ofSources⟩
    links := fun _ _ => hforest.mem_children_iff
    once := hforest.nodup_children
    younger := fun n c hc hroot =>
      (hcomposed.younger (hforest.mem_children_iff.mp hc)).resolve_left hroot
    script := fun n => ⟨fun h => hparsed.parentOf_of_script (hbelow h) h,
      hparsed.kindOf?_of_parent_root⟩
    function := fun n h => hparsed.children_function (hbelow h) h
    paramList := fun n h => exists_function h
    params := fun n h c hc hname =>
      hparsed.children_name (hbelow h) h (by simp) (by simp) hc hname
    call := fun n h => by
      obtain ⟨callee, args, heq⟩ := hparsed.children_call (hbelow h) h
      exact heq ▸ List.cons_ne_nil callee args
    getProp := fun n h => by
      obtain ⟨text, target, htext, hsegment, heq⟩ := hparsed.children_getProp (hbelow h) h
      exact ⟨text, target, htext, hsegment.1, heq⟩
    getElem := fun n h => children_getElem h
    assign := fun n h => hparsed.children_assign (hbelow h) h
    exprResult := fun n h => hparsed.children_exprResult (hbelow h) h
    returnStmt := fun n h => by
      obtain ⟨text, cs, -, hshows, hfits⟩ := hparsed.fits_of_below (hbelow h) h (by simp) (by simp)
      exact hshows.length_eq ▸ hfits
    var := fun n h => children_var h }

/-- The walk through a program of two sources, of which the second cannot be read. -/
example : (ofSources [⟨"a.js", "var a = b[0], c;"⟩, ⟨"b.js", "f("⟩]).1.subtree root
    = .ok [0, 7, 6, 4, 3, 1, 2, 5] := by decide +kernel

end Program

end SuperForward
