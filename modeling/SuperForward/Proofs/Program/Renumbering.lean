/-
  Programs of the same scripts in another order.

  The nodes of such programs differ in their numbers only, and the root in the order of its
  children: they are alike, and come from the same places in the same texts. What a renumbering
  leaves as it is besides are documentation, types and places.
-/
import SuperForward.Proofs.Forward.Matching
import SuperForward.Proofs.Program.Likeness

namespace SuperForward

/-- The node with other numbers for its neighbours. -/
def Node.renumber (f : Handle → Handle) (node : Node) : Node :=
  { node with children := node.children.map f, parent := node.parent.map f }

namespace Program

open SuperForward.Forward (typeOf?)

/-- What is attached in the one program is found in the other one, under other numbers; scripts
may stand in another order. -/
structure Renumbering (p q : Program) (f : Handle → Handle) : Prop extends Likeness p q f where
  node : ∀ {n : Handle}, p.Below root n → n ≠ root →
    q.nodes[f n]? = p.nodes[n]?.map (Node.renumber f)
  top : q.nodes[root]? = p.nodes[root]?.map fun node => { node with children := q.childrenOf root }

namespace Renumbering

variable {p q : Program} {f : Handle → Handle} (h : Renumbering p q f) {n : Handle}
include h

theorem typeOf? (hn : p.Below root n) :
    Forward.typeOf? q (f n) = Forward.typeOf? p n := by
  unfold Forward.typeOf?
  by_cases hroot : n = root
  · rw [hroot, h.fixed, h.top]
    cases p.nodes[root]? <;> rfl
  · rw [h.node hn hroot]
    cases p.nodes[n]? <;> rfl

variable (hp : p.Parsed)
include hp

/-- Both nodes, with what they have in common. -/
theorem exists_node (hn : p.Below root n) : ∃ node node', p.node n = .ok node ∧
    q.node (f n) = .ok node' ∧ node'.kind = node.kind ∧ node'.text = node.text ∧
    node'.doc = node.doc ∧ node'.start = node.start ∧ node'.stop = node.stop ∧
    node'.line = node.line ∧ node'.parent = node.parent.map f ∧
    (n ≠ root → node'.children = node.children.map f) := by
  obtain ⟨node, hnode, hget⟩ := node_of_lt (hp.lt_size_of_below hn)
  by_cases hroot : n = root
  · subst hroot
    have hparent : node.parent = none := by
      have := hp.root_parent
      unfold Program.parentOf at this
      rw [hget] at this
      exact this
    have htop := h.top
    rw [hget] at htop
    refine ⟨node, { node with children := q.childrenOf root }, hnode, ?_, rfl, rfl, rfl, rfl, rfl,
      rfl, ?_, fun hne => absurd rfl hne⟩
    · rw [h.fixed]
      exact node_eq_ok_iff.mpr htop
    · rw [hparent]
      rfl
  · have hnode' := h.node hn hroot
    rw [hget] at hnode'
    exact ⟨node, node.renumber f, hnode, node_eq_ok_iff.mpr hnode', rfl, rfl, rfl, rfl, rfl, rfl,
      rfl, fun _ => rfl⟩

/-- A function has the same documentation. -/
theorem docOfFunction (hn : p.Below root n) : q.docOfFunction (f n) = p.docOfFunction n := by
  have up {n above : Handle} {node : Node} (hn : p.Below root n) (hnode : p.node n = .ok node)
      (habove : node.parent = some above) : p.Below root above :=
    hp.below_parent hn ((node_fields hnode).2.2.2.1.trans habove)
  obtain ⟨node, node', hnode, hnode', -, -, hdoc, -, -, -, hparent, -⟩ := h.exists_node hp hn
  unfold Program.docOfFunction
  simp only [hnode, hnode', hdoc, hparent, except_ok_bind, except_pure]
  cases habove : node.parent with
  | none => rfl
  | some above =>
    have hbelow := up hn hnode habove
    obtain ⟨anode, anode', hanode, hanode', hakind, -, hadoc, -, -, -, haparent, -⟩ :=
      h.exists_node hp hbelow
    simp only [Option.map_some, hanode, hanode', hakind, hadoc, haparent, except_ok_bind]
    cases hgrand : anode.parent with
    | none => rfl
    | some grand =>
      obtain ⟨gnode, gnode', hgnode, hgnode', hgkind, -, hgdoc, -⟩ :=
        h.exists_node hp (up hbelow hanode hgrand)
      simp only [Option.map_some, hgnode, hgnode', hgkind, hgdoc, except_ok_bind]

/-- A renumbering can be turned round. -/
theorem exists_symm (hq : q.Parsed) :
    ∃ g, Renumbering q p g ∧ ∀ n, p.Below root n → g (f n) = n := by
  obtain ⟨g, hg⟩ := h.exists_inverse hp hq
  have hsymm := h.symm hp hq hg
  refine ⟨g, ⟨hsymm, ?_, ?_⟩, hg⟩
  · intro m hm hroot
    obtain ⟨n, hn, rfl⟩ := h.surjective hp hq hm
    have hne : n ≠ root := fun hn => hroot (hn ▸ h.fixed)
    have hchildren := hsymm.childrenOf hm hroot
    have hparent := hsymm.parentOf hm
    unfold Program.childrenOf at hchildren
    unfold Program.parentOf at hparent
    rw [hg n hn, h.node hn hne] at hchildren hparent
    rw [hg n hn, h.node hn hne]
    cases hnode : p.nodes[n]? with
    | none => rfl
    | some node =>
      rw [hnode] at hchildren hparent
      simp only [Option.map_some, Option.getD_some, Option.bind_some] at hchildren hparent ⊢
      unfold Node.renumber at hchildren hparent ⊢
      rw [← hchildren, ← hparent]
  · have htop := h.top
    obtain ⟨node, hnode⟩ := lt_size_iff.mp hp.root_lt_size
    rw [hnode] at htop
    rw [htop, hnode]
    unfold Program.childrenOf
    rw [hnode]
    rfl

end Renumbering

/-! ## Programs that are made of the same scripts -/

/-- What is made of scripts shows nothing but what the scripts say. -/
theorem Composed.node_of_shows {p : Program} {scripts : List Sketch} (hp : p.Composed scripts)
    {n : Handle} {s : Sketch} (h : p.Shows n s) :
    p.nodes[n]? = some ⟨s.kind, s.text, p.childrenOf n, p.parentOf n, s.doc, none,
      s.extent.start, s.extent.stop, s.extent.line⟩ := by
  obtain ⟨node, hnode, hkind, htext, hdoc, hextent, -⟩ := shows_iff.mp h
  have htype := hp.untyped n node hnode
  unfold childrenOf parentOf
  rw [hnode, ← hkind, ← htext, ← hdoc, ← hextent]
  obtain ⟨⟩ := node
  cases htype
  rfl

/-- A program of the same scripts in another order has the same nodes under other numbers. -/
theorem Composed.exists_renumbering {p q : Program} {scripts scripts' : List Sketch}
    (hp : p.Composed scripts) (hq : q.Composed scripts') (hparsed : p.Parsed) (hparsed' : q.Parsed)
    (hperm : scripts.Perm scripts') : ∃ f, Renumbering p q f := by
  -- the scripts of the second program, in the order of the first one
  obtain ⟨tops, hshows, htops⟩ :=
    List.perm_comp_forall₂ hperm (List.Forall₂.flip hq.shows.childrenOf)
  have hscripts : List.Forall₂ (ShowLike p q Eq) (p.childrenOf root) tops := by
    have hp' : List.Forall₂ p.Shows (p.childrenOf root) scripts := hp.shows.childrenOf
    rw [List.forall₂_iff_get] at hp' hshows ⊢
    refine ⟨hp'.1.trans hshows.1, fun i h₁ h₂ => ?_⟩
    exact ⟨_, _, hp'.2 i h₁ (hp'.1 ▸ h₁), hshows.2 i (hp'.1 ▸ h₁) h₂, rfl⟩
  have hchildren {s t : Sketch} (h : s = t) : List.Forall₂ Eq s.children t.children := by
    rw [h, List.forall₂_eq_eq_eq]
  obtain ⟨f, hlike, hplace⟩ := exists_likeness hparsed hparsed' hchildren hscripts htops
    fun {s t} h => by
      rw [h]
      exact ⟨rfl, rfl, rfl⟩
  refine ⟨f, hlike, fun {n} hn hne => ?_, ?_⟩
  · obtain ⟨-, s, t, hs, ht, rfl⟩ := ((hplace n hn).shows hp.forest hp.root_parent hchildren
      hscripts).resolve_left fun h => hne h.1
    rw [hp.node_of_shows hs, hq.node_of_shows ht, hlike.parentOf hn, hlike.childrenOf hn hne]
    rfl
  · rw [hp.node_of_shows hp.shows, hq.node_of_shows hq.shows, hp.root_parent, hq.root_parent]
    rfl

end Program

end SuperForward
