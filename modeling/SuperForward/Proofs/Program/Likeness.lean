/-
  Programs that are alike.

  The nodes of two programs may differ in their numbers, in their types and in where they come
  from in a text, and their scripts in order, and yet show the same. A likeness says which node
  of the one program is like which node of the other; it can be turned round, and nodes that are
  alike spell the same names.
-/
import SuperForward.Proofs.Program.Losing
import SuperForward.Proofs.Program.Parsed
import SuperForward.Proofs.Program.Without
import SuperForward.Proofs.Types.Calling
import Mathlib.Data.List.Perm.Basic
import Mathlib.Data.Set.Function

namespace SuperForward.Program

open SuperForward.Script (IsSegment)

/-- What is attached in the one program is like something in the other one, with another number
and perhaps from elsewhere; scripts may stand in another order. -/
structure Likeness (p q : Program) (f : Handle → Handle) : Prop where
  fixed : f root = root
  kindOf? : ∀ {n : Handle}, p.Below root n → q.kindOf? (f n) = p.kindOf? n
  textOf? : ∀ {n : Handle}, p.Below root n → q.textOf? (f n) = p.textOf? n
  docs : ∀ {n : Handle}, p.Below root n →
    (q.docOf? (f n)).map DocComment.unplaced = (p.docOf? n).map DocComment.unplaced
  childrenOf : ∀ {n : Handle}, p.Below root n → n ≠ root →
    q.childrenOf (f n) = (p.childrenOf n).map f
  scripts : (q.childrenOf root).Perm ((p.childrenOf root).map f)
  parentOf : ∀ {n : Handle}, p.Below root n → q.parentOf (f n) = (p.parentOf n).map f

/-- The parent of what is attached is attached. -/
theorem Parsed.below_parent {p : Program} (hp : p.Parsed) {n above : Handle}
    (hn : p.Below root n) (hlink : p.parentOf n = some above) : p.Below root above := by
  cases hn with
  | here =>
    rw [hp.root_parent] at hlink
    cases hlink
  | child up link =>
    rw [link] at hlink
    cases hlink
    exact up

/-- The segments of the name of a function contain no dots. -/
theorem Parsed.isSegment_of_functionName {p : Program} (hp : p.Parsed) {fn : Handle}
    (hfn : p.Below root fn) (hkind : p.kindOf? fn = some .function) {name : QualifiedName}
    (h : p.functionName fn = .ok (some name)) : ∀ s ∈ name.names, IsSegment s := by
  -- the name in the function itself is a single segment, as the lexer makes no other
  have hown (h : p.ownName fn = .ok (some name)) : ∀ s ∈ name.names, IsSegment s := by
    obtain ⟨own, params, body, hchildren, hname, -, -⟩ := hp.children_function hfn hkind
    have hbelow : p.Below root own :=
      hfn.child (hp.forest.mem_children_iff.mp (by rw [hchildren]; simp))
    obtain ⟨node, hnode, -⟩ := node_of_lt (hp.lt_size_of_below hbelow)
    obtain ⟨-, htext, -, -, -⟩ := node_fields hnode
    obtain ⟨text, htext', hsegment⟩ := hp.text_name hbelow hname
    rw [htext] at htext'
    cases htext'
    unfold ownName firstChild childAt at h
    simp only [children_of_lt (hp.lt_size_of_below hfn), hchildren, except_ok_bind, except_pure,
      List.getElem?_cons_zero, hnode] at h
    split at h
    · next hcond =>
      simp only [Bool.and_eq_true, bne_iff_ne] at hcond
      unfold nameOf at h
      split at h
      · next name' hof =>
        cases h
        rw [← QualifiedName.ofNames?_eq_some_iff.mp hof]
        intro s hs
        rw [List.mem_singleton.mp hs]
        exact hsegment.resolve_left hcond.2
      · cases h
    · cases h
  have hlt := hp.lt_size_of_below hfn
  unfold functionName at h
  simp only [parent_of_lt hlt, except_ok_bind] at h
  -- a function that is assigned has the name of what it is assigned to, or its own if there is
  -- none
  cases hparent : p.parentOf fn with
  | none =>
    rw [hparent] at h
    exact hown h
  | some above =>
    have habove := hp.below_parent hfn hparent
    obtain ⟨node, hnode, -⟩ := node_of_lt (hp.lt_size_of_below habove)
    obtain ⟨-, -, hchildren, -, -⟩ := node_fields hnode
    simp only [hparent, hnode, except_ok_bind] at h
    split at h
    · cases hhead : node.children.head? with
      | none =>
        rw [hhead] at h
        cases h
      | some target =>
        have htarget : p.Below root target := habove.child (hp.forest.mem_children_iff.mp (by
          rw [hchildren]
          exact List.mem_of_mem_head? hhead))
        rw [hhead] at h
        exact hp.isSegment_of_spells (hp.spells_of_qualifiedName htarget h) htarget
    · split at h
      · exact hp.isSegment_of_spells (hp.spells_of_qualifiedName habove h) habove
      · exact hown h

namespace Likeness

variable {p q : Program} {f : Handle → Handle} (h : Likeness p q f) {n : Handle}
include h

/-- The numbers of children are found among those of children. -/
theorem mem_children {c : Handle} (hn : p.Below root n) :
    c ∈ q.childrenOf (f n) ↔ c ∈ (p.childrenOf n).map f := by
  by_cases hroot : n = root
  · rw [hroot, h.fixed]
    exact h.scripts.mem_iff
  · rw [h.childrenOf hn hroot]

/-! ## The same nodes -/

theorem below (hn : p.Below root n) : q.Below root (f n) := by
  induction hn with
  | here =>
    rw [h.fixed]
    exact .here
  | child up link ih =>
    refine ih.child ?_
    rw [h.parentOf (up.child link), link]
    rfl

variable (hp : p.Parsed) (hq : q.Parsed)
include hp hq

theorem surjective {m : Handle} (hm : q.Below root m) :
    ∃ n, p.Below root n ∧ f n = m := by
  induction hm with
  | here => exact ⟨root, .here, h.fixed⟩
  | child up link ih =>
    obtain ⟨a, ha, rfl⟩ := ih
    have hmem := (h.mem_children ha).mp (hq.forest.mem_children_iff.mpr link)
    obtain ⟨c, hc, hcm⟩ := List.mem_map.mp hmem
    exact ⟨c, ha.child (hp.forest.mem_children_iff.mp hc), hcm⟩

omit hp in
theorem nodup_children (hn : p.Below root n) : ((p.childrenOf n).map f).Nodup := by
  by_cases hroot : n = root
  · subst hroot
    exact h.scripts.nodup_iff.mp (hq.forest.nodup_children _)
  · rw [← h.childrenOf hn hroot]
    exact hq.forest.nodup_children _

theorem injective {m : Handle} (hn : p.Below root n) (hm : p.Below root m)
    (hnm : f n = f m) : n = m := by
  induction hn generalizing m with
  | here =>
    have hparent := h.parentOf hm
    rw [← hnm, h.fixed, hq.root_parent] at hparent
    cases hm with
    | here => rfl
    | child _ link =>
      rw [link] at hparent
      cases hparent
  | @child a n up link ih =>
    have hparent := h.parentOf hm
    rw [← hnm, h.parentOf (up.child link), link] at hparent
    cases hm with
    | here =>
      rw [hp.root_parent] at hparent
      cases hparent
    | @child b _ up' link' =>
      rw [link'] at hparent
      obtain rfl := ih up' (Option.some.inj hparent)
      exact List.inj_on_of_nodup_map (h.nodup_children hq up)
        (hp.forest.mem_children_iff.mpr link) (hp.forest.mem_children_iff.mpr link') hnm

theorem exists_inverse : ∃ g : Handle → Handle, ∀ n, p.Below root n → g (f n) = n := by
  have hinj : Set.InjOn f {n | p.Below root n} :=
    fun n hn m hm => h.injective hp hq hn hm
  exact ⟨_, fun n hn => hinj.leftInvOn_invFunOn hn⟩

/-- A likeness can be turned round. -/
theorem symm {g : Handle → Handle} (hg : ∀ n, p.Below root n → g (f n) = n) :
    Likeness q p g := by
  have hmap {cs : List Handle} (hcs : ∀ c ∈ cs, p.Below root c) : (cs.map f).map g = cs := by
    rw [List.map_map]
    exact (List.map_congr_left fun c hc => hg c (hcs c hc)).trans cs.map_id
  have hchildren {n : Handle} (hn : p.Below root n) :
      ∀ c ∈ p.childrenOf n, p.Below root c :=
    fun c hc => hn.child (hp.forest.mem_children_iff.mp hc)
  have hroot : g root = root := by
    rw [← h.fixed]
    exact (hg _ .here).trans h.fixed.symm
  -- every node on the other side is the image of one on this side
  refine ⟨hroot, ?_, ?_, ?_, ?_, ?_, ?_⟩
  · intro m hm
    obtain ⟨n, hn, rfl⟩ := h.surjective hp hq hm
    rw [hg n hn, h.kindOf? hn]
  · intro m hm
    obtain ⟨n, hn, rfl⟩ := h.surjective hp hq hm
    rw [hg n hn, h.textOf? hn]
  · intro m hm
    obtain ⟨n, hn, rfl⟩ := h.surjective hp hq hm
    rw [hg n hn, h.docs hn]
  · intro m hm hne
    obtain ⟨n, hn, rfl⟩ := h.surjective hp hq hm
    have hne' : n ≠ root := fun hn => hne (hn ▸ h.fixed)
    rw [hg n hn, h.childrenOf hn hne', hmap (hchildren hn)]
  · refine List.Perm.symm ((h.scripts.map g).trans ?_)
    rw [hmap (hchildren .here)]
  · intro m hm
    obtain ⟨n, hn, rfl⟩ := h.surjective hp hq hm
    rw [hg n hn, h.parentOf hn, Option.map_map]
    cases hlink : p.parentOf n with
    | none => rfl
    | some above => exact congrArg some (hg above (hp.below_parent hn hlink)).symm

/-! ## Names -/

omit hq in
theorem spells (hn : p.Below root n) {names : List String} (hs : p.Spells n names) :
    q.Spells (f n) names := by
  induction hs with
  | name kind htext nonempty =>
    exact .name ((h.kindOf? hn).trans kind) ((h.textOf? hn).trans htext) nonempty
  | this kind => exact .this ((h.kindOf? hn).trans kind)
  | @getProp n target text names kind htext htarget _ ih =>
    have hroot := hp.ne_root_of_kind kind (by simp)
    have htarget' : p.Below root target :=
      hn.child (hp.forest.mem_children_iff.mp (List.mem_of_mem_head? htarget))
    refine .getProp ((h.kindOf? hn).trans kind) ((h.textOf? hn).trans htext) ?_ (ih htarget')
    rw [h.childrenOf hn hroot, List.head?_map, htarget]
    rfl

theorem spells_iff (hn : p.Below root n) {names : List String} :
    q.Spells (f n) names ↔ p.Spells n names := by
  refine ⟨fun hs => ?_, h.spells hp hn⟩
  obtain ⟨g, hg⟩ := h.exists_inverse hp hq
  have hs' := (h.symm hp hq hg).spells hq (h.below hn) hs
  rwa [hg n hn] at hs'

theorem qualifiedName (hn : p.Below root n) : q.qualifiedName (f n) = p.qualifiedName n := by
  have hn' := h.below hn
  rcases hp.qualifiedName_eq hn with ⟨name, hs, hname⟩ | ⟨hnone, hname⟩
  · rcases hq.qualifiedName_eq hn' with ⟨name', hs', hname'⟩ | ⟨hnone', -⟩
    · rw [hname, hname', QualifiedName.ext_names (hs'.unique (h.spells hp hn hs))]
    · exact absurd (h.spells hp hn hs) (hnone' _)
  · rcases hq.qualifiedName_eq hn' with ⟨name', hs', -⟩ | ⟨-, hname'⟩
    · exact absurd ((h.spells_iff hp hq hn).mp hs') (hnone _)
    · rw [hname, hname']

/-! ## Functions -/

omit hq in
/-- Both nodes, with what they have in common. -/
theorem exists_like (hn : p.Below root n) : ∃ node node', p.node n = .ok node ∧
    q.node (f n) = .ok node' ∧ node'.kind = node.kind ∧ node'.text = node.text ∧
    node'.parent = node.parent.map f ∧ (n ≠ root → node'.children = node.children.map f) := by
  obtain ⟨node, hnode, hget⟩ := node_of_lt (hp.lt_size_of_below hn)
  obtain ⟨hkind, htext, hchildren, hparent, -⟩ := node_fields hnode
  obtain ⟨node', hnode', -⟩ := node_of_lt (lt_size_of_kindOf? ((h.kindOf? hn).trans hkind))
  obtain ⟨hkind', htext', hchildren', hparent', -⟩ := node_fields hnode'
  refine ⟨node, node', hnode, hnode', ?_, ?_, ?_, fun hroot => ?_⟩
  · exact Option.some.inj (hkind'.symm.trans ((h.kindOf? hn).trans hkind))
  · exact Option.some.inj (htext'.symm.trans ((h.textOf? hn).trans htext))
  · rw [← hparent', h.parentOf hn, hparent]
  · rw [← hchildren', h.childrenOf hn hroot, hchildren]

omit hq in
theorem ownName (hn : p.Below root n) (hkind : p.kindOf? n = some .function) :
    q.ownName (f n) = p.ownName n := by
  obtain ⟨own, params, body, hchildren, -, -, -⟩ := hp.children_function hn hkind
  have hown : p.Below root own :=
    hn.child (hp.forest.mem_children_iff.mp (by rw [hchildren]; simp))
  obtain ⟨node, node', hnode, hnode', hk, ht, -⟩ := h.exists_like hp hown
  have hroot := hp.ne_root_of_kind hkind (by simp)
  have hlt : f n < q.size := by
    have := (h.kindOf? hn).trans hkind
    exact lt_size_of_kindOf? this
  unfold Program.ownName Program.firstChild Program.childAt
  simp only [children_of_lt hlt, children_of_lt (hp.lt_size_of_below hn), h.childrenOf hn hroot,
    hchildren, List.map_cons, except_ok_bind, except_pure, List.getElem?_cons_zero, hnode, hnode',
    hk, ht]

/-- A function has the same name. -/
theorem functionName (hn : p.Below root n) (hkind : p.kindOf? n = some .function) :
    q.functionName (f n) = p.functionName n := by
  obtain ⟨node, node', hnode, hnode', -, -, hparent, -⟩ := h.exists_like hp hn
  have hown := h.ownName hp hn hkind
  unfold Program.functionName Program.parent
  simp only [hnode, hnode', hparent, except_ok_bind, except_pure]
  cases habove : node.parent with
  | none => exact hown
  | some above =>
    have hlink : p.parentOf n = some above := (node_fields hnode).2.2.2.1.trans habove
    have hbelow := hp.below_parent hn hlink
    obtain ⟨anode, anode', hanode, hanode', hk, -, -, hchildren⟩ := h.exists_like hp hbelow
    obtain ⟨hakind, -, hachildren, -, -⟩ := node_fields hanode
    simp only [Option.map_some, hanode, hanode', hk, except_ok_bind, h.qualifiedName hp hq hbelow,
      hown]
    -- only an assignment asks for its first child, which must not be the function itself
    by_cases hassign : anode.kind = .assign
    · have hroot : above ≠ root := by
        refine hp.ne_root_of_kind hakind ?_
        rw [hassign]
        simp
      have hhead : (anode.children.map f).head? = anode.children.head?.map f := List.head?_map ..
      rw [hchildren hroot, hhead]
      cases hfirst : anode.children.head? with
      | none => rfl
      | some first =>
        have hfirst' : p.Below root first := hbelow.child (hp.forest.mem_children_iff.mp (by
          rw [hachildren]
          exact List.mem_of_mem_head? hfirst))
        have hsame : (some (f first) != some (f n)) = (some first != some n) := by
          rw [Bool.eq_iff_iff, bne_iff_ne, bne_iff_ne, ne_eq, ne_eq, Option.some.injEq,
            Option.some.injEq]
          exact not_congr ⟨h.injective hp hq hfirst' hn, congrArg f⟩
        simp only [Option.map_some, hsame, Program.qualifiedNameOf, Program.present,
          except_ok_bind, h.qualifiedName hp hq hfirst']
    · have hassign' : (anode.kind == .assign) = false := by simpa using hassign
      simp only [hassign', Bool.false_and, Bool.false_eq_true, if_false]

end Likeness

/-! ## Programs that are made of like scripts -/

theorem forall₂_getElem? {α β : Type} {R : α → β → Prop} {as : List α} {bs : List β}
    (h : List.Forall₂ R as bs) {i : Nat} {a : α} (ha : as[i]? = some a) :
    ∃ b, bs[i]? = some b ∧ R a b := by
  induction h generalizing i with
  | nil => cases ha
  | cons hab _ ih =>
    cases i with
    | zero =>
      cases ha
      exact ⟨_, rfl, hab⟩
    | succ i => exact ih ha

/-- Nodes in the same place: both are the root, or they are the children at the same position of
nodes in the same place. Which scripts of the second program go with those of the first is said
by a list. -/
inductive SamePlace (p q : Program) (scripts : List Handle) : Handle → Handle → Prop
  | top : SamePlace p q scripts root root
  | child {n m c d : Handle} {i : Nat} (above : SamePlace p q scripts n m)
      (hc : (p.childrenOf n)[i]? = some c)
      (hd : (if n = root then scripts else q.childrenOf m)[i]? = some d) :
      SamePlace p q scripts c d

/-- The nodes show what is alike. -/
def ShowLike (p q : Program) (R : Sketch → Sketch → Prop) (c d : Handle) : Prop :=
  ∃ s t, p.Shows c s ∧ q.Shows d t ∧ R s t

namespace SamePlace

variable {p q : Program} {scripts : List Handle} {n m : Handle}
  (hp : p.Forest) (hroot : p.parentOf root = none)
include hp hroot

theorem ne_root {c : Handle} {i : Nat} (hc : (p.childrenOf n)[i]? = some c) : c ≠ root := by
  rintro rfl
  rw [hp.mem_children_iff.mp (List.mem_of_getElem? hc)] at hroot
  cases hroot

theorem unique {m' : Handle} (h : SamePlace p q scripts n m) (h' : SamePlace p q scripts n m') :
    m = m' := by
  induction h generalizing m' with
  | top =>
    cases h' with
    | top => rfl
    | child _ hc => exact absurd rfl (ne_root hp hroot hc)
  | @child a b c d i _ hc hd ih =>
    cases h' with
    | top => exact absurd rfl (ne_root hp hroot hc)
    | @child a' b' _ _ i' above' hc' hd' =>
      have hparent := hp.mem_children_iff.mp (List.mem_of_getElem? hc)
      rw [hp.mem_children_iff.mp (List.mem_of_getElem? hc')] at hparent
      obtain rfl := Option.some.inj hparent
      obtain rfl := ih above'
      obtain ⟨hi, -⟩ := List.getElem?_eq_some_iff.mp hc
      obtain rfl := (List.getElem?_inj hi (hp.nodup_children _)).mp (hc.trans hc'.symm)
      exact Option.some.inj (hd.symm.trans hd')

variable {R : Sketch → Sketch → Prop}
  (hchildren : ∀ {s t : Sketch}, R s t → List.Forall₂ R s.children t.children)
  (hscripts : List.Forall₂ (ShowLike p q R) (p.childrenOf root) scripts)
include hchildren hscripts

/-- Nodes in the same place show the like. -/
theorem shows (h : SamePlace p q scripts n m) :
    (n = root ∧ m = root) ∨ (n ≠ root ∧ ShowLike p q R n m) := by
  induction h with
  | top => exact .inl ⟨rfl, rfl⟩
  | @child a b c d i _ hc hd ih =>
    refine .inr ⟨ne_root hp hroot hc, ?_⟩
    rcases ih with ⟨rfl, -⟩ | ⟨hne, s, t, ha, hb, hst⟩
    · rw [if_pos rfl] at hd
      obtain ⟨d', hd', hshows⟩ := forall₂_getElem? hscripts hc
      rw [hd] at hd'
      cases hd'
      exact hshows
    · rw [if_neg hne] at hd
      obtain ⟨s', hs', hcs⟩ := forall₂_getElem? ha.childrenOf hc
      obtain ⟨t', ht', hdt⟩ := forall₂_getElem? hb.childrenOf hd
      obtain ⟨t'', ht'', hlike⟩ := forall₂_getElem? (hchildren hst) hs'
      rw [ht'] at ht''
      cases ht''
      exact ⟨s', t', hcs, hdt, hlike⟩

/-- There are as many children in the same place. -/
theorem length_children (h : SamePlace p q scripts n m) :
    (if n = root then scripts else q.childrenOf m).length = (p.childrenOf n).length := by
  rcases h.shows hp hroot hchildren hscripts with ⟨rfl, -⟩ | ⟨hne, s, t, hn, hm, hst⟩
  · rw [if_pos rfl, hscripts.length_eq]
  · rw [if_neg hne, hn.childrenOf.length_eq, hm.childrenOf.length_eq, (hchildren hst).length_eq]

/-- What is attached has something in the same place. -/
theorem exists_of_below (hn : p.Below root n) : ∃ m, SamePlace p q scripts n m := by
  induction hn with
  | here => exact ⟨root, .top⟩
  | @child a c _ link ih =>
    obtain ⟨m, hm⟩ := ih
    obtain ⟨i, hi, hc⟩ := List.mem_iff_getElem.mp (hp.mem_children_iff.mpr link)
    have hlt := hi
    rw [← hm.length_children hp hroot hchildren hscripts] at hlt
    exact ⟨_, .child hm (List.getElem?_eq_some_iff.mpr ⟨hi, hc⟩)
      (List.getElem?_eq_getElem hlt)⟩

end SamePlace

section

variable {p q : Program} (hp : p.Parsed) (hq : q.Parsed) {R : Sketch → Sketch → Prop}
  (hchildren : ∀ {s t : Sketch}, R s t → List.Forall₂ R s.children t.children)
  {tops : List Handle} (hscripts : List.Forall₂ (ShowLike p q R) (p.childrenOf root) tops)
include hp hchildren hscripts

theorem map_children_of_samePlace {f : Handle → Handle}
    (hf : ∀ n, p.Below root n → SamePlace p q tops n (f n)) {n : Handle} (hn : p.Below root n) :
    (p.childrenOf n).map f = if n = root then tops else q.childrenOf (f n) := by
  apply List.ext_getElem?
  intro i
  rw [List.getElem?_map]
  have hlength := (hf n hn).length_children hp.forest hp.root_parent hchildren hscripts
  cases hc : (p.childrenOf n)[i]? with
  | none =>
    rw [List.getElem?_eq_none_iff, ← hlength, ← List.getElem?_eq_none_iff] at hc
    exact hc.symm
  | some c =>
    have hbelow : p.Below root c :=
      hn.child (hp.forest.mem_children_iff.mp (List.mem_of_getElem? hc))
    obtain ⟨hi, -⟩ := List.getElem?_eq_some_iff.mp hc
    rw [← hlength] at hi
    have hd := List.getElem?_eq_getElem hi
    rw [hd, Option.map_some,
      (hf c hbelow).unique hp.forest hp.root_parent (.child (hf n hn) hc hd)]

include hq in
/-- If the scripts of the programs show the like, in whatever order, the programs are alike. -/
theorem exists_likeness (htops : tops.Perm (q.childrenOf root))
    (hlike : ∀ {s t : Sketch}, R s t → t.kind = s.kind ∧ t.text = s.text ∧
      t.doc.map DocComment.unplaced = s.doc.map DocComment.unplaced) :
    ∃ f, Likeness p q f ∧ ∀ n, p.Below root n → SamePlace p q tops n (f n) := by
  have hplace (n : Handle) : ∃ m, p.Below root n → SamePlace p q tops n m := by
    by_cases hn : p.Below root n
    · obtain ⟨m, hm⟩ :=
        SamePlace.exists_of_below hp.forest hp.root_parent hchildren hscripts hn
      exact ⟨m, fun _ => hm⟩
    · exact ⟨n, fun h => absurd h hn⟩
  choose f hf using hplace
  have hroot : f root = root := (hf root .here).unique hp.forest hp.root_parent .top
  have hmap {n : Handle} (hn : p.Below root n) :=
    map_children_of_samePlace hp hchildren hscripts hf hn
  -- what is in the same place shows the like, the root included
  have hshow {n : Handle} (hn : p.Below root n) : ∃ s t, p.Shows n s ∧ q.Shows (f n) t ∧
      t.kind = s.kind ∧ t.text = s.text ∧
      t.doc.map DocComment.unplaced = s.doc.map DocComment.unplaced := by
    rcases (hf n hn).shows hp.forest hp.root_parent hchildren hscripts with
      ⟨rfl, h⟩ | ⟨-, s, t, hs, ht, hst⟩
    · obtain ⟨scripts, hs, -⟩ := hp.shows
      obtain ⟨scripts', ht, -⟩ := hq.shows
      rw [h]
      exact ⟨_, _, hs, ht, rfl, rfl, rfl⟩
    · exact ⟨s, t, hs, ht, hlike hst⟩
  refine ⟨f, ⟨hroot, ?_, ?_, ?_, ?_, ?_, ?_⟩, hf⟩
  · intro n hn
    obtain ⟨s, t, hs, ht, hkind, -, -⟩ := hshow hn
    rw [hs.kindOf?, ht.kindOf?, hkind]
  · intro n hn
    obtain ⟨s, t, hs, ht, -, htext, -⟩ := hshow hn
    rw [hs.textOf?, ht.textOf?, htext]
  · intro n hn
    obtain ⟨s, t, hs, ht, -, -, hdoc⟩ := hshow hn
    rw [hs.docOf?, ht.docOf?, hdoc]
  · intro n hn hne
    have h := hmap hn
    rw [if_neg hne] at h
    exact h.symm
  · have h := hmap .here
    rw [if_pos rfl] at h
    rw [h]
    exact htops.symm
  · intro n hn
    cases hn with
    | here =>
      rw [hroot, hp.root_parent, hq.root_parent]
      rfl
    | @child a _ up link =>
      have hmem : f n ∈ (p.childrenOf a).map f :=
        List.mem_map_of_mem (hp.forest.mem_children_iff.mpr link)
      rw [hmap up] at hmem
      rw [link, Option.map_some, ← hq.forest.mem_children_iff]
      split at hmem
      · next ha =>
        rw [ha, hroot]
        exact htops.mem_iff.mp hmem
      · exact hmem

end

/-- The same, places apart. -/
def SameUnplaced (s t : Sketch) : Prop := s.unplaced = t.unplaced

namespace SameUnplaced

variable {s t : Sketch} (h : SameUnplaced s t)
include h

theorem children : List.Forall₂ SameUnplaced s.children t.children := by
  obtain ⟨kind, text, doc, e, cs⟩ := s
  obtain ⟨kind', text', doc', e', cs'⟩ := t
  have hcs : Sketch.unplacedAll cs = Sketch.unplacedAll cs' := by
    unfold SameUnplaced Sketch.unplaced at h
    exact (Sketch.mk.inj h).2.2.2.2
  rw [Sketch.unplacedAll_eq, Sketch.unplacedAll_eq, ← List.forall₂_eq_eq_eq,
    List.forall₂_map_left_iff, List.forall₂_map_right_iff] at hcs
  exact hcs

theorem parts : t.kind = s.kind ∧ t.text = s.text ∧
    t.doc.map DocComment.unplaced = s.doc.map DocComment.unplaced := by
  obtain ⟨kind, text, doc, e, cs⟩ := s
  obtain ⟨kind', text', doc', e', cs'⟩ := t
  unfold SameUnplaced Sketch.unplaced at h
  obtain ⟨hkind, htext, hdoc, -, -⟩ := Sketch.mk.inj h
  exact ⟨hkind.symm, htext.symm, hdoc.symm⟩

end SameUnplaced

end SuperForward.Program
