/-
  The names that nodes spell.

  A chain of property accesses spells a dotted name from its innermost node outwards. In a
  program that was read from scripts the search for such a name never fails and is never cut
  short, and every segment that it finds is free of dots.
-/
import SuperForward.Program.Names
import SuperForward.Proofs.Program.Parsed

namespace SuperForward.Program

open SuperForward.Script (IsSegment)

/-- A chain of property accesses spells these segments. -/
inductive Spells (p : Program) : Handle → List String → Prop
  | name {n : Handle} {text : String} (kind : p.kindOf? n = some .name)
      (htext : p.textOf? n = some text) (nonempty : text ≠ "") : Spells p n [text]
  | this {n : Handle} (kind : p.kindOf? n = some .this) : Spells p n ["this"]
  | getProp {n target : Handle} {text : String} {names : List String}
      (kind : p.kindOf? n = some .getProp) (htext : p.textOf? n = some text)
      (htarget : (p.childrenOf n).head? = some target) (spells : Spells p target names) :
      Spells p n (names ++ [text])

theorem Spells.unique {p : Program} {n : Handle} {as bs : List String} (ha : p.Spells n as)
    (hb : p.Spells n bs) : as = bs := by
  induction ha generalizing bs with
  | name kind htext _ =>
    cases hb with
    | name _ htext' => rw [htext] at htext'; cases htext'; rfl
    | this kind' => rw [kind] at kind'; cases kind'
    | getProp kind' => rw [kind] at kind'; cases kind'
  | this kind =>
    cases hb with
    | name kind' => rw [kind] at kind'; cases kind'
    | this => rfl
    | getProp kind' => rw [kind] at kind'; cases kind'
  | getProp kind htext htarget _ ih =>
    cases hb with
    | name kind' => rw [kind] at kind'; cases kind'
    | this kind' => rw [kind] at kind'; cases kind'
    | getProp _ htext' htarget' spells =>
      rw [htext] at htext'
      rw [htarget] at htarget'
      cases htext'
      cases htarget'
      rw [ih spells]

theorem Spells.ne_nil {p : Program} {n : Handle} {names : List String} (h : p.Spells n names) :
    names ≠ [] := by
  cases h <;> simp

/-- A plain name spells its text. -/
theorem Spells.of_name {p : Program} {n : Handle} {names : List String} (h : p.Spells n names)
    (hkind : p.kindOf? n = some .name) : ∃ text, p.textOf? n = some text ∧ names = [text] := by
  cases h with
  | name _ htext _ => exact ⟨_, htext, rfl⟩
  | this kind => rw [hkind] at kind; cases kind
  | getProp kind => rw [hkind] at kind; cases kind

/-- A node of no sort of its own spells nothing. -/
theorem Spells.ne_other {p : Program} {n : Handle} {names : List String} (h : p.Spells n names) :
    p.kindOf? n ≠ some .other := by
  cases h with
  | name kind => rw [kind]; exact fun h => nomatch h
  | this kind => rw [kind]; exact fun h => nomatch h
  | getProp kind => rw [kind]; exact fun h => nomatch h

/-! ## Nodes and their fields -/

theorem node_fields {p : Program} {n : Handle} {node : Node} (h : p.node n = .ok node) :
    p.kindOf? n = some node.kind ∧ p.textOf? n = some node.text ∧
      p.childrenOf n = node.children ∧ p.parentOf n = node.parent ∧ p.docOf? n = node.doc := by
  rw [node_eq_ok_iff] at h
  unfold kindOf? textOf? childrenOf parentOf docOf?
  simp [h]

namespace ParsedAt

variable {p : Program} {top : Handle} (hp : p.ParsedAt top)
include hp

theorem lt_size_of_below {n : Handle} (h : p.Below top n) : n < p.size :=
  h.lt_size hp.top_lt_size

/-- The segments of a name are free of dots. -/
theorem isSegment_of_spells {n : Handle} {names : List String} (h : p.Spells n names)
    (hn : p.Below top n) : ∀ name ∈ names, IsSegment name := by
  induction h with
  | name kind htext nonempty =>
    intro name hname
    rw [List.mem_singleton.mp hname]
    obtain ⟨text', htext', hsegment⟩ := hp.text_name hn kind
    rw [htext] at htext'
    cases htext'
    exact hsegment.resolve_left nonempty
  | this kind =>
    intro name hname
    rw [List.mem_singleton.mp hname]
    exact Script.isSegment_this
  | @getProp n target _ _ kind htext htarget _ ih =>
    obtain ⟨text', target', htext', hsegment, hchildren⟩ := hp.children_getProp hn kind
    rw [htext] at htext'
    cases htext'
    have htarget' : target ∈ p.childrenOf n := List.mem_of_mem_head? (by rw [htarget]; rfl)
    have hbelow := hn.child (hp.forest.mem_children_iff.mp htarget')
    intro name hname
    rcases List.mem_append.mp hname with hname | hname
    · exact ih hbelow name hname
    · rw [List.mem_singleton.mp hname]
      exact hsegment

/-- Following a chain of accesses finds the name that it spells, if it spells one. -/
theorem segmentsWithin_eq {rank : Handle → Nat}
    (hrank : ∀ {n c}, p.parentOf c = some n → rank c < rank n) (steps : Nat) {n : Handle}
    (hn : p.Below top n) (hsteps : rank n < steps) (below : List String) :
    (∃ names, p.Spells n names ∧ p.segmentsWithin steps n below = .ok (some (names ++ below))) ∨
      ((∀ names, ¬ p.Spells n names) ∧ p.segmentsWithin steps n below = .ok none) := by
  -- each access goes one rank down, and the segments that were passed stand behind the rest
  induction steps generalizing n below with
  | zero => omega
  | succ steps ih =>
    obtain ⟨node, hnode, -⟩ := node_of_lt (hp.lt_size_of_below hn)
    obtain ⟨hkind, htext, hchildren, -, -⟩ := node_fields hnode
    unfold segmentsWithin
    simp only [hnode, except_ok_bind, except_pure]
    split
    · next hk =>
      rw [hk] at hkind
      obtain ⟨_, target, -, -, hsingle⟩ := hp.children_getProp hn hkind
      have hhead : (p.childrenOf n).head? = some target := by rw [hsingle]; rfl
      rw [← hchildren, hhead]
      have hlink : p.parentOf target = some n := by
        rw [← hp.forest.mem_children_iff, hsingle]
        exact List.mem_singleton_self target
      have hlt := hrank hlink
      rcases ih (hn.child hlink) (by omega) (node.text :: below) with ⟨names, hs, heq⟩ | ⟨hs, heq⟩
      · left
        refine ⟨names ++ [node.text], .getProp hkind htext hhead hs, ?_⟩
        rw [List.append_assoc]
        exact heq
      · right
        refine ⟨?_, heq⟩
        intro names h
        cases h with
        | name kind => rw [hkind] at kind; cases kind
        | this kind => rw [hkind] at kind; cases kind
        | getProp _ _ htarget spells =>
          rw [hhead] at htarget
          cases htarget
          exact hs _ spells
    · next hk =>
      rw [hk] at hkind
      by_cases hempty : node.text = ""
      · right
        refine ⟨?_, by simp [hempty]⟩
        intro names h
        cases h with
        | name _ htext' nonempty =>
          rw [htext] at htext'
          cases htext'
          exact nonempty hempty
        | this kind => rw [hkind] at kind; cases kind
        | getProp kind => rw [hkind] at kind; cases kind
      · left
        exact ⟨[node.text], .name hkind htext hempty, by simp [hempty]⟩
    · next hk =>
      rw [hk] at hkind
      exact .inl ⟨["this"], .this hkind, rfl⟩
    · next h₁ h₂ h₃ =>
      refine .inr ⟨?_, rfl⟩
      intro names h
      cases h with
      | name kind => rw [hkind] at kind; exact h₂ (Option.some.inj kind)
      | this kind => rw [hkind] at kind; exact h₃ (Option.some.inj kind)
      | getProp kind => rw [hkind] at kind; exact h₁ (Option.some.inj kind)

/-- A node has the name that it spells. -/
theorem qualifiedName_eq {n : Handle} (hn : p.Below top n) :
    (∃ q : QualifiedName, p.Spells n q.names ∧ p.qualifiedName n = .ok (some q)) ∨
      ((∀ names, ¬ p.Spells n names) ∧ p.qualifiedName n = .ok none) := by
  obtain ⟨rank, hle, hrank⟩ := hp.forest.ranked
  unfold qualifiedName
  rcases hp.segmentsWithin_eq hrank (p.size + 1) hn (Nat.lt_succ_of_le (hle n)) [] with
    ⟨names, hs, heq⟩ | ⟨hs, heq⟩
  · left
    have hnonempty : ∀ name ∈ names, name ≠ "" :=
      fun name hname => (hp.isSegment_of_spells hs hn name hname).1
    refine ⟨⟨names, hs.ne_nil, hnonempty⟩, hs, ?_⟩
    have hname : QualifiedName.ofNames? names = some ⟨names, hs.ne_nil, hnonempty⟩ :=
      QualifiedName.ofNames?_eq_some_iff.mpr rfl
    simp only [heq, List.append_nil, nameOf, hname, except_ok_bind, except_pure]
  · right
    rw [heq]
    exact ⟨hs, rfl⟩

theorem spells_of_qualifiedName {n : Handle} (hn : p.Below top n) {q : QualifiedName}
    (h : p.qualifiedName n = .ok (some q)) : p.Spells n q.names := by
  rcases hp.qualifiedName_eq hn with ⟨q', hs, heq⟩ | ⟨-, heq⟩
  · rw [heq] at h
    cases h
    exact hs
  · rw [heq] at h
    cases h

theorem qualifiedName_ok {n : Handle} (hn : p.Below top n) :
    ∃ name, p.qualifiedName n = .ok name := by
  rcases hp.qualifiedName_eq hn with ⟨q, -, h⟩ | ⟨-, h⟩
  · exact ⟨_, h⟩
  · exact ⟨_, h⟩

/-! ## Names of functions -/

theorem ownName_ok {fn : Handle} (hfn : p.Below top fn)
    (hkind : p.kindOf? fn = some .function) :
    ∃ name?, p.ownName fn = .ok name? ∧ ∀ q ∈ name?, q.names.length = 1 := by
  obtain ⟨name, params, body, hchildren, -, -, -⟩ := hp.children_function hfn hkind
  have hlt := hp.lt_size_of_below hfn
  have hname : name < p.size :=
    hp.forest.lt_size_of_mem (by rw [hchildren]; simp : name ∈ p.childrenOf fn)
  obtain ⟨node, hnode, -⟩ := node_of_lt hname
  have hfirst : p.firstChild fn = .ok (some name) := by
    simp only [firstChild, childAt, children_of_lt hlt, hchildren, except_ok_bind, except_pure]
    rfl
  unfold ownName
  simp only [hfirst, except_ok_bind, hnode]
  split
  · next h =>
    have hne : node.text ≠ "" := by
      simp only [Bool.and_eq_true, bne_iff_ne] at h
      exact h.2
    have hof : QualifiedName.ofNames? [node.text] = some ⟨[node.text], by simp, by simpa using hne⟩ :=
      QualifiedName.ofNames?_eq_some_iff.mpr rfl
    refine ⟨some ⟨[node.text], by simp, by simpa using hne⟩, ?_, ?_⟩
    · simp only [nameOf, hof, except_ok_bind, except_pure]
    · intro q hq
      cases hq
      rfl
  · exact ⟨none, rfl, by simp⟩

/-- A function whose name has more than one segment is the value of an assignment to what
spells the name; any other name is a single segment. -/
theorem functionName_ok {fn : Handle} (hfn : p.Below top fn)
    (hkind : p.kindOf? fn = some .function) :
    ∃ name?, p.functionName fn = .ok name? ∧ ∀ q ∈ name?, q.names.length = 1 ∨
      ∃ assign target, p.parentOf fn = some assign ∧ p.kindOf? assign = some .assign ∧
        p.childrenOf assign = [target, fn] ∧ p.Spells target q.names := by
  obtain ⟨own, hown, hsingle⟩ := hp.ownName_ok hfn hkind
  have hlt := hp.lt_size_of_below hfn
  unfold functionName
  simp only [parent_of_lt hlt, except_ok_bind]
  cases hparent : p.parentOf fn with
  | none => exact ⟨own, hown, fun q hq => .inl (hsingle q hq)⟩
  | some above =>
    -- only the topmost node has no parent, and what is above the others is not above it
    have habove : p.Below top above := by
      cases hfn with
      | here => rw [hp.top_parent] at hparent; cases hparent
      | child up link =>
        rw [link] at hparent
        cases hparent
        exact up
    obtain ⟨node, hnode, -⟩ := node_of_lt (hp.lt_size_of_below habove)
    obtain ⟨hk, -, hchildren, -, -⟩ := node_fields hnode
    simp only [hnode, except_ok_bind]
    split
    · next h =>
      simp only [Bool.and_eq_true, beq_iff_eq, bne_iff_ne] at h
      obtain ⟨hassign, hhead⟩ := h
      rw [hassign] at hk
      obtain ⟨target, value, hboth⟩ := hp.children_assign habove hk
      have hfn_mem : fn ∈ p.childrenOf above := hp.forest.mem_children_iff.mpr hparent
      have htarget_mem : target ∈ p.childrenOf above := by rw [hboth]; simp
      rw [hboth] at hfn_mem hchildren
      rw [← hchildren] at hhead ⊢
      have hvalue : value = fn := by
        rcases List.mem_cons.mp hfn_mem with rfl | h
        · exact absurd rfl hhead
        · exact (List.mem_singleton.mp h).symm
      subst hvalue
      have htarget : p.Below top target := habove.child (hp.forest.mem_children_iff.mp htarget_mem)
      obtain ⟨name?, hname⟩ := hp.qualifiedName_ok htarget
      refine ⟨name?, ?_, ?_⟩
      · simp only [qualifiedNameOf, List.head?_cons, present, except_ok_bind, hname]
      · intro q hq
        refine .inr ⟨above, target, rfl, hk, hboth, hp.spells_of_qualifiedName htarget ?_⟩
        rw [hname, Option.mem_def.mp hq]
    · split
      · next h =>
        rw [beq_iff_eq.mp h] at hk
        obtain ⟨name?, hname⟩ := hp.qualifiedName_ok habove
        refine ⟨name?, hname, ?_⟩
        intro q hq
        have hs := hp.spells_of_qualifiedName habove (hname.trans (by rw [Option.mem_def.mp hq]))
        left
        generalize q.names = names at hs ⊢
        cases hs with
        | name => rfl
        | this => rfl
        | getProp kind => rw [hk] at kind; cases kind
      · exact ⟨own, hown, fun q hq => .inl (hsingle q hq)⟩

end ParsedAt

/-- A function of the program is bound to the name of a method of a class. -/
structure IsMethod (p : Program) (c m : String) (fn : Handle) : Prop where
  below : p.Below root fn
  kind : p.kindOf? fn = some .function
  named : ∃ name : QualifiedName, p.functionName fn = .ok (some name) ∧
    toString name = c ++ ".prototype." ++ m

/-- The program has a function for the method of the class. -/
def HasMethod (p : Program) (c m : String) : Prop := ∃ fn, p.IsMethod c m fn

end SuperForward.Program
