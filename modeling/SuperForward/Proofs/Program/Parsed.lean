/-
  Programs that were read from scripts, and how their nodes are shaped.

  The types of nodes may be anything. Everything below the root of such a program shows a
  regular sketch, so that the children of a node and its text are known from its sort.
-/
import SuperForward.Proofs.Program.Scripts
import SuperForward.Proofs.Program.Shape

namespace SuperForward

open SuperForward.Script

/-- A script: statements below it, each as the grammar has it. -/
structure Sketch.IsScript (s : Sketch) : Prop where
  kind : s.kind = .script
  regular : ∀ c ∈ s.children, c.Regular
  ne_name : ∀ c ∈ s.children, c.kind ≠ .name

/-- The root: scripts below it. -/
def Sketch.IsRoot (s : Sketch) : Prop :=
  ∃ scripts, s = .fresh .root "" ⟨0, 0, 0⟩ scripts ∧ ∀ c ∈ scripts, c.IsScript

namespace Program

/-- The program with other types on its nodes. -/
def withTypes (p : Program) (types : Handle → Option JsType) : Program :=
  ⟨p.nodes.mapIdx fun n node => { node with type := types n }⟩

/-- The program is a forest, and a node without a parent and all nodes below it are as the
grammar has them: the root has scripts below it, and any other node shows a regular sketch. -/
structure ParsedAt (p : Program) (top : Handle) : Prop where
  forest : p.Forest
  top_parent : p.parentOf top = none
  top_shows : ∃ s, p.Shows top s ∧ (top = root ∧ s.IsRoot ∨ top ≠ root ∧ s.Regular)

/-- The program is a forest whose root has scripts below it. -/
abbrev Parsed (p : Program) : Prop := p.ParsedAt root

theorem Parsed.of_shows {p : Program} {scripts : List Sketch} (forest : p.Forest)
    (hparent : p.parentOf root = none) (hshows : p.Shows root (.fresh .root "" ⟨0, 0, 0⟩ scripts))
    (hscripts : ∀ s ∈ scripts, s.IsScript) : p.Parsed :=
  ⟨forest, hparent, _, hshows, .inl ⟨rfl, scripts, rfl, hscripts⟩⟩

/-! ## Scripts are lawful -/

theorem mem_statements {ts rest : List Token} {xs : List Tree} (h : StatementsStand ts xs rest) :
    ∀ x ∈ xs, ∃ depth, Formed depth .statement x := by
  induction h with
  | stop =>
    intro x hx
    exact absurd hx List.not_mem_nil
  | more _ group _ ih =>
    intro x hx
    rcases List.mem_append.mp hx with hx | hx
    · cases group with
      | cons head tail =>
        cases tail
        obtain rfl := List.mem_singleton.mp hx
        cases head with
        | phrase h =>
          obtain ⟨depth, h⟩ := h
          exact ⟨depth, h.formed⟩
    · exact ih x hx

/-- The statements of a text are read off the tokens of the text. -/
theorem statementsStand_of_read {text : String} {statements : List Tree}
    (h : Script.read text = .ok statements) :
    StatementsStand (scan text.toList).tokens statements [] ∧
      (scan text.toList).ending = .endOfText := by
  unfold Script.read statementsOf at h
  split at h
  · next h₁ h₂ =>
    cases h
    exact ⟨(readStatements_eq_done.mp h₁).2, h₂⟩
  all_goals cases h

/-- The tokens of a text are written as their kinds demand. -/
theorem spelled_of_read {text : String} {statements : List Tree}
    (h : Script.read text = .ok statements) : ∀ t ∈ Tree.tokensOfAll statements, t.Spelled := by
  have hstand := (statementsStand_of_read h).1
  have htokens := TakesRepeated.tokens_eq (fun h => Stands.tokens_eq h) hstand
  rw [List.append_nil] at htokens
  exact fun t ht => spelled_of_mem_scan (l := text.toList) (htokens ▸ ht)

theorem lawful_of_read {text : String} {statements : List Tree}
    (h : Script.read text = .ok statements) :
    ∀ x ∈ statements, Sketch.Lawful .statement x := by
  intro x hx
  obtain ⟨depth, hformed⟩ := mem_statements (statementsStand_of_read h).1 x hx
  exact Sketch.lawful_of_formed hformed fun t ht =>
    spelled_of_read h t (Sketch.mem_tokensOfAll hx ht)

theorem isScript_of_mem_scriptsOf {sources : List Source} {s : Sketch}
    (h : s ∈ scriptsOf sources) : s.IsScript := by
  unfold scriptsOf at h
  obtain ⟨source, -, hs⟩ := List.mem_filterMap.mp h
  cases hread : Script.read source.text with
  | error e => rw [hread] at hs; cases hs
  | ok statements =>
    rw [hread] at hs
    cases hs
    have hlawful := lawful_of_read hread
    refine ⟨rfl, ?_, ?_⟩
    · intro c hc
      obtain ⟨x, hx, -, rfl⟩ := Sketch.mem_ownOf hc
      exact (hlawful x hx).regular
    · intro c hc
      obtain ⟨x, hx, -, rfl⟩ := Sketch.mem_ownOf hc
      exact (hlawful x hx).ne_name rfl

/-! ## Types do not matter -/

theorem nodes_withTypes {p : Program} {types : Handle → Option JsType} {n : Handle} :
    (p.withTypes types).nodes[n]? = (p.nodes[n]?).map fun node =>
      { node with type := types n } := by
  unfold withTypes
  rw [Array.getElem?_mapIdx]

theorem size_withTypes {p : Program} {types : Handle → Option JsType} :
    (p.withTypes types).size = p.size := by
  simp [withTypes, Program.size]

theorem parentOf_withTypes {p : Program} {types : Handle → Option JsType} {n : Handle} :
    (p.withTypes types).parentOf n = p.parentOf n := by
  unfold parentOf
  rw [nodes_withTypes]
  cases p.nodes[n]? <;> rfl

theorem childrenOf_withTypes {p : Program} {types : Handle → Option JsType} {n : Handle} :
    (p.withTypes types).childrenOf n = p.childrenOf n := by
  unfold childrenOf
  rw [nodes_withTypes]
  cases p.nodes[n]? <;> rfl

theorem Shows.withTypes {p : Program} {types : Handle → Option JsType} {n : Handle} {s : Sketch}
    (h : p.Shows n s) : (p.withTypes types).Shows n s := by
  induction s using Sketch.induction_on generalizing n with
  | step s ih =>
    rw [shows_iff] at h ⊢
    obtain ⟨node, hnode, hkind, htext, hdoc, hextent, hchildren⟩ := h
    refine ⟨{ node with type := types n }, ?_, hkind, htext, hdoc, hextent, ?_⟩
    · rw [nodes_withTypes, hnode, Option.map_some]
    · exact forall₂_imp_of_mem (fun _ _ c hc hm => ih c hc hm) hchildren

/-- A forest stays one if its links do. -/
theorem Forest.congr {p q : Program} (hp : Forest p) (hsize : q.size = p.size)
    (hparent : ∀ n, q.parentOf n = p.parentOf n)
    (hchildren : ∀ n, q.childrenOf n = p.childrenOf n) : Forest q where
  mem_children_iff := by
    intro n c
    rw [hparent, hchildren]
    exact hp.mem_children_iff
  nodup_children n := by
    rw [hchildren]
    exact hp.nodup_children n
  ranked := by
    obtain ⟨rank, hle, hrank⟩ := hp.ranked
    refine ⟨rank, fun n => hsize ▸ hle n, ?_⟩
    intro n c hc
    rw [hparent] at hc
    exact hrank hc

/-- A program of scripts, whatever types its nodes have. -/
theorem Composed.parsed {p : Program} {scripts : List Sketch} (h : p.Composed scripts)
    (hscripts : ∀ s ∈ scripts, s.IsScript) (types : Handle → Option JsType) :
    (p.withTypes types).Parsed :=
  .of_shows (h.forest.congr size_withTypes (fun _ => parentOf_withTypes)
    (fun _ => childrenOf_withTypes)) (parentOf_withTypes.trans h.root_parent) h.shows.withTypes
    hscripts

/-- The program of some sources, whatever types its nodes have. -/
theorem parsed_ofSources (sources : List Source) (types : Handle → Option JsType) :
    ((ofSources sources).1.withTypes types).Parsed :=
  (composed_ofSources sources).parsed (fun _ hs => isScript_of_mem_scriptsOf hs) types

/-- The program of sources has no types yet. -/
theorem withTypes_ofSources (sources : List Source) :
    (ofSources sources).1.withTypes (fun _ => none) = (ofSources sources).1 := by
  refine ext_nodes fun n => ?_
  rw [nodes_withTypes]
  cases hnode : (ofSources sources).1.nodes[n]? with
  | none => rfl
  | some node =>
    rw [Option.map_some, ← (composed_ofSources sources).untyped n node hnode]

/-- The program of sources is one of scripts. -/
theorem parsed_untyped (sources : List Source) : (ofSources sources).1.Parsed :=
  withTypes_ofSources sources ▸ parsed_ofSources sources fun _ => none

/-! ## Reading off the shape -/

/-- The text of a handle, if there is such a node. -/
def textOf? (p : Program) (n : Handle) : Option String := p.nodes[n]?.map (·.text)

/-- The documentation of a handle, if there is such a node and it has one. -/
def docOf? (p : Program) (n : Handle) : Option DocComment := p.nodes[n]?.bind (·.doc)

theorem Shows.kindOf? {p : Program} {n : Handle} {s : Sketch} (h : p.Shows n s) :
    p.kindOf? n = some s.kind := by
  obtain ⟨node, hnode, hkind, -⟩ := shows_iff.mp h
  unfold Program.kindOf?
  rw [hnode, Option.map_some, hkind]

theorem Shows.textOf? {p : Program} {n : Handle} {s : Sketch} (h : p.Shows n s) :
    p.textOf? n = some s.text := by
  obtain ⟨node, hnode, -, htext, -⟩ := shows_iff.mp h
  unfold Program.textOf?
  rw [hnode, Option.map_some, htext]

theorem Shows.childrenOf {p : Program} {n : Handle} {s : Sketch} (h : p.Shows n s) :
    List.Forall₂ p.Shows (p.childrenOf n) s.children := by
  obtain ⟨node, hnode, -, -, -, -, hchildren⟩ := shows_iff.mp h
  unfold Program.childrenOf
  rw [hnode]
  exact hchildren

/-- What a child shows hangs below what its parent shows. -/
theorem Shows.child {p : Program} {n c : Handle} {s : Sketch} (h : p.Shows n s)
    (hc : c ∈ p.childrenOf n) : ∃ t ∈ s.children, p.Shows c t :=
  forall₂_exists_of_mem h.childrenOf hc

namespace Parsed

variable {p : Program} (hp : p.Parsed)
include hp

theorem root_parent : p.parentOf root = none := hp.top_parent

theorem shows : ∃ scripts, p.Shows root (.fresh .root "" ⟨0, 0, 0⟩ scripts) ∧
    ∀ s ∈ scripts, s.IsScript := by
  obtain ⟨s, hs, ⟨-, scripts, rfl, hscripts⟩ | ⟨hne, -⟩⟩ := hp.top_shows
  · exact ⟨scripts, hs, hscripts⟩
  · exact absurd rfl hne

theorem root_lt_size : root < p.size := by
  obtain ⟨scripts, hshows, -⟩ := hp.shows
  exact hshows.lt_size

theorem kindOf?_root : p.kindOf? root = some .root := by
  obtain ⟨scripts, hroot, -⟩ := hp.shows
  exact hroot.kindOf?

theorem ne_root_of_kind {n : Handle} {kind : NodeKind} (hkind : p.kindOf? n = some kind)
    (hne : kind ≠ .root) : n ≠ root := by
  rintro rfl
  rw [hp.kindOf?_root] at hkind
  exact hne (Option.some.inj hkind).symm

end Parsed

namespace ParsedAt

variable {p : Program} {top : Handle} (hp : p.ParsedAt top)
include hp

theorem top_lt_size : top < p.size := by
  obtain ⟨s, hshows, -⟩ := hp.top_shows
  exact hshows.lt_size

/-- Below the root are scripts, and everything below those and below any other node is
regular. -/
theorem shows_of_below {n : Handle} (h : p.Below top n) :
    (n = root ∧ top = root) ∨ ∃ s, p.Shows n s ∧ (s.IsScript ∨ s.Regular) := by
  induction h with
  | here =>
    obtain ⟨s, hs, ⟨hroot, -⟩ | ⟨-, hregular⟩⟩ := hp.top_shows
    · exact .inl ⟨hroot, hroot⟩
    · exact .inr ⟨s, hs, .inr hregular⟩
  | child _ link ih =>
    right
    have hc := hp.forest.mem_children_iff.mpr link
    rcases ih with ⟨rfl, rfl⟩ | ⟨s, hs, hs'⟩
    · obtain ⟨scripts, hroot, hscripts⟩ := Parsed.shows hp
      obtain ⟨t, ht, hct⟩ := hroot.child hc
      exact ⟨t, hct, .inl (hscripts t ht)⟩
    · obtain ⟨t, ht, hct⟩ := hs.child hc
      rcases hs' with hs' | hs'
      · exact ⟨t, hct, .inr (hs'.regular t ht)⟩
      · exact ⟨t, hct, .inr (hs'.child ht)⟩

/-- A node of any other sort than the root and the scripts shows a regular sketch. -/
theorem regular_of_below {n : Handle} {kind : NodeKind} (h : p.Below top n)
    (hkind : p.kindOf? n = some kind) (hroot : kind ≠ .root) (hscript : kind ≠ .script) :
    ∃ s, p.Shows n s ∧ s.Regular ∧ s.kind = kind := by
  rcases hp.shows_of_below h with ⟨rfl, rfl⟩ | ⟨s, hs, hs'⟩
  · rw [Parsed.kindOf?_root hp] at hkind
    exact absurd (Option.some.inj hkind).symm hroot
  · have hk : s.kind = kind := by
      rw [hs.kindOf?] at hkind
      exact Option.some.inj hkind
    rcases hs' with hs' | hs'
    · exact absurd (hk.symm.trans hs'.kind) hscript
    · exact ⟨s, hs, hs', hk⟩

theorem fits_of_below {n : Handle} {kind : NodeKind} (h : p.Below top n)
    (hkind : p.kindOf? n = some kind) (hroot : kind ≠ .root) (hscript : kind ≠ .script) :
    ∃ text cs, p.textOf? n = some text ∧ List.Forall₂ p.Shows (p.childrenOf n) cs ∧
      Sketch.Fits kind text cs := by
  obtain ⟨s, hs, hregular, rfl⟩ := hp.regular_of_below h hkind hroot hscript
  exact ⟨s.text, s.children, hs.textOf?, hs.childrenOf, hregular.shaped.fits⟩

/-- A function has a name, a list of parameters and a body. -/
theorem children_function {n : Handle} (h : p.Below top n)
    (hkind : p.kindOf? n = some .function) :
    ∃ name params body, p.childrenOf n = [name, params, body] ∧ p.kindOf? name = some .name ∧
      p.kindOf? params = some .paramList ∧ p.kindOf? body = some .block := by
  obtain ⟨text, cs, -, hshows, hfits⟩ := hp.fits_of_below h hkind (by simp) (by simp)
  obtain ⟨s₁, s₂, s₃, rfl, h₁, h₂, h₃⟩ := hfits
  obtain ⟨a, as, ha, has, hchildren⟩ := List.forall₂_cons_right_iff.mp hshows
  obtain ⟨b, bs, hb, hbs, rfl⟩ := List.forall₂_cons_right_iff.mp has
  obtain ⟨c, cs, hc, hcs, rfl⟩ := List.forall₂_cons_right_iff.mp hbs
  obtain rfl := List.forall₂_nil_right_iff.mp hcs
  exact ⟨a, b, c, hchildren, h₁ ▸ ha.kindOf?, h₂ ▸ hb.kindOf?, h₃ ▸ hc.kindOf?⟩

/-- An assignment has a target and a value. -/
theorem children_assign {n : Handle} (h : p.Below top n) (hkind : p.kindOf? n = some .assign) :
    ∃ target value, p.childrenOf n = [target, value] := by
  obtain ⟨text, cs, -, hshows, s₁, s₂, rfl⟩ := hp.fits_of_below h hkind (by simp) (by simp)
  obtain ⟨a, as, -, has, hchildren⟩ := List.forall₂_cons_right_iff.mp hshows
  obtain ⟨b, bs, -, hbs, rfl⟩ := List.forall₂_cons_right_iff.mp has
  obtain rfl := List.forall₂_nil_right_iff.mp hbs
  exact ⟨a, b, hchildren⟩

/-- An expression statement has one expression. -/
theorem children_exprResult {n : Handle} (h : p.Below top n)
    (hkind : p.kindOf? n = some .exprResult) : ∃ c, p.childrenOf n = [c] := by
  obtain ⟨text, cs, -, hshows, s, rfl⟩ := hp.fits_of_below h hkind (by simp) (by simp)
  obtain ⟨a, as, -, has, hchildren⟩ := List.forall₂_cons_right_iff.mp hshows
  obtain rfl := List.forall₂_nil_right_iff.mp has
  exact ⟨a, hchildren⟩

/-- A call has a callee. -/
theorem children_call {n : Handle} (h : p.Below top n) (hkind : p.kindOf? n = some .call) :
    ∃ callee args, p.childrenOf n = callee :: args := by
  obtain ⟨text, cs, -, hshows, hfits⟩ := hp.fits_of_below h hkind (by simp) (by simp)
  obtain ⟨s, ss, rfl⟩ := List.exists_cons_of_ne_nil hfits
  obtain ⟨a, as, -, -, hchildren⟩ := List.forall₂_cons_right_iff.mp hshows
  exact ⟨a, as, hchildren⟩

/-- A property has a name and something it is a property of. -/
theorem children_getProp {n : Handle} (h : p.Below top n) (hkind : p.kindOf? n = some .getProp) :
    ∃ text target, p.textOf? n = some text ∧ IsSegment text ∧ p.childrenOf n = [target] := by
  obtain ⟨text, cs, htext, hshows, hsegment, s, rfl⟩ :=
    hp.fits_of_below h hkind (by simp) (by simp)
  obtain ⟨a, as, -, has, hchildren⟩ := List.forall₂_cons_right_iff.mp hshows
  obtain rfl := List.forall₂_nil_right_iff.mp has
  exact ⟨text, a, htext, hsegment, hchildren⟩

/-- The text of a name is a segment, unless it is empty. -/
theorem text_name {n : Handle} (h : p.Below top n) (hkind : p.kindOf? n = some .name) :
    ∃ text, p.textOf? n = some text ∧ (text = "" ∨ IsSegment text) := by
  obtain ⟨text, cs, htext, -, hfits⟩ := hp.fits_of_below h hkind (by simp) (by simp)
  exact ⟨text, htext, hfits⟩

theorem children_this {n : Handle} (h : p.Below top n) (hkind : p.kindOf? n = some .this) :
    p.childrenOf n = [] := by
  obtain ⟨text, cs, -, hshows, rfl⟩ := hp.fits_of_below h hkind (by simp) (by simp)
  exact List.forall₂_nil_right_iff.mp hshows

/-- A parameter is a plain name, or of no sort of its own. -/
theorem children_paramList {n c : Handle} (h : p.Below top n)
    (hkind : p.kindOf? n = some .paramList) (hc : c ∈ p.childrenOf n) :
    (p.kindOf? c = some .name ∧ p.childrenOf c = []) ∨ p.kindOf? c = some .other := by
  obtain ⟨s, hs, hregular, hk⟩ := hp.regular_of_below h hkind (by simp) (by simp)
  have hfits := hregular.shaped.fits
  rw [hk] at hfits
  obtain ⟨t, ht, hct⟩ := hs.child hc
  rcases hfits t ht with ⟨hname, hnil⟩ | hother
  · left
    have hchildren := hct.childrenOf
    rw [hnil] at hchildren
    exact ⟨hname ▸ hct.kindOf?, List.forall₂_nil_right_iff.mp hchildren⟩
  · exact .inr (hother ▸ hct.kindOf?)

/-- Only the names of declared variables have something below them. -/
theorem children_name {n c : Handle} {kind : NodeKind} (h : p.Below top n)
    (hkind : p.kindOf? n = some kind) (hvar : kind ≠ .var) (hother : kind ≠ .other)
    (hc : c ∈ p.childrenOf n) (hname : p.kindOf? c = some .name) : p.childrenOf c = [] := by
  have hleaf {t : Sketch} (ht : p.Shows c t) (hnil : t.children = []) : p.childrenOf c = [] := by
    have hchildren := ht.childrenOf
    rw [hnil] at hchildren
    exact List.forall₂_nil_right_iff.mp hchildren
  have hkind_of {t : Sketch} (ht : p.Shows c t) : t.kind = .name := by
    rw [ht.kindOf?] at hname
    exact Option.some.inj hname
  rcases hp.shows_of_below h with ⟨rfl, rfl⟩ | ⟨s, hs, hs'⟩
  · obtain ⟨scripts, hroot, hscripts⟩ := Parsed.shows hp
    obtain ⟨t, ht, hct⟩ := hroot.child hc
    have hk := hkind_of hct
    rw [(hscripts t ht).kind] at hk
    cases hk
  · have hk : s.kind = kind := by
      rw [hs.kindOf?] at hkind
      exact Option.some.inj hkind
    obtain ⟨t, ht, hct⟩ := hs.child hc
    rcases hs' with hs' | hs'
    · exact absurd (hkind_of hct) (hs'.ne_name t ht)
    · rcases hs'.shaped.names t ht (hkind_of hct) with hnil | hk' | hk'
      · exact hleaf hct hnil
      · exact absurd (hk.symm.trans hk') hvar
      · exact absurd (hk.symm.trans hk') hother

end ParsedAt

end Program

end SuperForward
