/-
  Where the nodes of a script stand in its text.

  The tokens of a text stand one after the other, and a phrase goes from its first token to its
  last. Sketches that are strung from phrases therefore stand in a row: each within its phrase,
  and none overlapping another. This is carried along the tree of a phrase; parentheses widen a
  phrase without widening the node that they leave, and a function has two nodes that no token
  stands for.
-/
import SuperForward.Proofs.Program.Documenting
import SuperForward.Proofs.Program.Enclosing
import SuperForward.Proofs.Program.Faults

namespace SuperForward

open SuperForward.Script

/-! ## Tokens in a text -/

namespace Script

/-- The tokens stand in a text one after the other, on the lines that they name. -/
structure Laid (text : List Char) (ts : List Token) : Prop where
  bounds : ∀ t ∈ ts, t.start < t.stop ∧ t.stop ≤ text.length
  line : ∀ t ∈ ts, t.place.line = 1 + (text.take t.start).count '\n'
  apart : ts.Pairwise fun t u => t.stop ≤ u.start

theorem Laid.sublist {text : List Char} {ts us : List Token} (h : Laid text us)
    (hsub : ts.Sublist us) : Laid text ts where
  bounds t ht := h.bounds t (hsub.subset ht)
  line t ht := h.line t (hsub.subset ht)
  apart := h.apart.sublist hsub

/-- The tokens of a text that can be read stand in it. -/
theorem laid_of_read {text : String} {statements : List Tree}
    (h : read text = .ok statements) : Laid text.toList (Tree.tokensOfAll statements) := by
  obtain ⟨ls, hcut, htokens⟩ := exists_cutInto_of_read h
  have hlength : (Spot.origin.after ls).offset = text.toList.length := by
    rw [Spot.offset_after, ← hcut.flatten_eq]
    exact Nat.zero_add _
  rw [← htokens]
  refine ⟨fun t ht => ?_, fun t ht => ?_, pairwise_tokensFrom hcut.ne_nil .origin⟩
  · obtain ⟨-, hlt, hle⟩ := bounds_of_mem_tokensFrom hcut.ne_nil ht
    exact ⟨hlt, hlength ▸ hle⟩
  · have htext : text.toList = ls.flatMap Lexeme.text ++ [] := by
      rw [List.append_nil, hcut.flatten_eq]
    rw [place_of_mem_tokensFrom htext ht]
    rfl

/-- A phrase stands where its tokens do. -/
theorem Laid.extent {text : List Char} {x : Tree} (h : Laid text x.tokens) (hne : x.tokens ≠ []) :
    x.extent.start < x.extent.stop ∧ x.extent.stop ≤ text.length ∧
      x.extent.line = 1 + (text.take x.extent.start).count '\n' ∧
      ∀ t ∈ x.tokens, x.extent.start ≤ t.start ∧ t.stop ≤ x.extent.stop := by
  obtain ⟨t, ts, htokens⟩ := List.exists_cons_of_ne_nil hne
  obtain ⟨u, hlast⟩ : ∃ u, x.tokens.getLast? = some u := ⟨_, List.getLast?_eq_some_getLast hne⟩
  have hextent : x.extent = ⟨t.start, u.stop, t.place.line⟩ := by
    unfold Tree.extent
    rw [Tree.firstToken?_eq, Tree.lastToken?_eq, hlast, htokens]
    rfl
  have ht : t ∈ x.tokens := htokens ▸ List.mem_cons_self ..
  have hu : u ∈ x.tokens := List.mem_of_getLast? hlast
  -- the first token begins before all others, and the last one ends after them
  have hfirst : ∀ v ∈ x.tokens, t.start ≤ v.start := by
    intro v hv
    have hpair := h.apart
    rw [htokens] at hv hpair
    rcases List.mem_cons.mp hv with rfl | hv
    · exact le_refl _
    · exact (h.bounds t ht).1.le.trans ((List.pairwise_cons.mp hpair).1 v hv)
  have hlatest : ∀ v ∈ x.tokens, v.stop ≤ u.stop := by
    intro v hv
    obtain ⟨vs, hvs⟩ : ∃ vs, x.tokens = vs ++ [u] :=
      ⟨_, (List.dropLast_append_getLast? u hlast).symm⟩
    have hpair := h.apart
    rw [hvs] at hv hpair
    rcases List.mem_append.mp hv with hv | hv
    · exact ((List.pairwise_append.mp hpair).2.2 v hv u (List.mem_singleton_self u)).trans
        (h.bounds u hu).1.le
    · rw [List.mem_singleton.mp hv]
  rw [hextent]
  exact ⟨(h.bounds t ht).1.trans_le (hlatest t ht), (h.bounds u hu).2, h.line t ht,
    fun v hv => ⟨hfirst v hv, hlatest v hv⟩⟩

end Script

/-! ## Sketches in a text -/

namespace Sketch

/-- What stands in the text below a node: its children, where the children of a list of
parameters stand for the list. -/
def standing (cs : List Sketch) : List Sketch :=
  cs.flatMap fun c => if c.kind = .paramList then c.children else [c]

/-- A function without a name of its own: an empty name stands for it, and everything else
below it takes up some of the text. -/
def Anonymous (s : Sketch) : Prop :=
  s.kind = .function ∧ s.text = "" ∧ ∃ name rest, s.children = name :: rest ∧
    name.kind = .name ∧ name.text = "" ∧ ∀ c ∈ standing rest, c.extent.start < c.extent.stop

/-- A node stands in a text, and what stands below it stands within it, in order. -/
structure Seated (text : List Char) (s : Sketch) : Prop where
  start_le_stop : s.extent.start ≤ s.extent.stop
  stop_le : s.extent.stop ≤ text.length
  line : s.extent.line = 1 + (text.take s.extent.start).count '\n'
  within : ∀ c ∈ standing s.children,
    s.extent.start ≤ c.extent.start ∧ c.extent.stop ≤ s.extent.stop
  apart : (standing s.children).Pairwise fun c d => c.extent.stop ≤ d.extent.start
  solid : (∀ c ∈ standing s.children, c.extent.start < c.extent.stop) ∨ s.Anonymous

/-- All nodes but lists of parameters are seated. -/
def Nested (text : List Char) (s : Sketch) : Prop :=
  ∀ t, Within t s → t.kind ≠ .paramList → t.Seated text

/-- Some nodes stand one after the other between two offsets, and take up some of the text. -/
structure Row (text : List Char) (start stop : Nat) (cs : List Sketch) : Prop where
  nested : ∀ c ∈ cs, c.Nested text
  ne_paramList : ∀ c ∈ cs, c.kind ≠ .paramList
  solid : ∀ c ∈ cs, c.extent.start < c.extent.stop
  within : ∀ c ∈ cs, start ≤ c.extent.start ∧ c.extent.stop ≤ stop
  apart : cs.Pairwise fun c d => c.extent.stop ≤ d.extent.start

section Rows

variable {text : List Char} {a a' b b' m : Nat} {cs ds : List Sketch}

theorem standing_eq (h : ∀ c ∈ cs, c.kind ≠ .paramList) : standing cs = cs := by
  induction cs with
  | nil => rfl
  | cons c cs ih =>
    obtain ⟨hc, hcs⟩ := List.forall_mem_cons.mp h
    rw [standing, List.flatMap_cons, if_neg hc]
    exact congrArg (c :: ·) (ih hcs)

theorem nested_of_children {s : Sketch} (h : s.kind ≠ .paramList → s.Seated text)
    (hcs : ∀ c ∈ s.children, c.Nested text) : s.Nested text := forall_within h hcs

theorem Row.nil : Row text a b [] :=
  ⟨List.forall_mem_nil _, List.forall_mem_nil _, List.forall_mem_nil _, List.forall_mem_nil _, .nil⟩

theorem row_singleton {s : Sketch} (hnested : s.Nested text) (hkind : s.kind ≠ .paramList)
    (hsolid : s.extent.start < s.extent.stop)
    (hwithin : a ≤ s.extent.start ∧ s.extent.stop ≤ b) : Row text a b [s] where
  nested := List.forall_mem_singleton.mpr hnested
  ne_paramList := List.forall_mem_singleton.mpr hkind
  solid := List.forall_mem_singleton.mpr hsolid
  within := List.forall_mem_singleton.mpr hwithin
  apart := List.pairwise_singleton ..

theorem Row.widen (h : Row text a b cs) (ha : a' ≤ a) (hb : b ≤ b') : Row text a' b' cs :=
  { h with within := fun c hc => ⟨ha.trans (h.within c hc).1, (h.within c hc).2.trans hb⟩ }

theorem Row.append (h : Row text a m cs) (h' : Row text m b ds) (ha : a ≤ m) (hb : m ≤ b) :
    Row text a b (cs ++ ds) where
  nested := List.forall_mem_append.mpr ⟨h.nested, h'.nested⟩
  ne_paramList := List.forall_mem_append.mpr ⟨h.ne_paramList, h'.ne_paramList⟩
  solid := List.forall_mem_append.mpr ⟨h.solid, h'.solid⟩
  within := List.forall_mem_append.mpr ⟨(h.widen (le_refl a) hb).within,
    (h'.widen ha (le_refl b)).within⟩
  apart := List.pairwise_append.mpr ⟨h.apart, h'.apart, fun c hc d hd =>
    (h.within c hc).2.trans (h'.within d hd).1⟩

/-- A node above a row. -/
theorem Row.nested_fresh {kind : NodeKind} {word : String} {e : Extent}
    (h : Row text e.start e.stop cs) (hlt : e.start ≤ e.stop) (hstop : e.stop ≤ text.length)
    (hline : e.line = 1 + (text.take e.start).count '\n') :
    (fresh kind word e cs).Nested text := by
  refine nested_of_children (fun _ => ?_) h.nested
  have hstanding : standing (fresh kind word e cs).children = cs := standing_eq h.ne_paramList
  refine ⟨hlt, hstop, hline, ?_, ?_, .inl ?_⟩ <;> rw [hstanding]
  · exact h.within
  · exact h.apart
  · exact h.solid

end Rows

/-! ### Documentation -/

theorem Seated.setDoc {text : List Char} {s : Sketch} (h : s.Seated text) (d : DocComment) :
    (s.setDoc d).Seated text := by
  cases s
  exact ⟨h.start_le_stop, h.stop_le, h.line, h.within, h.apart, h.solid⟩

theorem Nested.setDoc {text : List Char} {s : Sketch} (h : s.Nested text) (d : DocComment) :
    (s.setDoc d).Nested text := by
  refine nested_of_children (fun hkind => (h s .here ?_).setDoc d) fun c hc t ht => ?_
  · rwa [kind_setDoc] at hkind
  · rw [children_setDoc] at hc
    exact h t (.child hc ht)

/-- Documentation stands nowhere. -/
theorem Nested.document {text : List Char} {s : Sketch} (h : s.Nested text) (d : DocComment) :
    (s.document d).Nested text := by
  rcases document_eq s d with heq | ⟨word, doc, e, c, cs, rfl, hassign, heq⟩
  · exact heq ▸ h.setDoc d
  rw [heq]
  have hs := h (.mk .exprResult word doc e (c :: cs)) .here (by simp [kind])
  have hne : (c.setDoc d).kind ≠ .paramList ∧ c.kind ≠ .paramList := by
    rw [kind_setDoc, hassign]
    decide
  -- what stands below has the same places as before
  have hstanding (c' : Sketch) (hc' : c'.kind ≠ .paramList) :
      standing (c' :: cs) = c' :: standing cs := by
    rw [standing, List.flatMap_cons, if_neg hc']
    rfl
  have hextent : (c.setDoc d).extent = c.extent := by cases c; rfl
  refine nested_of_children (fun _ => ?_) (List.forall_mem_cons.mpr ⟨?_, fun c' hc' t ht => ?_⟩)
  · obtain ⟨hle, hstop, hline, hwithin, hapart, hsolid⟩ := hs
    rw [children, hstanding c hne.2] at hwithin hapart hsolid
    refine ⟨hle, hstop, hline, ?_, ?_, ?_⟩ <;> rw [children, hstanding _ hne.1]
    · rw [List.forall_mem_cons] at hwithin ⊢
      exact ⟨hextent ▸ hwithin.1, hwithin.2⟩
    · rw [List.pairwise_cons] at hapart ⊢
      exact ⟨hextent ▸ hapart.1, hapart.2⟩
    · rcases hsolid with hsolid | ⟨hfunction, -⟩
      · rw [List.forall_mem_cons] at hsolid ⊢
        exact .inl ⟨hextent ▸ hsolid.1, hsolid.2⟩
      · cases hfunction
  · exact Nested.setDoc (fun t ht => h t (.child (List.mem_cons_self ..) ht)) d
  · exact h t (.child (List.mem_cons_of_mem _ hc') ht)

/-! ## Sketches of phrases -/

/-- The sketches of a phrase and of the phrases inside it stand within the phrase. -/
structure Held (text : List Char) (x : Tree) : Prop where
  own : Row text x.extent.start x.extent.stop [ofTree x]
  inner : Row text x.extent.start x.extent.stop (inside x)

/-- Sketches that are strung from phrases stand in a row where the phrases do. -/
theorem Strung.row {text : List Char} {cs : List Sketch} {xs : List Tree} (h : Strung cs xs)
    (hheld : ∀ x ∈ xs, Held text x) (hlaid : Laid text (Tree.tokensOfAll xs))
    (hne : ∀ x ∈ xs, x.tokens ≠ []) {a b : Nat}
    (hbetween : ∀ t ∈ Tree.tokensOfAll xs, a ≤ t.start ∧ t.stop ≤ b) : Row text a b cs := by
  -- the row of the first phrase ends where that of the others may begin
  have hcons {x : Tree} {xs : List Tree} {cs ds : List Sketch} {a : Nat}
      (hlaid : Laid text (Tree.tokensOfAll (x :: xs))) (hne : x.tokens ≠ [])
      (hbetween : ∀ t ∈ Tree.tokensOfAll (x :: xs), a ≤ t.start ∧ t.stop ≤ b)
      (hx : Row text x.extent.start x.extent.stop cs)
      (ih : ∀ {a}, (∀ t ∈ Tree.tokensOfAll xs, a ≤ t.start ∧ t.stop ≤ b) → Row text a b ds) :
      Row text a b (cs ++ ds) := by
    obtain ⟨hlt, -, -, -⟩ := (hlaid.sublist (List.sublist_append_left ..)).extent hne
    obtain ⟨t, ht, u, hu, hstart, hstop⟩ := Tree.exists_extent hne
    have hmem {v : Token} (hv : v ∈ x.tokens) : v ∈ Tree.tokensOfAll (x :: xs) :=
      List.mem_append_left _ hv
    have ha : a ≤ x.extent.start := hstart ▸ (hbetween t (hmem ht)).1
    have hb : x.extent.stop ≤ b := hstop ▸ (hbetween u (hmem hu)).2
    refine (hx.widen ha (le_refl _)).append (ih fun v hv => ⟨?_, ?_⟩) (ha.trans hlt.le) hb
    · rw [hstop]
      exact (List.pairwise_append.mp hlaid.apart).2.2 u hu v hv
    · exact (hbetween v (List.mem_append_right _ hv)).2
  have hrest {x : Tree} {xs : List Tree} (hlaid : Laid text (Tree.tokensOfAll (x :: xs))) :
      Laid text (Tree.tokensOfAll xs) := hlaid.sublist (List.sublist_append_right ..)
  induction h generalizing a with
  | nil => exact .nil
  | @skip cs x xs _ ih =>
    exact ih (fun y hy => hheld y (.tail _ hy)) (hrest hlaid) (fun y hy => hne y (.tail _ hy))
      fun t ht => hbetween t (List.mem_append_right _ ht)
  | @own cs x xs _ ih =>
    exact hcons hlaid (hne x (.head _)) hbetween (hheld x (.head _)).own
      (ih (fun y hy => hheld y (.tail _ hy)) (hrest hlaid) fun y hy => hne y (.tail _ hy))
  | @inner cs x xs _ ih =>
    exact hcons hlaid (hne x (.head _)) hbetween (hheld x (.head _)).inner
      (ih (fun y hy => hheld y (.tail _ hy)) (hrest hlaid) fun y hy => hne y (.tail _ hy))

/-! ### Functions -/

/-- The name of a function is the second of its parts, or it has none. -/
def NameSecond (parts : List Tree) : Prop :=
  (∃ k t rest, parts = .leaf k :: .leaf t :: rest ∧ t.kind = .name ∧
    functionName? (piecesOf parts) = some t) ∨ functionName? (piecesOf parts) = none

theorem nameSecond_of_fits {d : Nat} {r : Rule} {parts : List Tree}
    (hr : r = .functionDeclaration ∨ r = .functionExpression)
    (h : itemsFit (Formed d) r.items parts) : NameSecond parts := by
  have hnamed {y : Tree} (ys : List Tree) {k : Token} (hk : k.kind = .keyword .functionKw)
      (hy : Part.Fits (Formed d) (.token .name) y) : NameSecond (.leaf k :: y :: ys) := by
    obtain ⟨t, rfl, ht⟩ := hy
    exact .inl ⟨k, t, ys, rfl, ht, by simp [functionName?, piecesOf, hk, ht]⟩
  rcases hr with rfl | rfl
  · obtain ⟨_, ys, rfl, ⟨k, rfl, hk⟩, hys⟩ := itemsFit_one.mp h
    obtain ⟨y, zs, rfl, hy, -⟩ := itemsFit_one.mp hys
    exact hnamed zs hk hy
  · obtain ⟨_, ys, rfl, ⟨k, rfl, hk⟩, hys⟩ := itemsFit_one.mp h
    rcases itemsFit_optional.mp hys with hys | ⟨y, zs, rfl, hy, -⟩
    swap
    · exact hnamed zs hk hy
    -- two marks, the parameters and the body are left, and none is a name
    have hother : ∀ t, .leaf t ∈ ys → t.kind ≠ .name := by
      intro t ht
      obtain ⟨p, hp, hfit⟩ := itemsFit_mem hys _ ht
      have hasks : p = .token (.mark .lparen) ∨ p = .phrase .params ∨ p = .token (.mark .rparen) ∨
          p = .phrase .functionBody := by
        simpa [Item.asks] using hp
      rcases hasks with rfl | rfl | rfl | rfl
      · obtain ⟨_, h, ht⟩ := hfit
        cases h
        simp [ht]
      · obtain ⟨_, _, _, h, -⟩ := formed_by_rule
          (show Formed d .params (.leaf t) from hfit) (fun _ => rfl) rfl fun _ _ => rfl
        cases h
      · obtain ⟨_, h, ht⟩ := hfit
        cases h
        simp [ht]
      · obtain ⟨_, _, _, h, -⟩ := formed_by_rule
          (show Formed d .functionBody (.leaf t) from hfit) (fun _ => rfl) rfl fun _ _ => rfl
        cases h
    refine .inr (List.findSome?_eq_none_iff.mpr fun piece hpiece => ?_)
    rw [piecesOf_eq_map] at hpiece
    obtain ⟨y, hy, rfl⟩ := List.mem_map.mp hpiece
    cases y with
    | node r ps => rfl
    | leaf t =>
      have ht : t.kind ≠ .name := by
        rcases List.mem_cons.mp hy with hy | hy
        · cases hy
          simp [hk]
        · exact hother t hy
      simp [ht]

section Functions

variable {text : List Char} {e : Extent} {params body : List Sketch} {name : Sketch}

theorem standing_params {here : Extent} (hbody : ∀ c ∈ body, c.kind ≠ .paramList) :
    standing (fresh .paramList "" here params :: body) = params ++ body := by
  have hrest : standing body = body := standing_eq hbody
  unfold standing at hrest ⊢
  rw [List.flatMap_cons, hrest]
  rfl

theorem standing_function {here : Extent} (hname : name.kind = .name)
    (hbody : ∀ c ∈ body, c.kind ≠ .paramList) :
    standing (name :: fresh .paramList "" here params :: body) = name :: (params ++ body) := by
  have hne : name.kind ≠ .paramList := by simp [hname]
  have hrest : standing (fresh .paramList "" here params :: body) = params ++ body :=
    standing_params hbody
  unfold standing at hrest ⊢
  rw [List.flatMap_cons, if_neg hne, hrest]
  rfl

/-- A function stands where its parameters and its body do, and its name before them. -/
theorem Row.nested_function {word : String} {here : Extent}
    (h : Row text e.start e.stop (params ++ body)) (hlt : e.start < e.stop)
    (hstop : e.stop ≤ text.length) (hline : e.line = 1 + (text.take e.start).count '\n')
    (hname : name.kind = .name) (hnested : name.Nested text)
    (hwithin : e.start ≤ name.extent.start ∧ name.extent.stop ≤ e.stop)
    (hbefore : ∀ c ∈ params ++ body, name.extent.stop ≤ c.extent.start)
    (hsolid : name.extent.start < name.extent.stop ∨ word = "" ∧ name.text = "") :
    (fresh .function word e (name :: fresh .paramList "" here params :: body)).Nested text := by
  have hstanding : standing (fresh .function word e
      (name :: fresh .paramList "" here params :: body)).children = name :: (params ++ body) :=
    standing_function hname fun c hc => h.ne_paramList c (List.mem_append_right _ hc)
  have hrest : standing (fresh .paramList "" here params :: body) = params ++ body :=
    standing_params fun c hc => h.ne_paramList c (List.mem_append_right _ hc)
  refine nested_of_children (fun _ => ?_) ?_
  · refine ⟨hlt.le, hstop, hline, ?_, ?_, ?_⟩
    · rw [hstanding]
      exact List.forall_mem_cons.mpr ⟨hwithin, h.within⟩
    · rw [hstanding]
      exact List.pairwise_cons.mpr ⟨hbefore, h.apart⟩
    · rcases hsolid with hsolid | ⟨rfl, hempty⟩
      · rw [hstanding]
        exact .inl (List.forall_mem_cons.mpr ⟨hsolid, h.solid⟩)
      · exact .inr ⟨rfl, rfl, name, _, rfl, hname, hempty, hrest ▸ h.solid⟩
  · have hlist : (fresh .paramList "" here params).Nested text :=
      nested_of_children (fun hne => absurd rfl hne) fun c hc =>
        h.nested c (List.mem_append_left _ hc)
    exact List.forall_mem_cons.mpr ⟨hnested, List.forall_mem_cons.mpr
      ⟨hlist, fun c hc => h.nested c (List.mem_append_right _ hc)⟩⟩

/-- The function that a phrase makes stands where the phrase does. -/
theorem nested_function {x : Tree} {parts : List Tree}
    (hrow : ∀ {cs : List Sketch}, Strung cs parts → Row text x.extent.start x.extent.stop cs)
    (hparams : ParamsFirst parts) (hname : NameSecond parts)
    (hlt : x.extent.start < x.extent.stop) (hstop : x.extent.stop ≤ text.length)
    (hline : x.extent.line = 1 + (text.take x.extent.start).count '\n') :
    (function x (piecesOf parts)).Nested text := by
  have hparts := hrow (strung_functionParts hparams)
  rw [function_eq]
  rcases hname with ⟨k, t, rest, rfl, ht, hfound⟩ | hfound
  · -- the name is a token of its own, before the parameters
    have hfirst : functionNameNode x (some t) = ofTree (.leaf t) := by
      rw [ofTree_leaf, ofToken, ht]
      rfl
    have hrest : functionParts (piecesOf (.leaf k :: .leaf t :: rest))
        = functionParts (piecesOf rest) := by
      rw [piecesOf, functionParts_leaf rfl, piecesOf, functionParts_leaf rfl]
    have hall : Row text x.extent.start x.extent.stop (ofTree (.leaf t) ::
        ((functionParts (piecesOf rest)).1 ++ (functionParts (piecesOf rest)).2)) :=
      hrow (.skip (.own (strung_functionParts
        (List.pairwise_cons.mp (List.pairwise_cons.mp hparams).2).2)))
    rw [hfound, hfirst, hrest]
    rw [hrest] at hparts
    refine hparts.nested_function hlt hstop hline ?_ (hall.nested _ (.head _))
      (hall.within _ (.head _)) (List.pairwise_cons.mp hall.apart).1 (.inl (hall.solid _ (.head _)))
    rw [← hfirst]
    rfl
  · -- an empty name where the function begins
    rw [hfound]
    refine hparts.nested_function hlt hstop hline rfl ?_ ⟨le_refl _, hlt.le⟩
      (fun c hc => (hparts.within c hc).1) (.inr ⟨rfl, rfl⟩)
    exact Row.nil.nested_fresh (le_refl _) (hlt.le.trans hstop) hline

end Functions

/-! ### Phrases that the grammar forms -/

theorem sortOf_ne_paramList (r : Rule) : sortOf r ≠ .paramList := by
  cases r <;> simp [sortOf]

/-- The node of a rule stands where the phrase does. -/
theorem row_ofRule {text : List Char} {x : Tree} {r : Rule} {parts : List Tree}
    (hrow : ∀ {cs : List Sketch}, Strung cs parts → Row text x.extent.start x.extent.stop cs)
    (hheld : ∀ y ∈ parts, Row text x.extent.start x.extent.stop [ofTree y])
    (hfunction : r = .functionDeclaration ∨ r = .functionExpression →
      ParamsFirst parts ∧ NameSecond parts)
    (hlt : x.extent.start < x.extent.stop) (hstop : x.extent.stop ≤ text.length)
    (hline : x.extent.line = 1 + (text.take x.extent.start).count '\n') :
    Row text x.extent.start x.extent.stop [ofRule x r (piecesOf parts)] := by
  have hsingle {s : Sketch} (hnested : s.Nested text) (hkind : s.kind ≠ .paramList)
      (hextent : s.extent = x.extent) : Row text x.extent.start x.extent.stop [s] := by
    refine row_singleton hnested hkind ?_ ?_ <;> rw [hextent]
    · exact hlt
    · exact ⟨le_refl _, le_refl _⟩
  have hmade := madeBy_ofRule x r parts
  generalize ofRule x r (piecesOf parts) = s at hmade
  cases hmade with
  | node hkind hstrung =>
    refine hsingle ((hrow hstrung).nested_fresh hlt.le hstop hline) ?_ rfl
    rcases hkind with rfl | rfl
    · exact sortOf_ne_paramList r
    · exact fun h => nomatch h
  | held _ hy => exact hheld _ hy
  | function hr =>
    obtain ⟨hparams, hname⟩ := hfunction hr
    exact hsingle (nested_function hrow hparams hname hlt hstop hline) (fun h => nomatch h) rfl

theorem Row.document {text : List Char} {a b : Nat} {s : Sketch} (h : Row text a b [s])
    (d : DocComment) : Row text a b [s.document d] := by
  have hs := List.mem_singleton_self s
  refine row_singleton ((h.nested s hs).document d) ?_ ?_ ?_
  · rw [kind_document]
    exact h.ne_paramList s hs
  · rw [extent_document]
    exact h.solid s hs
  · rw [extent_document]
    exact h.within s hs

/-- A token stands in the text by itself. -/
theorem held_leaf {text : List Char} {t : Token} (hlaid : Laid text (Tree.leaf t).tokens) :
    Held text (.leaf t) := by
  obtain ⟨hlt, hstop, hline, -⟩ := hlaid.extent (List.cons_ne_nil t [])
  refine ⟨?_, .nil⟩
  obtain ⟨kind, word, heq, hkind⟩ : ∃ kind word,
      ofTree (.leaf t) = fresh kind word (Tree.leaf t).extent [] ∧ kind ≠ .paramList := by
    rw [ofTree_leaf, ofToken]
    cases t.kind <;> exact ⟨_, _, rfl, by simp⟩
  rw [heq]
  exact row_singleton (Row.nil.nested_fresh hlt.le hstop hline) hkind hlt ⟨le_refl _, le_refl _⟩

/-- What the grammar forms stands in a text where its tokens do. -/
theorem held_of_formed {text : List Char} {depth : Nat} {c : Category} {x : Tree}
    (h : Formed depth c x) (hlaid : Laid text x.tokens) : Held text x := by
  induction x using Tree.induction_on generalizing depth c with
  | leaf t => exact held_leaf hlaid
  | node r parts ih =>
    obtain ⟨hparts, hparams⟩ := parts_of_formed h
    have hlaid' : Laid text (Tree.tokensOfAll parts) := hlaid
    have hne : ∀ y ∈ parts, y.tokens ≠ [] := by
      intro y hy
      rcases hparts y hy with ⟨t, rfl⟩ | ⟨d, c', hy'⟩
      · exact List.cons_ne_nil t []
      · exact Formable.tokens_ne_nil ⟨d, hy'⟩
    have hheld : ∀ y ∈ parts, Held text y := by
      intro y hy
      have hy' := hlaid'.sublist (Tree.tokens_sublist hy)
      rcases hparts y hy with ⟨t, rfl⟩ | ⟨d, c', hformed⟩
      · exact held_leaf hy'
      · exact ih y hy hformed hy'
    obtain ⟨hlt, hstop, hline, hbetween⟩ := hlaid.extent (Formable.tokens_ne_nil ⟨depth, h⟩)
    -- children that are made from the parts in their order stand in a row within the whole
    have hrow {cs : List Sketch} (hcs : Strung cs parts) :
        Row text (Script.Tree.node r parts).extent.start
          (Script.Tree.node r parts).extent.stop cs :=
      hcs.row hheld hlaid' hne hbetween
    have hpart : ∀ y ∈ parts, Row text (Script.Tree.node r parts).extent.start
        (Script.Tree.node r parts).extent.stop [ofTree y] := by
      intro y hy
      obtain ⟨t, ht, u, hu, hstart, hend⟩ := Tree.exists_extent (hne y hy)
      have hmem {v : Token} (hv : v ∈ y.tokens) : v ∈ (Script.Tree.node r parts).tokens :=
        (Tree.tokens_sublist hy).subset hv
      exact (hheld y hy).own.widen (hstart ▸ (hbetween t (hmem ht)).1)
        (hend ▸ (hbetween u (hmem hu)).2)
    have hfunction (hr : r = .functionDeclaration ∨ r = .functionExpression) :
        ParamsFirst parts ∧ NameSecond parts := by
      refine ⟨hparams hr, ?_⟩
      rcases formed_parts h with ⟨-, d, hitems⟩ | ⟨hext, -⟩
      · exact nameSecond_of_fits hr hitems
      · rcases hr with rfl | rfl <;> exact absurd hext (by decide)
    have hrule := row_ofRule hrow hpart hfunction hlt hstop hline
    refine ⟨?_, hrow (strung_ownOf parts)⟩
    rw [ofTree]
    rcases documented_eq (.node r parts) r (piecesOf parts) with heq | ⟨d, -, heq⟩
    · rwa [heq]
    · rw [heq]
      exact hrule.document d

/-- The sketch of a script that can be read stands in its text. -/
theorem nested_scriptSketch {text : String} {statements : List Tree} (path : String)
    (h : Script.read text = .ok statements) :
    (Program.scriptSketch path text.length statements).Nested text.toList := by
  have hlaid := laid_of_read h
  have hformed := Program.mem_statements (Program.statementsStand_of_read h).1
  have hrow : Row text.toList 0 text.length (ofTrees statements) := by
    refine (strung_ownOf statements).row (fun x hx => ?_) hlaid (fun x hx => ?_) fun t ht =>
      ⟨Nat.zero_le _, ?_⟩
    · obtain ⟨depth, hx'⟩ := hformed x hx
      exact held_of_formed hx' (hlaid.sublist (Tree.tokens_sublist hx))
    · exact Formable.tokens_ne_nil (hformed x hx)
    · rw [← String.length_toList]
      exact (hlaid.bounds t ht).2
  exact hrow.nested_fresh (Nat.zero_le _) String.length_toList.ge rfl

end Sketch

/-! ## Nodes in a text -/

namespace Program

/-- What stands in the text below a node: its children, where the children of a list of
parameters stand for the list. -/
def standing (p : Program) (cs : List Handle) : List Handle :=
  cs.flatMap fun c => if p.kindOf? c = some .paramList then p.childrenOf c else [c]

/-- The node is the empty name of a function that has none. -/
def NamesNothing (p : Program) (n : Handle) : Prop :=
  p.kindOf? n = some .name ∧ p.textOf? n = some "" ∧ ∃ fn, p.kindOf? fn = some .function ∧
    p.textOf? fn = some "" ∧ (p.childrenOf fn).head? = some n

/-- A node stands in a text, and what stands below it stands within it, in order. -/
structure StandsIn (p : Program) (text : String) (n : Handle) (node : Node) : Prop where
  start_le_stop : node.start ≤ node.stop
  stop_le_length : node.stop ≤ text.length
  start_lt_stop : node.start < node.stop ∨ p.NamesNothing n ∨ node.kind = .script ∧ text = ""
  line : node.line = 1 + (text.toList.take node.start).count '\n'
  within : ∀ c ∈ p.standing (p.childrenOf n), ∀ child, p.nodes[c]? = some child →
    node.start ≤ child.start ∧ child.stop ≤ node.stop
  apart : (p.standing (p.childrenOf n)).Pairwise fun c d => ∀ child next,
    p.nodes[c]? = some child → p.nodes[d]? = some next → child.stop ≤ next.start

section

variable {p : Program}

theorem standing_cons (c : Handle) (cs : List Handle) : p.standing (c :: cs)
    = (if p.kindOf? c = some .paramList then p.childrenOf c else [c]) ++ p.standing cs :=
  List.flatMap_cons

/-- What stands below a node shows what stands below its sketch. -/
theorem showAll_standing {cs : List Handle} {ss : List Sketch} (h : List.Forall₂ p.Shows cs ss) :
    List.Forall₂ p.Shows (p.standing cs) (Sketch.standing ss) := by
  refine List.rel_flatMap h fun c s hs => ?_
  have hkind : p.kindOf? c = some .paramList ↔ s.kind = .paramList := by
    rw [hs.kindOf?, Option.some.injEq]
  by_cases hk : s.kind = .paramList
  · rw [if_pos hk, if_pos (hkind.mpr hk)]
    exact hs.childrenOf
  · rw [if_neg hk, if_neg (mt hkind.mp hk)]
    exact .cons hs .nil

theorem Shows.place {n : Handle} {s : Sketch} (h : p.Shows n s) {node : Node}
    (hnode : p.nodes[n]? = some node) : node.start = s.extent.start ∧
      node.stop = s.extent.stop ∧ node.line = s.extent.line := by
  obtain ⟨node', hnode', -, -, -, hextent, -⟩ := shows_iff.mp h
  rw [hnode] at hnode'
  cases hnode'
  rw [← hextent]
  exact ⟨rfl, rfl, rfl⟩

/-- What hangs below a script stands in the text below a node that is no list of parameters. -/
theorem Parsed.exists_standing (hp : p.Parsed) {script n : Handle}
    (hscript : p.parentOf script = some root) (hbelow : p.Below script n) (hne : n ≠ script)
    (hkind : p.kindOf? n ≠ some .paramList) : ∃ above, p.Below script above ∧
      p.kindOf? above ≠ some .paramList ∧ n ∈ p.standing (p.childrenOf above) := by
  have hroot : p.Below root script := Below.here.child hscript
  cases hbelow with
  | here => exact absurd rfl hne
  | @child m _ hm link =>
    have hmem : n ∈ p.childrenOf m := hp.forest.mem_children_iff.mpr link
    by_cases hlist : p.kindOf? m = some .paramList
    swap
    · exact ⟨m, hm, hlist, List.mem_flatMap.mpr ⟨n, hmem, by rw [if_neg hkind]; exact .head _⟩⟩
    cases hm with
    | here =>
      rw [hp.kindOf?_of_parent_root hscript] at hlist
      cases hlist
    | @child above _ habove link =>
      -- parameters are names or of no sort of their own
      have hmem' : m ∈ p.childrenOf above := hp.forest.mem_children_iff.mpr link
      have hnot : p.kindOf? above ≠ some .paramList := by
        intro h
        rcases hp.children_paramList (hroot.trans habove) h hmem' with ⟨hname, -⟩ | hother
        · rw [hlist] at hname
          cases hname
        · rw [hlist] at hother
          cases hother
      exact ⟨above, habove, hnot, List.mem_flatMap.mpr ⟨m, hmem', by rw [if_pos hlist]; exact hmem⟩⟩

/-- What stands below a seated node takes up some of the text, unless it is the empty name of a
function that has none. -/
theorem Shows.solid {above n : Handle} {s : Sketch} {text : List Char} (h : p.Shows above s)
    (hseated : s.Seated text) (hn : n ∈ p.standing (p.childrenOf above)) {node : Node}
    (hnode : p.nodes[n]? = some node) : node.start < node.stop ∨ p.NamesNothing n := by
  have hsolid {cs : List Handle} {ss : List Sketch} (hshows : List.Forall₂ p.Shows cs ss)
      (hss : ∀ s ∈ Sketch.standing ss, s.extent.start < s.extent.stop)
      (hn : n ∈ p.standing cs) : node.start < node.stop := by
    obtain ⟨t, ht, hshow⟩ := forall₂_exists_of_mem (showAll_standing hshows) hn
    obtain ⟨hstart, hstop, -⟩ := hshow.place hnode
    rw [hstart, hstop]
    exact hss t ht
  rcases hseated.solid with hall |
    ⟨hfunction, hanonymous, name, rest, hchildren, hname, hempty, hall⟩
  · exact .inl (hsolid h.childrenOf hall hn)
  · have hshows := h.childrenOf
    rw [hchildren] at hshows
    obtain ⟨c, cs, hc, hcs, hlist⟩ := List.forall₂_cons_right_iff.mp hshows
    have hckind : p.kindOf? c = some .name := hname ▸ hc.kindOf?
    rw [hlist, standing_cons, if_neg (by rw [hckind]; simp), List.singleton_append,
      List.mem_cons] at hn
    rcases hn with rfl | hn
    · refine .inr ⟨hckind, hempty ▸ hc.textOf?, above, hfunction ▸ h.kindOf?,
        hanonymous ▸ h.textOf?, ?_⟩
      rw [hlist]
      rfl
    · exact .inl (hsolid hcs hall hn)

end

/-- What hangs below the script of a source is seated in the text of the source, lists of
parameters apart. -/
theorem IsScriptOf.exists_seated {sources : List Source} {source : Source} {script n : Handle}
    (h : (ofSources sources).1.IsScriptOf sources source script)
    (hbelow : (ofSources sources).1.Below script n)
    (hkind : (ofSources sources).1.kindOf? n ≠ some .paramList) :
    ∃ s, (ofSources sources).1.Shows n s ∧ s.Seated source.text.toList := by
  obtain ⟨before, after, -, ⟨statements, hread⟩, -⟩ := id h
  obtain ⟨s, hs, hwithin⟩ :=
    (h.shows_statements hread).below (parsed_untyped sources).forest hbelow
  exact ⟨s, hs, Sketch.nested_scriptSketch source.path hread s hwithin
    fun hlist => hkind (by rw [hs.kindOf?, hlist])⟩

/-- The script of a source takes up the text of the source. -/
theorem IsScriptOf.start_lt_stop {sources : List Source} {source : Source} {script : Handle}
    (h : (ofSources sources).1.IsScriptOf sources source script) {node : Node}
    (hnode : (ofSources sources).1.nodes[script]? = some node) (hne : source.text ≠ "") :
    node.start < node.stop := by
  obtain ⟨before, after, -, ⟨statements, hread⟩, -⟩ := id h
  obtain ⟨hstart, hstop, -⟩ := (h.shows_statements hread).place hnode
  rw [hstart, hstop]
  exact Nat.pos_of_ne_zero fun hlength => hne (String.length_eq_zero_iff.mp hlength)

/-- In a program of sources every node but the root and the lists of parameters belongs to the
script of a source. It stands in the text of the source, and what stands below it stands within
it, in order. -/
theorem standsIn_ofSources (sources : List Source) {n : Handle} {node : Node}
    (hnode : (ofSources sources).1.nodes[n]? = some node) (hroot : n ≠ root)
    (hlist : node.kind ≠ .paramList) :
    ∃ source script, (ofSources sources).1.IsScriptOf sources source script ∧
      (ofSources sources).1.Below script n ∧
      (ofSources sources).1.StandsIn source.text n node := by
  have hparsed := parsed_untyped sources
  obtain ⟨source, script, hscript, hbelow⟩ :=
    exists_script (lt_size_iff.mpr ⟨node, hnode⟩) hroot
  have hparent : (ofSources sources).1.parentOf script = some root := by
    obtain ⟨before, after, -, -, hget⟩ := id hscript
    exact hparsed.forest.mem_children_iff.mp (List.mem_of_getElem? hget)
  have hkind : (ofSources sources).1.kindOf? n = some node.kind := by
    rw [kindOf?, hnode, Option.map_some]
  have hnot : (ofSources sources).1.kindOf? n ≠ some .paramList := by
    rw [hkind, Ne, Option.some.injEq]
    exact hlist
  obtain ⟨s, hs, hseated⟩ := hscript.exists_seated hbelow hnot
  have hstanding := showAll_standing hs.childrenOf
  obtain ⟨hstart, hstop, hline⟩ := hs.place hnode
  refine ⟨source, script, hscript, hbelow, ?_, ?_, ?_, ?_, ?_, ?_⟩
  · rw [hstart, hstop]
    exact hseated.start_le_stop
  · rw [hstop, ← String.length_toList]
    exact hseated.stop_le
  -- a node that takes no room is a script of an empty text, or stands solid below another one
  · by_cases hne : n = script
    · subst hne
      have hscriptKind := hparsed.kindOf?_of_parent_root hparent
      rw [hkind, Option.some.injEq] at hscriptKind
      by_cases hempty : source.text = ""
      · exact .inr (.inr ⟨hscriptKind, hempty⟩)
      · exact .inl (hscript.start_lt_stop hnode hempty)
    · obtain ⟨above, habove, hnotAbove, hmem⟩ := hparsed.exists_standing hparent hbelow hne hnot
      obtain ⟨t, ht, hseatedAbove⟩ := hscript.exists_seated habove hnotAbove
      exact (ht.solid hseatedAbove hmem hnode).imp_right .inl
  · rw [hline, hstart]
    exact hseated.line
  · intro c hc child hchild
    obtain ⟨t, ht, hshow⟩ := forall₂_exists_of_mem hstanding hc
    obtain ⟨hchildStart, hchildStop, -⟩ := hshow.place hchild
    rw [hstart, hstop, hchildStart, hchildStop]
    exact hseated.within t ht
  · refine pairwise_of_forall₂ hstanding.flip hseated.apart ?_
    intro t t' c c' hapart hc hc' child next hchild hnext
    obtain ⟨-, hend, -⟩ := hc.place hchild
    obtain ⟨hbegin, -, -⟩ := hc'.place hnext
    rw [hend, hbegin]
    exact hapart

/-- A function without a name, assigned on the second line of a script. -/
def functionScript : Source := ⟨"a.js", "(a).m =\n function(x) {};"⟩

/-- The function stands on the second line, with an empty name where it begins, its parameter and
its body within it. -/
theorem standsIn_functionScript :
    (ofSources [functionScript]).1.nodes[7]?
        = some ⟨.function, "", [5, 6, 4], some 8, none, none, 9, 23, 2⟩ ∧
      (7 : Handle) ≠ root ∧ NodeKind.function ≠ .paramList ∧
      (∃ source script, (ofSources [functionScript]).1.IsScriptOf [functionScript] source script ∧
        (ofSources [functionScript]).1.Below script 7 ∧
        (ofSources [functionScript]).1.StandsIn source.text 7
          ⟨.function, "", [5, 6, 4], some 8, none, none, 9, 23, 2⟩) ∧
      (ofSources [functionScript]).1.standing [5, 6, 4] = [5, 3, 4] := by
  have hnode : (ofSources [functionScript]).1.nodes[7]?
      = some ⟨.function, "", [5, 6, 4], some 8, none, none, 9, 23, 2⟩ := by decide +kernel
  exact ⟨hnode, by decide, by decide, standsIn_ofSources [functionScript] hnode (by decide)
    (by decide), by decide +kernel⟩

end Program

end SuperForward
