/-
  What is left of a text when statements are removed from it.

  The spans of statements that are taken out of the tree of a text can be removed from the text,
  in any order, and what is left is a text again whose tree is the pruned one; only the places
  of its tokens are others. So that no other statement gets documentation that stood before one
  that is removed, the text has to be settled: where such documentation is left over, the token
  after it has documentation of its own, or no statement begins with it.
-/
import SuperForward.Proofs.Program.Parsed
import SuperForward.Proofs.Script.Rereading
import SuperForward.Proofs.Text.Uniting

namespace SuperForward.Script

open SuperForward.Text (woven kept spansFrom Span removeSpans)

/-! ## Documentation of other statements -/

/-- Something that stands directly before the place is cut, but documentation before it is not. -/
def LeftOver (text : String) (spans : List Span) (place : Nat) : Prop :=
  ∃ u ∈ (scan text.toList).tokens, u.start < place ∧
    (∀ v ∈ (scan text.toList).tokens, u.start ≤ v.start → v.start < place →
      spans.any (·.covers v.start) = true) ∧
    ∃ c ∈ u.comments, DocComment.isDocComment c.text = true ∧
      spans.any (·.covers c.start) = false

/-- No statement that is kept gets documentation from before something that is cut: where some is
left over, the next token has documentation of its own, or no statement begins with it. -/
def Settled (text : String) (spans : List Span) : Prop :=
  ∀ t ∈ (scan text.toList).tokens, Category.statement.startsWith t.kind = true →
    spans.any (·.covers t.start) = false → LeftOver text spans t.start → t.doc?.isSome = true

instance (text : String) (spans : List Span) (place : Nat) :
    Decidable (LeftOver text spans place) :=
  inferInstanceAs (Decidable (∃ u ∈ (scan text.toList).tokens, u.start < place ∧
    (∀ v ∈ (scan text.toList).tokens, u.start ≤ v.start → v.start < place →
      spans.any (·.covers v.start) = true) ∧
    ∃ c ∈ u.comments, DocComment.isDocComment c.text = true ∧
      spans.any (·.covers c.start) = false))

instance (text : String) (spans : List Span) : Decidable (Settled text spans) :=
  inferInstanceAs (Decidable (∀ t ∈ (scan text.toList).tokens,
    Category.statement.startsWith t.kind = true → spans.any (·.covers t.start) = false →
      LeftOver text spans t.start → t.doc?.isSome = true))

theorem not_covers_of_lt {offset : Nat} {turns : List (List Char × List Char)} {place : Nat}
    (h : place < offset) : (spansFrom offset turns).any (·.covers place) = false := by
  rw [List.any_eq_false]
  intro s hs hcovers
  have := Text.start_of_mem_spansFrom hs
  have := Span.covers_iff.mp hcovers
  omega

/-- Documentation that is left over stays so while everything is cut. -/
theorem LeftOver.mono {text : String} {spans : List Span} {place place' : Nat}
    (h : LeftOver text spans place) (hle : place ≤ place')
    (hcut : ∀ v ∈ (scan text.toList).tokens, place ≤ v.start → v.start < place' →
      spans.any (·.covers v.start) = true) : LeftOver text spans place' := by
  obtain ⟨u, hu, hlt, hbetween, hcomment⟩ := h
  refine ⟨u, hu, hlt.trans_le hle, fun v hv hstart hlt' => ?_, hcomment⟩
  rcases Nat.lt_or_ge v.start place with h | h
  · exact hbetween v hv hstart h
  · exact hcut v hv h hlt'

/-- From this place on, the spans cover what is cut in the turns. -/
def CutsFrom (spans : List Span) (s : Spot) (turns : List (List Lexeme × List Lexeme)) : Prop :=
  ∀ place, s.offset ≤ place → spans.any (·.covers place)
    = (spansFrom s.offset (textTurns turns)).any (·.covers place)

section

variable {spans : List Span} {s : Spot} {a m : List Lexeme}
  {turns : List (List Lexeme × List Lexeme)} (h : CutsFrom spans s ((a, m) :: turns))
include h

theorem CutsFrom.any_eq {place : Nat} (hle : s.offset ≤ place) : spans.any (·.covers place)
    = (Span.covers ⟨(s.after a).offset, ((s.after a).after m).offset⟩ place ||
        (spansFrom ((s.after a).after m).offset (textTurns turns)).any (·.covers place)) := by
  rw [h place hle, textTurns_cons, spansFrom, List.any_cons, (s.after a).offset_after,
    s.offset_after]

theorem CutsFrom.kept {place : Nat} (hle : s.offset ≤ place) (hlt : place < (s.after a).offset) :
    spans.any (·.covers place) = false := by
  have hstop := (s.after a).offset_after m
  rw [h.any_eq hle, not_covers_of_lt (by omega), Bool.or_false, Bool.eq_false_iff, Ne,
    Span.covers_iff]
  simp only
  omega

theorem CutsFrom.cut {place : Nat} (hle : (s.after a).offset ≤ place)
    (hlt : place < ((s.after a).after m).offset) : spans.any (·.covers place) = true := by
  have hstart := s.offset_after a
  rw [h.any_eq (by omega), Bool.or_eq_true, Span.covers_iff]
  exact .inl ⟨hle, hlt⟩

theorem CutsFrom.rest : CutsFrom spans ((s.after a).after m) turns := by
  intro place hle
  have hstart := s.offset_after a
  have hstop := (s.after a).offset_after m
  have hnot : Span.covers ⟨(s.after a).offset, ((s.after a).after m).offset⟩ place = false := by
    rw [Bool.eq_false_iff, Ne, Span.covers_iff]
    simp only
    omega
  rw [h.any_eq (by omega), hnot, Bool.false_or]

end

/-- Nothing is pending after something that is cut. -/
theorem Cuttable.pending_eq {m : List Lexeme} (h : Cuttable m) (s : Spot) :
    (s.after m).pending = [] := by
  obtain ⟨m, rfl⟩ := List.getLast?_eq_some_iff.mp h.last
  rw [Spot.after_append]
  rfl

/-- The first token of something that is cut comes with the comments before it. -/
theorem Cuttable.exists_token {m : List Lexeme} (h : Cuttable m) (s : Spot) :
    ∃ u ∈ tokensFrom s m, ∀ c ∈ s.pending, c ∈ u.comments := by
  obtain ⟨u, us, hus⟩ : ∃ u us, tokensFrom s m = u :: us := by
    refine List.exists_cons_of_ne_nil ?_
    obtain ⟨m, rfl⟩ := List.getLast?_eq_some_iff.mp h.last
    rw [tokensFrom_append]
    exact List.append_ne_nil_of_right_ne_nil _ (List.cons_ne_nil _ _)
  obtain ⟨la, l, lb, rfl, hla, -, hu, -⟩ := @exists_lexeme _ _ [] _ _ hus
  obtain ⟨comments, hpending⟩ := exists_pending (s := s) (between_of_tokensFrom_eq_nil hla)
  refine ⟨u, by rw [hus]; exact List.mem_cons_self .., fun c hc => ?_⟩
  rw [hu, Spot.token, List.mem_reverse, hpending]
  exact List.mem_append_right _ hc

section

variable {text : String} {spans : List Span} {pre a : List Lexeme}

/-- The first token of what is kept is settled in a settled text. -/
theorem Settled.first (h : Settled text spans) {ms : List Lexeme}
    (hls : CutInto text.toList (pre ++ (a ++ ms)))
    (hkept : ∀ place, (Spot.origin.after pre).offset ≤ place →
      place < ((Spot.origin.after pre).after a).offset → spans.any (·.covers place) = false)
    (hleft : LeftOver text spans (Spot.origin.after pre).offset) :
    SettledFirst (tokensFrom (Spot.origin.after pre) a) := by
  intro t ht
  have hne := hls.ne_nil
  have hne' : ∀ l ∈ a, l.text ≠ [] := fun l hl =>
    hne l (List.mem_append_right _ (List.mem_append_left _ hl))
  have hmem := List.mem_of_mem_head? ht
  obtain ⟨hle, hlt, hstop⟩ := bounds_of_mem_tokensFrom hne' hmem
  have htokens : (scan text.toList).tokens = tokensFrom .origin (pre ++ (a ++ ms)) := by
    rw [hls.scan_eq]
  have ht' : t ∈ (scan text.toList).tokens := by
    rw [htokens, tokensFrom_append, tokensFrom_append]
    exact List.mem_append_right _ (List.mem_append_left _ hmem)
  -- no token stands between the place and this one
  have hleft' : LeftOver text spans t.start := hleft.mono hle fun v hv hv' hvt => by
    rw [htokens] at hv
    have hin := mem_tokensFrom_of_start hne hv hv' (by omega)
    obtain ⟨ts, hts⟩ := List.head?_eq_some_iff.mp ht
    have hpair := pairwise_tokensFrom hne' (Spot.origin.after pre)
    rw [hts] at hpair hin
    rcases List.mem_cons.mp hin with rfl | hin
    · omega
    · have := List.rel_of_pairwise_cons hpair hin
      omega
  cases hstarts : Category.statement.startsWith t.kind with
  | true => exact .inl (h t ht' hstarts (hkept _ hle (by omega)) hleft')
  | false => exact .inr rfl

/-- Documentation that is pending before something that is cut is left over after it. -/
theorem leftOver_of_pending {m ms : List Lexeme}
    (hls : CutInto text.toList (pre ++ (a ++ (m ++ ms))))
    (hpending : (Spot.origin.after pre).pending = []) (hm : Cuttable m)
    {turns : List (List Lexeme × List Lexeme)}
    (hspans : CutsFrom spans (Spot.origin.after pre) ((a, m) :: turns))
    (hdoc : lastDoc? ((Spot.origin.after pre).after a).pending ≠ none) :
    LeftOver text spans (((Spot.origin.after pre).after a).after m).offset := by
  have hne := hls.ne_nil
  obtain ⟨doc, hdoc⟩ := Option.ne_none_iff_exists'.mp hdoc
  obtain ⟨c, hc, hread⟩ := List.exists_of_findSome?_eq_some hdoc
  obtain ⟨u, hu, hcomments⟩ := hm.exists_token ((Spot.origin.after pre).after a)
  have hbounds := bounds_of_mem_tokensFrom (fun l hl => hne l
    (List.mem_append_right _ (List.mem_append_right _ (List.mem_append_left _ hl)))) hu
  have hcbounds := bounds_of_mem_pending (fun l hl => hne l
    (List.mem_append_right _ (List.mem_append_left _ hl))) hpending hc
  refine ⟨u, ?_, by omega, fun v hv hle hlt => hspans.cut (by omega) hlt, c, hcomments c hc,
    DocComment.read?_eq_some_iff.mp ⟨doc, hread⟩, hspans.kept hcbounds.1 hcbounds.2⟩
  rw [hls.scan_eq, tokensFrom_append, tokensFrom_append, tokensFrom_append]
  exact List.mem_append_right _ (List.mem_append_right _ (List.mem_append_left _ hu))

end

/-- Where a text is settled, so are the turns in which its lexemes are cut. -/
theorem Settled.turns {text : String} {spans : List Span} (h : Settled text spans)
    {turns : List (List Lexeme × List Lexeme)} {pre last : List Lexeme}
    (hls : CutInto text.toList (pre ++ woven turns last))
    (hpending : (Spot.origin.after pre).pending = []) (hcuttable : ∀ t ∈ turns, Cuttable t.2)
    (hspans : CutsFrom spans (Spot.origin.after pre) turns) {left : Prop}
    (hleft : left → LeftOver text spans (Spot.origin.after pre).offset) :
    SettledTurns (Spot.origin.after pre) left turns last := by
  induction turns generalizing pre left with
  | nil =>
    have hls' : CutInto text.toList (pre ++ (last ++ [])) := by
      rwa [List.append_nil]
    refine fun hl => h.first hls' (fun place hle _ => ?_) (hleft hl)
    rw [hspans place hle]
    rfl
  | cons turn turns ih =>
    obtain ⟨a, m⟩ := turn
    obtain ⟨hm, hcuttable⟩ := List.forall_mem_cons.mp hcuttable
    have hspot : Spot.origin.after (pre ++ (a ++ m))
        = ((Spot.origin.after pre).after a).after m := by
      rw [Spot.after_append, Spot.after_append]
    have hnone := hm.pending_eq ((Spot.origin.after pre).after a)
    refine ⟨fun hl => h.first hls (fun _ => hspans.kept) (hleft hl), by rw [hnone]; rfl, ?_⟩
    rw [← hspot]
    refine ih ?_ (hspot ▸ hnone) hcuttable (hspot ▸ hspans.rest) fun hl => ?_
    · simpa only [woven, List.append_assoc] using hls
    rw [hspot]
    rcases hl with ⟨hl, hnil⟩ | hdoc
    · have hstart := (Spot.origin.after pre).offset_after a
      have hstop := ((Spot.origin.after pre).after a).offset_after m
      refine (hleft hl).mono (by omega) fun v hv hle hlt => hspans.cut ?_ hlt
      -- there is no token in what is kept
      by_contra hlt'
      rw [hls.scan_eq] at hv
      have hin := mem_tokensFrom_of_start hls.ne_nil hv hle (by omega)
      rw [hnil] at hin
      exact List.not_mem_nil hin
    · exact leftOver_of_pending hls hpending hm hspans hdoc

/-! ## Removing spans -/

theorem mapM_grow {text : List Char} {spans : List Span}
    (h : ∀ s ∈ spans, s.start ≤ text.length) :
    spans.mapM (Span.grow text) = .ok (spans.map (Span.grown text)) := by
  induction spans with
  | nil => rfl
  | cons s spans ih =>
    rw [List.mapM_cons, Span.grow_eq (h s (List.mem_cons_self ..)),
      ih fun t ht => h t (List.mem_cons_of_mem _ ht)]
    rfl

theorem start_le_of_mem_spansFrom {offset : Nat} {turns : List (List Char × List Char)}
    {last : List Char} {s : Span} (h : s ∈ spansFrom offset turns) :
    s.start ≤ offset + (woven turns last).length := by
  induction turns generalizing offset with
  | nil => cases h
  | cons t turns ih =>
    obtain ⟨a, m⟩ := t
    rw [woven, List.length_append, List.length_append]
    rcases List.mem_cons.mp h with rfl | h
    · show offset + a.length ≤ _
      omega
    · have := ih h
      omega

/-- What is cut is not empty. -/
theorem Trimmed.ne_nil {front : List Char} {turns turns' : List (List Lexeme × List Lexeme)}
    {last last' : List Lexeme} (h : Trimmed front turns last turns' last')
    (hcut : ∀ t ∈ turns, Cuttable t.2) : ∀ t ∈ textTurns turns', t.2 ≠ [] := by
  induction h with
  | nil => exact fun t ht => absurd ht List.not_mem_nil
  | cons front back _ ih =>
    rw [textTurns_cons]
    refine List.forall_mem_cons.mpr ⟨?_, ih fun t ht => hcut t (List.mem_cons_of_mem _ ht)⟩
    obtain ⟨ls, hls⟩ := List.getLast?_eq_some_iff.mp (hcut _ (List.mem_cons_self ..)).last
    simp only at hls
    rw [hls]
    simp [textOf]

theorem Trimmed.length_eq {front : List Char} {turns turns' : List (List Lexeme × List Lexeme)}
    {last last' : List Lexeme} (h : Trimmed front turns last turns' last') :
    turns'.length = turns.length := by
  induction h with
  | nil => rfl
  | cons _ _ _ ih => rw [List.length_cons, List.length_cons, ih]

theorem length_tokenTurns (s : Spot) (turns : List (List Lexeme × List Lexeme)) :
    (tokenTurns s turns).length = turns.length := by
  induction turns generalizing s with
  | nil => rfl
  | cons t turns ih => rw [tokenTurns, List.length_cons, List.length_cons, ih]

/-- Statements that tokens are woven of can be removed from the text, and the tokens of what is
left are those that are kept. -/
theorem exists_excised {text : String} {ls : List Lexeme} (hls : CutInto text.toList ls)
    {cuts : List (List Token × List Token)} {rest : List Token}
    (htokens : tokensFrom .origin ls = woven cuts rest) (hcuts : ∀ t ∈ cuts, CutsStatement t)
    {spans : List Span} (hspans : spans.Perm (cuts.map fun t => cutSpan t.2))
    (hsettled : Settled text spans) :
    ∃ new : String, removeSpans text spans = .ok (new, cuts.length) ∧
      (scan new.toList).ending = .endOfText ∧
      List.Forall₂ Token.Akin (kept cuts rest) (scan new.toList).tokens := by
  have hspelled : ∀ t ∈ tokensFrom .origin ls, t.Spelled := fun t ht =>
    spelled_of_mem_scan (l := text.toList) (by rw [hls.scan_eq]; exact ht)
  -- the tokens are cut in turns, then their lexemes, then the lexemes with the layout that goes
  -- with them
  obtain ⟨turns, last, rfl, rfl, rfl, hcalm, hcuttable, hturns⟩ :=
    exists_turns htokens rfl hspelled hcuts
  have hcutsFrom : CutsFrom spans .origin turns := fun place _ => by
    rw [hturns]
    exact hspans.any_eq
  have hsettledTurns : SettledTurns .origin False turns last :=
    @Settled.turns _ _ hsettled _ [] _ hls rfl hcuttable hcutsFrom _ False.elim
  have htext := hls.flatten_eq
  rw [← htext] at hls
  obtain ⟨front, turns', last', htrimmed, hfront, hgrown, hclosed⟩ :=
    @exists_trimmed _ _ hcalm hcuttable [] (by simp) hls
  obtain rfl : front = [] := List.length_eq_zero_iff.mp hfront
  have hwoven : woven turns last = woven turns' last' := htrimmed.woven_eq
  obtain ⟨hnew, -⟩ := CutInto.kept hclosed (hwoven ▸ hls)
  refine ⟨String.ofList (textOf (kept turns' last')), ?_, ?_, ?_⟩
  · have hstart : ∀ s ∈ spans, s.start ≤ text.toList.length := by
      intro s hs
      have hmem := hspans.subset hs
      rw [← hturns] at hmem
      have hle := @start_le_of_mem_spansFrom _ _ (textOf last) _ hmem
      rwa [show woven (textTurns turns) (textOf last) = textOf (woven turns last) from
        (Text.flatMap_woven ..).symm, show textOf (woven turns last) = text.toList from htext,
        show Spot.origin.offset = 0 from rfl, Nat.zero_add] at hle
    have hperm : (spans.map (Span.grown text.toList)).Perm (spansFrom 0 (textTurns turns')) := by
      refine (hspans.map _).trans ?_
      rw [← hturns, ← htext]
      exact List.Perm.of_eq hgrown
    have hnewText : textOf (kept turns' last') = kept (textTurns turns') (textOf last') :=
      Text.flatMap_kept ..
    have hwhole : text.toList = woven (textTurns turns') (textOf last') := by
      rw [← htext, hwoven]
      exact Text.flatMap_woven ..
    rw [Text.removeSpans_eq (htrimmed.ne_nil hcuttable) hwhole (mapM_grow hstart) hperm, hnewText,
      length_tokenTurns, textTurns, Text.flatMapTurns, List.length_map, htrimmed.length_eq]
  · rw [String.toList_ofList, hnew.scan_eq]
  · rw [String.toList_ofList, hnew.scan_eq]
    obtain ⟨hturns', hlast⟩ := htrimmed.tokenTurns_eq .origin
    rw [hturns', hlast]
    exact kept_akin (.inl rfl) (htrimmed.settled hsettledTurns)

/-! ## Other tokens in a tree -/

section

variable {R : Token → Token → Prop}

/-- The tokens of trees can be exchanged for others. -/
theorem exists_relabeledAll {lists b : Bool} {xs : List Tree}
    (hxs : ∀ x ∈ xs, ∀ ts, List.Forall₂ R x.tokens ts → ∃ x', Prunes R x [] x' ∧ x'.tokens = ts)
    {ts : List Token} (h : List.Forall₂ R (Tree.tokensOfAll xs) ts) :
    ∃ xs', PrunesAll (Prunes R) lists b xs [] xs' ∧ Tree.tokensOfAll xs' = ts := by
  induction xs generalizing b ts with
  | nil =>
    cases h
    exact ⟨[], .nil _ _, rfl⟩
  | cons x xs ih =>
    obtain ⟨ts, ts', rfl, hts, hts'⟩ := forall₂_append_inv h
    obtain ⟨x', hx, rfl⟩ := hxs x (List.mem_cons_self ..) _ hts
    obtain ⟨xs', hxs, rfl⟩ := ih (fun y hy => hxs y (List.mem_cons_of_mem _ hy)) hts'
    exact ⟨x' :: xs', PrunesAll.keep_nil hx hxs, rfl⟩

theorem exists_relabeled (x : Tree) {ts : List Token} (h : List.Forall₂ R x.tokens ts) :
    ∃ x', Prunes R x [] x' ∧ x'.tokens = ts := by
  induction x using Tree.induction_on generalizing ts with
  | leaf t =>
    obtain ⟨t', _, ht, hnil, rfl⟩ := List.forall₂_cons_left_iff.mp h
    cases hnil
    exact ⟨.leaf t', .leaf ht, rfl⟩
  | node r parts ih =>
    obtain ⟨parts', hparts, htokens⟩ := @exists_relabeledAll _ r.lists false parts
      (fun x hx ts h => ih x hx h) _ h
    exact ⟨.node r parts', .node hparts, htokens⟩

end

/-! ## Reading what is left -/

/-- A text is read as some statements with other tokens, if its tokens are those. -/
theorem exists_read_of_tokens {R : Token → Token → Prop}
    (hkind : ∀ {t t'}, R t t' → t.kind = t'.kind) {ts : List Token} {statements : List Tree}
    (hstand : StatementsStand ts statements []) {new : String}
    (hnew : (scan new.toList).ending = .endOfText)
    (htokens : List.Forall₂ R (Tree.tokensOfAll statements) (scan new.toList).tokens) :
    ∃ statements', read new = .ok statements' ∧
      PrunesAll (Prunes R) true true statements [] statements' := by
  obtain ⟨statements', hrelabel, hall⟩ := @exists_relabeledAll _ true true statements
    (fun x _ ts h => exists_relabeled x h) _ htokens
  have hagain := hstand.again hkind hrelabel
  rw [hall] at hagain
  refine ⟨statements', ?_, hrelabel⟩
  unfold read statementsOf
  rw [readStatements_eq_done.mpr ⟨rfl, hagain⟩, hnew]

/-- Removing the spans of statements that are taken out of the tree of a text leaves a text with
the pruned tree. -/
theorem exists_read_excised {text : String} {statements gone left : List Tree}
    (hread : read text = .ok statements)
    (hprunes : PrunesAll (Prunes Eq) true true statements gone left)
    {spans : List Span} (hspans : spans.Perm (gone.map fun y => cutSpan y.tokens))
    (hsettled : Settled text spans) :
    ∃ new statements', removeSpans text spans = .ok (new, gone.length) ∧
      read new = .ok statements' ∧
      PrunesAll (Prunes Token.Akin) true true left [] statements' := by
  obtain ⟨hstand, hending⟩ := Program.statementsStand_of_read hread
  obtain ⟨ls, hls⟩ := exists_cutInto_iff.mpr hending
  have htokens := TakesRepeated.tokens_eq (fun h => Stands.tokens_eq h) hstand
  rw [List.append_nil, hls.scan_eq] at htokens
  obtain ⟨cuts, rest, hwoven, hkept, hcut, hcuts⟩ :=
    @Cuts.exists_turns _ _ _ _ (hprunes.cuts fun _ _ _ _ h => h.cuts) [] (by simp)
  rw [List.nil_append] at hwoven hkept
  have hperm : spans.Perm (cuts.map fun t => cutSpan t.2) := by
    have hmap : cuts.map (fun t => cutSpan t.2) = gone.map fun y => cutSpan y.tokens := by
      rw [show (fun t : List Token × List Token => cutSpan t.2) = cutSpan ∘ Prod.snd from rfl,
        ← List.map_map, hcut, List.map_map]
      rfl
    rwa [hmap]
  obtain ⟨new, hremove, hnew, hakin⟩ :=
    exists_excised hls (htokens.trans hwoven) hcuts hperm hsettled
  rw [← hkept] at hakin
  obtain ⟨statements', hread', hrelabel⟩ :=
    exists_read_of_tokens Token.Akin.kind (hstand.again (fun h => congrArg _ h) hprunes) hnew hakin
  refine ⟨new, statements', ?_, hread', hrelabel⟩
  rw [hremove, ← @List.length_map _ _ cuts Prod.snd, hcut, List.length_map]

end SuperForward.Script
