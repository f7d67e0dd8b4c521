/-
  What is left of a text when spans are removed from it, in whichever order they are given and
  however they overlap.

  Every span grows by indentation before it and by blanks and one line break after it, and what is
  left are the characters that lie in none of the spans that were grown to. The number of places
  at which something was cut is the number of their groups.
-/
import SuperForward.Proofs.Script.Excised
import SuperForward.Proofs.Text.Uniting

namespace SuperForward.Text

variable {text text' : List Char} {spans spans' : List Span} {offset : Nat}

/-! ## Characters outside of spans -/

/-- The characters of a text that begins at an offset, as far as their own offsets lie in none of
the spans. -/
def outsideFrom (offset : Nat) (text : List Char) (spans : List Span) : List Char :=
  ((text.zipIdx offset).filter fun e => !spans.any (·.covers e.2)).map Prod.fst

/-- The characters of a text whose offsets lie in none of the spans. -/
def outside (text : List Char) (spans : List Span) : List Char := outsideFrom 0 text spans

theorem outsideFrom_append : outsideFrom offset (text ++ text') spans
    = outsideFrom offset text spans ++ outsideFrom (offset + text.length) text' spans := by
  rw [outsideFrom, List.zipIdx_append, List.filter_append, List.map_append]
  rfl

/-- Only the offsets of the text matter. -/
theorem outsideFrom_congr (h : ∀ i, offset ≤ i → i < offset + text.length →
    spans.any (·.covers i) = spans'.any (·.covers i)) :
    outsideFrom offset text spans = outsideFrom offset text spans' := by
  unfold outsideFrom
  refine congrArg _ (List.filter_congr fun e he => ?_)
  obtain ⟨hle, hlt, -⟩ := List.mem_zipIdx he
  rw [h e.2 hle hlt]

theorem outsideFrom_nil : outsideFrom offset text [] = text := by
  simp [outsideFrom]

/-- Nothing is left of a text within a span. -/
theorem outsideFrom_of_within {s : Span} (hs : s ∈ spans) (hstart : s.start ≤ offset)
    (hstop : offset + text.length ≤ s.stop) : outsideFrom offset text spans = [] := by
  rw [outsideFrom, List.map_eq_nil_iff, List.filter_eq_nil_iff]
  intro e he
  obtain ⟨hle, hlt, -⟩ := List.mem_zipIdx he
  have hin : s.covers e.2 = true := Span.covers_iff.mpr ⟨by omega, by omega⟩
  have hany : spans.any (·.covers e.2) = true := List.any_eq_true.mpr ⟨s, hs, hin⟩
  simp [hany]

/-! ## Spans that stand apart -/

/-- A text is woven of what spans take up that stand apart, and of what is between them. -/
theorem exists_turns (hapart : spans.Pairwise fun s t => s.stop ≤ t.start)
    (hfits : ∀ s ∈ spans, offset ≤ s.start ∧ s.start < s.stop ∧ s.stop ≤ offset + text.length) :
    ∃ turns last, text = woven turns last ∧ spansFrom offset turns = spans ∧
      ∀ t ∈ turns, t.2 ≠ [] := by
  induction spans generalizing offset text with
  | nil => exact ⟨[], text, rfl, rfl, by simp⟩
  | cons s spans ih =>
    obtain ⟨hfirst, hrest⟩ := List.pairwise_cons.mp hapart
    obtain ⟨hle, hlt, hstop⟩ := hfits s (List.mem_cons_self ..)
    -- what is before the span, what it takes up, and what is after it
    obtain ⟨a, m, after, rfl, ha, hm⟩ : ∃ a m after, text = a ++ (m ++ after) ∧
        offset + a.length = s.start ∧ s.start + m.length = s.stop := by
      refine ⟨text.take (s.start - offset), (text.drop (s.start - offset)).take (s.stop - s.start),
        (text.drop (s.start - offset)).drop (s.stop - s.start), ?_, ?_, ?_⟩
      · rw [List.take_append_drop, List.take_append_drop]
      · rw [List.length_take]
        omega
      · rw [List.length_take, List.length_drop]
        omega
    have hlater : ∀ t ∈ spans, s.stop ≤ t.start ∧ t.start < t.stop ∧
        t.stop ≤ s.stop + after.length := by
      intro t ht
      obtain ⟨-, hlt', hstop'⟩ := hfits t (List.mem_cons_of_mem _ ht)
      rw [List.length_append, List.length_append] at hstop'
      exact ⟨hfirst t ht, hlt', by omega⟩
    obtain ⟨turns, last, rfl, hturns, hcut⟩ := ih hrest hlater
    refine ⟨(a, m) :: turns, last, rfl, ?_, List.forall_mem_cons.mpr ⟨?_, hcut⟩⟩
    · rw [spansFrom, ha, hm, hturns]
    · rintro rfl
      rw [List.length_nil] at hm
      omega

/-- The parts that are kept are what lies outside of the spans of those that are cut. -/
theorem outsideFrom_woven (turns : List (List Char × List Char)) (last : List Char)
    (offset : Nat) :
    outsideFrom offset (woven turns last) (spansFrom offset turns) = kept turns last := by
  induction turns generalizing offset with
  | nil => exact outsideFrom_nil
  | cons t turns ih =>
    obtain ⟨a, m⟩ := t
    have hlater : ∀ s ∈ spansFrom (offset + a.length + m.length) turns,
        offset + a.length + m.length ≤ s.start := fun s hs => start_of_mem_spansFrom hs
    rw [woven, kept, outsideFrom_append, outsideFrom_append]
    -- a turn is a part that is kept and one that is cut; the spans of later turns lie behind
    -- both
    have hbefore : outsideFrom offset a (spansFrom offset ((a, m) :: turns)) = a := by
      rw [@outsideFrom_congr _ _ [], outsideFrom_nil]
      intro i hi hia
      rw [List.any_nil, List.any_eq_false]
      intro s hs hin
      have hin := Span.covers_iff.mp hin
      rcases List.mem_cons.mp hs with rfl | hs
      · have hstart : offset + a.length ≤ i := hin.1
        omega
      · have := hlater s hs
        omega
    have hcut : outsideFrom (offset + a.length) m (spansFrom offset ((a, m) :: turns)) = [] :=
      outsideFrom_of_within (List.mem_cons_self ..) (Nat.le_refl _) (Nat.le_refl _)
    have hafter : outsideFrom (offset + a.length + m.length) (woven turns last)
        (spansFrom offset ((a, m) :: turns)) = kept turns last := by
      rw [← ih (offset + a.length + m.length)]
      refine outsideFrom_congr fun i hi _ => ?_
      have hnot : Span.covers ⟨offset + a.length, offset + a.length + m.length⟩ i = false := by
        rw [← Bool.not_eq_true, Span.covers_iff]
        intro hin
        have hstop : i < offset + a.length + m.length := hin.2
        omega
      rw [spansFrom, List.any_cons, hnot, Bool.false_or]
    rw [hbefore, hcut, hafter, List.nil_append]

/-- Cutting spans that stand apart leaves what lies outside of them. -/
theorem cutAll_eq_outside (hapart : spans.Pairwise fun s t => s.stop ≤ t.start)
    (hfits : ∀ s ∈ spans, s.start < s.stop ∧ s.stop ≤ text.length) :
    Span.cutAll text spans = outside text spans := by
  obtain ⟨turns, last, rfl, rfl, hcut⟩ := @exists_turns text spans 0 hapart fun s hs =>
    ⟨Nat.zero_le _, (hfits s hs).1, (Nat.zero_add text.length).symm ▸ (hfits s hs).2⟩
  rw [Span.cutAll_spansFrom hcut, outside, outsideFrom_woven]

/-! ## What spans grow by -/

namespace Span

/-- A span with what it grows by: indentation before it, and after it blanks and at most one line
break. -/
structure GrowsTo (text : List Char) (s g : Span) : Prop where
  start_le : g.start ≤ s.start
  le_stop : s.stop ≤ g.stop
  stop_le : g.stop ≤ text.length
  before : ∀ c ∈ (text.take s.start).drop g.start, isIndent c = true
  after : ∃ blanks lineBreak, (text.take g.stop).drop s.stop = blanks ++ lineBreak ∧
    (∀ c ∈ blanks, isIndent c = true) ∧ lineBreak ∈ [[], ['\n'], ['\r', '\n']]

/-- The characters by which spans grow. -/
def isLayout (c : Char) : Bool := isIndent c || c == '\r' || c == '\n'

/-- What a line ends with is blanks and one line break. -/
theorem exists_lineBreak (after : List Char) : ∃ blanks lineBreak rest,
    after = blanks ++ lineBreak ++ rest ∧
    (blanks ++ lineBreak).length = (breakLength after).getD 0 ∧
    (∀ c ∈ blanks, isIndent c = true) ∧ lineBreak ∈ [[], ['\n'], ['\r', '\n']] := by
  have hblanks : after.takeWhile isIndent ++ after.dropWhile isIndent = after :=
    List.takeWhile_append_dropWhile
  have hindent : ∀ c ∈ after.takeWhile isIndent, isIndent c = true :=
    fun c hc => List.all_eq_true.mp List.all_takeWhile c hc
  have hdrop : after.drop (after.takeWhile isIndent).length = after.dropWhile isIndent :=
    calc after.drop (after.takeWhile isIndent).length
        = (after.takeWhile isIndent ++ after.dropWhile isIndent).drop
          (after.takeWhile isIndent).length := by rw [hblanks]
      _ = after.dropWhile isIndent := List.drop_left
  unfold breakLength
  simp only [hdrop]
  split
  · next rest heq =>
    exact ⟨_, ['\r', '\n'], rest, by rw [heq] at hblanks; simp [hblanks], by simp, hindent, by simp⟩
  · next rest heq =>
    exact ⟨_, ['\n'], rest, by rw [heq] at hblanks; simp [hblanks], by simp, hindent, by simp⟩
  · exact ⟨[], [], after, rfl, rfl, by simp, by simp⟩

theorem growsTo_grown {s : Span} (hstart : s.start ≤ text.length) (hstop : s.stop ≤ text.length) :
    GrowsTo text s (grown text s) := by
  obtain ⟨front, back, hfront, hindent, hbegin⟩ := exists_indent [] (text.take s.start) (by simp)
  have hlength : (text.take s.start).length = s.start := by rw [List.length_take]; omega
  have hstartGrown : (grown text s).start = front.length := by
    rw [List.nil_append, hlength, List.length_nil, Nat.zero_add] at hbegin
    exact hbegin
  obtain ⟨blanks, lineBreak, rest, hafter, hbreak, hblanks, hkind⟩ :=
    exists_lineBreak (text.drop s.stop)
  have hstopGrown : (grown text s).stop = s.stop + (blanks ++ lineBreak).length := by
    rw [hbreak]
    rfl
  have hrest := congrArg List.length hafter
  rw [List.length_drop, List.length_append] at hrest
  refine ⟨?_, ?_, ?_, ?_, blanks, lineBreak, ?_, hblanks, hkind⟩
  · rw [hfront, List.length_append] at hlength
    omega
  · omega
  · omega
  · rw [hstartGrown, hfront, List.drop_left]
    exact hindent
  · rw [hstopGrown, List.drop_take, Nat.add_sub_cancel_left, hafter, List.take_left]

/-- A character that is no blank and no line break lies in a span if it lies in what the span
grows to. -/
theorem GrowsTo.covers_iff {s g : Span} (h : GrowsTo text s g) {i : Nat} {c : Char}
    (hc : text[i]? = some c) (hsolid : isLayout c = false) :
    g.covers i = true ↔ s.covers i = true := by
  have hno : isIndent c = false ∧ c ≠ '\r' ∧ c ≠ '\n' := by
    simpa [isLayout, and_assoc] using hsolid
  have := h.start_le
  have := h.le_stop
  rw [Span.covers_iff, Span.covers_iff]
  constructor
  · rintro ⟨hstart, hstop⟩
    constructor
    · by_contra hlt
      have hmem : c ∈ (text.take s.start).drop g.start := by
        refine List.mem_of_getElem? (i := i - g.start) ?_
        rw [List.getElem?_drop, Nat.add_sub_cancel' hstart, List.getElem?_take_of_lt (by omega), hc]
      rw [h.before c hmem] at hno
      exact absurd hno.1 (by simp)
    · by_contra hle
      have hmem : c ∈ (text.take g.stop).drop s.stop := by
        refine List.mem_of_getElem? (i := i - s.stop) ?_
        rw [List.getElem?_drop, Nat.add_sub_cancel' (by omega), List.getElem?_take_of_lt hstop, hc]
      obtain ⟨blanks, lineBreak, heq, hblanks, hkind⟩ := h.after
      rw [heq, List.mem_append] at hmem
      rcases hmem with hmem | hmem
      · rw [hblanks c hmem] at hno
        exact absurd hno.1 (by simp)
      · simp only [List.mem_cons, List.not_mem_nil, or_false] at hkind
        rcases hkind with rfl | rfl | rfl <;> simp_all
  · rintro ⟨hstart, hstop⟩
    exact ⟨by omega, by omega⟩

end Span

/-- Outside of spans and outside of what they grow to are the same characters, besides blanks and
line breaks. -/
theorem filter_outside {grown : List Span} (h : List.Forall₂ (Span.GrowsTo text) spans grown) :
    (outside text grown).filter (!Span.isLayout ·) = (outside text spans).filter (!Span.isLayout ·) := by
  have hany : ∀ i c, text[i]? = some c → Span.isLayout c = false →
      grown.any (·.covers i) = spans.any (·.covers i) := by
    intro i c hc hsolid
    induction h with
    | nil => rfl
    | cons hgrows _ ih =>
      rw [List.any_cons, List.any_cons, ih, Bool.eq_iff_iff.mpr (hgrows.covers_iff hc hsolid)]
  unfold outside outsideFrom
  rw [List.filter_map, List.filter_map, List.filter_filter, List.filter_filter]
  refine congrArg _ (List.filter_congr fun e he => ?_)
  have hc : text[e.2]? = some e.1 := List.mem_zipIdx_iff_getElem?.mp he
  cases hsolid : Span.isLayout e.1 with
  | false => rw [hany e.2 e.1 hc hsolid]
  | true => simp [hsolid]

/-! ## Removing spans -/

theorem removeSpans_of_grown {source : String} {grown : List Span}
    (hgrow : spans.mapM (Span.grow source.toList) = .ok grown)
    (hfits : ∀ g ∈ grown, g.start < g.stop ∧ g.stop ≤ source.toList.length) :
    removeSpans source spans
      = .ok (String.ofList (outside source.toList grown), Nat.card (Span.Group grown)) := by
  have hunites := Span.unites_unite grown
  have hsolid : ∀ g ∈ grown, g.start < g.stop := fun g hg => (hfits g hg).1
  have hcut : Span.cutAll source.toList (Span.unite grown) = outside source.toList grown := by
    rw [cutAll_eq_outside hunites.apart]
    · exact outsideFrom_congr fun i _ _ => hunites.any_covers hsolid i
    · intro u hu
      have hlt := hunites.start_lt_stop hsolid hu
      -- the last offset of a united span lies in one of the spans
      have hlast : grown.any (·.covers (u.stop - 1)) = true := by
        rw [← hunites.any_covers hsolid, List.any_eq_true]
        exact ⟨u, hu, Span.covers_iff.mpr ⟨by omega, by omega⟩⟩
      obtain ⟨g, hg, hin⟩ := List.any_eq_true.mp hlast
      have := (hfits g hg).2
      have := (Span.covers_iff.mp hin).2
      exact ⟨hlt, by omega⟩
  unfold removeSpans
  rw [hgrow]
  show Except.ok _ = _
  rw [hcut, hunites.card_group hsolid]

/-- Where an offset of the text lies in a span, less than the text lies outside of the spans. -/
theorem length_outside_lt {i : Nat} (hi : i < text.length) (hcovers : spans.any (·.covers i) = true) :
    (outside text spans).length < text.length := by
  rw [outside, outsideFrom, List.length_map, ← @List.length_zipIdx _ text 0]
  refine lt_of_le_of_ne (List.length_filter_le ..) fun heq => ?_
  have hmem : (text[i], i) ∈ text.zipIdx := List.mem_zipIdx_iff_getElem?.mpr
    (List.getElem?_eq_getElem hi)
  have hkept := List.length_filter_eq_length_iff.mp heq _ hmem
  simp [hcovers] at hkept

/-- Removing spans with something in them makes a text shorter. -/
theorem exists_removeSpans_shorter {source : String} (hne : spans ≠ [])
    (hspans : ∀ s ∈ spans, s.start < s.stop ∧ s.stop ≤ source.length) :
    ∃ left count, removeSpans source spans = .ok (left, count) ∧ left.length < source.length := by
  simp only [← String.length_toList] at hspans ⊢
  have hstart : ∀ s ∈ spans, s.start ≤ source.toList.length := fun s hs =>
    Nat.le_trans (Nat.le_of_lt (hspans s hs).1) (hspans s hs).2
  have hgrown : ∀ s ∈ spans, Span.GrowsTo source.toList s (Span.grown source.toList s) :=
    fun s hs => Span.growsTo_grown (hstart s hs) (hspans s hs).2
  refine ⟨_, _, removeSpans_of_grown (Script.mapM_grow hstart) fun g hg => ?_, ?_⟩
  · obtain ⟨s, hs, rfl⟩ := List.mem_map.mp hg
    have := (hgrown s hs).start_le
    have := (hgrown s hs).le_stop
    have := (hspans s hs).1
    exact ⟨by omega, (hgrown s hs).stop_le⟩
  · obtain ⟨s, hs⟩ := List.exists_mem_of_ne_nil _ hne
    have := (hgrown s hs).start_le
    have := (hgrown s hs).le_stop
    have := hspans s hs
    rw [String.toList_ofList]
    refine length_outside_lt (i := s.start) (by omega) (List.any_eq_true.mpr
      ⟨_, List.mem_map_of_mem hs, Span.covers_iff.mpr ⟨by omega, by omega⟩⟩)

/-- Where nothing is cut, the text is left. -/
theorem eq_of_removeSpans_zero {source left : String}
    (h : removeSpans source spans = .ok (left, 0)) : left = source := by
  unfold removeSpans at h
  cases hgrown : spans.mapM (Span.grow source.toList) with
  | error e =>
    rw [hgrown] at h
    cases h
  | ok grown =>
    rw [hgrown] at h
    simp only [bind, Except.bind, pure, Except.pure, Except.ok.injEq, Prod.mk.injEq,
      List.length_eq_zero_iff] at h
    rw [← h.1, h.2]
    exact String.ofList_toList

/-- Whatever spans with something in them are removed from a text, and in whichever order, what
is left are the characters outside of what the spans grow to, and something was cut at as many
places as there are groups of it. Besides blanks and line breaks nothing is lost that lies
outside of the spans. -/
theorem exists_removeSpans_outside (source : String) (spans : List Span)
    (hspans : ∀ s ∈ spans, s.start < s.stop ∧ s.stop ≤ source.toList.length) :
    ∃ grown, spans.mapM (Span.grow source.toList) = .ok grown ∧
      List.Forall₂ (Span.GrowsTo source.toList) spans grown ∧
      (∀ spans', spans'.Perm spans → removeSpans source spans'
        = .ok (String.ofList (outside source.toList grown), Nat.card (Span.Group grown))) ∧
      (outside source.toList grown).filter (!Span.isLayout ·)
        = (outside source.toList spans).filter (!Span.isLayout ·) := by
  have hstart : ∀ s ∈ spans, s.start ≤ source.toList.length := fun s hs =>
    Nat.le_trans (Nat.le_of_lt (hspans s hs).1) (hspans s hs).2
  have hgrows : List.Forall₂ (Span.GrowsTo source.toList) spans
      (spans.map (Span.grown source.toList)) :=
    List.forall₂_map_right_iff.mpr (List.forall₂_same.mpr fun s hs =>
      Span.growsTo_grown (hstart s hs) (hspans s hs).2)
  refine ⟨_, Script.mapM_grow hstart, hgrows, fun spans' hperm => ?_, filter_outside hgrows⟩
  have hmem : ∀ g, g ∈ spans'.map (Span.grown source.toList)
      ↔ g ∈ spans.map (Span.grown source.toList) := fun g => (hperm.map _).mem_iff
  have hfits : ∀ g ∈ spans'.map (Span.grown source.toList),
      g.start < g.stop ∧ g.stop ≤ source.toList.length := by
    intro g hg
    obtain ⟨s, hs, rfl⟩ := List.mem_map.mp ((hmem g).mp hg)
    have hgrown := Span.growsTo_grown (hstart s hs) (hspans s hs).2
    have := hgrown.start_le
    have := hgrown.le_stop
    have := (hspans s hs).1
    exact ⟨by omega, hgrown.stop_le⟩
  rw [removeSpans_of_grown (Script.mapM_grow fun s hs => hstart s (hperm.mem_iff.mp hs)) hfits,
    Span.card_group_congr hmem]
  have houtside : outside source.toList (spans'.map (Span.grown source.toList))
      = outside source.toList (spans.map (Span.grown source.toList)) := by
    refine outsideFrom_congr fun i _ _ => ?_
    rw [Bool.eq_iff_iff, List.any_eq_true, List.any_eq_true]
    simp only [hmem]
  rw [houtside]

/-- Two spans that overlap and one on the next line can be removed in any order. -/
theorem removeSpans_of_perm_nested :
    (∀ s ∈ ([⟨11, 13⟩, ⟨2, 6⟩, ⟨4, 8⟩] : List Span),
      s.start < s.stop ∧ s.stop ≤ "  abcdef \r\nxyz;".toList.length) ∧
    ∀ spans', spans'.Perm [⟨11, 13⟩, ⟨2, 6⟩, ⟨4, 8⟩] →
      removeSpans "  abcdef \r\nxyz;" spans' = .ok ("z;", 2) := by
  have hspans : ∀ s ∈ ([⟨11, 13⟩, ⟨2, 6⟩, ⟨4, 8⟩] : List Span),
      s.start < s.stop ∧ s.stop ≤ "  abcdef \r\nxyz;".toList.length := by decide
  obtain ⟨grown, -, -, hremove, -⟩ := exists_removeSpans_outside _ _ hspans
  refine ⟨hspans, fun spans' hperm => (hremove spans' hperm).trans ?_⟩
  rw [← hremove _ (List.Perm.refl _)]
  decide

end SuperForward.Text
