/-
  The passage of a text that a statement takes up.

  A span that begins with no blank and ends with neither a blank nor a line break may be on one
  line with another such span, or next to it. However the lines are laid out, what the two grow
  to may touch but does not overlap, so that no two of them are united when they are cut.

  The part of a text that is cut with a statement begins with the documentation comment of the
  statement, if there is one. Nothing but blanks and plain comments stands between the two, and
  the part goes on to the semicolon that ends the statement. Whatever stands before the
  statement stands before its documentation, too.
-/
import SuperForward.Proofs.Program.Ordering
import SuperForward.Proofs.Script.Documentation
import SuperForward.Proofs.Script.Excised

namespace SuperForward.Text

namespace Span

/-- The span takes up a part of the text that begins with no blank and no line break, and ends
with none. -/
structure Solid (text : List Char) (s : Span) : Prop where
  start_lt : s.start < s.stop
  stop_le : s.stop ≤ text.length
  first : ∀ c ∈ (text.drop s.start).head?, isIndent c = false ∧ c ≠ '\r' ∧ c ≠ '\n'
  last : ∀ c ∈ (text.take s.stop).getLast?, isIndent c = false ∧ c ≠ '\n'

variable {text : List Char} {s t : Span}

/-- The indentation before an offset begins there or before. -/
theorem indentStart_le (before : List Char) {start : Nat} (h : before.length ≤ start) :
    indentStart before start ≤ start := by
  unfold indentStart
  have hlength := (List.dropWhile_suffix isIndent (l := before)).length_le
  split
  · exact Nat.zero_le _
  · next c rest heq =>
    rw [heq, List.length_cons] at hlength
    split <;> omega

theorem start_grown_le (text : List Char) (s : Span) : (grown text s).start ≤ s.start := by
  refine indentStart_le _ ?_
  rw [List.length_reverse, List.length_take]
  exact Nat.min_le_left ..

theorem le_stop_grown (text : List Char) (s : Span) : s.stop ≤ (grown text s).stop :=
  Nat.le_add_right ..

/-- Of two spans one after the other, the first does not grow into what the second grows to. -/
theorem Solid.stop_grown_le (hs : s.Solid text) (ht : t.Solid text) (h : s.stop ≤ t.start) :
    (grown text s).stop ≤ (grown text t).start := by
  -- what is before the gap, the gap, and what is after it
  obtain ⟨before, as, bs, rfl, hbefore, hgap⟩ : ∃ before as bs, text = before ++ (as ++ bs) ∧
      before.length = s.stop ∧ before.length + as.length = t.start := by
    have hstop := hs.stop_le
    have hstart := Nat.le_trans (Nat.le_of_lt ht.start_lt) ht.stop_le
    refine ⟨text.take s.stop, (text.drop s.stop).take (t.start - s.stop), text.drop t.start,
      ?_, ?_, ?_⟩
    · rw [show text.drop t.start = (text.drop s.stop).drop (t.start - s.stop) by
        rw [List.drop_drop, Nat.add_sub_cancel' h], List.take_append_drop, List.take_append_drop]
    · rw [List.length_take]
      omega
    · simp only [List.length_take, List.length_drop]
      omega
  have htake : (before ++ (as ++ bs)).take t.start = before ++ as := by
    rw [← hgap, ← List.append_assoc, ← List.length_append, List.take_left]
  have hdrop : (before ++ (as ++ bs)).drop t.start = bs := by
    rw [← hgap, ← List.append_assoc, ← List.length_append, List.drop_left]
  have hfirst := ht.first
  have hlast := hs.last
  rw [hdrop] at hfirst
  rw [← hbefore, List.take_left] at hlast
  obtain ⟨front, rest, hfront, hbreak, -, hfrontEnd⟩ := exists_break as bs hfirst
  obtain ⟨rest', back, hback, hindented, hindent⟩ := exists_indent before as hlast
  have hstop : (grown (before ++ (as ++ bs)) s).stop = before.length + front.length := by
    rw [grown, hbreak, ← hbefore, List.drop_left]
  have hstart : (grown (before ++ (as ++ bs)) t).start = before.length + rest'.length := by
    rw [grown, htake, ← hindent, List.length_append, hgap]
  -- the line break that ends the front is no part of the indentation at the back
  have hle : front.length ≤ rest'.length := by
    rcases hfrontEnd with rfl | hend
    · exact Nat.zero_le _
    rcases List.append_eq_append_iff.mp (hfront.symm.trans hback) with ⟨kept, rfl, -⟩ |
      ⟨extra, rfl, hextra⟩
    · simp
    rcases List.eq_nil_or_concat extra with rfl | ⟨extra, c, rfl⟩
    · simp
    · rw [List.concat_eq_append] at hextra hend
      rw [← List.append_assoc, List.getLast?_concat] at hend
      cases hend
      exact absurd (hindented '\n' (by rw [hextra]; simp)) (by decide)
  rw [hstop, hstart]
  exact Nat.add_le_add_left hle _

/-- Spans one after the other are cut at as many places as there are spans. -/
theorem length_unite {spans : List Span} (hsolid : ∀ s ∈ spans, s.Solid text)
    (hpair : spans.Pairwise fun s t => s.stop ≤ t.start) :
    (unite (spans.map (grown text))).length = spans.length := by
  have hgrown : (spans.map (grown text)).Pairwise fun s t => s.stop ≤ t.start :=
    List.pairwise_map.mpr (hpair.imp_of_mem fun hs ht h =>
      (hsolid _ hs).stop_grown_le (hsolid _ ht) h)
  have hsorted : (spans.map (grown text)).Pairwise fun s t =>
      decide (s.start ≤ t.start) = true ∧ decide (t.start ≤ s.start) = false := by
    refine List.pairwise_map.mpr (hpair.imp_of_mem fun {s t} hs ht h => ?_)
    have h₁ := start_grown_le text s
    have h₂ := le_stop_grown text s
    have h₃ := (hsolid s hs).stop_grown_le (hsolid t ht) h
    have h₄ := (hsolid s hs).start_lt
    exact ⟨decide_eq_true (by omega), decide_eq_false (by omega)⟩
  unfold unite
  rw [StableSort.sortBy_eq_of_perm (.refl _) hsorted]
  cases spans with
  | nil => rfl
  | cons s spans =>
    rw [List.map_cons] at hgrown ⊢
    show (uniteFrom _ _).length = _
    rw [uniteFrom_eq hgrown, List.length_cons, List.length_map, List.length_cons]

end Span

/-- Removing spans one after the other cuts the text at as many places as there are spans. -/
theorem exists_removeSpans_length {text : String} {spans : List Span}
    (hsolid : ∀ s ∈ spans, s.Solid text.toList)
    (hpair : spans.Pairwise fun s t => s.stop ≤ t.start) :
    ∃ left, removeSpans text spans = .ok (left, spans.length) := by
  have hgrow := @Script.mapM_grow text.toList spans fun s hs =>
    Nat.le_trans (Nat.le_of_lt (hsolid s hs).start_lt) (hsolid s hs).stop_le
  unfold removeSpans
  rw [hgrow]
  exact ⟨_, congrArg Except.ok (congrArg (Prod.mk _) (Span.length_unite hsolid hpair))⟩

end SuperForward.Text

namespace SuperForward

open SuperForward.Text (Span)

namespace Script

/-! ## Passages -/

/-- Blanks and comments that document nothing. -/
inductive Filler : List Char → Prop
  | nil : Filler []
  | blank {c : Char} {rest : List Char} (hc : isSeparator c = true) (h : Filler rest) :
      Filler (c :: rest)
  | comment {comment rest : List Char} (hcomment : commentLength comment = some comment.length)
      (hplain : DocComment.isDocComment (String.ofList comment) = false) (h : Filler rest) :
      Filler (comment ++ rest)

/-- The text before a statement is the comment at an offset that documents it, and what stands
between the two; nothing if the statement has no documentation. -/
def LeadsUp (doc : Option DocComment) (offset : Nat) (front : List Char) : Prop :=
  match doc with
  | none => front = []
  | some d => ∃ comment filler, front = comment ++ filler ∧
      commentLength comment = some comment.length ∧
      DocComment.read? (String.ofList comment) offset = some d ∧ Filler filler

/-- A part of a text. -/
def partOf (text : String) (s : Span) : List Char :=
  (text.toList.drop s.start).take (s.stop - s.start)

/-- The part of a text is a statement from its first token to the semicolon that ends it, with
its documentation before it. -/
structure Passage (text : String) (x : Tree) (doc : Option DocComment) (s : Span) : Prop where
  start_lt : s.start < s.stop
  stop_le : s.stop ≤ text.length
  parts : ∃ (first last : Token) (front body : List Char),
    x.firstToken? = some first ∧ x.lastToken? = some last ∧ last.kind = .mark .semicolon ∧
      s.start + front.length = first.start ∧ s.stop = last.stop ∧
      partOf text ⟨first.start, last.stop⟩ = body ++ [';'] ∧
      partOf text s = front ++ (body ++ [';']) ∧ LeadsUp doc s.start front

/-! ## Lexemes that lead up to a statement -/

/-- What separates in a text are blanks and plain comments. -/
theorem CutInto.filler {gap bs : List Lexeme} (hgap : ∀ l ∈ gap, l.IsGap) {cs : List Char}
    (h : CutInto cs (gap ++ bs)) : Filler (textOf gap) := by
  induction gap generalizing cs with
  | nil => exact .nil
  | cons l gap ih =>
    obtain ⟨hl, hrest⟩ := List.forall_mem_cons.mp hgap
    have hfiller := ih hrest h.tail
    rw [textOf, List.flatMap_cons]
    rcases hl with hblank | ⟨hcomment, hplain⟩
    · obtain ⟨c, hc, rfl⟩ := h.separator_of_blank hblank
      exact .blank hc hfiller
    · exact .comment (h.commentLength_eq hcomment) hplain hfiller

/-- The lexemes before a statement are those before its documentation, and those that lead up to
the statement. -/
theorem exists_leadsUp {la lb : List Lexeme} {cs : List Char} (hcut : CutInto cs (la ++ lb))
    {first : Token} {ts : List Token} {l : Lexeme}
    (hfirst : first = (Spot.origin.after la).token first.kind l) (hts : ts.head? = some first) :
    ∃ before front, la = before ++ front ∧ (∀ l ∈ front, l.IsBetween) ∧
      (textOf before).length = (cutSpan ts).start ∧
      LeadsUp first.doc? (cutSpan ts).start (textOf front) ∧
      ∀ l ∈ front.head?, l.kind ≠ .blank := by
  have hdoc : first.doc? = lastDoc? (Spot.origin.after la).pending := by
    rw [Token.doc?, hfirst, Spot.token]
    simp only [List.reverse_reverse]
  have hplace : first.start = (textOf la).length := by
    rw [hfirst, ← offset_after_origin]
    rfl
  have hstart : (cutSpan ts).start
      = first.doc?.elim first.start fun doc => min first.start doc.start := by
    rw [cutSpan, hts]
    simp only [Option.map_some, Option.getD_some]
    cases first.doc? <;> rfl
  rw [hstart]
  cases h : first.doc? with
  | none => exact ⟨la, [], by simp, by simp, hplace.symm, rfl, by simp⟩
  | some d =>
    rw [Option.elim_some]
    rw [hdoc] at h
    obtain ⟨before, c, gap, rfl, hc, hgap, hread⟩ := exists_documentation rfl h
    have hd : d.start = (textOf before).length :=
      (DocComment.start_of_read? hread).trans (offset_after_origin before)
    have hmin : min first.start d.start = (textOf before).length := by
      rw [hplace, hd, textOf_append, List.length_append]
      omega
    simp only [hmin]
    rw [List.append_assoc, List.cons_append] at hcut
    refine ⟨before, c :: gap, rfl, List.forall_mem_cons.mpr ⟨.inr hc, fun m hm =>
      (hgap m hm).between⟩, rfl, ⟨c.text, textOf gap, List.flatMap_cons,
      hcut.of_append.commentLength_eq hc, ?_, hcut.of_append.tail.filler hgap⟩, ?_⟩
    · rw [← offset_after_origin]
      exact hread
    · rintro m ⟨⟩
      rw [hc]
      simp

/-! ## Statements in a text -/

namespace Tree

theorem tokens_infix {x : Tree} {xs : List Tree} (h : x ∈ xs) : x.tokens <:+: tokensOfAll xs := by
  induction xs with
  | nil => exact absurd h List.not_mem_nil
  | cons y ys ih =>
    rcases List.mem_cons.mp h with rfl | h
    · exact (List.prefix_append ..).isInfix
    · exact (ih h).trans (List.suffix_append ..).isInfix

theorem Inside.tokens_infix {x y : Tree} (h : y.Inside x) : y.tokens <:+: x.tokens := by
  induction h with
  | here => exact List.infix_refl _
  | part hx _ ih => exact ih.trans (Tree.tokens_infix hx)

end Tree

theorem partOf_eq {text : String} {before part after : List Char}
    (h : text.toList = before ++ (part ++ after)) {s : Span} (hstart : s.start = before.length)
    (hstop : s.stop = before.length + part.length) : partOf text s = part := by
  unfold partOf
  rw [h, hstart, hstop, List.drop_left, Nat.add_sub_cancel_left, List.take_left]

/-- How the lexemes of a text stand around a statement with the given tokens: those before it,
those that lead up to it, and its own. -/
structure Around (text : String) (ts : List Token) (first last : Token)
    (before front body after : List Lexeme) : Prop where
  cut : CutInto text.toList (before ++ (front ++ (body ++ after)))
  between : ∀ l ∈ front, l.IsBetween
  cuttable : Cuttable (front ++ body)
  start_eq : (cutSpan ts).start = (textOf before).length
  first_eq : first.start = (textOf before).length + (textOf front).length
  last_eq : last.stop = first.start + (textOf body).length
  leads : LeadsUp first.doc? (cutSpan ts).start (textOf front)

/-- The tokens of a statement are lexemes, and the lexemes before them lead up to it or come
before its documentation. -/
theorem exists_around {text : String} {ls : List Lexeme} (hls : CutInto text.toList ls)
    {as ts bs : List Token} (htokens : tokensFrom .origin ls = as ++ (ts ++ bs)) {first last : Token}
    (hfirst : ts.head? = some first) (hlast : ts.getLast? = some last)
    (hsemicolon : last.kind = .mark .semicolon) :
    ∃ before front body after, Around text ts first last before front body after := by
  obtain ⟨ts', rfl⟩ := List.head?_eq_some_iff.mp hfirst
  have hspelled : ∀ t ∈ tokensFrom .origin ls, t.Spelled := fun t ht =>
    spelled_of_mem_scan (l := text.toList) (by rw [hls.scan_eq]; exact ht)
  obtain ⟨la, l, lb, rfl, -, hl, hplace, hlb⟩ := exists_lexeme htokens
  have hstatement : tokensFrom (Spot.origin.after la) (l :: lb) = first :: ts' ++ bs := by
    rw [tokensFrom, hl, hlb]
    exact congrArg (· :: _) hplace.symm
  obtain ⟨body, after, hbody, -, -, hend, -, hstop⟩ := exists_ending hstatement
    (fun t ht => hspelled t (by rw [tokensFrom_append]; exact List.mem_append_right _ ht))
    hlast hsemicolon
  obtain ⟨before, front, rfl, hbetween, hbefore, hleads, hblank⟩ :=
    exists_leadsUp hls hplace hfirst
  have hstart : first.start = (textOf (before ++ front)).length := by
    rw [← offset_after_origin, hplace]
    rfl
  rw [hbody, List.append_assoc] at hls
  refine ⟨before, front, body, after, hls, hbetween, ⟨?_, ?_⟩, hbefore.symm, ?_, ?_, hleads⟩
  -- without anything that leads up to it, the passage begins with the first token
  · cases front with
    | cons => exact hblank
    | nil =>
      obtain ⟨rest, rfl⟩ : ∃ rest, body = l :: rest := by
        cases body with
        | nil => cases hend
        | cons => cases hbody; exact ⟨_, rfl⟩
      rintro _ ⟨⟩
      rw [hl]
      simp
  · rw [List.getLast?_append, hend]
    rfl
  · rw [hstart, textOf_append, List.length_append]
  · rw [← hstop, hstart, ← offset_after_origin]
    exact Spot.offset_after ..

namespace Around

variable {text : String} {ts : List Token} {first last : Token}
  {before front body after : List Lexeme} (h : Around text ts first last before front body after)
include h

theorem text_eq :
    text.toList = textOf before ++ (textOf (front ++ body) ++ textOf after) := by
  rw [← h.cut.flatten_eq]
  show textOf _ = _
  simp only [textOf_append, List.append_assoc]

/-- The own lexemes of the statement end with its semicolon. -/
theorem exists_body : ∃ cs, textOf body = cs ++ [';'] := by
  have hlast := h.cuttable.last
  rw [List.getLast?_append] at hlast
  cases hbody : body.getLast? with
  | some l =>
    rw [hbody] at hlast
    cases hlast
    obtain ⟨ls, rfl⟩ := List.getLast?_eq_some_iff.mp hbody
    exact ⟨textOf ls, textOf_append ..⟩
  | none =>
    -- the semicolon would be a blank or a comment
    rw [hbody] at hlast
    rcases h.between _ (List.mem_of_getLast? hlast) with hkind | hkind <;> cases hkind

/-- Tokens that end before the statement begins end before what leads up to it. -/
theorem stop_le_of_mem {u : Token} (hu : u ∈ (scan text.toList).tokens)
    (hle : u.stop ≤ first.start) : u.stop ≤ (cutSpan ts).start := by
  have hne := h.cut.ne_nil
  rw [h.cut.scan_eq] at hu
  rcases List.mem_append.mp (tokensFrom_append .. ▸ hu) with hu | hu
  · have hbounds := (bounds_of_mem_tokensFrom
      (fun l hl => hne l (List.mem_append_left _ hl)) hu).2.2
    rw [offset_after_origin] at hbounds
    rw [h.start_eq]
    exact hbounds
  · rw [tokensFrom_append, tokensFrom_eq_nil h.between, List.nil_append, ← Spot.after_append] at hu
    have hbounds := bounds_of_mem_tokensFrom
      (fun l hl => hne l (List.mem_append_right _ (List.mem_append_right _ hl))) hu
    rw [offset_after_origin, textOf_append, List.length_append, ← h.first_eq] at hbounds
    omega

theorem solid (hlast : (cutSpan ts).stop = last.stop) : (cutSpan ts).Solid text.toList := by
  obtain ⟨cs, hcs⟩ := h.exists_body
  have hlength : (textOf body).length = cs.length + 1 := by rw [hcs, List.length_append]; rfl
  have htext := h.text_eq
  have hstart := h.start_eq
  have hfirst := h.first_eq
  have hstop := h.last_eq
  have hwhole : (textOf before ++ textOf (front ++ body)).length = (cutSpan ts).stop := by
    simp only [textOf_append, List.length_append]
    omega
  refine ⟨?_, ?_, ?_, ?_⟩
  · omega
  · rw [htext, ← List.append_assoc, List.length_append, hwhole]
    exact Nat.le_add_right ..
  · have hcut := h.cut.of_append
    rw [← List.append_assoc] at hcut
    obtain ⟨c, rest, hc, hseparator⟩ := h.cuttable.exists_first hcut
    rw [htext, hstart, List.drop_left, ← textOf_append, hc]
    rintro _ ⟨⟩
    simp only [isSeparator, Bool.or_eq_false_iff, beq_eq_false_iff_ne] at hseparator
    simp [Span.isIndent, hseparator]
  · rw [htext, ← List.append_assoc, ← hwhole, List.take_left, textOf_append, hcs,
      ← List.append_assoc, ← List.append_assoc, List.getLast?_concat]
    rintro _ ⟨⟩
    decide

end Around

/-- A statement in a text that can be read takes up a passage of the text, which begins with no
blank and ends with a semicolon. Tokens before the statement end before the passage. -/
theorem passage_of_read {text : String} {statements : List Tree} (h : read text = .ok statements)
    {x z : Tree} (hz : z ∈ statements) (hx : x.Inside z) {y : Tree} {last : Token}
    (heq : x = .node .expressionStatement [y, .leaf last]) (hlast : last.kind = .mark .semicolon) :
    Passage text x x.docBefore? (cutSpan x.tokens) ∧
      (cutSpan x.tokens).Solid text.toList ∧
      ∀ u ∈ (scan text.toList).tokens, u.stop ≤ x.extent.start →
        u.stop ≤ (cutSpan x.tokens).start := by
  obtain ⟨ls, hls, htokens⟩ := exists_cutInto_of_read h
  obtain ⟨as, bs, hinfix⟩ := hx.tokens_infix.trans (Tree.tokens_infix hz)
  rw [← hinfix, List.append_assoc] at htokens
  have hlastToken : x.tokens.getLast? = some last := by
    rw [heq]
    simp [Tree.tokens, Tree.tokensOfAll]
  obtain ⟨first, hfirstToken⟩ : ∃ first, x.tokens.head? = some first := by
    cases hts : x.tokens with
    | nil => rw [hts] at hlastToken; cases hlastToken
    | cons first ts => exact ⟨first, rfl⟩
  have hstop : (cutSpan x.tokens).stop = last.stop := by
    rw [cutSpan, hlastToken]
    rfl
  -- the lexemes around the statement: those before it, its blanks, its own ones and the rest
  obtain ⟨before, front, body, after, haround⟩ :=
    exists_around hls htokens hfirstToken hlastToken hlast
  have hsolid := haround.solid hstop
  refine ⟨⟨hsolid.start_lt, ?_, first, last, textOf front, ?_⟩, hsolid, fun u hu hle => ?_⟩
  · rw [← String.length_toList]
    exact hsolid.stop_le
  · obtain ⟨cs, hcs⟩ := haround.exists_body
    have htext := haround.text_eq
    have hstart := haround.start_eq
    have hfirst := haround.first_eq
    have hlastStop := haround.last_eq
    have hbody : partOf text ⟨first.start, last.stop⟩ = textOf body := by
      have hcut : text.toList =
          (textOf before ++ textOf front) ++ (textOf body ++ textOf after) := by
        rw [htext, textOf_append]
        simp only [List.append_assoc]
      refine partOf_eq hcut ?_ ?_
      · rw [List.length_append]
        exact hfirst
      · rw [List.length_append, ← hfirst]
        exact hlastStop
    have hpart : partOf text (cutSpan x.tokens) = textOf front ++ textOf body := by
      refine partOf_eq (by rw [htext, textOf_append]) hstart ?_
      rw [List.length_append]
      omega
    refine ⟨cs, ?_, ?_, hlast, ?_, hstop, ?_, ?_, ?_⟩
    · rw [Tree.firstToken?_eq, hfirstToken]
    · rw [Tree.lastToken?_eq, hlastToken]
    · omega
    · rw [hbody, hcs]
    · rw [hpart, hcs]
    · rw [Tree.docBefore?, Tree.firstToken?_eq, hfirstToken]
      exact haround.leads
  · refine haround.stop_le_of_mem hu ?_
    rw [Tree.extent, Tree.firstToken?_eq, Tree.lastToken?_eq, hfirstToken, hlastToken] at hle
    exact hle

end Script

end SuperForward
