/-
  Texts as sequences of lexemes.

  `CutInto` says how a text is cut, lexeme by lexeme, with blanks one at a time; written one
  after the other, the lexemes are the text again. The tokens of a text, with their places and
  the comments before them, can be read off its lexemes alone.
-/
import SuperForward.Proofs.Script.Spelling

namespace SuperForward.Script

open SuperForward.Text (Position isDecimalDigit)

/-! ## Lexemes take up something, and no more than there is -/

theorem runLength_le (p : Char → Bool) (cs : List Char) : runLength p cs ≤ cs.length :=
  (List.takeWhile_prefix p).length_le

theorem runLength_pos {p : Char → Bool} {c : Char} {cs : List Char} (h : p c = true) :
    0 < runLength p (c :: cs) := by
  unfold runLength
  rw [List.takeWhile_cons_of_pos h]
  exact Nat.succ_pos _

theorem closingLength_le {cs : List Char} {n : Nat} (h : closingLength cs = some n) :
    n ≤ cs.length := by
  induction cs using closingLength.induct generalizing n with
  | case1 rest =>
    rw [closingLength] at h
    cases h
    simp
  | case2 c rest hclose ih =>
    rw [closingLength] at h
    · obtain ⟨m, hm, rfl⟩ := Option.map_eq_some_iff.mp h
      exact Nat.succ_le_succ (ih hm)
    · exact hclose
  | case3 => cases h

theorem commentLength_bounds {cs : List Char} {n : Nat} (h : commentLength cs = some n) :
    0 < n ∧ n ≤ cs.length := by
  unfold commentLength at h
  split at h
  · next rest =>
    cases h
    have := runLength_le (· != '\n') rest
    simp only [List.length_cons]
    omega
  · next rest =>
    obtain ⟨m, hm, rfl⟩ := Option.map_eq_some_iff.mp h
    have := closingLength_le hm
    simp only [List.length_cons]
    omega
  · cases h

theorem stringLength_le {quote : Char} {cs : List Char} {n : Nat}
    (h : stringLength quote cs = some n) : n ≤ cs.length := by
  fun_induction stringLength quote cs generalizing n with
  | case2 _ rest _ ih =>
    obtain ⟨m, hm, rfl⟩ := Option.map_eq_some_iff.mp h
    exact Nat.add_le_add_right (ih hm) 2
  | case3 =>
    cases h
    simp
  | case5 _ rest _ _ _ ih =>
    obtain ⟨m, hm, rfl⟩ := Option.map_eq_some_iff.mp h
    exact Nat.succ_le_succ (ih hm)
  | case1 => cases h
  | case4 => cases h
  | case6 => cases h

theorem templateLength_le {cs : List Char} {n : Nat} (h : templateLength cs = some n) :
    n ≤ cs.length := by
  fun_induction templateLength cs generalizing n with
  | case1 _ rest ih =>
    obtain ⟨m, hm, rfl⟩ := Option.map_eq_some_iff.mp h
    exact Nat.add_le_add_right (ih hm) 2
  | case2 =>
    cases h
    simp
  | case4 _ rest _ _ _ ih =>
    obtain ⟨m, hm, rfl⟩ := Option.map_eq_some_iff.mp h
    exact Nat.succ_le_succ (ih hm)
  | case3 => cases h
  | case5 => cases h

theorem exponentLength_le (cs : List Char) : exponentLength cs ≤ cs.length := by
  have key : ∀ (sign : Nat) (rest : List Char), sign ≤ rest.length →
      (if (runLength isDecimalDigit (rest.drop sign) == 0) = true then 0
        else 1 + sign + runLength isDecimalDigit (rest.drop sign)) ≤ rest.length + 1 := by
    intro sign rest hsign
    have := runLength_le isDecimalDigit (rest.drop sign)
    rw [List.length_drop] at this
    split <;> omega
  unfold exponentLength
  split
  · next e rest =>
    split
    · refine key _ rest ?_
      split
      · rw [List.length_cons]
        split <;> omega
      · exact Nat.zero_le _
    · exact Nat.zero_le _
  · exact Nat.le_refl _

theorem fractionLength_le (cs : List Char) : fractionLength cs ≤ cs.length := by
  unfold fractionLength
  split
  · next rest =>
    have := runLength_le isDecimalDigit rest
    simp only [List.length_cons]
    omega
  · exact Nat.zero_le _

theorem decimalLength_le (cs : List Char) : decimalLength cs ≤ cs.length := by
  have hwhole := runLength_le isDecimalDigit cs
  have hfraction := fractionLength_le (cs.drop (runLength isDecimalDigit cs))
  have hexponent := exponentLength_le (cs.drop (runLength isDecimalDigit cs +
    fractionLength (cs.drop (runLength isDecimalDigit cs))))
  rw [List.length_drop] at hfraction hexponent
  unfold decimalLength
  simp only
  split <;> omega

theorem numberLength_le (cs : List Char) : numberLength cs ≤ cs.length := by
  unfold numberLength
  split
  · next x rest =>
    have hhex := runLength_le isHexDigit rest
    have hdecimal := decimalLength_le ('0' :: x :: rest)
    simp only [List.length_cons] at hdecimal ⊢
    split <;> omega
  · exact decimalLength_le cs

theorem Mark.text_length_pos (m : Mark) : 0 < m.text.length := by
  cases m <;> decide

theorem Mark.prefix_of_longest? {cs : List Char} {m : Mark} (h : Mark.longest? cs = some m) :
    m.text.toList <+: cs := by
  have hstarts := List.find?_some h
  rwa [List.isPrefixOf_iff_prefix] at hstarts

theorem Mark.longest?_le {cs : List Char} {m : Mark} (h : Mark.longest? cs = some m) :
    m.text.length ≤ cs.length := by
  have := (Mark.prefix_of_longest? h).length_le
  rwa [String.length_toList] at this

/-- A lexeme has at least one character, and they are all there. -/
theorem nextLexeme_bounds {cs : List Char} {kind : LexemeKind} {n : Nat}
    (h : nextLexeme cs = some (kind, n)) : 0 < n ∧ n ≤ cs.length := by
  obtain ⟨c, rest, rfl, hbegins⟩ := exists_begins h
  cases hbegins with
  | blank separator => exact ⟨runLength_pos separator, runLength_le _ _⟩
  | word _ name => exact ⟨runLength_pos (isNamePart_of_isNameStart name), runLength_le _ _⟩
  | string _ length =>
    exact ⟨Nat.succ_pos _, Nat.succ_le_succ (stringLength_le length)⟩
  | template _ length =>
    exact ⟨Nat.succ_pos _, Nat.succ_le_succ (templateLength_le length)⟩
  | comment _ length => exact commentLength_bounds length
  | number _ _ digits => exact ⟨Nat.pos_of_ne_zero digits, numberLength_le _⟩
  | @mark m _ _ _ longest => exact ⟨m.text_length_pos, Mark.longest?_le longest⟩

/-! ## Cutting -/

/-- A lexeme with its sort. -/
structure Lexeme where
  kind : LexemeKind
  text : List Char
  deriving DecidableEq, Repr

/-- A separator as a lexeme of its own. -/
def Lexeme.separator (c : Char) : Lexeme := ⟨.blank, [c]⟩

/-- How a text is cut into lexemes. -/
inductive CutInto : List Char → List Lexeme → Prop
  | nil : CutInto [] []
  | separator {c : Char} {rest : List Char} {ls : List Lexeme} (h : isSeparator c = true)
      (after : CutInto rest ls) : CutInto (c :: rest) (.separator c :: ls)
  | lexeme {cs : List Char} {kind : LexemeKind} {n : Nat} {ls : List Lexeme}
      (next : nextLexeme cs = some (kind, n)) (nonblank : kind ≠ .blank)
      (after : CutInto (cs.drop n) ls) : CutInto cs (⟨kind, cs.take n⟩ :: ls)

/-- Written one after the other, the lexemes of a text are the text. -/
theorem CutInto.flatten_eq {cs : List Char} {ls : List Lexeme} (h : CutInto cs ls) :
    ls.flatMap Lexeme.text = cs := by
  induction h with
  | nil => rfl
  | separator _ _ ih => rw [List.flatMap_cons, ih]; rfl
  | lexeme _ _ _ ih => rw [List.flatMap_cons, ih, List.take_append_drop]

/-- Every lexeme has a character. -/
theorem CutInto.ne_nil {cs : List Char} {ls : List Lexeme} (h : CutInto cs ls) :
    ∀ l ∈ ls, l.text ≠ [] := by
  induction h with
  | nil => simp
  | separator _ _ ih =>
    intro l hl
    rcases List.mem_cons.mp hl with rfl | hl
    · exact List.cons_ne_nil _ _
    · exact ih l hl
  | @lexeme cs _ n _ next _ _ ih =>
    intro l hl
    rcases List.mem_cons.mp hl with rfl | hl
    · obtain ⟨hpos, hle⟩ := nextLexeme_bounds next
      intro hnil
      rcases List.take_eq_nil_iff.mp hnil with h | h
      · omega
      · rw [h, List.length_nil] at hle
        omega
    · exact ih l hl

/-- How a text is cut into lexemes up to where `rest` is left. What is left decides how long the
lexemes before it are. -/
inductive CutUpTo (rest : List Char) : List Char → List Lexeme → Prop
  | nil : CutUpTo rest rest []
  | separator {c : Char} {cs : List Char} {ls : List Lexeme} (h : isSeparator c = true)
      (after : CutUpTo rest cs ls) : CutUpTo rest (c :: cs) (.separator c :: ls)
  | lexeme {cs : List Char} {kind : LexemeKind} {n : Nat} {ls : List Lexeme}
      (next : nextLexeme cs = some (kind, n)) (nonblank : kind ≠ .blank)
      (after : CutUpTo rest (cs.drop n) ls) : CutUpTo rest cs (⟨kind, cs.take n⟩ :: ls)

theorem cutUpTo_nil_iff {cs : List Char} {ls : List Lexeme} :
    CutUpTo [] cs ls ↔ CutInto cs ls := by
  constructor
  · intro h
    induction h with
    | nil => exact .nil
    | separator h _ ih => exact .separator h ih
    | lexeme next nonblank _ ih => exact .lexeme next nonblank ih
  · intro h
    induction h with
    | nil => exact .nil
    | separator h _ ih => exact .separator h ih
    | lexeme next nonblank _ ih => exact .lexeme next nonblank ih

/-- The text is the lexemes and what is left. -/
theorem CutUpTo.flatten_eq {rest cs : List Char} {ls : List Lexeme} (h : CutUpTo rest cs ls) :
    cs = ls.flatMap Lexeme.text ++ rest := by
  induction h with
  | nil => rfl
  | separator _ _ ih => rw [ih]; rfl
  | @lexeme cs _ n _ _ _ _ ih =>
    rw [List.flatMap_cons, List.append_assoc, ← ih, List.take_append_drop]

/-- Separators before a text are cut off one by one. -/
theorem CutUpTo.separators {as cs rest : List Char} {ls : List Lexeme}
    (has : ∀ c ∈ as, isSeparator c = true) (h : CutUpTo rest cs ls) :
    CutUpTo rest (as ++ cs) (as.map .separator ++ ls) := by
  induction as with
  | nil => exact h
  | cons c as ih =>
    exact .separator (has c (List.mem_cons_self ..))
      (ih fun d hd => has d (List.mem_cons_of_mem _ hd))

/-! ## The tokens of lexemes -/

/-- Where a scan stands: offset and place, and the comments since the last token, newest
first. -/
structure Spot where
  offset : Nat
  place : Position
  pending : List Comment

namespace Spot

/-- The beginning of a text. -/
def origin : Spot := ⟨0, .origin, []⟩

/-- The comment that a lexeme is if it begins here. -/
def comment (s : Spot) (l : Lexeme) : Comment :=
  ⟨String.ofList l.text, s.offset, s.offset + l.text.length⟩

/-- The token that a lexeme is if it begins here. -/
def token (s : Spot) (kind : TokenKind) (l : Lexeme) : Token :=
  ⟨kind, String.ofList l.text, s.offset, s.offset + l.text.length, s.place, s.pending.reverse⟩

/-- Where a scan stands after one more lexeme. -/
def next (s : Spot) (l : Lexeme) : Spot :=
  ⟨s.offset + l.text.length, s.place.advance l.text,
    match l.kind with
    | .blank => s.pending
    | .comment => s.comment l :: s.pending
    | .token _ => []⟩

/-- Where a scan stands after some more lexemes. -/
def after (s : Spot) (ls : List Lexeme) : Spot := ls.foldl next s

theorem after_append (s : Spot) (ls ms : List Lexeme) :
    s.after (ls ++ ms) = (s.after ls).after ms := List.foldl_append

theorem offset_next (s : Spot) (l : Lexeme) : (s.next l).offset = s.offset + l.text.length := rfl

theorem offset_after (s : Spot) (ls : List Lexeme) :
    (s.after ls).offset = s.offset + (ls.flatMap Lexeme.text).length := by
  induction ls generalizing s with
  | nil => rfl
  | cons l ls ih =>
    have hcons : s.after (l :: ls) = (s.next l).after ls := rfl
    rw [hcons, ih, offset_next, List.flatMap_cons, List.length_append, Nat.add_assoc]

end Spot

/-- The tokens that are among some lexemes. -/
def tokensFrom (s : Spot) : List Lexeme → List Token
  | [] => []
  | l :: ls =>
    match l.kind with
    | .token kind => s.token kind l :: tokensFrom (s.next l) ls
    | _ => tokensFrom (s.next l) ls

theorem tokensFrom_append (s : Spot) (ls ms : List Lexeme) :
    tokensFrom s (ls ++ ms) = tokensFrom s ls ++ tokensFrom (s.after ls) ms := by
  induction ls generalizing s with
  | nil => rfl
  | cons l ls ih =>
    have hcons : s.after (l :: ls) = (s.next l).after ls := rfl
    rw [List.cons_append, tokensFrom, tokensFrom, hcons, ih]
    cases l.kind <;> rfl

/-! ## Scanning -/

/-- Any bound beyond the length of the text is as good as another. -/
theorem scanFrom_bound {bound bound' : Nat} {cs : List Char} (h : cs.length < bound)
    (h' : cs.length < bound') (offset : Nat) (place : Position) (pending : List Comment) :
    scanFrom bound cs offset place pending = scanFrom bound' cs offset place pending := by
  induction bound generalizing bound' cs offset place pending with
  | zero => omega
  | succ bound ih =>
    obtain ⟨bound', rfl⟩ : ∃ b, bound' = b + 1 := ⟨bound' - 1, by omega⟩
    cases cs with
    | nil => rfl
    | cons c rest =>
      rw [scanFrom, scanFrom]
      cases hnext : nextLexeme (c :: rest) with
      | none => rfl
      | some next =>
        obtain ⟨kind, n⟩ := next
        obtain ⟨hpos, -⟩ := nextLexeme_bounds hnext
        have hdrop : ((c :: rest).drop n).length + 1 ≤ (c :: rest).length := by
          rw [List.length_drop, List.length_cons]
          omega
        have hrest := @ih bound' ((c :: rest).drop n) (by omega) (by omega)
        simp only [hrest]

/-- A scan goes through separators one at a time, and notes nothing. -/
theorem scanFrom_separator {bound bound' : Nat} {c : Char} {rest : List Char}
    (hc : isSeparator c = true) (h : rest.length + 1 < bound) (h' : rest.length < bound')
    (offset : Nat) (place : Position) (pending : List Comment) :
    scanFrom bound (c :: rest) offset place pending
      = scanFrom bound' rest (offset + 1) (place.advance [c]) pending := by
  obtain ⟨bound, rfl⟩ : ∃ b, bound = b + 1 := ⟨bound - 1, by omega⟩
  have hrun : runLength isSeparator (c :: rest) = runLength isSeparator rest + 1 := by
    unfold runLength
    rw [List.takeWhile_cons_of_pos hc, List.length_cons]
  have hhead : scanFrom (bound + 1) (c :: rest) offset place pending
      = scanFrom bound (rest.drop (runLength isSeparator rest))
          (offset + (runLength isSeparator rest + 1))
          (place.advance (c :: rest.take (runLength isSeparator rest))) pending := by
    rw [scanFrom]
    simp only [nextLexeme, hc, if_true, hrun, List.drop_succ_cons, List.take_succ_cons]
  rw [hhead]
  -- either the run of separators ends here, or the rest begins with the same run
  by_cases hrest : ∃ d rest', rest = d :: rest' ∧ isSeparator d = true
  · obtain ⟨d, rest', rfl, hd⟩ := hrest
    obtain ⟨bound', rfl⟩ : ∃ b, bound' = b + 1 := ⟨bound' - 1, by omega⟩
    have hpos : 0 < runLength isSeparator (d :: rest') := runLength_pos hd
    have htail : scanFrom (bound' + 1) (d :: rest') (offset + 1) (place.advance [c]) pending
        = scanFrom bound' ((d :: rest').drop (runLength isSeparator (d :: rest')))
          (offset + 1 + runLength isSeparator (d :: rest'))
          ((place.advance [c]).advance ((d :: rest').take (runLength isSeparator (d :: rest'))))
          pending := by
      rw [scanFrom]
      simp only [nextLexeme, hd, if_true]
    rw [htail, ← Position.advance_append, List.singleton_append,
      show offset + (runLength isSeparator (d :: rest') + 1)
        = offset + 1 + runLength isSeparator (d :: rest') by omega]
    simp only [List.length_cons] at h h'
    refine scanFrom_bound ?_ ?_ _ _ _
    · rw [List.length_drop, List.length_cons]
      omega
    · rw [List.length_drop, List.length_cons]
      omega
  · have hzero : runLength isSeparator rest = 0 := by
      unfold runLength
      cases rest with
      | nil => rfl
      | cons d rest' =>
        rw [List.takeWhile_cons_of_neg fun hd => hrest ⟨d, rest', rfl, hd⟩, List.length_nil]
    rw [hzero, List.drop_zero, List.take_zero]
    exact scanFrom_bound (by omega) h' _ _ _

/-- A scan finds the tokens that are among the lexemes, and goes on with what is left. -/
theorem CutUpTo.scanFrom_eq {rest cs : List Char} {ls : List Lexeme} (h : CutUpTo rest cs ls)
    {bound bound' : Nat} (hbound : cs.length < bound) (hbound' : rest.length < bound') (s : Spot) :
    let left := scanFrom bound' rest (s.after ls).offset (s.after ls).place (s.after ls).pending
    scanFrom bound cs s.offset s.place s.pending
      = ⟨tokensFrom s ls ++ left.tokens, left.ending⟩ := by
  simp only
  induction h generalizing bound s with
  | nil => exact scanFrom_bound hbound hbound' _ _ _
  | @separator c cs ls hc _ ih =>
    rw [scanFrom_separator hc hbound (Nat.lt_of_succ_lt hbound)]
    exact ih (Nat.lt_of_succ_lt hbound) (s.next (.separator c))
  | @lexeme cs kind n ls next nonblank _ ih =>
    obtain ⟨hpos, hle⟩ := nextLexeme_bounds next
    obtain ⟨bound, rfl⟩ : ∃ b, bound = b + 1 := ⟨bound - 1, by omega⟩
    have hrest := @ih bound (by rw [List.length_drop]; omega)
    have htake : (cs.take n).length = n := by rw [List.length_take]; omega
    have hafter (l : Lexeme) : s.after (l :: ls) = (s.next l).after ls := rfl
    cases cs with
    | nil => cases next
    | cons c cs =>
      rw [scanFrom]
      simp only [next, hafter]
      -- the place, the pending comments and the tokens move on as the lexeme says
      cases kind with
      | blank => exact absurd rfl nonblank
      | comment =>
        have h := hrest (s.next ⟨.comment, (c :: cs).take n⟩)
        simp only [Spot.next, Spot.comment, htake] at h
        simp only [tokensFrom, Spot.next, Spot.comment, htake]
        exact h
      | token kind =>
        have h := hrest (s.next ⟨.token kind, (c :: cs).take n⟩)
        simp only [Spot.next, htake] at h
        simp only [tokensFrom, Spot.next, Spot.token, htake, h, List.cons_append]

/-- A scan finds the tokens that are among the lexemes of the text. -/
theorem CutInto.scanFrom_eq {cs : List Char} {ls : List Lexeme} (h : CutInto cs ls)
    {bound : Nat} (hbound : cs.length < bound) (s : Spot) :
    scanFrom bound cs s.offset s.place s.pending = ⟨tokensFrom s ls, .endOfText⟩ := by
  rw [(cutUpTo_nil_iff.mpr h).scanFrom_eq hbound (Nat.zero_lt_one) s]
  simp [scanFrom]

/-- The tokens of a text that is cut into lexemes. -/
theorem CutInto.scan_eq {cs : List Char} {ls : List Lexeme} (h : CutInto cs ls) :
    scan cs = ⟨tokensFrom .origin ls, .endOfText⟩ :=
  h.scanFrom_eq (Nat.lt_succ_self _) .origin

/-- The tokens of a text that is cut into lexemes up to a character that begins none. -/
theorem CutUpTo.scan_eq {cs rest : List Char} {c : Char} {ls : List Lexeme}
    (h : CutUpTo (c :: rest) cs ls) (hnone : nextLexeme (c :: rest) = none) :
    scan cs
      = ⟨tokensFrom .origin ls, .badCharacter c (Spot.origin.after ls).place⟩ := by
  have hscan := h.scanFrom_eq (Nat.lt_succ_self _) (Nat.lt_succ_self _) .origin
  rw [scanFrom, hnone] at hscan
  simp only [List.append_nil] at hscan
  exact hscan

/-- A blank is a run of separators. -/
theorem take_of_blank {cs : List Char} {n : Nat} (h : nextLexeme cs = some (.blank, n)) :
    cs.take n = cs.takeWhile isSeparator := by
  obtain ⟨c, rest, rfl, hbegins⟩ := exists_begins h
  cases hbegins
  exact take_runLength _ _

/-- Every text is cut into lexemes up to its end or a character that begins none. -/
theorem exists_cutUpTo (cs : List Char) :
    ∃ rest ls, CutUpTo rest cs ls ∧ nextLexeme rest = none := by
  induction h : cs.length using Nat.strongRecOn generalizing cs with
  | ind length ih =>
    subst h
    cases hnext : nextLexeme cs with
    | none => exact ⟨cs, [], .nil, hnext⟩
    | some next =>
      obtain ⟨kind, n⟩ := next
      obtain ⟨hpos, hle⟩ := nextLexeme_bounds hnext
      obtain ⟨rest, ls, hls, hnone⟩ := ih _ (by rw [List.length_drop]; omega) (cs.drop n) rfl
      cases kind with
      | blank =>
        refine ⟨rest, _, List.take_append_drop n cs ▸ CutUpTo.separators ?_ hls, hnone⟩
        rw [take_of_blank hnext]
        exact fun d hd => List.all_eq_true.mp List.all_takeWhile d hd
      | comment => exact ⟨rest, _, .lexeme hnext (by simp) hls, hnone⟩
      | token kind => exact ⟨rest, _, .lexeme hnext (by simp) hls, hnone⟩

/-- A text that a scan goes through to its end is cut into lexemes. -/
theorem exists_cutInto {cs : List Char} (h : (scan cs).ending = .endOfText) :
    ∃ ls, CutInto cs ls := by
  obtain ⟨rest, ls, hls, hnone⟩ := exists_cutUpTo cs
  cases rest with
  | nil => exact ⟨ls, cutUpTo_nil_iff.mp hls⟩
  | cons c rest =>
    rw [hls.scan_eq hnone] at h
    cases h

/-- A text is cut into lexemes exactly if a scan goes through it to its end. -/
theorem exists_cutInto_iff {cs : List Char} :
    (∃ ls, CutInto cs ls) ↔ (scan cs).ending = .endOfText := by
  constructor
  · rintro ⟨ls, h⟩
    rw [h.scan_eq]
  · exact exists_cutInto

/-! ## Places of tokens -/

/-- The tokens of some lexemes stand within the text of the lexemes. -/
theorem bounds_of_mem_tokensFrom {ls : List Lexeme} (hne : ∀ l ∈ ls, l.text ≠ []) {s : Spot}
    {t : Token} (h : t ∈ tokensFrom s ls) :
    s.offset ≤ t.start ∧ t.start < t.stop ∧ t.stop ≤ (s.after ls).offset := by
  induction ls generalizing s with
  | nil => cases h
  | cons l ls ih =>
    have hcons : s.after (l :: ls) = (s.next l).after ls := rfl
    have hlater : t ∈ tokensFrom (s.next l) ls →
        s.offset ≤ t.start ∧ t.start < t.stop ∧ t.stop ≤ (s.after (l :: ls)).offset := by
      intro h
      obtain ⟨h₁, h₂, h₃⟩ := ih (fun m hm => hne m (List.mem_cons_of_mem _ hm)) h
      rw [Spot.offset_next] at h₁
      rw [hcons]
      exact ⟨by omega, h₂, h₃⟩
    rw [tokensFrom] at h
    split at h
    · rcases List.mem_cons.mp h with rfl | h
      · have hpos : 0 < l.text.length :=
          List.length_pos_iff.mpr (hne l (List.mem_cons_self ..))
        refine ⟨Nat.le_refl _, ?_, ?_⟩
        · show s.offset < s.offset + l.text.length
          omega
        · show s.offset + l.text.length ≤ _
          rw [hcons, Spot.offset_after, Spot.offset_next]
          omega
      · exact hlater h
    · exact hlater h

/-- The tokens of a text stand one after the other. -/
theorem pairwise_tokensFrom {ls : List Lexeme} (hne : ∀ l ∈ ls, l.text ≠ []) (s : Spot) :
    (tokensFrom s ls).Pairwise fun t u => t.stop ≤ u.start := by
  induction ls generalizing s with
  | nil => exact .nil
  | cons l ls ih =>
    obtain ⟨-, hls⟩ := List.forall_mem_cons.mp hne
    rw [tokensFrom]
    split
    · exact List.pairwise_cons.mpr
        ⟨fun u hu => (bounds_of_mem_tokensFrom hls hu).1, ih hls (s.next l)⟩
    · exact ih hls (s.next l)

/-- A token that begins within some of the lexemes is one of theirs. -/
theorem mem_tokensFrom_of_start {ls ms ns : List Lexeme} (hne : ∀ l ∈ ls ++ (ms ++ ns), l.text ≠ [])
    {s : Spot} {t : Token} (h : t ∈ tokensFrom s (ls ++ (ms ++ ns)))
    (hle : (s.after ls).offset ≤ t.start) (hlt : t.start < ((s.after ls).after ms).offset) :
    t ∈ tokensFrom (s.after ls) ms := by
  rw [tokensFrom_append, tokensFrom_append] at h
  rcases List.mem_append.mp h with h | h
  · have := bounds_of_mem_tokensFrom (fun l hl => hne l (List.mem_append_left _ hl)) h
    omega
  rcases List.mem_append.mp h with h | h
  · exact h
  · have := (bounds_of_mem_tokensFrom (fun l hl => hne l
      (List.mem_append_right _ (List.mem_append_right _ hl))) h).1
    omega

/-- A token that begins where some lexemes end is the lexeme that follows them, and the
comments before it are those since the last token among them. -/
theorem comments_of_start_eq {ls ms : List Lexeme} (hne : ∀ l ∈ ls ++ ms, l.text ≠ []) {s : Spot}
    {t : Token} (h : t ∈ tokensFrom s (ls ++ ms)) (hstart : t.start = (s.after ls).offset) :
    t.comments = (s.after ls).pending.reverse := by
  rw [tokensFrom_append] at h
  rcases List.mem_append.mp h with h | h
  · obtain ⟨-, h₁, h₂⟩ :=
      bounds_of_mem_tokensFrom (fun l hl => hne l (List.mem_append_left _ hl)) h
    omega
  · have hms : ∀ m ∈ ms, m.text ≠ [] := fun m hm => hne m (List.mem_append_right _ hm)
    cases ms with
    | nil => cases h
    | cons m ms =>
      have hpos : 0 < m.text.length := List.length_pos_iff.mpr (hms m (List.mem_cons_self ..))
      have hlater : t ∉ tokensFrom ((s.after ls).next m) ms := by
        intro h
        obtain ⟨h₁, -, -⟩ :=
          bounds_of_mem_tokensFrom (fun l hl => hms l (List.mem_cons_of_mem _ hl)) h
        rw [Spot.offset_next] at h₁
        omega
      rw [tokensFrom] at h
      split at h
      · rcases List.mem_cons.mp h with rfl | h
        · rfl
        · exact absurd h hlater
      · exact absurd h hlater

end SuperForward.Script
