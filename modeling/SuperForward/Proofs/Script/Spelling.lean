/-
  How tokens are written.

  A name is a run of name characters that no reserved word is written as; a reserved word and a
  mark are written in the one way they have. No name and no reserved word contains a dot, which
  is why the segments of dotted names can be told apart.

  `Begins` says which lexeme a text begins with, sort by sort; what is known of the lexeme that
  the lexer cuts off is proved by cases on it.
-/
import SuperForward.Script.OfText
import Mathlib.Data.List.Basic

namespace SuperForward.Script

/-! ## Segments -/

/-- A text that can be a segment of a dotted name, and only one. -/
def IsSegment (s : String) : Prop := s ≠ "" ∧ '.' ∉ s.toList

theorem not_isNamePart_dot : isNamePart '.' = false := by decide

theorem Keyword.isSegment (w : Keyword) : IsSegment w.text := by
  cases w <;> exact ⟨by decide, by decide⟩

theorem isSegment_this : IsSegment "this" := Keyword.isSegment .thisKw

/-! ## Spelling -/

/-- The token is written as its kind demands. -/
def Token.Spelled (t : Token) : Prop :=
  match t.kind with
  | .name => t.text ≠ "" ∧ (∀ c ∈ t.text.toList, isNamePart c = true) ∧
      Keyword.ofText? t.text = none
  | .keyword w => t.text = w.text
  | .mark m => t.text = m.text
  | .number | .string | .template => True

theorem Token.Spelled.isSegment {t : Token} (h : t.Spelled)
    (hkind : t.kind = .name ∨ ∃ w, t.kind = .keyword w) : IsSegment t.text := by
  unfold Token.Spelled at h
  rcases hkind with hkind | ⟨w, hkind⟩
  · rw [hkind] at h
    obtain ⟨hne, hparts, -⟩ := h
    refine ⟨hne, fun hdot => ?_⟩
    have := hparts _ hdot
    rw [not_isNamePart_dot] at this
    cases this
  · rw [hkind] at h
    rw [h]
    exact w.isSegment

/-- A reserved word is known by how it is written. -/
theorem Keyword.text_of_ofText? {s : String} {w : Keyword} (h : Keyword.ofText? s = some w) :
    s = w.text := by
  have := List.find?_some h
  exact (beq_iff_eq.mp this).symm

theorem take_runLength (p : Char → Bool) (cs : List Char) :
    cs.take (runLength p cs) = cs.takeWhile p := by
  unfold runLength
  exact (List.prefix_iff_eq_take.mp (List.takeWhile_prefix p)).symm

/-- What a mark at the head of a text takes up is how it is written. -/
theorem Mark.take_longest? {cs : List Char} {m : Mark} (h : Mark.longest? cs = some m) :
    cs.take m.text.length = m.text.toList := by
  have hstarts := List.find?_some h
  rw [List.isPrefixOf_iff_prefix, List.prefix_iff_eq_take] at hstarts
  rw [hstarts, String.length_toList]

/-! ## The lexeme that a text begins with -/

/-- The first character alone does not settle which sort of lexeme begins with it. -/
structure Unsettled (c : Char) : Prop where
  separator : isSeparator c = false
  name : isNameStart c = false
  quote : ¬(c = '"' ∨ c = '\'')
  template : c ≠ templateQuote

/-- For such a character the first tests of the lexer are in vain. -/
theorem Unsettled.nextLexeme_eq {c : Char} {rest : List Char} (h : Unsettled c) :
    nextLexeme (c :: rest) = match commentLength (c :: rest) with
      | some n => some (.comment, n)
      | none =>
        if numberLength (c :: rest) != 0 then some (.token .number, numberLength (c :: rest))
        else (Mark.longest? (c :: rest)).map fun m => (.token (.mark m), m.text.length) := by
  obtain ⟨separator, name, quote, template⟩ := h
  refine (if_neg ?_).trans ((if_neg ?_).trans ((if_neg ?_).trans (if_neg ?_)))
  · simp [separator]
  · simp [name]
  · simpa using quote
  · simpa using template

/-- A lexeme of a sort and a length begins with a character that something comes after. -/
inductive Begins (c : Char) (rest : List Char) : LexemeKind → Nat → Prop
  | blank (separator : isSeparator c = true) :
      Begins c rest .blank (runLength isSeparator (c :: rest))
  | word (separator : isSeparator c = false) (name : isNameStart c = true) :
      Begins c rest (.token (wordKind ((c :: rest).takeWhile isNamePart)))
        (runLength isNamePart (c :: rest))
  | string {n : Nat} (quote : c = '"' ∨ c = '\'') (length : stringLength c rest = some n) :
      Begins c rest (.token .string) (n + 1)
  | template {n : Nat} (quote : c = templateQuote) (length : templateLength rest = some n) :
      Begins c rest (.token .template) (n + 1)
  | comment {n : Nat} (other : Unsettled c) (length : commentLength (c :: rest) = some n) :
      Begins c rest .comment n
  | number (other : Unsettled c) (noComment : commentLength (c :: rest) = none)
      (digits : numberLength (c :: rest) ≠ 0) :
      Begins c rest (.token .number) (numberLength (c :: rest))
  | mark {m : Mark} (other : Unsettled c) (noComment : commentLength (c :: rest) = none)
      (noDigits : numberLength (c :: rest) = 0) (longest : Mark.longest? (c :: rest) = some m) :
      Begins c rest (.token (.mark m)) m.text.length

/-- What the lexer cuts off is the lexeme that begins there. -/
theorem nextLexeme_eq_some_iff {c : Char} {rest : List Char} {kind : LexemeKind} {n : Nat} :
    nextLexeme (c :: rest) = some (kind, n) ↔ Begins c rest kind n := by
  constructor
  · intro h
    unfold nextLexeme at h
    simp only at h
    split at h
    · next separator =>
      cases h
      exact .blank separator
    next separator =>
    have separator := Bool.eq_false_iff.mpr separator
    split at h
    · next name =>
      cases h
      exact .word separator name
    next name =>
    split at h
    · next quote =>
      obtain ⟨m, length, heq⟩ := Option.map_eq_some_iff.mp h
      cases heq
      exact .string (by simpa using quote) length
    next quote =>
    split at h
    · next template =>
      obtain ⟨m, length, heq⟩ := Option.map_eq_some_iff.mp h
      cases heq
      exact .template (beq_iff_eq.mp template) length
    next template =>
    -- from here on the first character alone no longer tells the kind
    have other : Unsettled c := ⟨separator, Bool.eq_false_iff.mpr name, by simpa using quote,
      fun h => template (beq_iff_eq.mpr h)⟩
    split at h
    · next length =>
      cases h
      exact .comment other length
    next noComment =>
    split at h
    · next digits =>
      cases h
      exact .number other noComment (bne_iff_ne.mp digits)
    · next digits =>
      obtain ⟨m, longest, heq⟩ := Option.map_eq_some_iff.mp h
      cases heq
      exact .mark other noComment (by simpa using digits) longest
  · intro h
    cases h with
    | blank separator => simp [nextLexeme, separator]
    | word separator name => simp [nextLexeme, separator, name]
    | string quote length =>
      rcases quote with rfl | rfl
      · show (stringLength '"' rest).map _ = _
        rw [length]
        rfl
      · show (stringLength '\'' rest).map _ = _
        rw [length]
        rfl
    | template quote length =>
      subst quote
      show (templateLength rest).map _ = _
      rw [length]
      rfl
    | comment other length => rw [other.nextLexeme_eq, length]
    | number other noComment digits =>
      rw [other.nextLexeme_eq, noComment]
      simp [digits]
    | mark other noComment noDigits longest =>
      rw [other.nextLexeme_eq, noComment]
      simp [noDigits, longest]

/-- No lexeme is cut off an empty text. -/
theorem exists_begins {cs : List Char} {kind : LexemeKind} {n : Nat}
    (h : nextLexeme cs = some (kind, n)) :
    ∃ c rest, cs = c :: rest ∧ Begins c rest kind n := by
  cases cs with
  | nil => cases h
  | cons c rest => exact ⟨c, rest, rfl, nextLexeme_eq_some_iff.mp h⟩

theorem isNamePart_of_isNameStart {c : Char} (h : isNameStart c = true) : isNamePart c = true := by
  unfold isNamePart
  rw [h, Bool.true_or]

/-- A word is a reserved one, or else a name. -/
theorem spelled_word {t : Token} {word : List Char} (hne : word ≠ [])
    (hparts : ∀ d ∈ word, isNamePart d = true) (hkind : t.kind = wordKind word)
    (htext : t.text = String.ofList word) : t.Spelled := by
  unfold Token.Spelled
  rw [hkind, wordKind]
  cases hw : Keyword.ofText? (String.ofList word) with
  | some w =>
    rw [htext]
    exact Keyword.text_of_ofText? hw
  | none =>
    refine ⟨fun hempty => hne ?_, fun d hd => hparts d ?_, htext ▸ hw⟩
    · rw [← String.toList_ofList (l := word), ← htext, hempty]
      rfl
    · rwa [htext, String.toList_ofList] at hd

/-- The token that is cut off is written as its kind demands. -/
theorem spelled_of_nextLexeme {cs : List Char} {kind : TokenKind} {n : Nat}
    (h : nextLexeme cs = some (.token kind, n)) {t : Token} (hkind : t.kind = kind)
    (htext : t.text = String.ofList (cs.take n)) : t.Spelled := by
  obtain ⟨c, rest, rfl, hbegins⟩ := exists_begins h
  cases hbegins with
  | word _ name =>
    rw [take_runLength] at htext
    refine spelled_word ?_ (fun d hd => List.all_eq_true.mp List.all_takeWhile d hd) hkind htext
    rw [List.takeWhile_cons_of_pos (isNamePart_of_isNameStart name)]
    exact List.cons_ne_nil _ _
  | string =>
    unfold Token.Spelled
    rw [hkind]
    trivial
  | template =>
    unfold Token.Spelled
    rw [hkind]
    trivial
  | number =>
    unfold Token.Spelled
    rw [hkind]
    trivial
  | mark _ _ _ longest =>
    unfold Token.Spelled
    rw [hkind]
    simp only
    rw [htext, Mark.take_longest? longest, String.ofList_toList]

/-- All tokens of a text are written as their kinds demand. -/
theorem spelled_of_mem_scanFrom {bound : Nat} {cs : List Char} {offset : Nat}
    {place : Text.Position} {pending : List Comment} {t : Token}
    (h : t ∈ (scanFrom bound cs offset place pending).tokens) : t.Spelled := by
  induction bound generalizing cs offset place pending with
  | zero => cases h
  | succ bound ih =>
    cases cs with
    | nil => cases h
    | cons c rest =>
      unfold scanFrom at h
      simp only at h
      split at h
      · cases h
      · next kind n hnext =>
        split at h
        · exact ih h
        · exact ih h
        · rcases List.mem_cons.mp h with rfl | h
          · exact spelled_of_nextLexeme hnext rfl rfl
          · exact ih h

theorem spelled_of_mem_scan {l : List Char} {t : Token} (h : t ∈ (scan l).tokens) :
    t.Spelled := spelled_of_mem_scanFrom h

end SuperForward.Script
