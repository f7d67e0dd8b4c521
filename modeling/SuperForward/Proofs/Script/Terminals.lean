/-
  Which texts are single lexemes.

  `Terminal` says, sort by sort and without regard to what follows, which texts a lexeme can
  have. A lexeme that is cut off is one of them, and where none is cut off the text does not
  begin with any.
-/
import SuperForward.Proofs.Script.Excision

namespace SuperForward.Script

open SuperForward.Text (isDecimalDigit)

/-! ## The texts of lexemes -/

/-- What stands between the quotes of a string: it does not span lines. -/
inductive StringBody (quote : Char) : List Char → Prop
  | nil : StringBody quote []
  | plain {c : Char} {cs : List Char} (hquote : c ≠ quote) (hescape : c ≠ '\\') (hline : c ≠ '\n')
      (rest : StringBody quote cs) : StringBody quote (c :: cs)
  | escape {c : Char} {cs : List Char} (hline : c ≠ '\n') (rest : StringBody quote cs) :
      StringBody quote ('\\' :: c :: cs)

/-- What stands between the quotes of a template. -/
inductive TemplateBody : List Char → Prop
  | nil : TemplateBody []
  | plain {c : Char} {cs : List Char} (hquote : c ≠ templateQuote) (hescape : c ≠ '\\')
      (rest : TemplateBody cs) : TemplateBody (c :: cs)
  | escape {c : Char} {cs : List Char} (rest : TemplateBody cs) : TemplateBody ('\\' :: c :: cs)

/-- At least one character, all of a class. -/
def Run (p : Char → Bool) (cs : List Char) : Prop := cs ≠ [] ∧ ∀ c ∈ cs, p c = true

/-- A decimal number without its exponent. -/
inductive Mantissa : List Char → Prop
  | whole {digits : List Char} (h : Run isDecimalDigit digits) : Mantissa digits
  | fraction {digits more : List Char} (h : Run isDecimalDigit digits)
      (hmore : ∀ c ∈ more, isDecimalDigit c = true) : Mantissa (digits ++ '.' :: more)
  | point {digits : List Char} (h : Run isDecimalDigit digits) : Mantissa ('.' :: digits)

/-- The exponent of a decimal number, or nothing. -/
inductive Exponent : List Char → Prop
  | none : Exponent []
  | some {e : Char} {sign digits : List Char} (he : e = 'e' ∨ e = 'E')
      (hsign : sign = [] ∨ sign = ['+'] ∨ sign = ['-']) (h : Run isDecimalDigit digits) :
      Exponent (e :: (sign ++ digits))

/-- The text can be a lexeme of the sort. -/
inductive Terminal : LexemeKind → List Char → Prop
  | blank {cs : List Char} (h : Run isSeparator cs) : Terminal .blank cs
  | lineComment {cs : List Char} (h : '\n' ∉ cs) : Terminal .comment ('/' :: '/' :: cs)
  | blockComment (cs : List Char) : Terminal .comment ('/' :: '*' :: (cs ++ ['*', '/']))
  | name {c : Char} {cs : List Char} (hc : isNameStart c = true)
      (h : ∀ d ∈ cs, isNamePart d = true) : Terminal (.token .name) (c :: cs)
  | keyword (w : Keyword) : Terminal (.token (.keyword w)) w.text.toList
  | hexadecimal {x : Char} {digits : List Char} (hx : x = 'x' ∨ x = 'X')
      (h : Run isHexDigit digits) : Terminal (.token .number) ('0' :: x :: digits)
  | decimal {mantissa exponent : List Char} (hm : Mantissa mantissa) (he : Exponent exponent) :
      Terminal (.token .number) (mantissa ++ exponent)
  | string {quote : Char} {cs : List Char} (hquote : quote = '"' ∨ quote = '\'')
      (h : StringBody quote cs) : Terminal (.token .string) (quote :: (cs ++ [quote]))
  | template {cs : List Char} (h : TemplateBody cs) :
      Terminal (.token .template) (templateQuote :: (cs ++ [templateQuote]))
  | mark (m : Mark) : Terminal (.token (.mark m)) m.text.toList

/-! ## What is cut off is the text of a lexeme -/

theorem run_takeWhile {p : Char → Bool} {cs : List Char} (h : runLength p cs ≠ 0) :
    Run p (cs.takeWhile p) := by
  refine ⟨fun hnil => h ?_, fun c hc => List.all_eq_true.mp List.all_takeWhile c hc⟩
  rw [runLength, hnil]
  rfl

theorem stringBody_take {quote : Char} {cs : List Char} {n : Nat}
    (h : stringLength quote cs = some n) :
    ∃ body, cs.take n = body ++ [quote] ∧ StringBody quote body := by
  fun_induction stringLength quote cs generalizing n with
  | case1 => cases h
  | case2 c rest hline ih =>
    obtain ⟨m, hm, rfl⟩ := Option.map_eq_some_iff.mp h
    obtain ⟨body, htake, hbody⟩ := ih hm
    exact ⟨'\\' :: c :: body, by simp [htake], .escape (by simpa using hline) hbody⟩
  | case3 c rest _ hc =>
    cases h
    exact ⟨[], by simpa using hc, .nil⟩
  | case4 => cases h
  | case5 c rest hescape hquote hother ih =>
    obtain ⟨m, hm, rfl⟩ := Option.map_eq_some_iff.mp h
    obtain ⟨body, htake, hbody⟩ := ih hm
    simp only [Bool.or_eq_true, beq_iff_eq, not_or] at hother hquote
    exact ⟨c :: body, by simp [htake], .plain hquote hother.2 hother.1 hbody⟩
  | case6 => cases h

theorem templateBody_take {cs : List Char} {n : Nat} (h : templateLength cs = some n) :
    ∃ body, cs.take n = body ++ [templateQuote] ∧ TemplateBody body := by
  fun_induction templateLength cs generalizing n with
  | case1 c rest ih =>
    obtain ⟨m, hm, rfl⟩ := Option.map_eq_some_iff.mp h
    obtain ⟨body, htake, hbody⟩ := ih hm
    exact ⟨'\\' :: c :: body, by simp [htake], .escape hbody⟩
  | case2 c rest _ hc =>
    cases h
    exact ⟨[], by simpa using hc, .nil⟩
  | case3 => cases h
  | case4 c rest _ hquote hescape ih =>
    obtain ⟨m, hm, rfl⟩ := Option.map_eq_some_iff.mp h
    obtain ⟨body, htake, hbody⟩ := ih hm
    simp only [beq_iff_eq] at hquote hescape
    exact ⟨c :: body, by simp [htake], .plain hquote hescape hbody⟩
  | case5 => cases h

theorem closing_take {cs : List Char} {n : Nat} (h : closingLength cs = some n) :
    ∃ body, cs.take n = body ++ ['*', '/'] := by
  induction cs using closingLength.induct generalizing n with
  | case1 rest =>
    rw [closingLength] at h
    cases h
    exact ⟨[], rfl⟩
  | case2 c rest hclose ih =>
    rw [closingLength] at h
    · obtain ⟨m, hm, rfl⟩ := Option.map_eq_some_iff.mp h
      obtain ⟨body, htake⟩ := ih hm
      exact ⟨c :: body, by simp [htake]⟩
    · exact hclose
  | case3 => cases h

theorem terminal_of_commentLength {cs : List Char} {n : Nat} (h : commentLength cs = some n) :
    Terminal .comment (cs.take n) := by
  unfold commentLength at h
  split at h
  · next rest =>
    cases h
    rw [Nat.add_comm, List.take_succ_cons, List.take_succ_cons, take_runLength]
    refine .lineComment fun hmem => ?_
    have := List.all_eq_true.mp List.all_takeWhile _ hmem
    simp at this
  · next rest =>
    obtain ⟨m, hm, rfl⟩ := Option.map_eq_some_iff.mp h
    obtain ⟨body, htake⟩ := closing_take hm
    rw [List.take_succ_cons, List.take_succ_cons, htake]
    exact .blockComment body
  · cases h

theorem exponent_take (cs : List Char) : Exponent (cs.take (exponentLength cs)) := by
  -- the sign takes up one character or none
  have key : ∀ (e : Char) (sign : Nat) (rest : List Char), (e = 'e' ∨ e = 'E') →
      (rest.take sign = [] ∨ rest.take sign = ['+'] ∨ rest.take sign = ['-']) →
      Exponent ((e :: rest).take (if (runLength isDecimalDigit (rest.drop sign) == 0) = true then 0
        else 1 + sign + runLength isDecimalDigit (rest.drop sign))) := by
    intro e sign rest he hsign
    split
    · exact .none
    · next hdigits =>
      rw [Nat.add_assoc, Nat.add_comm, List.take_succ_cons, List.take_add, take_runLength]
      exact .some he hsign (run_takeWhile (by simpa using hdigits))
  unfold exponentLength
  split
  · next e rest =>
    split
    · next he =>
      refine key e _ rest (by simpa using he) ?_
      split
      · next c rest =>
        split
        · next hc =>
          right
          simpa using hc
        · exact .inl rfl
      · exact .inl rfl
    · exact .none
  · exact .none

theorem fraction_take {cs : List Char} (h : fractionLength cs ≠ 0) :
    ∃ rest, cs = '.' :: rest ∧
      cs.take (fractionLength cs) = '.' :: rest.takeWhile isDecimalDigit := by
  unfold fractionLength at h ⊢
  split
  · next rest =>
    exact ⟨rest, rfl, by rw [Nat.add_comm, List.take_succ_cons, take_runLength]⟩
  · next hother =>
    exfalso
    split at h
    · exact hother _ rfl
    · exact h rfl

theorem mantissa_take {cs : List Char} {whole body : Nat}
    (hwhole : whole = runLength isDecimalDigit cs)
    (hbody : body = whole + fractionLength (cs.drop whole)) (h : ¬ (whole = 0 ∧ body ≤ 1)) :
    Mantissa (cs.take body) := by
  have hdigits (h : whole ≠ 0) : Run isDecimalDigit (cs.take whole) := by
    rw [hwhole, take_runLength]
    exact run_takeWhile (hwhole ▸ h)
  rw [hbody, List.take_add]
  by_cases hfraction : fractionLength (cs.drop whole) = 0
  · rw [hfraction, List.take_zero, List.append_nil]
    exact .whole (hdigits (by omega))
  · obtain ⟨rest, hrest, htake⟩ := fraction_take hfraction
    rw [htake]
    by_cases hzero : whole = 0
    · rw [hzero, List.take_zero, List.nil_append]
      refine .point (run_takeWhile fun hnone => ?_)
      rw [hrest, fractionLength, hnone] at hbody
      omega
    · exact .fraction (hdigits hzero) fun c hc => List.all_eq_true.mp List.all_takeWhile c hc

theorem terminal_of_decimalLength {cs : List Char} (h : decimalLength cs ≠ 0) :
    Terminal (.token .number) (cs.take (decimalLength cs)) := by
  unfold decimalLength at h ⊢
  simp only at h ⊢
  split
  · next hnone => rw [if_pos hnone] at h; exact absurd rfl h
  · next hsome =>
    rw [List.take_add]
    exact .decimal (mantissa_take rfl rfl (by simpa using hsome)) (exponent_take _)

/-- A number is hexadecimal if it can be, and decimal otherwise. -/
theorem numberLength_cases (cs : List Char) :
    (∃ x rest, cs = '0' :: x :: rest ∧ (x = 'x' ∨ x = 'X') ∧ runLength isHexDigit rest ≠ 0 ∧
      numberLength cs = 2 + runLength isHexDigit rest) ∨ numberLength cs = decimalLength cs := by
  unfold numberLength
  split
  · next x rest =>
    simp only
    split
    · next hhex =>
      rw [Bool.and_eq_true, Bool.or_eq_true, beq_iff_eq, beq_iff_eq, bne_iff_ne] at hhex
      exact .inl ⟨x, rest, rfl, hhex.1, hhex.2, rfl⟩
    · exact .inr rfl
  · exact .inr rfl

theorem terminal_of_numberLength {cs : List Char} (h : numberLength cs ≠ 0) :
    Terminal (.token .number) (cs.take (numberLength cs)) := by
  rcases numberLength_cases cs with ⟨x, rest, rfl, hx, hdigits, hlength⟩ | hlength
  · rw [hlength, Nat.add_comm, List.take_succ_cons, List.take_succ_cons, take_runLength]
    exact .hexadecimal hx (run_takeWhile hdigits)
  · rw [hlength] at h ⊢
    exact terminal_of_decimalLength h

/-- What is cut off is the text of a lexeme of its sort. -/
theorem terminal_of_nextLexeme {cs : List Char} {kind : LexemeKind} {n : Nat}
    (h : nextLexeme cs = some (kind, n)) : Terminal kind (cs.take n) := by
  obtain ⟨c, rest, rfl, hbegins⟩ := exists_begins h
  cases hbegins with
  | blank separator =>
    rw [take_runLength]
    exact .blank (run_takeWhile (runLength_pos separator).ne')
  | word _ name =>
    rw [take_runLength, wordKind]
    cases hw : Keyword.ofText? (String.ofList ((c :: rest).takeWhile isNamePart)) with
    | some w =>
      have htext := Keyword.text_of_ofText? hw
      rw [← String.toList_inj, String.toList_ofList] at htext
      rw [htext]
      exact .keyword w
    | none =>
      rw [List.takeWhile_cons_of_pos (isNamePart_of_isNameStart name)]
      exact .name name fun d hd => List.all_eq_true.mp List.all_takeWhile d hd
  | string quote length =>
    obtain ⟨body, htake, hbody⟩ := stringBody_take length
    rw [List.take_succ_cons, htake]
    exact .string quote hbody
  | template quote length =>
    obtain ⟨body, htake, hbody⟩ := templateBody_take length
    rw [List.take_succ_cons, htake, quote]
    exact .template hbody
  | comment _ length => exact terminal_of_commentLength length
  | number _ _ digits => exact terminal_of_numberLength digits
  | @mark m _ _ _ longest =>
    rw [Mark.take_longest? longest]
    exact .mark m

/-! ## Where nothing is cut off no lexeme begins -/

/-- What is wrong with every sort of lexeme where none is cut off. -/
structure NothingBegins (c : Char) (rest : List Char) : Prop where
  separator : isSeparator c = false
  name : isNameStart c = false
  string : c = '"' ∨ c = '\'' → stringLength c rest = none
  template : c = templateQuote → templateLength rest = none
  comment : c ≠ '"' → c ≠ '\'' → c ≠ templateQuote → commentLength (c :: rest) = none
  number : c ≠ '"' → c ≠ '\'' → c ≠ templateQuote → numberLength (c :: rest) = 0
  mark : c ≠ '"' → c ≠ '\'' → c ≠ templateQuote → Mark.longest? (c :: rest) = none

theorem nothingBegins_of_nextLexeme {c : Char} {rest : List Char}
    (h : nextLexeme (c :: rest) = none) : NothingBegins c rest := by
  have hno {kind : LexemeKind} {n : Nat} (hbegins : Begins c rest kind n) : False := by
    rw [nextLexeme_eq_some_iff.mpr hbegins] at h
    cases h
  have separator : isSeparator c = false := Bool.eq_false_iff.mpr fun h => hno (.blank h)
  have name : isNameStart c = false := Bool.eq_false_iff.mpr fun h => hno (.word separator h)
  have other (h₁ : c ≠ '"') (h₂ : c ≠ '\'') (h₃ : c ≠ templateQuote) : Unsettled c :=
    ⟨separator, name, not_or.mpr ⟨h₁, h₂⟩, h₃⟩
  have comment (other : Unsettled c) : commentLength (c :: rest) = none :=
    Option.eq_none_iff_forall_ne_some.mpr fun _ h => hno (.comment other h)
  have number (other : Unsettled c) : numberLength (c :: rest) = 0 := by
    by_contra digits
    exact hno (.number other (comment other) digits)
  exact {
    separator
    name
    string := fun quote => Option.eq_none_iff_forall_ne_some.mpr fun _ h => hno (.string quote h)
    template := fun quote =>
      Option.eq_none_iff_forall_ne_some.mpr fun _ h => hno (.template quote h)
    comment := fun h₁ h₂ h₃ => comment (other h₁ h₂ h₃)
    number := fun h₁ h₂ h₃ => number (other h₁ h₂ h₃)
    mark := fun h₁ h₂ h₃ => Option.eq_none_iff_forall_ne_some.mpr fun _ h =>
      hno (.mark (other h₁ h₂ h₃) (comment (other h₁ h₂ h₃)) (number (other h₁ h₂ h₃)) h) }

theorem StringBody.stringLength_ne_none {quote : Char} (hquote : quote = '"' ∨ quote = '\'')
    {cs : List Char} (h : StringBody quote cs) (v : List Char) :
    stringLength quote (cs ++ quote :: v) ≠ none := by
  have hescape : quote ≠ '\\' := by rcases hquote with rfl | rfl <;> decide
  induction h with
  | nil => simp [stringLength_cons hescape]
  | plain hquote hescape hline _ ih =>
    rw [List.cons_append, stringLength_cons hescape]
    simpa [hquote, hline, hescape] using ih
  | @escape c cs hline _ ih =>
    rw [List.cons_append, List.cons_append, stringLength]
    simpa [hline] using ih

theorem TemplateBody.templateLength_ne_none {cs : List Char} (h : TemplateBody cs)
    (v : List Char) : templateLength (cs ++ templateQuote :: v) ≠ none := by
  induction h with
  | nil => simp [templateLength_cons (show templateQuote ≠ '\\' by decide)]
  | plain hquote hescape _ ih =>
    rw [List.cons_append, templateLength_cons hescape]
    simpa [hquote, hescape] using ih
  | escape _ ih =>
    rw [List.cons_append, List.cons_append, templateLength]
    simpa using ih

theorem closingLength_ne_none (cs v : List Char) :
    closingLength (cs ++ '*' :: '/' :: v) ≠ none := by
  induction cs with
  | nil => simp [closingLength]
  | cons c cs ih =>
    by_cases hclose : ∃ rest, c :: (cs ++ '*' :: '/' :: v) = '*' :: '/' :: rest
    · obtain ⟨rest, hrest⟩ := hclose
      rw [List.cons_append, hrest]
      simp [closingLength]
    · rw [List.cons_append, closingLength]
      · simpa using ih
      · intro rest hc hrest
        exact hclose ⟨rest, by rw [hc, hrest]⟩

theorem runLength_ne_zero {p : Char → Bool} {digits : List Char} (h : Run p digits)
    (v : List Char) : runLength p (digits ++ v) ≠ 0 := by
  obtain ⟨hne, hall⟩ := h
  cases digits with
  | nil => exact absurd rfl hne
  | cons d digits => exact (runLength_pos (hall d (List.mem_cons_self ..))).ne'

theorem not_isDecimalDigit_point : isDecimalDigit '.' = false := by decide

theorem Mantissa.decimalLength_ne_zero {cs : List Char} (h : Mantissa cs) (v : List Char) :
    decimalLength (cs ++ v) ≠ 0 := by
  have hwhole {cs : List Char} (h : runLength isDecimalDigit cs ≠ 0) : decimalLength cs ≠ 0 := by
    unfold decimalLength
    simp only
    split
    · next hzero => exact absurd (beq_iff_eq.mp (Bool.and_eq_true _ _ ▸ hzero).1) h
    · omega
  cases h with
  | whole h => exact hwhole (runLength_ne_zero h v)
  | fraction h hmore =>
    rw [List.append_assoc]
    exact hwhole (runLength_ne_zero h _)
  | @point digits h =>
    have hzero : runLength isDecimalDigit ('.' :: (digits ++ v)) = 0 := by
      rw [runLength, List.takeWhile_cons_of_neg (by rw [not_isDecimalDigit_point]; simp)]
      rfl
    have hdigits := runLength_ne_zero h v
    rw [List.cons_append]
    unfold decimalLength
    simp only [hzero, List.drop_zero, fractionLength]
    rw [if_neg]
    · omega
    · simp
      omega

/-- No quote begins a number. -/
theorem Mantissa.first {cs : List Char} (h : Mantissa cs) :
    ∃ c rest, cs = c :: rest ∧ c ∉ ['"', '\'', templateQuote] := by
  have hdigit {c : Char} (hc : isDecimalDigit c = true) : c ∉ ['"', '\'', templateQuote] := by
    intro hmem
    simp only [List.mem_cons, List.not_mem_nil, or_false] at hmem
    rcases hmem with rfl | rfl | rfl <;> exact absurd hc (by decide)
  cases h with
  | whole h =>
    obtain ⟨c, rest, rfl⟩ := List.exists_cons_of_ne_nil h.1
    exact ⟨c, rest, rfl, hdigit (h.2 c (List.mem_cons_self ..))⟩
  | fraction h =>
    obtain ⟨c, rest, rfl⟩ := List.exists_cons_of_ne_nil h.1
    exact ⟨c, _, rfl, hdigit (h.2 c (List.mem_cons_self ..))⟩
  | point => exact ⟨'.', _, rfl, by decide⟩

theorem numberLength_ne_zero {cs : List Char} (h : decimalLength cs ≠ 0) :
    numberLength cs ≠ 0 := by
  rcases numberLength_cases cs with ⟨_, _, _, _, _, hlength⟩ | hlength
  · rw [hlength]
    omega
  · rwa [hlength]

theorem Mark.longest?_ne_none (m : Mark) (v : List Char) :
    Mark.longest? (m.text.toList ++ v) ≠ none := by
  intro h
  have hall : ∀ m : Mark, m ∈ Mark.all := by intro m; cases m <;> decide
  have := List.find?_eq_none.mp h m (hall m)
  rw [List.isPrefixOf_iff_prefix] at this
  exact this (List.prefix_append _ _)

/-- Where a text begins like a lexeme a lexeme is cut off. -/
theorem Terminal.nextLexeme_ne_none {kind : LexemeKind} {u : List Char} (h : Terminal kind u)
    (v : List Char) : nextLexeme (u ++ v) ≠ none := by
  -- no lexeme but a string or a template begins with a quote
  have hquotes {c : Char} (h : c ∉ ['"', '\'', templateQuote]) :
      c ≠ '"' ∧ c ≠ '\'' ∧ c ≠ templateQuote := by simpa using h
  cases h with
  | @blank cs h =>
    obtain ⟨c, cs, rfl⟩ := List.exists_cons_of_ne_nil h.1
    intro hnone
    have := (nothingBegins_of_nextLexeme hnone).separator
    rw [h.2 c (List.mem_cons_self ..)] at this
    cases this
  | lineComment h =>
    intro hnone
    obtain ⟨h₁, h₂, h₃⟩ := hquotes (c := '/') (by decide)
    cases (nothingBegins_of_nextLexeme hnone).comment h₁ h₂ h₃
  | blockComment cs =>
    intro hnone
    obtain ⟨h₁, h₂, h₃⟩ := hquotes (c := '/') (by decide)
    simp only [List.cons_append, List.append_assoc, List.nil_append] at hnone
    have hcomment : (closingLength (cs ++ '*' :: '/' :: v)).map (· + 2) = none :=
      (nothingBegins_of_nextLexeme hnone).comment h₁ h₂ h₃
    exact closingLength_ne_none cs v (Option.map_eq_none_iff.mp hcomment)
  | name hc h =>
    intro hnone
    have := (nothingBegins_of_nextLexeme hnone).name
    rw [hc] at this
    cases this
  | keyword w =>
    intro hnone
    obtain ⟨c, cs, htext, hc⟩ : ∃ c cs, w.text.toList = c :: cs ∧ isNameStart c = true := by
      cases w <;> exact ⟨_, _, rfl, by decide⟩
    rw [htext] at hnone
    have := (nothingBegins_of_nextLexeme hnone).name
    rw [hc] at this
    cases this
  | hexadecimal hx h =>
    intro hnone
    obtain ⟨h₁, h₂, h₃⟩ := hquotes (c := '0') (by decide)
    have hzero : Mantissa ['0'] :=
      .whole ⟨List.cons_ne_nil _ _, by simp only [List.forall_mem_singleton]; decide⟩
    exact numberLength_ne_zero (hzero.decimalLength_ne_zero _)
      ((nothingBegins_of_nextLexeme hnone).number h₁ h₂ h₃)
  | @decimal mantissa exponent hm he =>
    intro hnone
    obtain ⟨c, cs, rfl, hc⟩ := hm.first
    obtain ⟨h₁, h₂, h₃⟩ := hquotes hc
    rw [List.append_assoc] at hnone
    exact numberLength_ne_zero (hm.decimalLength_ne_zero _)
      ((nothingBegins_of_nextLexeme hnone).number h₁ h₂ h₃)
  | string hquote h =>
    intro hnone
    simp only [List.cons_append, List.append_assoc, List.nil_append] at hnone
    have := (nothingBegins_of_nextLexeme hnone).string hquote
    exact h.stringLength_ne_none hquote v this
  | template h =>
    intro hnone
    simp only [List.cons_append, List.append_assoc, List.nil_append] at hnone
    have := (nothingBegins_of_nextLexeme hnone).template rfl
    exact h.templateLength_ne_none v this
  | mark m =>
    intro hnone
    obtain ⟨c, cs, htext, hc⟩ : ∃ c cs, m.text.toList = c :: cs ∧
        c ∉ ['"', '\'', templateQuote] := by
      cases m <;> exact ⟨_, _, rfl, by decide⟩
    have hmark := m.longest?_ne_none v
    rw [htext] at hnone hmark
    obtain ⟨h₁, h₂, h₃⟩ := hquotes hc
    exact hmark ((nothingBegins_of_nextLexeme hnone).mark h₁ h₂ h₃)

/-- No lexeme is cut off exactly where no lexeme begins. -/
theorem nextLexeme_eq_none_iff {cs : List Char} :
    nextLexeme cs = none ↔ ∀ kind u v, cs = u ++ v → ¬ Terminal kind u := by
  constructor
  · rintro hnone kind u v rfl h
    exact h.nextLexeme_ne_none v hnone
  · intro h
    cases hnext : nextLexeme cs with
    | none => rfl
    | some next =>
      exact absurd (terminal_of_nextLexeme hnext) (h _ _ _ (List.take_append_drop next.2 cs).symm)

/-- The lexemes that a text is cut into are texts of their sorts. -/
theorem CutUpTo.terminal {rest cs : List Char} {ls : List Lexeme} (h : CutUpTo rest cs ls) :
    ∀ l ∈ ls, Terminal l.kind l.text := by
  induction h with
  | nil => exact fun l hl => absurd hl List.not_mem_nil
  | separator hc _ ih =>
    refine List.forall_mem_cons.mpr ⟨.blank ⟨List.cons_ne_nil _ _, ?_⟩, ih⟩
    exact List.forall_mem_singleton.mpr hc
  | lexeme next _ _ ih => exact List.forall_mem_cons.mpr ⟨terminal_of_nextLexeme next, ih⟩

/-- A text that is not cut into lexemes goes on, after some of them, with something that no lexeme
begins with. -/
theorem exists_stuck {cs : List Char} (h : ¬ ∃ ls, CutInto cs ls) :
    ∃ ls rest, cs = textOf ls ++ rest ∧ rest ≠ [] ∧ (∀ l ∈ ls, Terminal l.kind l.text) ∧
      ∀ kind u v, rest = u ++ v → ¬ Terminal kind u := by
  obtain ⟨rest, ls, hcut, hnone⟩ := exists_cutUpTo cs
  refine ⟨ls, rest, hcut.flatten_eq, ?_, hcut.terminal, nextLexeme_eq_none_iff.mp hnone⟩
  rintro rfl
  exact h ⟨ls, cutUpTo_nil_iff.mp hcut⟩

end SuperForward.Script
