/-
  Errors point at the first place where a script goes wrong.

  A script that is refused is refused at a token with which it stops being the beginning of a
  program, at a character that begins no lexeme, or at its end, where it is not yet a program.
  What comes before that place is always the beginning of a program.
-/
import SuperForward.Proofs.Script.Alike
import SuperForward.Proofs.Script.Terminals
import SuperForward.Proofs.Script.Viable
import SuperForward.Program.OfText

namespace SuperForward

/-! ## Places -/

namespace Text

/-- The place of an offset in a text: its line counts the line feeds before it, and its column
the characters since the last of them, both from one. -/
def placeAt (text : List Char) (offset : Nat) : Position :=
  ⟨1 + (text.take offset).count '\n',
    1 + ((text.take offset).reverse.takeWhile (· != '\n')).length⟩

theorem Position.advance_origin (cs : List Char) :
    Position.origin.advance cs
      = ⟨1 + cs.count '\n', 1 + (cs.reverse.takeWhile (· != '\n')).length⟩ := by
  induction cs using List.reverseRecOn with
  | nil => rfl
  | append_singleton cs c ih =>
    have hstep : (Position.origin.advance cs).advance [c] = (Position.origin.advance cs).step c :=
      rfl
    rw [Position.advance_append, hstep, ih, List.reverse_concat, List.count_append]
    by_cases hc : c = '\n'
    · simp [step, hc, Nat.add_assoc]
    · simp [step, hc]
      omega

end Text

namespace Script

open SuperForward.Text (Position placeAt)

theorem place_after (s : Spot) (ls : List Lexeme) :
    (s.after ls).place = s.place.advance (ls.flatMap Lexeme.text) := by
  induction ls generalizing s with
  | nil => rfl
  | cons l ls ih =>
    have hcons : s.after (l :: ls) = (s.next l).after ls := rfl
    rw [hcons, ih, List.flatMap_cons, Position.advance_append]
    rfl

/-- Lexemes of a text end where their characters do. -/
theorem place_after_origin {text rest : List Char} {ls : List Lexeme}
    (htext : text = ls.flatMap Lexeme.text ++ rest) :
    (Spot.origin.after ls).place = placeAt text (Spot.origin.after ls).offset := by
  have hoffset : (Spot.origin.after ls).offset = (ls.flatMap Lexeme.text).length := by
    rw [Spot.offset_after]
    exact Nat.zero_add _
  rw [place_after, hoffset, placeAt, htext, List.take_left']
  · exact Position.advance_origin _
  · rfl

/-- A token stands where it begins. -/
theorem place_of_mem_tokensFrom {text rest : List Char} {ls : List Lexeme}
    (htext : text = ls.flatMap Lexeme.text ++ rest) {t : Token} (ht : t ∈ tokensFrom .origin ls) :
    t.place = placeAt text t.start := by
  obtain ⟨as, bs, htokens⟩ := List.append_of_mem ht
  obtain ⟨la, l, lb, rfl, -, -, heq, -⟩ := exists_lexeme htokens
  have hsplit : text = la.flatMap Lexeme.text ++ (l.text ++ (lb.flatMap Lexeme.text ++ rest)) := by
    rw [htext]
    simp
  rw [heq]
  exact place_after_origin hsplit

/-! ## Errors -/

/-- The error shows where the text stops being the beginning of a program. -/
inductive Error.PointsAtFault (text : List Char) : Error → Prop
  /-- No program goes on with the token. -/
  | token {before after : List Token} {t : Token}
      (tokens : (scan text).tokens = before ++ t :: after) (viable : Viable before)
      (stuck : ¬ Viable (before ++ [t])) :
      PointsAtFault text ⟨placeAt text t.start, .unexpectedToken t.text⟩
  /-- No lexeme begins with the character. -/
  | character {before rest : List Char} {c : Char} {lexemes : List Lexeme}
      (splits : text = before ++ c :: rest) (cut : CutUpTo (c :: rest) text lexemes)
      (nothing : ∀ kind u v, c :: rest = u ++ v → ¬ Terminal kind u)
      (viable : Viable (tokensFrom .origin lexemes)) :
      PointsAtFault text ⟨placeAt text before.length, .unexpectedCharacter c⟩
  /-- The text ends before the program does. -/
  | ending {lexemes : List Lexeme} {before : List Token} {t : Token} (cut : CutInto text lexemes)
      (tokens : tokensFrom .origin lexemes = before ++ [t])
      (incomplete : ¬ IsProgram (before ++ [t])) (viable : Viable (before ++ [t])) :
      PointsAtFault text ⟨placeAt text t.start, .unexpectedEnd⟩

theorem isProgram_nil : IsProgram [] := ⟨[], .stop .nil, rfl⟩

theorem viable_of_isProgram {ts : List Token} (h : IsProgram ts) : Viable ts :=
  ⟨[], by rwa [List.append_nil]⟩

/-- Where all the tokens fit, what comes after them is wrong. -/
theorem pointsAtFault_of_left {text : List Char} {rest : List Char} {lexemes : List Lexeme}
    (hcut : CutUpTo rest text lexemes) (hnone : nextLexeme rest = none)
    (hviable : Viable (tokensFrom .origin lexemes))
    (hprogram : rest = [] → ¬ IsProgram (tokensFrom .origin lexemes)) :
    (scan text).endError.PointsAtFault text := by
  cases rest with
  | nil =>
    have hcut := cutUpTo_nil_iff.mp hcut
    have hprogram := hprogram rfl
    obtain hnil | ⟨before, t, htokens⟩ := List.eq_nil_or_concat' (tokensFrom .origin lexemes)
    · rw [hnil] at hprogram
      exact absurd isProgram_nil hprogram
    have hmem : t ∈ tokensFrom .origin lexemes := by simp [htokens]
    have htext : text = lexemes.flatMap Lexeme.text ++ [] := by
      rw [List.append_nil, hcut.flatten_eq]
    have hplace := place_of_mem_tokensFrom htext hmem
    rw [hcut.scan_eq]
    have herror : (⟨tokensFrom .origin lexemes, .endOfText⟩ : Scan).endError
        = ⟨placeAt text t.start, .unexpectedEnd⟩ := by
      rw [← hplace, htokens]
      simp [Scan.endError, lastPlace]
    rw [herror]
    rw [htokens] at hprogram hviable
    exact .ending hcut htokens hprogram hviable
  | cons c rest =>
    rw [hcut.scan_eq hnone]
    have hplace := place_after_origin hcut.flatten_eq
    rw [Spot.offset_after, Spot.origin, Nat.zero_add] at hplace
    show Error.PointsAtFault text ⟨(Spot.origin.after lexemes).place, .unexpectedCharacter c⟩
    rw [Spot.origin, hplace]
    exact .character hcut.flatten_eq hcut (nextLexeme_eq_none_iff.mp hnone) hviable

/-- A text that is refused is refused at the first place where it goes wrong. -/
theorem pointsAtFault_of_read {text : String} {e : Error} (h : Script.read text = .error e) :
    e.PointsAtFault text.toList := by
  obtain ⟨rest, lexemes, hcut, hnone⟩ := exists_cutUpTo text.toList
  have htokens : (scan text.toList).tokens = tokensFrom .origin lexemes := by
    cases rest with
    | nil => rw [(cutUpTo_nil_iff.mp hcut).scan_eq]
    | cons c rest => rw [hcut.scan_eq hnone]
  rw [Script.read, statementsOf] at h
  -- the grammar takes all tokens, and then the text goes wrong where the lexer stopped, or it is
  -- stuck: at the end of the tokens, which is that place again, or at a token
  cases hread : readStatements (scan text.toList).tokens with
  | done statements left =>
    have hprogram := isProgram_of_done hread
    rw [htokens] at hprogram
    cases rest with
    | nil =>
      rw [hread, (cutUpTo_nil_iff.mp hcut).scan_eq] at h
      cases h
    | cons c rest =>
      have hleft := pointsAtFault_of_left hcut hnone (viable_of_isProgram hprogram)
        (fun hnil => nomatch hnil)
      rw [hread] at h
      rw [hcut.scan_eq hnone] at h hleft
      cases h
      exact hleft
  | stuck left =>
    obtain ⟨before, hbefore, hviable⟩ := viable_of_stuck hread
    cases left with
    | nil =>
      rw [List.append_nil] at hbefore
      rw [hread] at h
      cases h
      refine pointsAtFault_of_left hcut hnone (htokens ▸ hbefore ▸ hviable) fun _ => ?_
      rw [← htokens]
      exact not_isProgram_of_stuck hread
    | cons t after =>
      rw [hread] at h
      cases h
      have hmem : t ∈ tokensFrom .origin lexemes := by
        rw [← htokens, hbefore]
        simp
      rw [place_of_mem_tokensFrom hcut.flatten_eq hmem]
      rw [hbefore] at hread
      exact .token hbefore hviable (not_viable_of_stuck hread)

end Script

namespace Program

open SuperForward.Script

/-- A script is refused under its path, and the error points at the first place where its text
stops being the beginning of a program. -/
theorem pointsAtFault_of_addText {p : Program} {path text : String} {refusal : Refusal}
    (h : p.addText path text = .error refusal) :
    refusal.path = path ∧ refusal.error.PointsAtFault text.toList := by
  unfold addText at h
  split at h
  · cases h
  · next hread =>
    cases h
    exact ⟨rfl, pointsAtFault_of_read hread⟩

/-- A brace that closes nothing is refused where it stands. -/
theorem pointsAtFault_of_brace :
    Program.empty.addText "a.js" "a;\n\x7d"
        = .error ⟨"a.js", ⟨⟨2, 1⟩, .unexpectedToken "\x7d"⟩⟩ ∧
      (⟨⟨2, 1⟩, .unexpectedToken "\x7d"⟩ : Script.Error).PointsAtFault "a;\n\x7d".toList :=
  have h : Program.empty.addText "a.js" "a;\n\x7d"
      = .error ⟨"a.js", ⟨⟨2, 1⟩, .unexpectedToken "\x7d"⟩⟩ := rfl
  ⟨h, (pointsAtFault_of_addText h).2⟩

end Program

end SuperForward
