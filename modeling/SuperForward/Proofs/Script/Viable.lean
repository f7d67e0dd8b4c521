/-
  Reading stops at the first token that no program goes on with.

  Tokens are viable if a program begins with them. Those before the token where reading is stuck
  are, because what has been read can be completed; with that token they are not, because a
  program that began with them would have been read past it.
-/
import SuperForward.Proofs.Script.Lookahead

namespace SuperForward.Script

/-- The grammar derives statements with just these tokens. -/
def IsProgram (ts : List Token) : Prop :=
  ∃ statements, Derives scriptParts statements ∧ Tree.tokensOfAll statements = ts

/-- The tokens can be continued to those of a program. -/
def Viable (ts : List Token) : Prop := ∃ more, IsProgram (ts ++ more)

theorem isProgram_of_yields {xs : List Tree} {ts : List Token}
    (h : Yields ((Item.repeated [.phrase .statement]).Fits Formable) xs ts) : IsProgram ts :=
  ⟨xs, derives_scriptParts_iff.mpr (Item.fits_repeated.mp h.1), h.2⟩

/-- The statements of a program are read. -/
theorem IsProgram.exists_read {ts : List Token} (h : IsProgram ts) :
    ∃ xs, readStatements ts = .done xs [] := by
  obtain ⟨statements, hderives, rfl⟩ := h
  obtain ⟨xs, hxs, hgreedy, htokens⟩ :=
    exists_greedy_statements (derives_scriptParts_iff.mp hderives)
  refine ⟨xs, readStatements_eq_done.mpr ⟨rfl, ?_⟩⟩
  rw [← htokens]
  exact StatementsStand.of_formable hxs hgreedy

/-- How statements are read, one after the other. -/
def readEach (ts : List Token) : Reader (List Tree) :=
  Reader.repeated (Reader.phrase (depthBound ts)) [.phrase .statement] ts.length

theorem readStatements_eq (ts : List Token) :
    readStatements ts = match readEach ts ts with
      | .done xs [] => .done xs []
      | .done _ rest => .stuck rest
      | .stuck rest => .stuck rest := rfl

theorem readEach_of_stuck {ts rest : List Token} (h : readStatements ts = .stuck rest) :
    (readEach ts ts).rest = rest := by
  rw [readStatements_eq] at h
  split at h
  · cases h
  · next hread =>
    cases h
    rw [hread]
    rfl
  · next hread =>
    cases h
    rw [hread]
    rfl

theorem readEach_of_done {ts : List Token} {xs : List Tree} (h : readStatements ts = .done xs []) :
    readEach ts ts = .done xs [] := by
  rw [readStatements_eq] at h
  split at h
  · next hread => cases h; exact hread
  · cases h
  · cases h

/-- A program begins with the tokens before the one where reading is stuck. -/
theorem viable_of_stuck {ts rest : List Token} (h : readStatements ts = .stuck rest) :
    ∃ p, ts = p ++ rest ∧ Viable p := by
  have hcompletable : (readEach ts ts).Completable _ ts :=
    Reader.completable_repeated (Reader.completable_phrase _) [.phrase .statement] _ ts
  rw [← readEach_of_stuck h]
  generalize readEach ts ts = o at hcompletable
  cases hcompletable with
  | @done xs p rest tokens hxs =>
    refine ⟨p, tokens, [], ?_⟩
    rw [List.append_nil]
    exact isProgram_of_yields hxs
  | stuck tokens hxs => exact ⟨_, tokens, _, isProgram_of_yields hxs⟩

/-- No program begins with the tokens up to and including the one where reading is stuck. -/
theorem not_viable_of_stuck {p m : List Token} {t : Token}
    (h : readStatements (p ++ t :: m) = .stuck (t :: m)) : ¬ Viable (p ++ [t]) := by
  rintro ⟨m', hprogram⟩
  rw [List.append_assoc, List.singleton_append] at hprogram
  obtain ⟨xs, hread⟩ := hprogram.exists_read
  have hrest := readEach_of_stuck h
  have hdone := readEach_of_done hread
  have hdepth (m : List Token) : 4 * (p.length + 1) + 4 ≤ depthBound (p ++ t :: m) := by
    rw [depthBound, List.length_append, List.length_cons]
    omega
  have hturns (m : List Token) : p.length < (p ++ t :: m).length := by
    rw [List.length_append, List.length_cons]
    omega
  -- whatever comes after the token, the readers go alike up to it
  have halike : Outcome.Alike t m m' (readEach (p ++ t :: m) (p ++ t :: m))
      (readEach (p ++ t :: m') (p ++ t :: m')) := by
    have hphrase {c : Category} {q : List Token} {u : Token} {n n' : List Token}
        (hl : 4 * q.length + c.level ≤ 4 * p.length + 4) :
        Outcome.Alike u n n' (Reader.phrase (depthBound (p ++ t :: m)) c (q ++ u :: n))
          (Reader.phrase (depthBound (p ++ t :: m')) c (q ++ u :: n')) := by
      have := hdepth m
      have := hdepth m'
      exact Reader.alike_phrase (by omega) (by omega)
    exact Reader.alike_repeated (Reader.completable_phrase _) (Reader.completable_phrase _) hphrase
      (by simp) (hturns m) (hturns m') (Nat.add_le_add_left (partsLevel_le _) _)
  rw [hdone] at halike
  generalize readEach (p ++ t :: m) (p ++ t :: m) = o at hrest halike
  generalize ho' : (Outcome.done xs [] : Outcome (List Tree)) = o' at halike
  -- a program is read to its end, so the reader would have passed the token, where it was stuck
  cases halike with
  | done q =>
    obtain ⟨-, hnil⟩ := Outcome.done.inj ho'
    exact absurd hnil.symm (by simp)
  | stuck q => cases ho'
  | past hpast _ =>
    rw [hrest] at hpast
    have := hpast.length_le
    rw [List.length_cons] at this
    omega

/-- Tokens that are read to their end without being a program are not one. -/
theorem not_isProgram_of_stuck {ts rest : List Token} (h : readStatements ts = .stuck rest) :
    ¬ IsProgram ts := by
  intro hprogram
  obtain ⟨xs, hread⟩ := hprogram.exists_read
  rw [h] at hread
  cases hread

/-- What is read is a program. -/
theorem isProgram_of_done {ts rest : List Token} {xs : List Tree}
    (h : readStatements ts = .done xs rest) : IsProgram ts := by
  obtain ⟨rfl, hstand⟩ := readStatements_eq_done.mp h
  have htokens := TakesRepeated.tokens_eq (fun h => Stands.tokens_eq h) hstand
  rw [List.append_nil] at htokens
  exact isProgram_of_yields
    ⟨(TakesItem.repeated hstand).fits fun _ _ _ _ h => Stands.formable h, htokens.symm⟩

end SuperForward.Script
