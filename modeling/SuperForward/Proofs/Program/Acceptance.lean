/-
  Which texts are scripts, and what is made of them.

  A text is a script if it is cut into lexemes all the way and the grammar derives its tokens. A
  lexeme is one of the texts that its sort has, and where cutting stops no lexeme begins. There
  may be several derivations, but only one of them is greedy: it gives each `else` to the nearest
  `if`, and each `new` the member accesses and the first arguments that follow it. That one is
  read, and the nodes are made of it.
-/
import SuperForward.Proofs.Program.Parsed
import SuperForward.Proofs.Script.Lexemes
import SuperForward.Proofs.Script.Rearranging
import SuperForward.Proofs.Script.Terminals

namespace SuperForward

open SuperForward.Script

namespace Script

/-- The statements are derived by the grammar, and their tokens are those of the text. -/
structure Derivation (text : String) (statements : List Tree) : Prop where
  derives : Derives scriptParts statements
  tokens : ∃ lexemes, CutInto text.toList lexemes ∧
    Tree.tokensOfAll statements = tokensFrom .origin lexemes

namespace Derivation

variable {text : String} {xs : List Tree}

theorem scan_eq (h : Derivation text xs) :
    scan text.toList = ⟨Tree.tokensOfAll xs, .endOfText⟩ := by
  obtain ⟨lexemes, hcut, htokens⟩ := h.tokens
  rw [hcut.scan_eq, htokens]

/-- The statements that are read are a greedy derivation, and every greedy derivation is read. -/
theorem read_eq_ok_iff : Script.read text = .ok xs ↔ Derivation text xs ∧ GreedyBefore xs [] := by
  constructor
  · intro h
    obtain ⟨hstand, hending⟩ := Program.statementsStand_of_read h
    have htokens := TakesRepeated.tokens_eq (fun h => Stands.tokens_eq h) hstand
    rw [List.append_nil] at htokens
    obtain ⟨lexemes, hcut⟩ := exists_cutInto_iff.mpr hending
    refine ⟨⟨derives_scriptParts_iff.mpr (Program.mem_statements hstand), lexemes, hcut, ?_⟩, ?_⟩
    · rw [← htokens, hcut.scan_eq]
    · exact hstand.greedy (fun h => Stands.greedy h) (fun h => Stands.tokens_eq h)
  · rintro ⟨h, hgreedy⟩
    have hstand := StatementsStand.of_formable (derives_scriptParts_iff.mp h.derives) hgreedy
    have hread : readStatements (Tree.tokensOfAll xs) = .done xs [] :=
      readStatements_eq_done.mpr ⟨rfl, hstand⟩
    rw [Script.read, h.scan_eq, statementsOf, hread]

/-- Two greedy derivations of a text are the same. -/
theorem unique {ys : List Tree} (hx : Derivation text xs) (hxs : GreedyBefore xs [])
    (hy : Derivation text ys) (hys : GreedyBefore ys []) : xs = ys := by
  have hread := (read_eq_ok_iff.mpr ⟨hx, hxs⟩).symm.trans (read_eq_ok_iff.mpr ⟨hy, hys⟩)
  exact Except.ok.inj hread

/-- What has a derivation has a greedy one. -/
theorem exists_greedy (h : Derivation text xs) :
    ∃ ys, Derivation text ys ∧ GreedyBefore ys [] := by
  obtain ⟨ys, hys, hgreedy, htokens⟩ :=
    exists_greedy_statements (derives_scriptParts_iff.mp h.derives)
  obtain ⟨lexemes, hcut, hlexemes⟩ := h.tokens
  exact ⟨ys, ⟨derives_scriptParts_iff.mpr hys, lexemes, hcut, htokens.trans hlexemes⟩, hgreedy⟩

end Derivation

end Script

namespace Program

/-- A text is added exactly if the grammar derives it. Then it has one greedy derivation, the
script is made of that one, and it shows its statements: the nodes below it are as the rules
say, and each is younger than its children. The lexemes that the text is cut into are texts of
their sorts, and a text is not cut into lexemes only where none begins. -/
theorem addText_eq_ok_iff (p : Program) (path text : String) :
    ((∃ r, p.addText path text = .ok r) ↔ ∃ statements, Derivation text statements) ∧
    (∀ r, p.addText path text = .ok r →
      ∃ statements, Derivation text statements ∧ GreedyBefore statements [] ∧
        (∀ others, Derivation text others → GreedyBefore others [] → others = statements) ∧
        r = p.addScript path text.length statements ∧
        ∀ scripts, p.Composed scripts →
          r.1.Composed (scripts ++ [scriptSketch path text.length statements])) ∧
    (∀ lexemes, CutInto text.toList lexemes →
      textOf lexemes = text.toList ∧ ∀ l ∈ lexemes, Terminal l.kind l.text) ∧
    ((¬ ∃ lexemes, CutInto text.toList lexemes) →
      ∃ lexemes rest, text.toList = textOf lexemes ++ rest ∧ rest ≠ [] ∧
        (∀ l ∈ lexemes, Terminal l.kind l.text) ∧
        ∀ kind u v, rest = u ++ v → ¬ Terminal kind u) := by
  have hadd {statements : List Tree} (h : Script.read text = .ok statements) :
      p.addText path text = .ok (p.addScript path text.length statements) := by
    rw [addText, h]
  refine ⟨?_, ?_, fun lexemes hcut => ?_, exists_stuck⟩
  · constructor
    · rintro ⟨r, hr⟩
      cases hread : Script.read text with
      | ok statements => exact ⟨statements, (Derivation.read_eq_ok_iff.mp hread).1⟩
      | error e => rw [addText, hread] at hr; cases hr
    · rintro ⟨statements, h⟩
      obtain ⟨ys, hys, hgreedy⟩ := h.exists_greedy
      exact ⟨_, hadd (Derivation.read_eq_ok_iff.mpr ⟨hys, hgreedy⟩)⟩
  · intro r hr
    cases hread : Script.read text with
    | error e => rw [addText, hread] at hr; cases hr
    | ok statements =>
      rw [hadd hread] at hr
      cases hr
      obtain ⟨h, hgreedy⟩ := Derivation.read_eq_ok_iff.mp hread
      exact ⟨statements, h, hgreedy, fun others ho hog => ho.unique hog h hgreedy, rfl,
        fun scripts hp => hp.addScript path text.length statements⟩
  · exact ⟨hcut.flatten_eq, (cutUpTo_nil_iff.mpr hcut).terminal⟩

end Program

end SuperForward
