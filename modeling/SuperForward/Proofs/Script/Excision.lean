/-
  Lexemes of a text that parts are cut out of.

  Where what stands before a cut is closed in itself (a separator, a mark that statements begin
  after, or a comment between delimiters), the lexemes before the cut and those after it are the
  lexemes of what is left.
-/
import SuperForward.Proofs.Cutting
import SuperForward.Proofs.Script.Locality
import SuperForward.Proofs.Script.Phrase

namespace SuperForward.Script

open SuperForward.Text (woven kept)

/-- The text of some lexemes. -/
abbrev textOf (ls : List Lexeme) : List Char := ls.flatMap Lexeme.text

/-! ## Lexemes that are closed in themselves -/

namespace Lexeme

/-- A lexeme that ends where it ends, whatever comes after it. -/
inductive Closed : Lexeme → Prop
  | separator {c : Char} (h : isSeparator c = true) : Closed (.separator c)
  | boundary {m : Mark} (h : m.isBoundary = true) : Closed ⟨.token (.mark m), m.text.toList⟩
  | comment {body : List Char} (h : closingLength body = some body.length) :
      Closed ⟨.comment, '/' :: '*' :: body⟩

/-- A closed lexeme begins with a stopper. -/
theorem Closed.exists_stopper {l : Lexeme} (h : l.Closed) :
    ∃ e cs, l.text = e :: cs ∧ e ∈ stoppers := by
  cases h with
  | @separator c h => exact ⟨c, [], rfl, mem_stoppers_of_isSeparator h⟩
  | @boundary m h =>
    rcases Mark.eq_of_isBoundary h with rfl | rfl | rfl | rfl <;>
      exact ⟨_, [], rfl, by decide⟩
  | comment => exact ⟨'/', _, rfl, by decide⟩

/-- A comment that ends with its text ends with a slash. -/
theorem getLast?_of_closingLength {body : List Char} (h : closingLength body = some body.length) :
    ∃ cs, body = cs ++ ['/'] := by
  fun_induction closingLength body with
  | case1 rest =>
    obtain rfl : rest = [] := by
      rw [← List.length_eq_zero_iff]
      simpa using h
    exact ⟨['*'], rfl⟩
  | case2 c rest _ ih =>
    obtain ⟨m, hm, heq⟩ := Option.map_eq_some_iff.mp h
    simp only [List.length_cons, Nat.add_right_cancel_iff] at heq
    obtain ⟨cs, rfl⟩ := ih (heq ▸ hm)
    exact ⟨c :: cs, rfl⟩
  | case3 => cases h

/-- No comment is closed by the last character of a closed lexeme and what comes after it. -/
theorem Closed.getLast?_ne {l : Lexeme} (h : l.Closed) : ∀ c ∈ l.text.getLast?, c ≠ '*' := by
  intro c hc
  cases h with
  | @separator d h =>
    cases hc
    rintro rfl
    revert h
    decide
  | @boundary m h =>
    rcases Mark.eq_of_isBoundary h with rfl | rfl | rfl | rfl <;> cases hc <;> decide
  | comment h =>
    obtain ⟨cs, rfl⟩ := getLast?_of_closingLength h
    rw [← List.cons_append, ← List.cons_append, List.getLast?_concat] at hc
    cases hc
    decide

end Lexeme

/-! ## Lexemes one by one -/

/-- The first lexeme of a text is a separator, or what the text begins with. -/
theorem CutInto.cons_inv {cs : List Char} {l : Lexeme} {ls : List Lexeme}
    (h : CutInto cs (l :: ls)) :
    (∃ c rest, cs = c :: rest ∧ isSeparator c = true ∧ l = .separator c ∧ CutInto rest ls) ∨
      ∃ kind n, nextLexeme cs = some (kind, n) ∧ kind ≠ .blank ∧ l = ⟨kind, cs.take n⟩ ∧
        CutInto (cs.drop n) ls := by
  cases h with
  | separator h after => exact .inl ⟨_, _, rfl, h, rfl, after⟩
  | lexeme next nonblank after => exact .inr ⟨_, _, next, nonblank, rfl, after⟩

/-- What comes after the first lexeme of a text is cut as before. -/
theorem CutInto.tail {l : Lexeme} {ls : List Lexeme} {cs : List Char} (h : CutInto cs (l :: ls)) :
    CutInto (textOf ls) ls := by
  rcases h.cons_inv with ⟨c, rest, -, -, -, h⟩ | ⟨kind, n, -, -, -, h⟩
  · rwa [textOf, h.flatten_eq]
  · rwa [textOf, h.flatten_eq]

theorem CutInto.of_append {as bs : List Lexeme} {cs : List Char} (h : CutInto cs (as ++ bs)) :
    CutInto (textOf bs) bs := by
  induction as generalizing cs with
  | nil =>
    rw [List.nil_append] at h
    rwa [textOf, h.flatten_eq]
  | cons a as ih => exact ih h.tail

/-- What a text begins with is its first lexeme. -/
theorem CutInto.of_next {l : Lexeme} {cs : List Char} {ls : List Lexeme}
    (next : nextLexeme (l.text ++ cs) = some (l.kind, l.text.length)) (nonblank : l.kind ≠ .blank)
    (h : CutInto cs ls) : CutInto (l.text ++ cs) (l :: ls) := by
  have hrest : CutInto ((l.text ++ cs).drop l.text.length) ls := by rwa [List.drop_left]
  have hcut := CutInto.lexeme next nonblank hrest
  rwa [List.take_left] at hcut

/-- A closed lexeme is cut off whatever comes after it. -/
theorem Lexeme.Closed.cutInto {l : Lexeme} (h : l.Closed) {cs : List Char} {ls : List Lexeme}
    (hls : CutInto cs ls) : CutInto (l.text ++ cs) (l :: ls) := by
  cases h with
  | separator h => exact .separator h hls
  | @boundary m h =>
    have hnext : nextLexeme (m.text.toList ++ cs)
        = some (.token (.mark m), m.text.toList.length) := by
      rcases Mark.eq_of_isBoundary h with rfl | rfl | rfl | rfl <;> rfl
    exact .of_next hnext (by simp) hls
  | @comment body h =>
    have hcomment : commentLength ('/' :: '*' :: body ++ cs)
        = some ('/' :: '*' :: body).length := by
      have hclose := closingLength_exchange (v := []) (w := cs) (by rwa [List.append_nil])
        (Nat.le_refl body.length)
      rw [List.cons_append, List.cons_append, commentLength, hclose]
      rfl
    have hnext : nextLexeme ('/' :: '*' :: body ++ cs)
        = some (.comment, ('/' :: '*' :: body).length) :=
      nextLexeme_eq_some_iff.mpr (.comment ⟨rfl, rfl, by decide, by decide⟩ hcomment)
    exact .of_next hnext (by simp) hls

/-! ## Exchanging what comes after -/

/-- A comment that is open stays open if what comes after does not close it. -/
theorem closingLength_append_eq_none {u v w : List Char} (hlast : ∀ c ∈ u.getLast?, c ≠ '*')
    (hopen : closingLength v = none → closingLength w = none)
    (h : closingLength (u ++ v) = none) : closingLength (u ++ w) = none := by
  rcases List.eq_nil_or_concat u with rfl | ⟨u, e, rfl⟩
  · exact hopen h
  · simp only [List.concat_eq_append, List.append_assoc, List.singleton_append] at h ⊢
    exact closingLength_eq_none_exchange (hlast e (by simp)) hopen h

/-- Some lexemes are closed where they end. -/
def ClosedEnd (ls : List Lexeme) : Prop := ∀ l ∈ ls.getLast?, l.Closed

/-- What comes after lexemes with a closed end can be exchanged. -/
theorem CutInto.exchange {as bs cs : List Lexeme} {v w : List Char} (hend : ClosedEnd as)
    (hopen : closingLength v = none → closingLength w = none)
    (h : CutInto (textOf as ++ v) (as ++ bs)) (hcs : CutInto w cs) :
    CutInto (textOf as ++ w) (as ++ cs) := by
  induction as with
  | nil => exact hcs
  | cons a as ih =>
    rcases List.eq_nil_or_concat as with rfl | ⟨as', l, rfl⟩
    · -- the last lexeme is closed
      have hclosed : a.Closed := hend a rfl
      rw [textOf, List.flatMap_singleton]
      exact hclosed.cutInto hcs
    · have hlast : ClosedEnd (as'.concat l) := by
        intro m hm
        refine hend m ?_
        rw [List.getLast?_cons]
        simpa using hm
      have hl : l.Closed := hlast l (by simp)
      obtain ⟨e, ds, htext, hstop⟩ := hl.exists_stopper
      have hsplit : textOf (a :: as'.concat l) = a.text ++ textOf as' ++ e :: ds := by
        rw [textOf, List.flatMap_cons, List.concat_eq_append, List.flatMap_append,
          List.flatMap_singleton, htext, List.append_assoc]
      -- what closes a comment would have to stand after the closed lexeme
      have hopen' : closingLength (ds ++ v) = none → closingLength (ds ++ w) = none := by
        refine closingLength_append_eq_none (fun c hc => hl.getLast?_ne c ?_) hopen
        rw [htext, List.getLast?_cons, Option.mem_def.mp hc]
        rfl
      have hrest (x : List Char) : textOf (a :: as'.concat l) ++ x
          = a.text ++ (textOf (as'.concat l) ++ x) := by
        rw [textOf, List.flatMap_cons, List.append_assoc]
      rw [hrest] at h ⊢
      rcases h.cons_inv with ⟨c, rest, heq, hc, rfl, h⟩ | ⟨kind, n, next, nonblank, ha, h⟩
      · cases heq
        exact .separator hc (ih hlast h)
      · obtain ⟨hpos, hle⟩ := nextLexeme_bounds next
        have hn : a.text.length = n := by
          rw [ha, List.length_take]
          exact Nat.min_eq_left hle
        have hkind : a.kind = kind := by rw [ha]
        subst hn hkind
        rw [List.drop_left] at h
        refine .of_next ?_ nonblank (ih hlast h)
        rw [← hrest, hsplit, List.append_assoc, List.cons_append]
        rw [← hrest, hsplit, List.append_assoc, List.cons_append] at next
        refine nextLexeme_exchange ?_ hstop hopen' next (by simp)
        intro hnil
        rw [(List.append_eq_nil_iff.mp hnil).1] at hpos
        exact Nat.lt_irrefl 0 hpos

/-- A comment that is open stays open when parts are cut out after closed ends, and what is kept
are the lexemes of what is left. -/
theorem CutInto.kept {turns : List (List Lexeme × List Lexeme)} {last : List Lexeme}
    (hends : ∀ t ∈ turns, ClosedEnd t.1) {cs : List Char} (h : CutInto cs (woven turns last)) :
    CutInto (textOf (kept turns last)) (Text.kept turns last) ∧
      (closingLength cs = none → closingLength (textOf (Text.kept turns last)) = none) := by
  -- from the end: what follows a cut is cut into lexemes already, and the closed end goes in
  -- front
  induction turns generalizing cs with
  | nil =>
    rw [woven] at h
    rw [Text.kept, textOf, h.flatten_eq]
    exact ⟨h, id⟩
  | cons t turns ih =>
    obtain ⟨a, m⟩ := t
    rw [woven] at h
    have hends' := fun t ht => hends t (List.mem_cons_of_mem _ ht)
    obtain ⟨hkept, hopen⟩ := ih hends' h.of_append.of_append
    have hcs : textOf a ++ textOf (m ++ woven turns last) = cs := by
      rw [← h.flatten_eq, textOf, textOf, ← List.flatMap_append]
    have hopen' : closingLength (textOf (m ++ woven turns last)) = none →
        closingLength (textOf (Text.kept turns last)) = none := by
      intro hnone
      rw [textOf, List.flatMap_append] at hnone
      exact hopen (closingLength_eq_none_of_append hnone)
    have ha : ClosedEnd a := hends (a, m) (List.mem_cons_self ..)
    have htext : textOf (Text.kept ((a, m) :: turns) last)
        = textOf a ++ textOf (Text.kept turns last) := by
      rw [Text.kept, textOf, List.flatMap_append]
    rw [← hcs] at h ⊢
    rw [htext]
    refine ⟨h.exchange ha hopen' hkept, closingLength_append_eq_none ?_ hopen'⟩
    intro c hc
    rcases List.eq_nil_or_concat a with rfl | ⟨a, l, rfl⟩
    · cases hc
    · have hl : l.Closed := ha l (by simp)
      obtain ⟨e, ds, htext, -⟩ := hl.exists_stopper
      refine hl.getLast?_ne c ?_
      rw [textOf, List.concat_eq_append, List.flatMap_append, List.flatMap_singleton,
        List.getLast?_append_of_ne_nil _ (by rw [htext]; simp)] at hc
      exact hc

end SuperForward.Script
