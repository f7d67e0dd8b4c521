/-
  Scripts with spacing put in.

  In a script a slash is followed by an operand. So no slash stands directly before a star, and
  spacing between two lexemes leaves all the others as they are: the tokens keep their kinds,
  their texts and the documentation before them, and the script is read as before.
-/
import SuperForward.Proofs.Script.Accepting
import SuperForward.Proofs.Script.Excised
import SuperForward.Proofs.Script.Spacing

namespace SuperForward.Script

/-! ## Slashes -/

/-- An operand comes after every slash. -/
def Divides : List Token → Prop
  | [] => True
  | t :: ts => (t.kind = .mark .slash → ∃ u ∈ ts.head?, Category.operand.startsWith u.kind = true) ∧
    Divides ts

theorem Divides.append {ts us : List Token} (hts : Divides ts) (hus : Divides us) :
    Divides (ts ++ us) := by
  induction ts with
  | nil => exact hus
  | cons t ts ih =>
    refine ⟨fun ht => ?_, ih hts.2⟩
    obtain ⟨u, hu, hstarts⟩ := hts.1 ht
    refine ⟨u, ?_, hstarts⟩
    show u ∈ (ts ++ us).head?
    rw [List.head?_append, Option.mem_def.mp hu]
    rfl

theorem Divides.of_append {ts us : List Token} (h : Divides (ts ++ us)) : Divides us := by
  induction ts with
  | nil => exact h
  | cons t ts ih => exact ih h.2

theorem divides_tokensOfAll {xs : List Tree} (h : ∀ x ∈ xs, Divides x.tokens) :
    Divides (Tree.tokensOfAll xs) := by
  induction xs with
  | nil => trivial
  | cons x xs ih =>
    obtain ⟨hx, hxs⟩ := List.forall_mem_cons.mp h
    exact hx.append (ih hxs)

theorem divides_flatten {groups : List (List Tree)}
    (h : ∀ g ∈ groups, Divides (Tree.tokensOfAll g)) :
    Divides (Tree.tokensOfAll groups.flatten) := by
  induction groups with
  | nil => trivial
  | cons g groups ih =>
    obtain ⟨hg, hgroups⟩ := List.forall_mem_cons.mp h
    rw [List.flatten_cons, Tree.tokensOfAll_append]
    exact hg.append (ih hgroups)

/-- A slash is a phrase only where an operator between operands is asked for. -/
theorem Category.not_slash {c : Category} (hc : c ≠ .binaryOperator) {kind : TokenKind}
    (h : c.acceptsToken kind = true) : kind ≠ .mark .slash := by
  rintro rfl
  cases c <;> first | (exact hc rfl) | cases h

/-- No rule but that of operators between operands asks for one. -/
theorem Rule.asks_no_operator {r : Rule} (hr : r ≠ .binaryExpression) :
    ∀ p ∈ r.items.flatMap Item.asks, p ≠ .token (.mark .slash) ∧ p ≠ .phrase .binaryOperator := by
  cases r <;> first | exact absurd rfl hr | decide

/-- An operator and the operand after it. -/
theorem divides_of_operation {depth : Nat} {ys : List Tree}
    (h : partsFit (Formed depth) [.phrase .binaryOperator, .phrase .operand] ys)
    (hoperand : ∀ x, Formed depth .operand x → Divides x.tokens) :
    Divides (Tree.tokensOfAll ys) := by
  obtain ⟨y, _, rfl, hy, z, _, rfl, hz, rfl⟩ := h
  obtain ⟨t, rfl, -⟩ := Formable.eq_leaf ⟨depth, hy⟩ rfl rfl rfl
  obtain ⟨u, us, htokens, hstarts⟩ := Formed.first hz
  have hz' := divides_tokensOfAll (List.forall_mem_singleton.mpr (hoperand z hz))
  refine ⟨fun _ => ⟨u, ?_, hstarts⟩, hz'⟩
  rw [Tree.tokensOfAll, htokens]
  rfl

theorem Formed.divides {depth : Nat} {c : Category} {x : Tree} (h : Formed depth c x)
    (hc : c ≠ .binaryOperator) : Divides x.tokens := by
  -- on the depth; every rule but one asks for phrases and tokens that have their operands
  -- themselves
  induction depth generalizing c x with
  | zero => exact h.elim
  | succ depth ih =>
    have hparts {r : Rule} (hr : r ≠ .binaryExpression) {xs : List Tree}
        (hxs : itemsFit (Formed depth) r.items xs) : ∀ y ∈ xs, Divides y.tokens := by
      intro y hy
      obtain ⟨p, hp, hfit⟩ := itemsFit_mem hxs y hy
      obtain ⟨hslash, hoperator⟩ := Rule.asks_no_operator hr p hp
      cases p with
      | token kind =>
        obtain ⟨t, rfl, rfl⟩ := hfit
        exact ⟨fun ht => absurd (congrArg _ ht) hslash, trivial⟩
      | phrase d => exact ih hfit fun hd => hoperator (congrArg _ hd)
    have hoperand (x : Tree) (hx : Formed depth .operand x) : Divides x.tokens :=
      ih hx (by simp)
    replace h : FormedPhrase (Formed depth) c x := h
    induction h with
    | token accepted => exact ⟨fun ht => absurd ht (Category.not_slash hc accepted), trivial⟩
    | through predicted inner =>
      refine ih inner ?_
      rintro rfl
      have hnarrower := Category.narrower_of_predict predicted
      cases c <;> cases hnarrower
    | rule predicted items =>
      refine divides_tokensOfAll (hparts ?_ items)
      rintro rfl
      exact Sketch.Category.not_extending (Category.rule_mem_of_predict predicted) (by decide)
    | @extended x r kind xs inner extension items ihx =>
      refine ihx.append ?_
      by_cases hr : r = .binaryExpression
      · -- operators between operands: each comes with the operand after it
        subst hr
        obtain ⟨y, _, rfl, hy, hys⟩ := itemsFit_one.mp items
        obtain ⟨z, _, rfl, hz, _, _, rfl, ⟨groups, rfl, hgroups⟩, rfl⟩ := itemsFit_one.mp hys
        have hfirst := divides_of_operation ⟨y, _, rfl, hy, z, _, rfl, hz, rfl⟩ hoperand
        have hmore := divides_flatten fun g hg => divides_of_operation (hgroups g hg) hoperand
        rw [List.append_nil]
        exact Tree.tokensOfAll_append [y, z] _ ▸ hfirst.append hmore
      · exact divides_tokensOfAll (hparts hr items)

/-! ## No comment is opened -/

/-- What begins with a slash or a star is a comment or a mark. -/
theorem nextLexeme_operator {c : Char} (hc : c = '/' ∨ c = '*') (cs : List Char) :
    nextLexeme (c :: cs) = match commentLength (c :: cs) with
      | some n => some (.comment, n)
      | none => (Mark.longest? (c :: cs)).map fun m => (.token (.mark m), m.text.length) := by
  have hdecimal : decimalLength (c :: cs) = 0 := by
    rcases hc with rfl | rfl <;> rfl
  have hnumber : numberLength (c :: cs) = 0 := by
    unfold numberLength
    split
    · next heq =>
      cases heq
      rcases hc with h | h <;> cases h
    · exact hdecimal
  have other : Unsettled c := by
    rcases hc with rfl | rfl <;> exact ⟨rfl, rfl, by decide, by decide⟩
  rw [other.nextLexeme_eq, hnumber]
  rfl

/-- What begins with a star is a mark that no operand begins with. -/
theorem nextLexeme_star {cs : List Char} {kind : LexemeKind} {n : Nat}
    (h : nextLexeme ('*' :: cs) = some (kind, n)) :
    ∃ m, kind = .token (.mark m) ∧ Category.operand.startsWith (.mark m) = false := by
  have hall : (Mark.all.all fun m => m.text.toList.head? != some '*' ||
      !Category.operand.startsWith (.mark m)) = true := by
    decide
  rw [nextLexeme_operator (.inr rfl), show commentLength ('*' :: cs) = none from rfl] at h
  obtain ⟨m, hm, heq⟩ := Option.map_eq_some_iff.mp h
  cases heq
  refine ⟨m, rfl, ?_⟩
  have hstarts := Mark.prefix_of_longest? hm
  have hne : m.text.toList ≠ [] :=
    List.ne_nil_of_length_pos (by rw [String.length_toList]; exact m.text_length_pos)
  obtain ⟨c, text, htext⟩ := List.exists_cons_of_ne_nil hne
  rw [htext] at hstarts
  have hstar := List.all_eq_true.mp hall m (List.mem_of_find?_eq_some hm)
  rw [htext, (List.cons_prefix_cons.mp hstarts).1] at hstar
  simpa using hstar

/-- In a text whose slashes come before operands no comment is opened but by comments. -/
theorem unopened_of_divides {as bs : List Lexeme} {s : Spot}
    (h : CutInto (textOf (as ++ bs)) (as ++ bs)) (hdivides : Divides (tokensFrom s (as ++ bs))) :
    Unopened as := by
  rintro l back ⟨front, rfl⟩ hkind ⟨cs, hopen⟩
  rw [List.append_assoc, tokensFrom_append] at hdivides
  rw [List.append_assoc] at h
  generalize s.after front = s at hdivides
  replace hdivides := hdivides.of_append
  have hcut := h.of_append
  have htext : textOf (l :: back ++ bs) = '/' :: '*' :: (cs ++ textOf bs) := by
    rw [textOf_append, ← hopen]
    rfl
  rcases hcut.cons_inv with ⟨c, rest, heq, hc, -, -⟩ | ⟨kind, n, next, -, hl, after⟩
  · rw [htext] at heq
    cases heq
    cases hc
  -- the lexeme is the slash alone, and the next one begins with the star
  have hkindEq : l.kind = kind := by rw [hl]
  rw [htext] at next after
  rw [nextLexeme_operator (.inl rfl)] at next
  split at next
  · cases next
    exact hkind hkindEq
  rw [show Mark.longest? ('/' :: '*' :: (cs ++ textOf bs)) = some .slash from rfl] at next
  cases next
  rw [show ('/' :: '*' :: (cs ++ textOf bs)).drop Mark.slash.text.length
    = '*' :: (cs ++ textOf bs) from rfl] at after
  rw [List.append_eq] at after
  -- so the token after the slash begins with a star, and an operand does not
  generalize hrest : back ++ bs = rest at after
  rw [List.cons_append, hrest, tokensFrom, hkindEq] at hdivides
  rcases after with _ | ⟨hstar, -⟩ | ⟨next, -, -⟩
  · cases hstar
  · obtain ⟨m, rfl, hm⟩ := nextLexeme_star next
    obtain ⟨u, hu, hstarts⟩ := hdivides.1 rfl
    cases hu
    rw [Spot.token, hm] at hstarts
    cases hstarts

/-! ## Reading with spacing -/

/-- Lexemes that separate change no token but its place. -/
theorem tokensFrom_spaced_like {gap : List Lexeme} (hgap : ∀ l ∈ gap, l.IsGap) (s : Spot)
    (as bs : List Lexeme) :
    List.Forall₂ Token.Like (tokensFrom s (as ++ bs)) (tokensFrom s (as ++ gap ++ bs)) := by
  have hnone : tokensFrom (s.after as) gap = [] :=
    tokensFrom_eq_nil fun l hl => (hgap l hl).between
  have hspot : (s.after as).Like (s.after (as ++ gap)) := by
    rw [Spot.after_append]
    exact congrArg _ (lastDoc?_after_gap hgap _).symm
  rw [tokensFrom_append, tokensFrom_append, tokensFrom_append, hnone, List.append_nil]
  exact List.rel_append (tokensFrom_like rfl as) (tokensFrom_like hspot bs)

/-- The tokens of a text that is read have an operand after every slash. -/
theorem divides_of_read {text : String} {statements : List Tree}
    (h : read text = .ok statements) : Divides (scan text.toList).tokens := by
  obtain ⟨hstand, -⟩ := Program.statementsStand_of_read h
  have htokens := TakesRepeated.tokens_eq (fun h => Stands.tokens_eq h) hstand
  rw [htokens, List.append_nil]
  refine divides_tokensOfAll fun x hx => ?_
  obtain ⟨depth, hformed⟩ := Program.mem_statements hstand x hx
  exact hformed.divides (by simp)

/-- A text with spacing put in between two lexemes is read as before, with its tokens in other
places. -/
theorem exists_read_spaced {before spacing after : List Char} {statements : List Tree}
    (hread : read (String.ofList (before ++ after)) = .ok statements)
    (hplace : Between before after) (hspacing : Spacing spacing) :
    ∃ statements', read (String.ofList (before ++ spacing ++ after)) = .ok statements' ∧
      PrunesAll (Prunes Token.Like) true true statements [] statements' := by
  obtain ⟨hstand, hending⟩ := Program.statementsStand_of_read hread
  have hdivides := divides_of_read hread
  have htokens := TakesRepeated.tokens_eq (fun h => Stands.tokens_eq h) hstand
  rw [String.toList_ofList] at hending hdivides htokens
  obtain ⟨ls, hls⟩ := exists_cutInto_iff.mpr hending
  obtain ⟨as, bs, rfl, rfl, rfl, hline⟩ := hplace.exists_divided hls
  rw [← textOf_append] at hls hdivides htokens
  rw [hls.scan_eq] at hdivides htokens
  obtain ⟨gap, hgap, hspaced⟩ :=
    hls.exists_spaced hline (unopened_of_divides hls hdivides) hspacing
  refine exists_read_of_tokens Token.Like.kind hstand ?_ ?_
  · rw [String.toList_ofList, hspaced.scan_eq]
  · rw [String.toList_ofList, hspaced.scan_eq, ← List.append_nil (Tree.tokensOfAll statements),
      ← htokens]
    exact tokensFrom_spaced_like hgap _ as bs

end SuperForward.Script
