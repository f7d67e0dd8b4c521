/-
  The tags of a documentation comment, line by line.

  A tag and the type after it stand on one line, so that the tags of a comment are those of its
  lines, whatever the lines before a line hold. A line that begins with a tag, blanks and stars
  aside, carries the tag, provided that the tag is a word: what is no word is never read as one.
-/
import SuperForward.DocComment
import Mathlib.Data.List.Basic

namespace SuperForward.DocComment

open SuperForward.Text (isWordChar isBlank)

/-! ## Runs that end at a character -/

theorem takeWhile_append_stop {p : Char → Bool} {c : Char} (hc : p c = false)
    (as bs : List Char) : (as ++ c :: bs).takeWhile p = as.takeWhile p := by
  induction as with
  | nil => rw [List.nil_append, List.takeWhile_cons_of_neg (by simp [hc]), List.takeWhile_nil]
  | cons a as ih =>
    rw [List.cons_append, List.takeWhile_cons, List.takeWhile_cons, ih]

theorem dropWhile_append_stop {p : Char → Bool} {c : Char} (hc : p c = false)
    (as bs : List Char) : (as ++ c :: bs).dropWhile p = as.dropWhile p ++ c :: bs := by
  induction as with
  | nil => rw [List.nil_append, List.dropWhile_cons_of_neg (by simp [hc]), List.dropWhile_nil,
      List.nil_append]
  | cons a as ih =>
    rw [List.cons_append, List.dropWhile_cons, List.dropWhile_cons]
    split
    · exact ih
    · rfl

/-! ## Tags do not go beyond their line -/

theorem typeLength_line (inner : Bool) (cs below : List Char) :
    typeLength inner (cs ++ '\n' :: below) = typeLength inner cs := by
  induction cs generalizing inner with
  | nil => cases inner <;> rfl
  | cons c cs ih => simp only [List.cons_append, typeLength, ih]

theorem typeLength_lt {inner : Bool} {cs : List Char} {n : Nat}
    (h : typeLength inner cs = some n) : n < cs.length := by
  induction cs generalizing inner n with
  | nil => cases h
  | cons c cs ih =>
    have hstep : ∀ {inner}, (typeLength inner cs).map (· + 1) = some n → n < (c :: cs).length := by
      intro inner h
      obtain ⟨m, hm, rfl⟩ := Option.map_eq_some_iff.mp h
      exact Nat.succ_lt_succ (ih hm)
    rw [typeLength] at h
    split at h
    · split at h
      · exact hstep h
      · cases h
        exact Nat.succ_pos _
    split at h
    · split at h
      · cases h
      · exact hstep h
    split at h
    · cases h
    · exact hstep h

theorem bracedType?_line (cs below : List Char) :
    bracedType? (cs ++ '\n' :: below)
      = (bracedType? cs).map fun (type, after) => (type, after ++ '\n' :: below) := by
  cases cs with
  | nil => rfl
  | cons c cs =>
    by_cases hc : c = '\x7b'
    · subst hc
      simp only [List.cons_append, bracedType?, typeLength_line, Option.map_map]
      cases h : typeLength false cs with
      | none => rfl
      | some n =>
        have hlt := typeLength_lt h
        simp only [Option.map_some, Function.comp_apply,
          List.take_append_of_le_length (Nat.le_of_lt hlt), List.drop_append_of_le_length hlt]
    · have hnone : ∀ ds : List Char, bracedType? (c :: ds) = none := by
        intro ds
        rw [bracedType?]
        rintro rest heq
        exact hc (List.cons.inj heq).1
      rw [List.cons_append, hnone, hnone, Option.map_none]

theorem bareType?_line (cs below : List Char) :
    bareType? (cs ++ '\n' :: below) = bareType? cs := by
  unfold bareType?
  rw [dropWhile_append_stop (by decide)]
  cases cs.dropWhile isLineBlank with
  | nil => rfl
  | cons c rest =>
    simp only [List.cons_append]
    rw [takeWhile_append_stop (by decide)]

theorem tagAt?_line (cs below : List Char) :
    tagAt? (cs ++ '\n' :: below)
      = (tagAt? cs).map fun (tag, after) => (tag, after ++ '\n' :: below) := by
  cases cs with
  | nil => rfl
  | cons c rest =>
    simp only [List.cons_append, tagAt?]
    split
    · simp only [takeWhile_append_stop (show isTagPart '\n' = false by decide),
        dropWhile_append_stop (show isTagPart '\n' = false by decide),
        dropWhile_append_stop (show isLineBlank '\n' = false by decide), bracedType?_line,
        bareType?_line]
      cases bracedType? ((rest.dropWhile isTagPart).dropWhile isLineBlank) <;> rfl
    · rfl

/-! ## The tags of a text -/

/-- What follows a tag is shorter than what its at sign stands before. -/
theorem length_of_tagAt? {cs after : List Char} {tag : Tag} (h : tagAt? cs = some (tag, after)) :
    after.length < cs.length := by
  cases cs with
  | nil => cases h
  | cons c rest =>
    have hdrop : ((rest.dropWhile isTagPart).dropWhile isLineBlank).length ≤ rest.length :=
      Nat.le_trans (List.dropWhile_sublist _).length_le (List.dropWhile_sublist _).length_le
    rw [tagAt?] at h
    split at h
    · simp only at h
      split at h
      · next type after' hbraced =>
        cases h
        unfold bracedType? at hbraced
        split at hbraced
        · next rest' heq =>
          obtain ⟨n, -, hn⟩ := Option.map_eq_some_iff.mp hbraced
          cases hn
          rw [heq] at hdrop
          simp only [List.length_cons, List.length_drop] at hdrop ⊢
          omega
        · cases hbraced
      · cases h
        exact Nat.lt_succ_of_le hdrop
    · cases h

theorem tagsWithin_eq {bound bound' : Nat} {cs : List Char} (h : cs.length ≤ bound)
    (h' : cs.length ≤ bound') : tagsWithin bound cs = tagsWithin bound' cs := by
  induction bound generalizing bound' cs with
  | zero =>
    rw [List.length_eq_zero_iff.mp (Nat.le_zero.mp h)]
    cases bound' <;> rfl
  | succ bound ih =>
    cases cs with
    | nil => cases bound' <;> rfl
    | cons c rest =>
      simp only [List.length_cons] at h h'
      obtain ⟨bound', rfl⟩ : ∃ b, bound' = b + 1 := ⟨bound' - 1, by omega⟩
      have hrest : tagsWithin bound rest = tagsWithin bound' rest := ih (by omega) (by omega)
      by_cases hc : c = '@'
      · subst hc
        rw [tagsWithin, tagsWithin]
        cases htag : tagAt? rest with
        | none => exact hrest
        | some found =>
          obtain ⟨tag, after⟩ := found
          have := length_of_tagAt? htag
          simp only
          have hafter : tagsWithin bound after = tagsWithin bound' after :=
            ih (by omega) (by omega)
          rw [hafter]
      · rw [tagsWithin, tagsWithin, hrest]
        · exact hc
        · exact hc

theorem tagsOf_at (rest : List Char) :
    tagsOf ('@' :: rest) = match tagAt? rest with
      | some (tag, after) => tag :: tagsOf after
      | none => tagsOf rest := by
  unfold tagsOf
  rw [List.length_cons, tagsWithin]
  cases htag : tagAt? rest with
  | none => rfl
  | some found =>
    have := length_of_tagAt? htag
    simp only
    rw [tagsWithin_eq (Nat.le_of_lt this) (Nat.le_refl found.2.length)]

theorem tagsOf_cons {c : Char} (hc : c ≠ '@') (rest : List Char) :
    tagsOf (c :: rest) = tagsOf rest := by
  unfold tagsOf
  rw [List.length_cons, tagsWithin]
  exact hc

theorem tagsOf_tag {cs after : List Char} {tag : Tag} (h : tagAt? cs = some (tag, after)) :
    tagsOf ('@' :: cs) = tag :: tagsOf after := by
  rw [tagsOf_at, h]

theorem tagsOf_skip {c : Char} {cs : List Char} (h : c = '@' → tagAt? cs = none) :
    tagsOf (c :: cs) = tagsOf cs := by
  by_cases hc : c = '@'
  · rw [hc, tagsOf_at, h hc]
  · rw [tagsOf_cons hc]

/-- The way in which the tags of a text are found: behind a tag it is gone on with what follows
the tag, and where none begins with the next character. -/
@[elab_as_elim]
theorem tags_induction {motive : List Char → Prop} (nil : motive [])
    (tag : ∀ {cs after : List Char} {t : Tag}, tagAt? cs = some (t, after) → motive after →
      motive ('@' :: cs))
    (skip : ∀ {c : Char} {cs : List Char}, (c = '@' → tagAt? cs = none) → motive cs →
      motive (c :: cs))
    (cs : List Char) : motive cs := by
  induction hlength : cs.length using Nat.strongRecOn generalizing cs with
  | ind n ih =>
    subst hlength
    cases cs with
    | nil => exact nil
    | cons c cs =>
      have hrest := ih cs.length (Nat.lt_succ_self _) cs rfl
      by_cases hc : c = '@'
      · subst hc
        cases htag : tagAt? cs with
        | none => exact skip (fun _ => htag) hrest
        | some found =>
          have hlt := Nat.lt_succ_of_lt (length_of_tagAt? htag)
          exact tag htag (ih found.2.length hlt found.2 rfl)
      · exact skip (fun h => absurd h hc) hrest

/-- The tags of a text are those of its lines, one after the other. -/
theorem tagsOf_line (above below : List Char) :
    tagsOf (above ++ '\n' :: below) = tagsOf above ++ tagsOf below := by
  induction above using tags_induction with
  | nil => exact tagsOf_cons (by decide) below
  | @tag cs after t h ih =>
    have hline : tagAt? (cs ++ '\n' :: below) = some (t, after ++ '\n' :: below) := by
      rw [tagAt?_line, h, Option.map_some]
    rw [List.cons_append, tagsOf_tag h, tagsOf_tag hline, ih, List.cons_append]
  | @skip c cs h ih =>
    have hline (hc : c = '@') : tagAt? (cs ++ '\n' :: below) = none := by
      rw [tagAt?_line, h hc, Option.map_none]
    rw [List.cons_append, tagsOf_skip h, tagsOf_skip hline, ih]

/-- What stands before a tag on its line does not matter if it has no at sign. -/
theorem tagsOf_lead {lead : List Char} (h : '@' ∉ lead) (rest : List Char) :
    tagsOf (lead ++ rest) = tagsOf rest := by
  induction lead with
  | nil => rfl
  | cons c lead ih =>
    rw [List.cons_append, tagsOf_cons (fun hc => h (hc ▸ List.mem_cons_self ..)),
      ih fun hmem => h (List.mem_cons_of_mem _ hmem)]

/-! ## Lines that begin with a tag -/

/-- The text is a word as tags are: it begins with a letter or an underscore, and goes on with
letters, digits and underscores. -/
def IsTagName (tag : String) : Prop :=
  ∃ c cs, tag.toList = c :: cs ∧ isTagStart c = true ∧ ∀ d ∈ cs, isTagPart d = true

/-- A line of the text begins with the tag: before it stand only blanks, slashes and stars, and
after it a blank, or nothing. -/
def HasTagLine (cs : List Char) (tag : String) : Prop :=
  ∃ above lead after, cs = above ++ (lead ++ '@' :: (tag.toList ++ after)) ∧
    (above = [] ∨ ∃ lines, above = lines ++ ['\n']) ∧
    (∀ c ∈ lead, isBlank c = true ∨ c = '/' ∨ c = '*') ∧ ∀ c ∈ after.head?, isBlank c = true

/-- A blank is no printable ASCII character. -/
theorem toNat_of_isBlank {c : Char} (h : isBlank c = true) : c.toNat ≤ 0x20 ∨ 0x80 ≤ c.toNat := by
  obtain ⟨run, hrun, hfirst, hlast⟩ := Text.Ranges.exists_run_of_holds h
  have hends : ∀ run ∈ Text.blanks, run.2 ≤ 0x20 ∨ 0x80 ≤ run.1 := by decide
  rcases hends run hrun with h | h
  · exact .inl (Nat.le_trans hlast h)
  · exact .inr (Nat.le_trans h hfirst)

/-- A blank ends a tag. -/
theorem not_isTagPart_of_isBlank {c : Char} (h : isBlank c = true) : isTagPart c = false := by
  rw [← Bool.not_eq_true]
  intro hpart
  simp only [isTagPart, isTagStart] at hpart
  delta Char.isAlpha Char.isUpper Char.isLower Char.isDigit at hpart
  simp only [Bool.or_eq_true, Bool.and_eq_true, decide_eq_true_eq, beq_iff_eq, UInt32.le_iff_toNat_le,
    Char.ext_iff, ← UInt32.toNat_inj] at hpart
  have hblank : c.val.toNat ≤ 0x20 ∨ 0x80 ≤ c.val.toNat := toNat_of_isBlank h
  have hA : 'A'.val.toNat = 65 := rfl
  have hZ : 'Z'.val.toNat = 90 := rfl
  have ha : 'a'.val.toNat = 97 := rfl
  have hz : 'z'.val.toNat = 122 := rfl
  have hu : '_'.val.toNat = 95 := rfl
  have h0 : '0'.val.toNat = 48 := rfl
  have h9 : '9'.val.toNat = 57 := rfl
  omega

/-- A word after an at sign is read as a tag. -/
theorem exists_tagAt? {tag : String} (htag : IsTagName tag) {after : List Char}
    (hafter : ∀ c ∈ after.head?, isBlank c = true) :
    ∃ t rest, tagAt? (tag.toList ++ after) = some (t, rest) ∧ t.name = tag := by
  obtain ⟨c, cs, hspelled, hstart, hparts⟩ := htag
  have hname : (cs ++ after).takeWhile isTagPart = cs := by
    rw [List.takeWhile_append_of_pos hparts]
    have hstop : after.takeWhile isTagPart = [] := by
      cases after with
      | nil => rfl
      | cons d rest =>
        have := not_isTagPart_of_isBlank (hafter d rfl)
        rw [List.takeWhile_cons_of_neg (by simp [this])]
    rw [hstop, List.append_nil]
  have htext : String.ofList (c :: cs) = tag := by rw [← hspelled, String.ofList_toList]
  rw [hspelled, List.cons_append, tagAt?, if_pos hstart]
  simp only [hname]
  split
  · next type after' _ => exact ⟨_, after', rfl, htext⟩
  · exact ⟨_, _, rfl, htext⟩

/-- A line that begins with a tag carries it, whatever stands on the lines before. -/
theorem mem_tagsOf_of_hasTagLine {cs : List Char} {tag : String} (htag : IsTagName tag)
    (h : HasTagLine cs tag) : ∃ t ∈ tagsOf cs, t.name = tag := by
  obtain ⟨above, lead, after, rfl, habove, hlead, hafter⟩ := h
  obtain ⟨t, rest, ht, hname⟩ := exists_tagAt? htag hafter
  have hlead' : '@' ∉ lead := by
    intro hmem
    rcases hlead '@' hmem with h | h | h
    · revert h
      decide
    · exact absurd h (by decide)
    · exact absurd h (by decide)
  have hline : t ∈ tagsOf (lead ++ '@' :: (tag.toList ++ after)) := by
    rw [tagsOf_lead hlead', tagsOf_at, ht]
    exact List.mem_cons_self ..
  refine ⟨t, ?_, hname⟩
  rcases habove with rfl | ⟨lines, rfl⟩
  · exact hline
  · rw [List.append_assoc, List.singleton_append, tagsOf_line]
    exact List.mem_append_right _ hline

/-! ## Reading a comment -/

/-- The return type that a tag declares. -/
def Tag.returnType? (tag : Tag) : Option String :=
  if tag.name = "return" ∨ tag.name = "returns" then tag.braced.map Text.trim else none

/-- The superclass that a tag names. -/
def Tag.superclass? (tag : Tag) : Option String :=
  if tag.name = "extends" ∨ tag.name = "augments" then (tag.braced.map Text.trim).or tag.bare
  else none

/-- A tag is noted once, and what it gives counts if nothing was given before. -/
theorem addTag_eq (doc : DocComment) (tag : Tag) : addTag doc tag =
    ⟨if doc.tags.contains tag.name then doc.tags else doc.tags ++ [tag.name],
      doc.returnType.or tag.returnType?, doc.superclass.or tag.superclass?, doc.start⟩ := by
  have hnoted : (if doc.tags.contains tag.name then doc
      else { doc with tags := doc.tags ++ [tag.name] } : DocComment)
      = { doc with tags := if doc.tags.contains tag.name then doc.tags
            else doc.tags ++ [tag.name] } := by
    split <;> rfl
  unfold addTag Tag.returnType? Tag.superclass?
  simp only [hnoted, Bool.or_eq_true, beq_iff_eq]
  by_cases hreturn : tag.name = "return" ∨ tag.name = "returns"
  · have hextends : ¬ (tag.name = "extends" ∨ tag.name = "augments") := by
      rcases hreturn with h | h
      · rw [h]
        decide
      · rw [h]
        decide
    rw [if_pos hreturn, if_pos hreturn, if_neg hextends, Option.or_none]
  · rw [if_neg hreturn, if_neg hreturn, Option.or_none]
    split
    · rfl
    · rw [Option.or_none]

/-- What each tag may give if nothing was given before is given by the first of the tags that
gives it. -/
theorem foldl_addTag_or {field : DocComment → Option String} {given : Tag → Option String}
    (h : ∀ doc tag, field (addTag doc tag) = (field doc).or (given tag)) (tags : List Tag)
    (doc : DocComment) :
    field (tags.foldl addTag doc) = (field doc).or (tags.findSome? given) := by
  induction tags generalizing doc with
  | nil => rw [List.foldl_nil, List.findSome?_nil, Option.or_none]
  | cons tag tags ih =>
    rw [List.foldl_cons, ih, h, List.findSome?_cons]
    cases field doc with
    | some text => rfl
    | none => cases given tag <;> rfl

theorem mem_tags_addTag {doc : DocComment} {tag : Tag} {name : String} :
    name ∈ (addTag doc tag).tags ↔ name ∈ doc.tags ∨ name = tag.name := by
  rw [addTag_eq]
  simp only
  split
  · next h =>
    rw [List.contains_iff_mem] at h
    exact ⟨.inl, fun h' => h'.elim id fun heq => heq ▸ h⟩
  · rw [List.mem_append, List.mem_singleton]

theorem mem_tags_foldl {tags : List Tag} {doc : DocComment} {name : String} :
    name ∈ (tags.foldl addTag doc).tags ↔ name ∈ doc.tags ∨ ∃ tag ∈ tags, tag.name = name := by
  induction tags generalizing doc with
  | nil => simp
  | cons tag tags ih =>
    rw [List.foldl_cons, ih, mem_tags_addTag]
    constructor
    · rintro ((h | h) | ⟨t, ht, rfl⟩)
      · exact .inl h
      · exact .inr ⟨tag, List.mem_cons_self .., h.symm⟩
      · exact .inr ⟨t, List.mem_cons_of_mem _ ht, rfl⟩
    · rintro (h | ⟨t, ht, rfl⟩)
      · exact .inl (.inl h)
      · rcases List.mem_cons.mp ht with rfl | ht
        · exact .inl (.inr rfl)
        · exact .inr ⟨t, ht, rfl⟩

/-- A comment is read exactly if it documents, and then it has the tags of its text. -/
theorem read?_eq_some_iff {comment : String} {start : Nat} :
    (∃ doc, read? comment start = some doc) ↔ isDocComment comment = true := by
  unfold read?
  cases isDocComment comment <;> simp

theorem mem_tags_of_read? {comment : String} {start : Nat} {doc : DocComment}
    (h : read? comment start = some doc) {name : String} :
    name ∈ doc.tags ↔ ∃ tag ∈ tagsOf comment.toList, tag.name = name := by
  unfold read? at h
  split at h
  · cases h
    show name ∈ ((tagsOf comment.toList).foldl addTag ⟨[], none, none, start⟩).tags ↔ _
    rw [mem_tags_foldl]
    simp
  · cases h

end SuperForward.DocComment
