/-
  Documentation comments line by line.

  What a tag looks like is said here by its parts: a word behind an at sign, blanks, and a type
  in braces or a bare name. The reader finds the tags that look so, from left to right and none
  inside another. As no part of a tag holds a line break, the tags of a comment are those that
  its lines have when each is taken by itself, with the same types and names; the return type
  and the superclass are the first that a line gives, also if they are blank.
-/
import SuperForward.Proofs.DocTypes
import SuperForward.Proofs.Splitting
import Mathlib.Data.List.TakeWhile

namespace SuperForward.DocComment

open SuperForward.Text (isWordChar)

/-! ## What a tag looks like -/

/-- The run is the longest beginning of the text that is made of characters of a class. -/
structure LongestRun (p : Char → Bool) (text run rest : List Char) : Prop where
  split : text = run ++ rest
  all : ∀ c ∈ run, p c = true
  stop : ∀ c ∈ rest.head?, p c = false

/-- The text can stand in the braces of a tag: it is on one line, and its braces match and nest
at most once. -/
structure IsType (cs : List Char) : Prop where
  line : '\n' ∉ cs
  balanced : Balanced cs
  shallow : Shallow cs

/-- A character that a bare name goes on with. -/
def isBarePart (c : Char) : Bool := isWordChar c || c == '$' || c == '.'

/-- The bare name that a text begins with, if it begins with one. -/
inductive BareName : List Char → Option String → Prop
  | named {first : Char} {cs run rest : List Char}
      (hfirst : isTagStart first = true ∨ first = '$') (hrun : LongestRun isBarePart cs run rest) :
      BareName (first :: cs) (some (String.ofList (first :: run)))
  | nameless {cs : List Char} (h : ∀ c ∈ cs.head?, isTagStart c = false ∧ c ≠ '$') :
      BareName cs none

/-- The text begins with a word, and the rest comes after the blanks behind it. -/
def BeginsWithWord (text word rest : List Char) : Prop :=
  (∃ c ∈ word.head?, isTagStart c = true) ∧
    ∃ behind blanks, LongestRun isTagPart text word behind ∧
      LongestRun isLineBlank behind blanks rest

/-- The tag stands at the beginning of the text, its at sign aside, and the rest of the text
comes after it. A type in braces belongs to the tag; where there is none, a bare name may come
after the tag. -/
inductive StandsAt : List Char → Tag → List Char → Prop
  | typed {text word type rest : List Char}
      (hword : BeginsWithWord text word ('\x7b' :: (type ++ '\x7d' :: rest)))
      (htype : IsType type) :
      StandsAt text ⟨String.ofList word, some (String.ofList type), none⟩ rest
  | untyped {text word rest : List Char} {bare : Option String}
      (hword : BeginsWithWord text word rest)
      (hnone : ∀ type after, IsType type → rest ≠ '\x7b' :: (type ++ '\x7d' :: after))
      (hbare : BareName rest bare) :
      StandsAt text ⟨String.ofList word, none, bare⟩ rest

/-- The tags of a text, from left to right: a tag begins with every at sign that stands outside
the tags before it and in front of a word. -/
inductive Tagged : List Char → List Tag → Prop
  | nil : Tagged [] []
  | tag {cs rest : List Char} {tag : Tag} {tags : List Tag} (h : StandsAt cs tag rest)
      (htags : Tagged rest tags) : Tagged ('@' :: cs) (tag :: tags)
  | skip {c : Char} {cs : List Char} {tags : List Tag}
      (h : c = '@' → ∀ d ∈ cs.head?, isTagStart d = false) (htags : Tagged cs tags) :
      Tagged (c :: cs) tags

/-! ## What the reader finds -/

section Parts

variable {p : Char → Bool} {text run rest : List Char}

/-- There is one longest run. -/
theorem longestRun_iff : LongestRun p text run rest ↔
    run = text.takeWhile p ∧ rest = text.dropWhile p := by
  constructor
  · rintro ⟨rfl, hall, hstop⟩
    cases rest with
    | nil =>
      rw [List.append_nil, List.takeWhile_eq_self_iff.mpr hall]
      exact ⟨rfl, (List.dropWhile_eq_nil_iff.mpr hall).symm⟩
    | cons c rest =>
      have hc : p c = false := hstop c rfl
      rw [takeWhile_append_stop hc, dropWhile_append_stop hc, List.takeWhile_eq_self_iff.mpr hall,
        List.dropWhile_eq_nil_iff.mpr hall]
      exact ⟨rfl, rfl⟩
  · rintro ⟨rfl, rfl⟩
    refine ⟨List.takeWhile_append_dropWhile.symm,
      fun c hc => List.all_eq_true.mp List.all_takeWhile c hc, fun c hc => ?_⟩
    have hstop := List.head?_dropWhile_not p text
    rw [Option.mem_def.mp hc] at hstop
    simpa using hstop

/-- A text begins with a word if it begins with a character that words begin with. -/
theorem beginsWithWord_iff {word : List Char} : BeginsWithWord text word rest ↔
    ∃ c cs, text = c :: cs ∧ isTagStart c = true ∧ word = c :: cs.takeWhile isTagPart ∧
      rest = (cs.dropWhile isTagPart).dropWhile isLineBlank := by
  have hpart {c : Char} (hc : isTagStart c = true) : isTagPart c = true := by
    rw [isTagPart, hc, Bool.true_or]
  unfold BeginsWithWord
  simp only [longestRun_iff]
  -- the run of a word may begin with a digit, which the reader rules out by the first character
  constructor
  · rintro ⟨⟨c, hhead, hc⟩, -, -, ⟨rfl, rfl⟩, -, rfl⟩
    cases text with
    | nil => cases hhead
    | cons d cs =>
      by_cases hd : isTagPart d = true
      · rw [List.takeWhile_cons_of_pos hd] at hhead ⊢
        rw [List.dropWhile_cons_of_pos hd]
        cases hhead
        exact ⟨c, cs, rfl, hc, rfl, rfl⟩
      · rw [List.takeWhile_cons_of_neg hd] at hhead
        cases hhead
  · rintro ⟨c, cs, rfl, hc, rfl, rfl⟩
    refine ⟨⟨c, rfl, hc⟩, _, _, ⟨?_, rfl⟩, rfl, ?_⟩
    · rw [List.takeWhile_cons_of_pos (hpart hc)]
    · rw [List.dropWhile_cons_of_pos (hpart hc)]

/-- A bare name is read where there is one. -/
theorem bareName_iff {cs : List Char} {bare : Option String}
    (hblank : ∀ c ∈ cs.head?, isLineBlank c = false) : BareName cs bare ↔ bareType? cs = bare := by
  -- the blanks in front have been passed already
  have hcs : cs.dropWhile isLineBlank = cs := by
    cases cs with
    | nil => rfl
    | cons c cs => rw [List.dropWhile_cons_of_neg (by simp [hblank c rfl])]
  unfold bareType?
  rw [hcs]
  constructor
  · rintro (⟨hfirst, hrun⟩ | h)
    · obtain ⟨rfl, -⟩ := longestRun_iff.mp hrun
      simp only
      rw [if_pos (by simpa using hfirst)]
      rfl
    · cases cs with
      | nil => rfl
      | cons c cs =>
        obtain ⟨hstart, hdollar⟩ := h c rfl
        simp only
        rw [if_neg (by simp [hstart, hdollar])]
  · rintro rfl
    cases cs with
    | nil => exact .nameless (by simp)
    | cons c cs =>
      simp only
      split
      · next hfirst => exact .named (by simpa using hfirst) (longestRun_iff.mpr ⟨rfl, rfl⟩)
      · next hfirst =>
        refine .nameless fun d hd => ?_
        cases hd
        simpa using hfirst

/-- A type in braces is read where there is one. -/
theorem bracedType?_eq_some_iff {cs after : List Char} {type : String} :
    bracedType? cs = some (type, after) ↔ ∃ inside, IsType inside ∧
      type = String.ofList inside ∧ cs = '\x7b' :: (inside ++ '\x7d' :: after) := by
  have hdrop (inside after : List Char) :
      (inside ++ '\x7d' :: after).drop (inside.length + 1) = after := by
    rw [← List.drop_drop, List.drop_left]
    rfl
  constructor
  · intro h
    unfold bracedType? at h
    split at h
    · next rest =>
      obtain ⟨n, hn, heq⟩ := Option.map_eq_some_iff.mp h
      cases heq
      obtain ⟨inside, after, rfl, rfl, hline, hclosing, hshallow⟩ := typeLength_eq_some_iff.mp hn
      refine ⟨inside, ⟨hline, hclosing, hshallow⟩, ?_, ?_⟩
      · rw [List.take_left]
      · rw [hdrop]
    · cases h
  · rintro ⟨inside, htype, rfl, rfl⟩
    have hlength : typeLength false (inside ++ '\x7d' :: after) = some inside.length :=
      typeLength_eq_some_iff.mpr
        ⟨inside, after, rfl, rfl, htype.line, htype.balanced, htype.shallow⟩
    rw [bracedType?, hlength, Option.map_some, List.take_left, hdrop]

/-- The reader takes a tag where one stands. -/
theorem tagAt?_eq_some_iff {cs after : List Char} {tag : Tag} :
    tagAt? cs = some (tag, after) ↔ StandsAt cs tag after := by
  constructor
  · intro h
    cases cs with
    | nil => cases h
    | cons c cs =>
      rw [tagAt?] at h
      split at h
      · next hstart =>
        have hword : BeginsWithWord (c :: cs) (c :: cs.takeWhile isTagPart)
            ((cs.dropWhile isTagPart).dropWhile isLineBlank) :=
          beginsWithWord_iff.mpr ⟨c, cs, rfl, hstart, rfl, rfl⟩
        simp only at h
        -- the braces come first: a bare name is read only where they hold no type
        split at h
        · next type rest hbraced =>
          cases h
          obtain ⟨inside, htype, rfl, heq⟩ := bracedType?_eq_some_iff.mp hbraced
          exact .typed (heq ▸ hword) htype
        · next hbraced =>
          cases h
          refine .untyped hword (fun type after htype heq => ?_) ((bareName_iff ?_).mpr rfl)
          · rw [bracedType?_eq_some_iff.mpr ⟨type, htype, rfl, heq⟩] at hbraced
            cases hbraced
          · exact (longestRun_iff.mpr ⟨rfl, rfl⟩ : LongestRun isLineBlank _ _ _).stop
      · cases h
  · rintro (⟨hword, htype⟩ | ⟨hword, hnone, hbare⟩)
    · obtain ⟨c, cs, rfl, hstart, rfl, hrest⟩ := beginsWithWord_iff.mp hword
      rw [tagAt?, if_pos hstart]
      simp only [bracedType?_eq_some_iff.mpr ⟨_, htype, rfl, hrest.symm⟩]
    · obtain ⟨c, cs, rfl, hstart, rfl, rfl⟩ := beginsWithWord_iff.mp hword
      have hbraced : bracedType? ((cs.dropWhile isTagPart).dropWhile isLineBlank) = none := by
        cases hfound : bracedType? ((cs.dropWhile isTagPart).dropWhile isLineBlank) with
        | none => rfl
        | some found =>
          obtain ⟨inside, htype, -, heq⟩ := bracedType?_eq_some_iff.mp hfound
          exact absurd heq (hnone inside found.2 htype)
      rw [bareName_iff (longestRun_iff.mpr ⟨rfl, rfl⟩ : LongestRun isLineBlank _ _ _).stop] at hbare
      rw [tagAt?, if_pos hstart]
      simp only [hbraced, hbare]

/-- The reader takes no tag where no word begins. -/
theorem tagAt?_eq_none_iff {cs : List Char} :
    tagAt? cs = none ↔ ∀ c ∈ cs.head?, isTagStart c = false := by
  cases cs with
  | nil => exact iff_of_true rfl (by simp)
  | cons c cs =>
    rw [tagAt?]
    split
    · next hstart =>
      refine iff_of_false (fun h => ?_) (by simp [hstart])
      simp only at h
      split at h <;> cases h
    · next hstart => exact iff_of_true rfl (by simpa using hstart)

end Parts

/-- The reader finds the tags of a text, and a text has its tags in one way only. -/
theorem tagged_iff {cs : List Char} {tags : List Tag} : Tagged cs tags ↔ tags = tagsOf cs := by
  constructor
  · intro h
    induction h with
    | nil => rfl
    | tag h _ ih => rw [tagsOf_tag (tagAt?_eq_some_iff.mpr h), ih]
    | skip h _ ih => rw [tagsOf_skip fun hc => tagAt?_eq_none_iff.mpr (h hc), ih]
  · rintro rfl
    induction cs using tags_induction with
    | nil => exact .nil
    | tag h ih =>
      rw [tagsOf_tag h]
      exact .tag (tagAt?_eq_some_iff.mp h) ih
    | skip h ih =>
      rw [tagsOf_skip h]
      exact .skip (fun hc => tagAt?_eq_none_iff.mp (h hc)) ih

/-! ## Lines -/

/-- The lines of a comment. -/
def linesOf (comment : String) : List String := Text.piecesAt '\n' comment

/-- What the first of the tags gives that gives something. The tags are taken line by line, and
what one line has given stays. -/
def firstGiven (given : Tag → Option String) (lines : List (List Tag)) : Option String :=
  lines.foldl (fun found tags => found.or (tags.findSome? given)) none

theorem firstGiven_eq (given : Tag → Option String) (lines : List (List Tag)) :
    firstGiven given lines = lines.flatten.findSome? given := by
  -- what has been found before the remaining lines is kept
  have key (found : Option String) :
      lines.foldl (fun found tags => found.or (tags.findSome? given)) found
        = found.or (lines.flatten.findSome? given) := by
    induction lines generalizing found with
    | nil => rw [List.foldl_nil, List.flatten_nil, List.findSome?_nil, Option.or_none]
    | cons tags lines ih =>
      rw [List.foldl_cons, ih, List.flatten_cons, List.findSome?_append, Option.or_assoc]
  exact key none

/-- The tags of a text are those of its lines. -/
theorem tagsOf_lines (comment : String) :
    tagsOf comment.toList = ((linesOf comment).map fun line => tagsOf line.toList).flatten := by
  -- by induction on the lines: no tag goes on behind the line break after the first of them
  have key (lines : List (List Char)) :
      tagsOf (['\n'].intercalate lines) = (lines.map tagsOf).flatten := by
    induction lines with
    | nil => rfl
    | cons line lines ih =>
      cases lines with
      | nil => simp
      | cons next lines =>
        rw [List.intercalate_cons_cons, List.append_assoc, List.singleton_append, tagsOf_line, ih]
        rfl
  unfold linesOf Text.piecesAt
  rw [List.map_map]
  conv_lhs => rw [← Text.intercalate_pieces '\n' comment.toList, key]
  simp [Function.comp_def]

/-- The superclass that tags leave is the one that was there before, or else the first that one
of them names. -/
theorem superclass_foldl_addTag (tags : List Tag) (doc : DocComment) :
    (tags.foldl addTag doc).superclass = doc.superclass.or (tags.findSome? Tag.superclass?) :=
  foldl_addTag_or (fun doc tag => by rw [addTag_eq]) tags doc

theorem superclass_read? {comment : String} {start : Nat} {doc : DocComment}
    (h : read? comment start = some doc) : doc.superclass
      = ((tagsOf comment.toList).foldl addTag ⟨[], none, none, start⟩).superclass.bind fun s =>
        nonblank? (Text.trimStartOf (· == '!') s) := by
  unfold read? at h
  split at h
  · cases h
    rfl
  · cases h

/-- A comment that documents is read line by line. Each of its lines has tags when it is taken by
itself, and these are the tags of the comment, with the same types and bare names, whatever the
other lines hold. The comment carries the tags of its lines, and its return type and its
superclass are what the first line gives that gives one; if that is blank, there is none. -/
theorem read?_line_by_line {comment : String} (start : Nat) (h : isDocComment comment = true) :
    ∃ (lines : List (List Tag)) (doc : DocComment),
      List.Forall₂ (fun line tags => ∀ ts, Tagged line.toList ts ↔ ts = tags)
        (linesOf comment) lines ∧
      (∀ ts, Tagged comment.toList ts ↔ ts = lines.flatten) ∧
      read? comment start = some doc ∧
      (∀ name, name ∈ doc.tags ↔ ∃ tags ∈ lines, ∃ tag ∈ tags, tag.name = name) ∧
      doc.returnType = (firstGiven Tag.returnType? lines).bind nonblank? ∧
      doc.superclass = (firstGiven Tag.superclass? lines).bind fun s =>
        nonblank? (Text.trimStartOf (· == '!') s) := by
  obtain ⟨doc, hdoc⟩ := (@read?_eq_some_iff comment start).mpr h
  have hlines := tagsOf_lines comment
  refine ⟨(linesOf comment).map fun line => tagsOf line.toList, doc, ?_, fun ts => ?_, hdoc,
    fun name => ?_, ?_, ?_⟩
  · rw [List.forall₂_map_right_iff, List.forall₂_same]
    exact fun line _ ts => tagged_iff
  · rw [tagged_iff, hlines]
  · rw [mem_tags_of_read? hdoc, hlines]
    simp only [List.mem_flatten, ← exists_and_left, ← exists_and_right, and_assoc]
    exact exists_comm
  · rw [returnType_read? hdoc, returnType_foldl_addTag, firstGiven_eq, hlines, Option.none_or]
  · rw [superclass_read? hdoc, superclass_foldl_addTag, firstGiven_eq, hlines, Option.none_or]

/-- A comment whose first line leaves a brace open. -/
def unclosedComment : String :=
  "/** @return \x7ba\n * @override @extends \x7b!Base\x7d\n * @return \x7b number \x7d */"

/-- The open brace hides neither the tags of the other lines nor the return type. -/
theorem read?_line_by_line_unclosedComment :
    isDocComment unclosedComment = true ∧
      (∃ (lines : List (List Tag)) (doc : DocComment),
        List.Forall₂ (fun line tags => ∀ ts, Tagged line.toList ts ↔ ts = tags)
          (linesOf unclosedComment) lines ∧
        (∀ ts, Tagged unclosedComment.toList ts ↔ ts = lines.flatten) ∧
        read? unclosedComment 7 = some doc ∧
        (∀ name, name ∈ doc.tags ↔ ∃ tags ∈ lines, ∃ tag ∈ tags, tag.name = name) ∧
        doc.returnType = (firstGiven Tag.returnType? lines).bind nonblank? ∧
        doc.superclass = (firstGiven Tag.superclass? lines).bind fun s =>
          nonblank? (Text.trimStartOf (· == '!') s)) ∧
      read? unclosedComment 7
        = some ⟨["return", "override", "extends"], some "number", some "Base", 7⟩ :=
  have hdoc : isDocComment unclosedComment = true := by decide +kernel
  ⟨hdoc, read?_line_by_line 7 hdoc, by decide +kernel⟩

end SuperForward.DocComment
