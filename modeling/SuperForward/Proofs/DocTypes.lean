/-
  The types that return tags declare.

  A type is read up to the brace that closes it, with at most one more pair of braces open. So
  a type with balanced braces comes back without the blanks around it as long as its braces
  nest no deeper than that, and it is lost if they do: the tag is then read without a type, and
  whatever is declared inside the lost type has fewer braces.
-/
import SuperForward.Proofs.DocTags
import Mathlib.Data.List.Infix

namespace SuperForward.DocComment

open SuperForward.Text (isBlank)

/-! ## Braces -/

/-- With some braces open before the text, no brace in it closes more than is open, and at its
end all are closed. -/
structure Closing (before : Nat) (cs : List Char) : Prop where
  within : ∀ pre, pre <+: cs → pre.count '\x7d' ≤ pre.count '\x7b' + before
  total : cs.count '\x7b' + before = cs.count '\x7d'

/-- The braces of a text match. -/
def Balanced (cs : List Char) : Prop := Closing 0 cs

/-- With some braces open before the text, no more than one is open at any place in it. -/
def ShallowAfter (before : Nat) (cs : List Char) : Prop :=
  ∀ pre, pre <+: cs → pre.count '\x7b' + before ≤ pre.count '\x7d' + 1

/-- The braces of a text nest at most once. -/
def Shallow (cs : List Char) : Prop := ShallowAfter 0 cs

instance (before : Nat) (cs : List Char) : Decidable (Closing before cs) :=
  decidable_of_iff ((∀ pre ∈ cs.inits, pre.count '\x7d' ≤ pre.count '\x7b' + before) ∧
      cs.count '\x7b' + before = cs.count '\x7d')
    ⟨fun h => ⟨fun pre hpre => h.1 pre ((List.mem_inits pre cs).mpr hpre), h.2⟩,
      fun h => ⟨fun pre hpre => h.within pre ((List.mem_inits pre cs).mp hpre), h.total⟩⟩

instance (cs : List Char) : Decidable (Balanced cs) := inferInstanceAs (Decidable (Closing 0 cs))

section Braces

variable {before : Nat} {c : Char} {cs : List Char}

theorem closing_nil : Closing before [] ↔ before = 0 := by
  constructor
  · exact fun h => by simpa using h.total
  · rintro rfl
    exact ⟨fun pre hpre => by simp [List.prefix_nil.mp hpre], rfl⟩

/-- What holds of the beginnings of a text holds of those behind its first character. -/
theorem closing_cons : Closing before (c :: cs) ↔
    (∀ pre, pre <+: cs → (c :: pre).count '\x7d' ≤ (c :: pre).count '\x7b' + before) ∧
      (c :: cs).count '\x7b' + before = (c :: cs).count '\x7d' := by
  constructor
  · exact fun h => ⟨fun pre hpre => h.within (c :: pre) (List.cons_prefix_cons.mpr ⟨rfl, hpre⟩),
      h.total⟩
  · rintro ⟨h, htotal⟩
    refine ⟨fun pre hpre => ?_, htotal⟩
    rcases List.prefix_cons_iff.mp hpre with rfl | ⟨t, rfl, ht⟩
    · simp
    · exact h t ht

/-- A closing brace closes one that is open. -/
theorem closing_close :
    Closing before ('\x7d' :: cs) ↔ ∃ left, before = left + 1 ∧ Closing left cs := by
  rw [closing_cons]
  constructor
  · rintro ⟨h, htotal⟩
    have hfirst := h [] List.nil_prefix
    simp at hfirst htotal
    refine ⟨before - 1, by omega, fun pre hpre => ?_, by omega⟩
    have hnext := h pre hpre
    simp at hnext
    omega
  · rintro ⟨left, rfl, h⟩
    refine ⟨fun pre hpre => ?_, ?_⟩
    · have := h.within pre hpre
      simp
      omega
    · have := h.total
      simp
      omega

theorem closing_open : Closing before ('\x7b' :: cs) ↔ Closing (before + 1) cs := by
  rw [closing_cons]
  constructor
  · rintro ⟨h, htotal⟩
    simp at htotal
    refine ⟨fun pre hpre => ?_, by omega⟩
    have hnext := h pre hpre
    simp at hnext
    omega
  · intro h
    refine ⟨fun pre hpre => ?_, ?_⟩
    · have := h.within pre hpre
      simp
      omega
    · have := h.total
      simp
      omega

theorem closing_other (hopen : c ≠ '\x7b') (hclose : c ≠ '\x7d') :
    Closing before (c :: cs) ↔ Closing before cs := by
  rw [closing_cons]
  simp only [List.count_cons_of_ne hopen, List.count_cons_of_ne hclose]
  exact ⟨fun h => ⟨h.1, h.2⟩, fun h => ⟨h.within, h.total⟩⟩

/-- What is shallow is so at its beginning and after its first character. -/
theorem shallowAfter_cons : ShallowAfter before (c :: cs) ↔ before ≤ 1 ∧
    ∀ pre, pre <+: cs → (c :: pre).count '\x7b' + before ≤ (c :: pre).count '\x7d' + 1 := by
  constructor
  · intro h
    refine ⟨by simpa using h [] (List.nil_prefix ..), fun pre hpre => ?_⟩
    exact h (c :: pre) (List.cons_prefix_cons.mpr ⟨rfl, hpre⟩)
  · rintro ⟨hbefore, h⟩ pre hpre
    rcases List.prefix_cons_iff.mp hpre with rfl | ⟨t, rfl, ht⟩
    · simpa using hbefore
    · exact h t ht

theorem shallowAfter_close : ShallowAfter 1 ('\x7d' :: cs) ↔ ShallowAfter 0 cs := by
  rw [shallowAfter_cons]
  simp [ShallowAfter]

theorem shallowAfter_open : ShallowAfter 0 ('\x7b' :: cs) ↔ ShallowAfter 1 cs := by
  rw [shallowAfter_cons]
  simp [ShallowAfter]

theorem not_shallowAfter_open : ¬ ShallowAfter 1 ('\x7b' :: cs) := by
  intro h
  have hfirst := h ['\x7b'] (List.prefix_append _ cs)
  simp at hfirst

theorem shallowAfter_other (hopen : c ≠ '\x7b') (hclose : c ≠ '\x7d') (hbefore : before ≤ 1) :
    ShallowAfter before (c :: cs) ↔ ShallowAfter before cs := by
  rw [shallowAfter_cons]
  simp [ShallowAfter, hopen, hclose, hbefore]

end Braces

/-! ## Types -/

open Classical in
/-- A type is measured up to the brace that closes it if its braces nest at most once, and is no
type otherwise. -/
theorem typeLength_eq {inner : Bool} {cs : List Char} (hline : '\n' ∉ cs)
    (hclosing : Closing inner.toNat cs) (after : List Char) :
    typeLength inner (cs ++ '\x7d' :: after)
      = if ShallowAfter inner.toNat cs then some cs.length else none := by
  induction cs generalizing inner with
  | nil =>
    have hshallow : ShallowAfter inner.toNat [] := by
      intro pre hpre
      rw [List.prefix_nil.mp hpre, closing_nil.mp hclosing]
      simp
    cases inner with
    | true => cases closing_nil.mp hclosing
    | false => rw [if_pos hshallow]; rfl
  | cons c cs ih =>
    have hc : c ≠ '\n' := fun h => hline (h ▸ List.mem_cons_self ..)
    have hrest : '\n' ∉ cs := fun h => hline (List.mem_cons_of_mem _ h)
    have hstep {inner : Bool} (hcs : Closing inner.toNat cs) :
        (typeLength inner (cs ++ '\x7d' :: after)).map (· + 1)
          = if ShallowAfter inner.toNat cs then some (c :: cs).length else none := by
      rw [ih hrest hcs]
      split <;> rfl
    rw [List.cons_append, typeLength]
    -- a brace is taken or ends the type, depending on whether one is open already
    by_cases hclose : c = '\x7d'
    · subst hclose
      obtain ⟨left, hleft, hcs⟩ := closing_close.mp hclosing
      cases inner with
      | false => cases hleft
      | true =>
        cases hleft
        rw [if_pos (by rfl), if_pos rfl, @hstep false hcs]
        simp only [Bool.toNat_true, Bool.toNat_false, shallowAfter_close]
    · by_cases hopen : c = '\x7b'
      · subst hopen
        rw [if_neg (by simp), if_pos (by rfl)]
        cases inner with
        | false =>
          rw [if_neg (by simp), @hstep true (closing_open.mp hclosing)]
          simp only [Bool.toNat_true, Bool.toNat_false, shallowAfter_open]
        | true => rw [if_pos rfl, Bool.toNat_true, if_neg not_shallowAfter_open]
      · have hbefore : inner.toNat ≤ 1 := Bool.toNat_le inner
        rw [if_neg (by simpa using hclose), if_neg (by simpa using hopen),
          if_neg (by simpa using hc), hstep ((closing_other hopen hclose).mp hclosing)]
        simp only [shallowAfter_other hopen hclose hbefore]

/-- The length of a type is found exactly where a brace closes it whose braces match and nest at
most once. -/
theorem typeLength_eq_some_iff {inner : Bool} {cs : List Char} {n : Nat} :
    typeLength inner cs = some n ↔ ∃ type after, cs = type ++ '\x7d' :: after ∧ type.length = n ∧
      '\n' ∉ type ∧ Closing inner.toNat type ∧ ShallowAfter inner.toNat type := by
  constructor
  · intro h
    -- a closing brace ends the type or goes one level up, an opening one goes down one level
    induction cs generalizing inner n with
    | nil => cases h
    | cons c cs ih =>
      rw [typeLength] at h
      by_cases hclose : c = '\x7d'
      · subst hclose
        rw [if_pos (by rfl)] at h
        cases inner with
        | false =>
          cases h
          exact ⟨[], cs, rfl, rfl, by simp, closing_nil.mpr rfl, fun pre hpre => by
            simp [List.prefix_nil.mp hpre]⟩
        | true =>
          obtain ⟨m, hm, rfl⟩ := Option.map_eq_some_iff.mp h
          obtain ⟨type, after, rfl, rfl, hline, hclosing, hshallow⟩ := ih hm
          exact ⟨'\x7d' :: type, after, rfl, rfl, by simpa using hline,
            closing_close.mpr ⟨0, rfl, hclosing⟩, shallowAfter_close.mpr hshallow⟩
      by_cases hopen : c = '\x7b'
      · subst hopen
        rw [if_neg (by simp), if_pos (by rfl)] at h
        cases inner with
        | false =>
          obtain ⟨m, hm, rfl⟩ := Option.map_eq_some_iff.mp h
          obtain ⟨type, after, rfl, rfl, hline, hclosing, hshallow⟩ := ih hm
          exact ⟨'\x7b' :: type, after, rfl, rfl, by simpa using hline, closing_open.mpr hclosing,
            shallowAfter_open.mpr hshallow⟩
        | true => cases h
      · rw [if_neg (by simpa using hclose), if_neg (by simpa using hopen)] at h
        split at h
        · cases h
        · next hc =>
          have hc' : '\n' ≠ c := fun heq => hc (by simp [← heq])
          obtain ⟨m, hm, rfl⟩ := Option.map_eq_some_iff.mp h
          obtain ⟨type, after, rfl, rfl, hline, hclosing, hshallow⟩ := ih hm
          exact ⟨c :: type, after, rfl, rfl, by simpa [hc'] using hline,
            (closing_other hopen hclose).mpr hclosing,
            (shallowAfter_other hopen hclose (Bool.toNat_le inner)).mpr hshallow⟩
  · rintro ⟨type, after, rfl, rfl, hline, hclosing, hshallow⟩
    rw [typeLength_eq hline hclosing, if_pos hshallow]

/-- A braced type that is read has fewer opening braces than the text it is read from. -/
theorem count_of_bracedType? {cs after : List Char} {type : String}
    (h : bracedType? cs = some (type, after)) :
    type.toList.count '\x7b' + after.count '\x7b' < cs.count '\x7b' := by
  unfold bracedType? at h
  split at h
  · next rest =>
    obtain ⟨n, -, hn⟩ := Option.map_eq_some_iff.mp h
    cases hn
    have hsplit : rest.count '\x7b' = (rest.take n).count '\x7b' + (rest.drop n).count '\x7b' := by
      rw [← List.count_append, List.take_append_drop]
    have hdrop : (rest.drop (n + 1)).count '\x7b' ≤ (rest.drop n).count '\x7b' := by
      rw [← List.drop_drop]
      exact (List.drop_sublist 1 _).count_le _
    rw [String.toList_ofList, List.count_cons_self]
    omega
  · cases h

theorem count_of_tagAt? {cs after : List Char} {tag : Tag} (h : tagAt? cs = some (tag, after)) :
    after.count '\x7b' ≤ cs.count '\x7b' ∧
      ∀ type ∈ tag.braced, type.toList.count '\x7b' < cs.count '\x7b' := by
  cases cs with
  | nil => cases h
  | cons c rest =>
    have hsub : ((rest.dropWhile isTagPart).dropWhile isLineBlank).Sublist (c :: rest) :=
      ((List.dropWhile_sublist _).trans (List.dropWhile_sublist _)).trans
        (List.sublist_cons_self c rest)
    have hle := hsub.count_le '\x7b'
    rw [tagAt?] at h
    split at h
    · simp only at h
      split at h
      · next type after' hbraced =>
        have hcount := count_of_bracedType? hbraced
        cases h
        refine ⟨by omega, fun t ht => ?_⟩
        cases ht
        omega
      · cases h
        refine ⟨hle, fun t ht => ?_⟩
        cases ht
    · cases h

/-- So has the type of every tag. -/
theorem count_of_mem_tagsOf {cs : List Char} {tag : Tag} (h : tag ∈ tagsOf cs) :
    ∀ type ∈ tag.braced, type.toList.count '\x7b' < cs.count '\x7b' := by
  intro type htype
  induction cs using tags_induction with
  | nil => cases h
  | @tag cs after first htag ih =>
    obtain ⟨hafter, hfirst⟩ := count_of_tagAt? htag
    have hle := (List.sublist_cons_self '@' cs).count_le '\x7b'
    rw [tagsOf_tag htag] at h
    rcases List.mem_cons.mp h with rfl | h
    · exact Nat.lt_of_lt_of_le (hfirst type htype) hle
    · exact Nat.lt_of_lt_of_le (ih h) (Nat.le_trans hafter hle)
  | @skip c cs hskip ih =>
    rw [tagsOf_skip hskip] at h
    exact Nat.lt_of_lt_of_le (ih h) ((List.sublist_cons_self c cs).count_le _)

/-! ## Trimming -/

theorem count_dropWhile {p : Char → Bool} {c : Char} (hc : p c = false) (cs : List Char) :
    (cs.dropWhile p).count c = cs.count c := by
  have hdropped : (cs.takeWhile p).count c = 0 := by
    rw [List.count_eq_zero]
    intro hmem
    have := List.all_eq_true.mp List.all_takeWhile c hmem
    rw [hc] at this
    cases this
  conv_rhs => rw [← List.takeWhile_append_dropWhile (p := p) (l := cs), List.count_append, hdropped,
    Nat.zero_add]

/-- Only blanks are trimmed off. -/
theorem count_trim {c : Char} (hc : isBlank c = false) (s : String) :
    (Text.trim s).toList.count c = s.toList.count c := by
  unfold Text.trim Text.dropTailWhile
  rw [String.toList_ofList, List.count_reverse, count_dropWhile hc, List.count_reverse,
    count_dropWhile hc]

/-! ## Comments -/

/-- The return type that tags leave is the one that was there before, or else the first that one
of them declares. -/
theorem returnType_foldl_addTag (tags : List Tag) (doc : DocComment) :
    (tags.foldl addTag doc).returnType = doc.returnType.or (tags.findSome? Tag.returnType?) :=
  foldl_addTag_or (fun doc tag => by rw [addTag_eq]) tags doc

/-- The return type that tags leave is the one that was there before, or the type of one of
them. -/
theorem returnType_foldl {tags : List Tag} {doc : DocComment} {type : String}
    (h : (tags.foldl addTag doc).returnType = some type) :
    doc.returnType = some type ∨ ∃ tag ∈ tags, ∃ t ∈ tag.braced, type = Text.trim t := by
  rw [returnType_foldl_addTag] at h
  rcases Option.or_eq_some_iff.mp h with hdoc | ⟨-, hfound⟩
  · exact .inl hdoc
  · obtain ⟨tag, htag, htype⟩ := List.exists_of_findSome?_eq_some hfound
    unfold Tag.returnType? at htype
    split at htype
    · obtain ⟨t, ht, rfl⟩ := Option.map_eq_some_iff.mp htype
      exact .inr ⟨tag, htag, t, ht, rfl⟩
    · cases htype

theorem returnType_read? {comment : String} {start : Nat} {doc : DocComment}
    (h : read? comment start = some doc) : doc.returnType
      = ((tagsOf comment.toList).foldl addTag ⟨[], none, none, start⟩).returnType.bind nonblank? := by
  unfold read? at h
  split at h
  · cases h
    rfl
  · cases h

/-- The comment that declares a return type. -/
def returnComment (type : String) : String := "/** @return \x7b" ++ type ++ "\x7d */"

theorem isDocComment_returnComment (type : String) :
    isDocComment (returnComment type) = true := by
  unfold isDocComment returnComment
  simp only [Bool.and_eq_true, bne_iff_ne, ne_eq]
  refine ⟨⟨by simp, ?_⟩, fun h => ?_⟩
  · rw [← String.endsWith_toSlice, String.Slice.endsWith_string_iff, String.copy_toSlice,
      String.toList_append]
    exact List.IsSuffix.trans (by decide) (List.suffix_append _ _)
  · simpa using congrArg String.toList h

/-- A return tag before an opening brace has the type that the braces hold, if they hold one. -/
theorem tagAt?_return (cs : List Char) :
    tagAt? ("return ".toList ++ '\x7b' :: cs) = match bracedType? ('\x7b' :: cs) with
      | some (type, after) => some (⟨"return", some type, none⟩, after)
      | none => some (⟨"return", none, bareType? ('\x7b' :: cs)⟩, '\x7b' :: cs) := by
  have hword : "return ".toList ++ '\x7b' :: cs
      = 'r' :: ("eturn".toList ++ ' ' :: '\x7b' :: cs) := rfl
  have hname : "eturn".toList.takeWhile isTagPart = "eturn".toList := by decide
  have hrest : "eturn".toList.dropWhile isTagPart = [] := by decide
  have hafter : (' ' :: '\x7b' :: cs).dropWhile isLineBlank = '\x7b' :: cs := rfl
  rw [hword, tagAt?, if_pos (by decide), takeWhile_append_stop (by decide),
    dropWhile_append_stop (by decide), hname, hrest, List.nil_append, hafter]
  rfl

open Classical in
/-- The tag of the comment has the type if that nests at most once; otherwise it has none, and
what the type holds is read for tags. -/
theorem tagsOf_returnComment {type : String} (hline : '\n' ∉ type.toList)
    (hbalanced : Balanced type.toList) :
    (Shallow type.toList → tagsOf (returnComment type).toList = [⟨"return", some type, none⟩]) ∧
      (¬ Shallow type.toList → ∃ bare, tagsOf (returnComment type).toList
        = ⟨"return", none, bare⟩ :: tagsOf (type.toList ++ "\x7d */".toList)) := by
  have htext : (returnComment type).toList = "/** ".toList ++
      '@' :: ("return ".toList ++ '\x7b' :: (type.toList ++ "\x7d */".toList)) := by
    simp [returnComment]
  have hlength : typeLength false (type.toList ++ "\x7d */".toList)
      = if Shallow type.toList then some type.toList.length else none :=
    @typeLength_eq false _ hline hbalanced " */".toList
  rw [htext, tagsOf_lead (by decide), tagsOf_at, tagAt?_return, bracedType?, hlength]
  constructor
  · intro hshallow
    have hsplit : type.toList ++ "\x7d */".toList
        = (type.toList ++ ['\x7d']) ++ " */".toList := by simp
    have hdrop : (type.toList ++ "\x7d */".toList).drop (type.toList.length + 1)
        = " */".toList := by
      rw [hsplit, List.drop_left' (by simp)]
    have hnone : tagsOf " */".toList = [] := by decide
    rw [if_pos hshallow]
    simp only [Option.map_some, List.take_left, hdrop, hnone, String.ofList_toList]
  · intro hdeep
    rw [if_neg hdeep]
    refine ⟨bareType? ('\x7b' :: (type.toList ++ "\x7d */".toList)), ?_⟩
    simp only [Option.map_none]
    rw [tagsOf_cons (by decide)]

/-- For a type on one line whose braces match and which is not blank, the return type of the
comment that declares it is the type without the blanks around it exactly if its braces nest at
most once. -/
theorem returnType_iff_shallow (type : String) (start : Nat) (hline : '\n' ∉ type.toList)
    (hbalanced : Balanced type.toList) (hblank : Text.trim type ≠ "") :
    ∃ doc, read? (returnComment type) start = some doc ∧
      (doc.returnType = some (Text.trim type) ↔ Shallow type.toList) := by
  obtain ⟨doc, hdoc⟩ := (@read?_eq_some_iff _ start).mpr (isDocComment_returnComment type)
  obtain ⟨hshallow, hdeep⟩ := tagsOf_returnComment hline hbalanced
  refine ⟨doc, hdoc, ?_⟩
  have htype := returnType_read? hdoc
  by_cases h : Shallow type.toList
  · refine iff_of_true ?_ h
    rw [htype, hshallow h]
    show (nonblank? (Text.trim type)) = some (Text.trim type)
    rw [nonblank?, if_neg (by simpa using hblank)]
  · -- what is declared inside the type has fewer braces than the type
    refine iff_of_false (fun heq => ?_) h
    obtain ⟨bare, htags⟩ := hdeep h
    rw [htype, htags, List.foldl_cons] at heq
    obtain ⟨declared, hdeclared, hnonblank⟩ := Option.bind_eq_some_iff.mp heq
    rcases returnType_foldl hdeclared with hnone | ⟨tag, htag, t, ht, rfl⟩
    · cases hnone
    · have hfewer := count_of_mem_tagsOf htag t ht
      unfold nonblank? at hnonblank
      split at hnonblank
      · cases hnonblank
      · have hcount := congrArg (fun s => s.toList.count '\x7b') (Option.some.inj hnonblank)
        simp only [count_trim (show isBlank '\x7b' = false by decide)] at hcount
        rw [hcount, List.count_append] at hfewer
        exact absurd hfewer (by simp)

/-- A type with one pair of braces inside it is read. -/
theorem returnType_iff_shallow_array :
    '\n' ∉ " Array<\x7ba: number\x7d> ".toList ∧
      Balanced " Array<\x7ba: number\x7d> ".toList ∧
      Text.trim " Array<\x7ba: number\x7d> " ≠ "" ∧
      (∃ doc, read? (returnComment " Array<\x7ba: number\x7d> ") 0 = some doc ∧
        (doc.returnType = some (Text.trim " Array<\x7ba: number\x7d> ") ↔
          Shallow " Array<\x7ba: number\x7d> ".toList)) ∧
      (read? (returnComment " Array<\x7ba: number\x7d> ") 0).bind (·.returnType)
        = some "Array<\x7ba: number\x7d>" :=
  have hline : '\n' ∉ " Array<\x7ba: number\x7d> ".toList := by decide
  have hbalanced : Balanced " Array<\x7ba: number\x7d> ".toList := by decide
  have hblank : Text.trim " Array<\x7ba: number\x7d> " ≠ "" := by decide
  ⟨hline, hbalanced, hblank, returnType_iff_shallow _ 0 hline hbalanced hblank,
    by decide +kernel⟩

/-- A type with a record inside a record is lost: its braces match, it is not blank, and the
comment has no return type. -/
theorem returnType_lost_nested :
    '\n' ∉ "\x7ba: \x7bb: number\x7d\x7d".toList ∧
      Balanced "\x7ba: \x7bb: number\x7d\x7d".toList ∧
      ¬ ("*/".toList <:+: "\x7ba: \x7bb: number\x7d\x7d".toList) ∧
      Text.trim "\x7ba: \x7bb: number\x7d\x7d" = "\x7ba: \x7bb: number\x7d\x7d" ∧
      (read? (returnComment "\x7ba: \x7bb: number\x7d\x7d") 0).map (·.returnType)
        = some none := by
  refine ⟨by decide, by decide, by decide, by decide, by decide +kernel⟩

end SuperForward.DocComment
