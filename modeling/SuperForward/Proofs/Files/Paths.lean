/-
  How paths are written and read.

  A path whose parts are names is read again as it was written. The paths that are read from a
  text are of this kind, and so are those that are put together from them.
-/
import SuperForward.Files.Path
import SuperForward.Proofs.Splitting

namespace SuperForward

namespace Text

/-- No piece of a text holds the mark. -/
theorem not_mem_of_mem_pieces {mark : Char} {cs piece : List Char}
    (h : piece ∈ pieces (· == mark) cs) : mark ∉ piece := by
  induction cs generalizing piece with
  | nil =>
    rw [pieces, List.mem_singleton] at h
    simp [h]
  | cons c rest ih =>
    obtain ⟨first, others, hpieces⟩ := List.exists_cons_of_ne_nil (pieces_ne_nil (· == mark) rest)
    rw [pieces] at h
    split at h
    · rcases List.mem_cons.1 h with rfl | h
      · simp
      · exact ih h
    · next hc =>
      rw [hpieces, List.modifyHead_cons, List.mem_cons] at h
      rw [hpieces] at ih
      rcases h with rfl | h
      · rw [List.mem_cons, not_or]
        exact ⟨fun heq => hc (by simp [heq]), ih (List.mem_cons_self ..)⟩
      · exact ih (List.mem_cons_of_mem _ h)

/-- Pieces that are put together with the mark are the pieces again. -/
theorem pieces_intercalate {mark : Char} {first : List Char} {others : List (List Char)}
    (h : ∀ piece ∈ first :: others, mark ∉ piece) :
    pieces (· == mark) ([mark].intercalate (first :: others)) = first :: others := by
  induction others generalizing first with
  | nil =>
    rw [List.intercalate_singleton, pieces_of_free]
    intro c hc
    rw [beq_eq_false_iff_ne]
    rintro rfl
    exact h first (List.mem_cons_self ..) hc
  | cons second others ih =>
    rw [List.intercalate_cons_cons, List.append_assoc, List.singleton_append,
      pieces_append_mark (by simp), ih fun piece hp => h piece (List.mem_cons_of_mem _ hp),
      pieces_of_free]
    · rfl
    · intro c hc
      rw [beq_eq_false_iff_ne]
      rintro rfl
      exact h first (List.mem_cons_self ..) hc

end Text

namespace Files.Path

/-- A name that can be a part of a path. -/
structure IsName (name : String) : Prop where
  isPart : isPart name = true
  noSlash : '/' ∉ name.toList

theorem IsName.ne_empty {name : String} (h : IsName name) : name ≠ "" := by
  rintro rfl
  exact absurd h.isPart (by decide)

theorem IsName.toList_ne_nil {name : String} (h : IsName name) : name.toList ≠ [] :=
  fun heq => h.ne_empty (String.toList_eq_nil_iff.1 heq)

/-- All parts of the path are names. -/
def Proper (p : Path) : Prop := ∀ part ∈ p.parts, IsName part

theorem proper_ofText (s : String) : (ofText s).Proper := by
  intro part hpart
  obtain ⟨hmem, hpart⟩ := List.mem_filter.1 hpart
  obtain ⟨piece, hpiece, rfl⟩ := List.mem_map.1 hmem
  exact ⟨hpart, by simpa using Text.not_mem_of_mem_pieces hpiece⟩

theorem Proper.join {p q : Path} (hp : p.Proper) (hq : q.Proper) : (p.join q).Proper := by
  unfold Path.join
  split
  · exact hq
  · intro part hpart
    rcases List.mem_append.1 hpart with h | h
    · exact hp part h
    · exact hq part h

theorem Proper.isName_name {p : Path} (hp : p.Proper) (h : p.parts ≠ []) : IsName p.name := by
  rw [name, List.getLast?_eq_some_getLast h]
  exact hp _ (List.getLast_mem h)

/-! ## Settled parts -/

/-- One name more of a path that settles; the last name settled comes first. -/
def settleStep (settled : List String) (part : String) : List String :=
  if part == ".." then settled.drop 1 else part :: settled

theorem mem_of_mem_settle_aux {name : String} (parts settled : List String)
    (h : name ∈ parts.foldl settleStep settled) : name ∈ settled ∨ name ∈ parts ∧ name ≠ ".." := by
  induction parts generalizing settled with
  | nil => exact .inl h
  | cons part parts ih =>
    rcases ih _ h with h | ⟨h, hne⟩
    · unfold settleStep at h
      split at h
      · exact .inl (List.mem_of_mem_drop h)
      · next hpart =>
        rcases List.mem_cons.1 h with rfl | h
        · exact .inr ⟨List.mem_cons_self .., by simpa using hpart⟩
        · exact .inl h
    · exact .inr ⟨List.mem_cons_of_mem _ h, hne⟩

/-- What settles comes from the parts, without the double dots. -/
theorem mem_of_mem_settle {name : String} {parts : List String} (h : name ∈ settle parts) :
    name ∈ parts ∧ name ≠ ".." := by
  rcases mem_of_mem_settle_aux parts [] (List.mem_reverse.1 h) with h | h
  · exact absurd h (List.not_mem_nil)
  · exact h

/-- Parts without double dots are settled. -/
theorem settle_of_forall_ne {parts : List String} (h : ∀ part ∈ parts, part ≠ "..") :
    settle parts = parts := by
  have hfold : ∀ (parts settled : List String), (∀ part ∈ parts, part ≠ "..") →
      parts.foldl settleStep settled = parts.reverse ++ settled := by
    intro parts
    induction parts with
    | nil => intros; rfl
    | cons part parts ih =>
      intro settled h
      have hpart : settleStep settled part = part :: settled :=
        if_neg (by simpa using h part (List.mem_cons_self ..))
      rw [List.foldl_cons, hpart, ih _ fun q hq => h q (List.mem_cons_of_mem _ hq)]
      simp
  show (parts.foldl settleStep []).reverse = parts
  rw [hfold parts [] h, List.append_nil, List.reverse_reverse]

theorem Proper.resolve {p current : Path} (hp : p.Proper) (hcurrent : current.Proper) :
    (p.resolve current).Proper :=
  fun part hpart => hcurrent.join hp part (mem_of_mem_settle hpart).1

/-! ## Reading what was written -/

theorem toString_eq {p : Path} (h : p.anchor ≠ .relative ∨ p.parts ≠ []) :
    toString p = p.anchor.text ++ "/".intercalate p.parts := by
  obtain ⟨anchor, parts⟩ := p
  show Path.toString _ = _
  unfold Path.toString
  split
  · next ha hp => exact (h.elim (· ha) (· hp)).elim
  · rfl

/-- The text of the parts of a path, character by character. -/
def partsText (parts : List String) : List Char := ['/'].intercalate (parts.map String.toList)

theorem toList_intercalate_slash (parts : List String) :
    ("/".intercalate parts).toList = partsText parts := String.toList_intercalate ..

/-- The text of names begins with no slash. -/
theorem head?_partsText {parts : List String} (h : ∀ part ∈ parts, IsName part) :
    (partsText parts).head? ≠ some '/' := by
  cases parts with
  | nil => simp [partsText]
  | cons part parts =>
    have hpart := h part (List.mem_cons_self ..)
    obtain ⟨c, cs, hcs⟩ := List.exists_cons_of_ne_nil hpart.toList_ne_nil
    have hc : c ≠ '/' := by
      rintro rfl
      exact hpart.noSlash (by simp [hcs])
    cases parts with
    | nil => simpa [partsText, hcs] using hc
    | cons second parts => simpa [partsText, List.intercalate_cons_cons, hcs] using hc

/-- The names of a path are what its text has between slashes. -/
theorem filter_pieces_partsText {parts : List String} (h : ∀ part ∈ parts, IsName part) :
    ((Text.pieces (· == '/') (partsText parts)).map String.ofList).filter isPart = parts := by
  have hfilter : parts.filter isPart = parts :=
    List.filter_eq_self.2 fun part hpart => (h part hpart).isPart
  cases parts with
  | nil => rfl
  | cons part rest =>
    have hpieces : Text.pieces (· == '/') (partsText (part :: rest))
        = (part :: rest).map String.toList := by
      unfold partsText
      rw [List.map_cons, Text.pieces_intercalate]
      intro piece hpiece
      rw [← List.map_cons] at hpiece
      obtain ⟨name, hname, rfl⟩ := List.mem_map.1 hpiece
      exact (h name hname).noSlash
    have hid : String.ofList ∘ String.toList = id := funext fun s => String.ofList_toList
    rw [hpieces, List.map_map, hid, List.map_id, hfilter]

/-- How a text begins, and how it does with slashes before it. -/
theorem anchorOf_of_head? {cs : List Char} (h : cs.head? ≠ some '/') :
    anchorOf cs = .relative ∧ anchorOf ('/' :: cs) = .slash
      ∧ anchorOf ('/' :: '/' :: cs) = .twoSlashes := by
  cases cs with
  | nil => exact ⟨rfl, rfl, rfl⟩
  | cons c cs =>
    have hc : c ≠ '/' := by simpa using h
    simp [anchorOf, hc]

/-- A path of names is read from the text as which it is written. -/
theorem ofText_toString {p : Path} (h : p.Proper) : ofText (toString p) = p := by
  obtain ⟨anchor, parts⟩ := p
  by_cases hempty : anchor = .relative ∧ parts = []
  · obtain ⟨rfl, rfl⟩ := hempty
    decide
  rw [toString_eq (by by_contra hno; exact hempty (by simpa using hno))]
  obtain ⟨hrelative, hslash, hslashes⟩ := anchorOf_of_head? (head?_partsText h)
  have hpieces := filter_pieces_partsText h
  unfold ofText Text.piecesAt
  rw [String.toList_append, toList_intercalate_slash]
  -- a leading slash only adds an empty piece, which does not count
  cases anchor with
  | relative => exact congrArg₂ Path.mk hrelative hpieces
  | slash =>
    rw [show Anchor.slash.text.toList = ['/'] by decide]
    exact congrArg₂ Path.mk hslash hpieces
  | twoSlashes =>
    rw [show Anchor.twoSlashes.text.toList = ['/', '/'] by decide]
    exact congrArg₂ Path.mk hslashes hpieces

/-! ## Paths of entries -/

theorem ofText_name {name : String} (h : IsName name) : ofText name = ⟨.relative, [name]⟩ :=
  ofText_toString (p := ⟨.relative, [name]⟩) fun _ hpart => List.mem_singleton.1 hpart ▸ h

theorem parts_join_ofText {p : Path} {name : String} (h : IsName name) :
    (p.join (ofText name)).parts = p.parts ++ [name] := by
  rw [ofText_name h]
  rfl

theorem join_ofText {p : Path} {name : String} (h : IsName name) :
    p.join (ofText name) = ⟨p.anchor, p.parts ++ [name]⟩ := by
  rw [ofText_name h]
  rfl

theorem name_join_ofText {p : Path} {name : String} (h : IsName name) :
    (p.join (ofText name)).name = name := by
  rw [Path.name, parts_join_ofText h, List.getLast?_concat]
  rfl

/-- What stands after the last slash is the name, unless there is none. -/
theorem lastWord_eq_name {p : Path} (h : p.parts ≠ []) : p.lastWord = p.name := by
  rw [lastWord, name, List.getLast?_eq_some_getLast h]
  rfl

/-- The name of a path is the last part of it, also as seen from a current directory. -/
theorem name_mem_join {current p : Path} (h : p.parts ≠ []) : p.name ∈ (current.join p).parts := by
  have hmem : p.name ∈ p.parts := by
    rw [name, List.getLast?_eq_some_getLast h]
    exact List.getLast_mem h
  unfold Path.join
  split
  · exact hmem
  · exact List.mem_append_right _ hmem

/-- Seen from a current directory, a path to an entry has one part more. -/
theorem parts_join_join_ofText (current p : Path) {name : String} (h : IsName name) :
    (current.join (p.join (ofText name))).parts = (current.join p).parts ++ [name] := by
  rw [join_ofText h]
  cases hanchor : p.anchor <;> simp [Path.join, Path.isAbsolute, hanchor]

/-- How the paths to the entries of a directory begin. -/
def entryPrefix (p : Path) : String := if p.parts = [] then p.anchor.text else toString p ++ "/"

theorem partsText_append_singleton {parts : List String} (h : parts ≠ []) (name : String) :
    partsText (parts ++ [name]) = partsText parts ++ '/' :: name.toList := by
  unfold partsText
  induction parts with
  | nil => exact absurd rfl h
  | cons part parts ih =>
    cases parts with
    | nil => simp [List.intercalate_cons_cons]
    | cons second parts =>
      have := ih (by simp)
      simp only [List.cons_append, List.map_cons, List.intercalate_cons_cons] at this ⊢
      rw [this]
      simp

theorem toString_join_ofText (p : Path) {name : String} (h : IsName name) :
    toString (p.join (ofText name)) = p.entryPrefix ++ name := by
  rw [join_ofText h, toString_eq (.inr (by simp)), ← String.toList_inj, String.toList_append,
    String.toList_append, toList_intercalate_slash]
  by_cases hparts : p.parts = []
  · rw [entryPrefix, if_pos hparts, hparts]
    simp [partsText]
  · rw [entryPrefix, if_neg hparts, toString_eq (.inr hparts), partsText_append_singleton hparts]
    simp [partsText]

/-- The text of a path begins with the text of the path without its last part. -/
theorem toString_of_parent {p : Path} (habs : p.isAbsolute = true) (h : p.parts ≠ []) :
    ∃ rest, toString p = toString p.parent ++ rest := by
  obtain ⟨anchor, parts⟩ := p
  have hanchor : anchor ≠ .relative := by simpa [isAbsolute] using habs
  refine ⟨String.ofList ((partsText parts).drop (partsText parts.dropLast).length), ?_⟩
  rw [toString_eq (.inl hanchor),
    toString_eq (show (Path.parent ⟨anchor, parts⟩).anchor ≠ _ ∨ _ from .inl hanchor),
    ← String.toList_inj, String.toList_append, String.toList_append, String.toList_append,
    toList_intercalate_slash, toList_intercalate_slash, String.toList_ofList, List.append_assoc]
  have hinit : partsText parts.dropLast <+: partsText parts := by
    obtain ⟨init, last, rfl⟩ := List.eq_nil_or_concat parts |>.resolve_left h
    rw [List.concat_eq_append, List.dropLast_concat]
    by_cases hnil : init = []
    · rw [hnil]
      exact List.nil_prefix
    · rw [partsText_append_singleton hnil]
      exact List.prefix_append ..
  exact congrArg (anchor.text.toList ++ ·) (List.prefix_iff_eq_append.1 hinit).symm

end Files.Path

end SuperForward
