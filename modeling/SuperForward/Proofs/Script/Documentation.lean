/-
  The comment that documents what begins at an offset.

  It is the last comment before the offset that documents, with nothing but blanks and plain
  comments after it. The comments between two tokens travel with the later one, so the token at
  the offset has what this comment says. No comment travels with two tokens: along the tokens of
  a text, what documents them begins further and further on.
-/
import SuperForward.Proofs.Script.Alike

namespace SuperForward.Script

/-- The text has this documentation before the offset: blanks and comments that document nothing
may stand between the comment and the offset. -/
def DocumentedAt (text : List Char) (offset : Nat) (doc : DocComment) : Prop :=
  ∃ (before : List Lexeme) (comment : List Char) (gap after : List Lexeme),
    CutInto text (before ++ ⟨.comment, comment⟩ :: gap ++ after) ∧
      (textOf (before ++ ⟨.comment, comment⟩ :: gap)).length = offset ∧
      (∀ l ∈ gap, l.IsGap) ∧
      DocComment.read? (String.ofList comment) (textOf before).length = some doc

theorem offset_after_origin (ls : List Lexeme) :
    (Spot.origin.after ls).offset = (textOf ls).length :=
  (Spot.offset_after ..).trans (Nat.zero_add _)

/-- Lexemes that separate leave the last documentation as it is. -/
theorem lastDoc?_after_gap {gap : List Lexeme} (hgap : ∀ l ∈ gap, l.IsGap) (s : Spot) :
    lastDoc? (s.after gap).pending = lastDoc? s.pending := by
  induction gap generalizing s with
  | nil => rfl
  | cons l gap ih =>
    obtain ⟨hl, hrest⟩ := List.forall_mem_cons.mp hgap
    have hcons : s.after (l :: gap) = (s.next l).after gap := rfl
    rw [hcons, ih hrest, Spot.next]
    rcases hl with hblank | ⟨hcomment, hplain⟩
    · simp only [hblank]
    · have hnone : DocComment.read? (String.ofList l.text) s.offset = none := by
        unfold DocComment.read?
        rw [hplain]
        rfl
      simp only [hcomment, lastDoc?, List.findSome?_cons, Spot.comment, hnone]

/-- The documentation of a token is that before the offset at which it begins. -/
theorem doc?_eq_some_iff {text : List Char} {t : Token} (ht : t ∈ (scan text).tokens)
    (hending : (scan text).ending = .endOfText) {doc : DocComment} :
    t.doc? = some doc ↔ DocumentedAt text t.start doc := by
  constructor
  · obtain ⟨ls, hcut⟩ := exists_cutInto_iff.mpr hending
    rw [hcut.scan_eq] at ht
    intro hdoc
    obtain ⟨as, bs, htokens⟩ := List.append_of_mem ht
    obtain ⟨la, l, lb, rfl, -, -, htoken, -⟩ := exists_lexeme htokens
    rw [htoken, Token.doc?, Spot.token] at hdoc
    simp only [List.reverse_reverse] at hdoc
    obtain ⟨before, c, gap, rfl, hc, hgap, hread⟩ := exists_documentation rfl hdoc
    obtain ⟨kind, comment⟩ := c
    cases hc
    refine ⟨before, comment, gap, l :: lb, hcut, ?_, hgap, ?_⟩
    · rw [htoken]
      exact (offset_after_origin _).symm
    · rwa [offset_after_origin] at hread
  · rintro ⟨before, comment, gap, after, hcut, hoffset, hgap, hread⟩
    rw [hcut.scan_eq] at ht
    have hplace : t.start = (Spot.origin.after (before ++ ⟨.comment, comment⟩ :: gap)).offset := by
      rw [← hoffset, offset_after_origin]
    have hcons : (Spot.origin.after before).after (⟨.comment, comment⟩ :: gap)
        = ((Spot.origin.after before).next ⟨.comment, comment⟩).after gap := rfl
    rw [Token.doc?, comments_of_start_eq hcut.ne_nil ht hplace, List.reverse_reverse,
      Spot.after_append, hcons, lastDoc?_after_gap hgap, Spot.next]
    simp only [lastDoc?, List.findSome?_cons, Spot.comment, offset_after_origin, hread]

/-! ## Documentation along the tokens -/

/-- What documents a token is one of the comments before it. -/
theorem Token.exists_comment {t : Token} {doc : DocComment} (h : t.doc? = some doc) :
    ∃ c ∈ t.comments, c.start = doc.start := by
  obtain ⟨c, hc, hread⟩ := List.exists_of_findSome?_eq_some h
  exact ⟨c, List.mem_reverse.mp hc, (DocComment.start_of_read? hread).symm⟩

/-- Comments that travel with later tokens begin no earlier. -/
theorem le_start_of_mem_comments {s : Spot} {ls : List Lexeme} {bound : Nat}
    (hpending : ∀ c ∈ s.pending, bound ≤ c.start) (hoffset : bound ≤ s.offset) {t : Token}
    (ht : t ∈ tokensFrom s ls) {c : Comment} (hc : c ∈ t.comments) : bound ≤ c.start := by
  induction ls generalizing s with
  | nil => exact absurd ht List.not_mem_nil
  | cons l ls ih =>
    have hle : bound ≤ (s.next l).offset := Nat.le_add_right_of_le hoffset
    rw [tokensFrom] at ht
    cases hkind : l.kind with
    | blank =>
      rw [hkind] at ht
      refine ih (fun c hc => hpending c ?_) hle ht
      rw [Spot.next, hkind] at hc
      exact hc
    | comment =>
      rw [hkind] at ht
      refine ih (fun c hc => ?_) hle ht
      rw [Spot.next, hkind] at hc
      rcases List.mem_cons.mp hc with rfl | hc
      · exact hoffset
      · exact hpending c hc
    | token kind =>
      rw [hkind] at ht
      rcases List.mem_cons.mp ht with rfl | ht
      · exact hpending c (List.mem_reverse.mp hc)
      · refine ih (fun c hc => ?_) hle ht
        rw [Spot.next, hkind] at hc
        exact absurd hc List.not_mem_nil

/-- The tokens of a text are documented by comments that begin one after the other. -/
theorem pairwise_docs {ls : List Lexeme} (hne : ∀ l ∈ ls, l.text ≠ []) {s : Spot}
    (hpending : ∀ c ∈ s.pending, c.start < s.offset) :
    ((tokensFrom s ls).filterMap Token.doc?).Pairwise fun d e => d.start < e.start := by
  induction ls generalizing s with
  | nil => exact .nil
  | cons l ls ih =>
    obtain ⟨hl, hls⟩ := List.forall_mem_cons.mp hne
    have hlt : s.offset < (s.next l).offset :=
      Nat.lt_add_of_pos_right (List.length_pos_iff.mpr hl)
    rw [tokensFrom]
    cases hkind : l.kind with
    | blank =>
      refine ih hls fun c hc => ?_
      rw [Spot.next, hkind] at hc
      exact (hpending c hc).trans hlt
    | comment =>
      refine ih hls fun c hc => ?_
      rw [Spot.next, hkind] at hc
      rcases List.mem_cons.mp hc with rfl | hc
      · exact hlt
      · exact (hpending c hc).trans hlt
    | token kind =>
      -- a token uses up what is pending, so the comments of the tokens after it begin behind it
      have hnone : (s.next l).pending = [] := by
        rw [Spot.next, hkind]
      have hrest := ih hls (s := s.next l) (by rw [hnone]; exact List.forall_mem_nil _)
      simp only
      rw [List.filterMap_cons]
      cases hdoc : (s.token kind l).doc? with
      | none => exact hrest
      | some d =>
        refine List.pairwise_cons.mpr ⟨fun e he => ?_, hrest⟩
        obtain ⟨u, hu, hue⟩ := List.mem_filterMap.mp he
        obtain ⟨c, hc, hcd⟩ := Token.exists_comment hdoc
        obtain ⟨c', hc', hce⟩ := Token.exists_comment hue
        have hbefore := hpending c (List.mem_reverse.mp hc)
        have hafter := le_start_of_mem_comments (by rw [hnone]; exact List.forall_mem_nil _)
          (Nat.le_refl (s.next l).offset) hu hc'
        omega

end SuperForward.Script
