/-
  Tags that protect a method, from the text of its comment.

  The comments between two tokens travel with the later one, and the last of them that
  documents is on the statement that begins with this token. If one of its lines begins with a
  tag that is configured to protect, the statement stays, whatever it assigns.
-/
import SuperForward.Proofs.DocTags
import SuperForward.Proofs.Forward.Removing
import SuperForward.Proofs.Program.Characters
import SuperForward.Proofs.Program.Origin
import SuperForward.Proofs.Script.Documentation

namespace SuperForward

open SuperForward.Program (root Below)
open SuperForward.Script

/-! ## The comments before a token -/

namespace Script

/-- The nearest documentation comment before an offset of a text has a line that begins with
the tag. Blanks and comments that document nothing may stand between the two. -/
def TagBefore (text : String) (offset : Nat) (tag : String) : Prop :=
  ∃ (before : List Lexeme) (comment : List Char) (gap after : List Lexeme),
    CutInto text.toList (before ++ ⟨.comment, comment⟩ :: gap ++ after) ∧
      ((before ++ ⟨.comment, comment⟩ :: gap).flatMap Lexeme.text).length = offset ∧
      (∀ l ∈ gap, l.IsGap) ∧ DocComment.isDocComment (String.ofList comment) = true ∧
      DocComment.HasTagLine comment tag

/-- A phrase that begins after a tagged comment has the tag in its documentation. -/
theorem TagBefore.docBefore? {text : String} {offset : Nat} {tag : String}
    (h : TagBefore text offset tag) (htag : DocComment.IsTagName tag) {x : Tree} {t : Token}
    (hfirst : x.firstToken? = some t) (hmem : t ∈ (scan text.toList).tokens)
    (hstart : t.start = offset) : ∃ doc, x.docBefore? = some doc ∧ tag ∈ doc.tags := by
  obtain ⟨before, comment, gap, after, hcut, hoffset, hgap, hdoc, hline⟩ := h
  obtain ⟨doc, hread⟩ : ∃ doc, DocComment.read? (String.ofList comment)
      (textOf before).length = some doc :=
    DocComment.read?_eq_some_iff.mpr hdoc
  refine ⟨doc, ?_, ?_⟩
  · have hbefore : x.docBefore? = t.doc? := by
      rw [Tree.docBefore?, hfirst]
      rfl
    rw [hbefore, doc?_eq_some_iff hmem (exists_cutInto_iff.mp ⟨_, hcut⟩)]
    exact ⟨before, comment, gap, after, hcut, hoffset.trans hstart.symm, hgap, hread⟩
  · rw [DocComment.mem_tags_of_read? hread, String.toList_ofList]
    exact DocComment.mem_tagsOf_of_hasTagLine htag hline

/-- A place that has a comment before it is not the beginning of the text. -/
theorem TagBefore.pos {text : String} {offset : Nat} {tag : String}
    (h : TagBefore text offset tag) : 0 < offset := by
  obtain ⟨before, comment, gap, after, hcut, rfl, -, -, -⟩ := h
  have hne := hcut.ne_nil ⟨.comment, comment⟩ (by simp)
  have hpos : 0 < comment.length := List.length_pos_iff.mpr hne
  simp only [List.flatMap_append, List.flatMap_cons, List.length_append]
  omega

/-- A comment with which a text begins stands before what comes after it and a blank. -/
theorem tagBefore_of_begins {text : String} {comment rest : List Char} {tag : String}
    (htext : text.toList = comment ++ ' ' :: rest)
    (hnext : nextLexeme (comment ++ ' ' :: rest) = some (.comment, comment.length))
    (hrest : (scan rest).ending = .endOfText)
    (hdoc : DocComment.isDocComment (String.ofList comment) = true)
    (hline : DocComment.HasTagLine comment tag) : TagBefore text (comment.length + 1) tag := by
  obtain ⟨after, hafter⟩ := exists_cutInto_iff.mpr hrest
  refine ⟨[], comment, [.separator ' '], after, ?_, ?_, ?_, hdoc, hline⟩
  · have hcut : CutInto ((comment ++ ' ' :: rest).drop comment.length)
        (.separator ' ' :: after) := by
      rw [List.drop_left]
      exact .separator rfl hafter
    have hfirst := CutInto.lexeme hnext (by simp) hcut
    rw [List.take_left] at hfirst
    rw [htext]
    exact hfirst
  · simp [Lexeme.separator]
  · intro l hl
    rw [List.mem_singleton.mp hl]
    exact .inl rfl

end Script

/-! ## Protected statements -/

namespace Removal

section

variable {sources : List Source} {types : Handle → Option JsType} {p : Program}
  (hp : p = (Program.ofSources sources).1.withTypes types)
include hp

/-- The assignment of a statement after a tagged comment is protected by the tag. -/
theorem protected_of_tagBefore {tags : List String} {tag : String} (htag : tag ∈ tags)
    (hname : DocComment.IsTagName tag) {source : Source} {script fn assign statement : Handle}
    (hscript : p.IsScriptOf sources source script) (hbelow : p.Below script statement)
    (hassigned : AssignedIn p fn assign statement) {offset : Nat}
    (hoffset : p.startOf? statement = some offset) (h : TagBefore source.text offset tag) :
    Protected p tags assign := by
  have hparsed : p.Parsed := hp ▸ Program.parsed_ofSources sources types
  subst hp
  obtain ⟨statements, hread, hshows⟩ := hscript.shows
  obtain ⟨x, hx, parts, hinside, hstatement⟩ :=
    hshows.exprResult_of_script hparsed.forest hbelow hassigned.statement_kind
  -- the place of the statement is that of its first token, which is a token of the text
  have hextent : (Script.Tree.node .expressionStatement parts).extent.start = offset := by
    rw [hstatement.startOf?, Sketch.extent_expressionStatement] at hoffset
    exact Option.some.inj hoffset
  obtain ⟨t, hfirst, hstart⟩ :
      ∃ t, (Script.Tree.node .expressionStatement parts).firstToken? = some t ∧ t.start = offset := by
    have hpos := h.pos
    unfold Tree.extent at hextent
    split at hextent
    · next first last hfirst _ => exact ⟨first, hfirst, hextent⟩
    · have : 0 = offset := hextent
      omega
  have hmem : t ∈ (scan source.text.toList).tokens := by
    have htokens := TakesRepeated.tokens_eq (fun h => Stands.tokens_eq h)
      (Program.statementsStand_of_read hread).1
    rw [htokens, List.append_nil]
    refine Tree.mem_tokensOfAll.mpr ⟨x, hx, hinside.mem_tokens ?_⟩
    rw [Tree.firstToken?_eq] at hfirst
    exact List.mem_of_mem_head? (Option.mem_def.mpr hfirst)
  obtain ⟨doc, hdoc, htagged⟩ := h.docBefore? hname hfirst hmem hstart
  -- the documentation of the phrase is on its only node, the assignment
  obtain ⟨c, hc, hassign⟩ := hstatement.child
    (hparsed.forest.mem_children_iff.mpr hassigned.assign_parent)
  have hkind : c.kind = .assign := by
    have := hassigned.assign_kind
    rw [hassign.kindOf?] at this
    exact Option.some.inj this
  have honly : ∃ c', (Sketch.ofTree (.node .expressionStatement parts)).children = [c'] := by
    obtain ⟨scripts, hroot, -⟩ := hparsed.shows
    obtain ⟨n, hn⟩ : ∃ n, (((Program.ofSources sources).1.withTypes types).childrenOf statement)
        = [n] := by
      refine hparsed.children_exprResult (Below.trans ?_ hbelow) hassigned.statement_kind
      obtain ⟨before, after, -, -, hn⟩ := hscript
      exact Below.here.child (hparsed.forest.mem_children_iff.mp (List.mem_of_getElem? hn))
    have hall := hstatement.childrenOf
    rw [hn] at hall
    obtain ⟨c', _, -, hnil, heq⟩ := List.forall₂_cons_left_iff.mp hall
    rw [List.forall₂_nil_left_iff.mp hnil] at heq
    exact ⟨c', heq⟩
  refine ⟨doc, ?_, tag, htag, htagged⟩
  rw [hassign.docOf?]
  exact Sketch.doc_of_assign hdoc hc hkind honly

/-- A statement that assigns a function stays in the program if the nearest documentation
comment before it has a line that begins with a tag which is configured to protect: whatever
else is configured, declared or removed. -/
theorem attached_of_tagBefore {r : Registry} {tags : List String} {s : Removal}
    (hs : LooksAt p r tags s) {start : Handle} (hstart : p.Below root start) {tag : String}
    (htag : tag ∈ tags) (hname : DocComment.IsTagName tag) {source : Source}
    {script fn assign statement : Handle} (hscript : p.IsScriptOf sources source script)
    (hbelow : p.Below script statement) (hassigned : AssignedIn p fn assign statement)
    {offset : Nat} (hoffset : p.startOf? statement = some offset)
    (h : TagBefore source.text offset tag) :
    ∃ records s', (process start).outcome s = (.ok records, s') ∧
      s'.program.Below root statement := by
  have hprotected := protected_of_tagBefore hp htag hname hscript hbelow hassigned hoffset h
  have hparsed : p.Parsed := hp ▸ Program.parsed_ofSources sources types
  obtain ⟨taken, records, s', hout, htaken, -, -, hs'⟩ :=
    outcome_process_of_parsed hparsed hstart hs
  refine ⟨records, s', hout, ?_⟩
  have hroot : p.Below root statement := by
    refine Below.trans ?_ hbelow
    obtain ⟨before, after, -, -, hn⟩ := hscript
    exact Below.here.child (hparsed.forest.mem_children_iff.mp (List.mem_of_getElem? hn))
  rw [hs'.program]
  refine hroot.without fun d hd hd_below => ?_
  obtain ⟨t, ht, rfl⟩ := List.mem_map.mp hd
  obtain ⟨tassign, hforward⟩ := ((htaken t).mp ht).forwarder
  have hfn := hstart.trans ((htaken t).mp ht).within
  -- a statement that is taken out holds no other one, and it is not this one
  have heq : statement = t.statement := hforward.eq_of_below hparsed hfn hassigned hd_below
  have hlast : p.parentOf tassign = some statement := by
    rw [heq]
    exact hforward.assigned.assign_parent
  obtain ⟨c, hc⟩ := hparsed.children_exprResult hroot hassigned.statement_kind
  have hsame : tassign = assign := by
    have h₁ := hparsed.forest.mem_children_iff.mpr hlast
    have h₂ := hparsed.forest.mem_children_iff.mpr hassigned.assign_parent
    rw [hc, List.mem_singleton] at h₁ h₂
    rw [h₁, h₂]
  exact hforward.unprotected (hsame ▸ hprotected)

end

/-- A script that is a forward after a comment with a tag. -/
def taggedScript (tag : String) : Source :=
  ⟨"a.js", "/** @" ++ tag ++ " */ B.prototype.m = function() { B.superClass_.m.call(this); };"⟩

/-- The program of a script that is a forward after a comment with a tag, where everything is
known to be a function without a result. Its function is node 14, its assignment node 15 and its
statement node 16, below the script, node 17. -/
def taggedProgram (tag : String) : Program :=
  (Program.ofSources [taggedScript tag]).1.withTypes fun _ => some (.function "m" .void false)

/-- The tag is before the statement, whether it is a word or not. -/
theorem tagBefore_taggedScript {comment tag : String} (hdoc : comment = "/** @" ++ tag ++ " */")
    (hnext : nextLexeme (taggedScript tag).text.toList = some (.comment, comment.toList.length))
    (hread : DocComment.isDocComment comment = true) :
    TagBefore (taggedScript tag).text (comment.toList.length + 1) tag := by
  have htext : (taggedScript tag).text.toList = comment.toList ++
      ' ' :: "B.prototype.m = function() { B.superClass_.m.call(this); };".toList := by
    rw [hdoc]
    simp [taggedScript]
  refine tagBefore_of_begins htext (htext ▸ hnext) (by decide +kernel) ?_ ?_
  · rwa [String.ofList_toList]
  · have hlead : "/** ".toList.all (fun c => Text.isBlank c || c == '/' || c == '*') = true := by
      decide +kernel
    refine ⟨[], "/** ".toList, " */".toList, ?_, .inl rfl, fun c hc => ?_, fun c hc => ?_⟩
    · rw [hdoc]
      simp
    · simpa [or_assoc] using List.all_eq_true.mp hlead c hc
    · obtain rfl : ' ' = c := Option.some.inj hc
      decide +kernel

theorem attached_of_tagBefore_taggedProgram :
    LooksAt (taggedProgram "keep") .empty ["keep"] (.start (taggedProgram "keep") .empty ["keep"]) ∧
    "keep" ∈ ["keep"] ∧ DocComment.IsTagName "keep" ∧
    (taggedProgram "keep").IsScriptOf [taggedScript "keep"] (taggedScript "keep") 17 ∧
    (taggedProgram "keep").Below 17 16 ∧ AssignedIn (taggedProgram "keep") 14 15 16 ∧
    (taggedProgram "keep").startOf? 16 = some 13 ∧
    TagBefore (taggedScript "keep").text 13 "keep" ∧
    ∃ records s', (process root).outcome (.start (taggedProgram "keep") .empty ["keep"])
        = (.ok records, s') ∧ s'.program.Below root 16 := by
  have hforest : (taggedProgram "keep").Forest :=
    (Program.parsed_ofSources [taggedScript "keep"] _).forest
  have htext : (taggedScript "keep").text = String.ofList _ :=
    text_append (text_append rfl rfl) rfl
  have hprogram : taggedProgram "keep" = _ :=
    congrArg (·.1.withTypes fun _ => some (.function "m" .void false)) (Program.ofSources_one htext)
  -- the text is known by its characters only, so it is read from them
  have hread : ∃ statements, Script.read (taggedScript "keep").text = .ok statements := by
    have hok : (Script.read (taggedScript "keep").text).isOk = true := by
      rw [htext, Script.read_ofList]
      decide +kernel
    cases hread : Script.read (taggedScript "keep").text with
    | ok statements => exact ⟨statements, rfl⟩
    | error e =>
      rw [hread] at hok
      cases hok
  have hname : DocComment.IsTagName "keep" :=
    ⟨'k', "eep".toList, rfl, rfl, List.all_eq_true.mp (by decide +kernel)⟩
  have hscript : (taggedProgram "keep").IsScriptOf [taggedScript "keep"] (taggedScript "keep") 17 :=
    ⟨[], [], rfl, hread, by rw [hprogram]; decide +kernel⟩
  have hbelow : (taggedProgram "keep").Below 17 16 := by
    rw [← hforest.mem_postOrder_iff, hprogram]
    decide +kernel
  have hassigned : AssignedIn (taggedProgram "keep") 14 15 16 := by
    rw [hprogram]
    exact ⟨by decide +kernel, by decide +kernel, by decide +kernel, by decide +kernel,
      by decide +kernel⟩
  have hstart : (taggedProgram "keep").startOf? 16 = some 13 := by
    rw [hprogram]
    decide +kernel
  have htag : TagBefore (taggedScript "keep").text 13 "keep" :=
    tagBefore_taggedScript rfl (by rw [htext, String.toList_ofList]; decide +kernel)
      (by decide +kernel)
  exact ⟨⟨rfl, rfl, rfl⟩, by decide, hname, hscript, hbelow, hassigned, hstart, htag,
    attached_of_tagBefore rfl ⟨rfl, rfl, rfl⟩ .here (by decide) hname hscript hbelow hassigned
      hstart htag⟩

/-- A tag that is no word is not read as a tag, and protects nothing. -/
theorem removal_after_tag_of_taggedProgram :
    AssignedIn (taggedProgram "no-reap") 14 15 16 ∧
      (taggedProgram "no-reap").startOf? 16 = some 16 ∧
      TagBefore (taggedScript "no-reap").text 16 "no-reap" ∧
      ((process root).outcome
          (.start (taggedProgram "no-reap") .empty ["no-reap"])).1.toOption
        = some [⟨"B.prototype.m", some "a.js", 1, 0, 75⟩] ∧
      ((process root).outcome
          (.start (taggedProgram "no-reap") .empty ["no-reap"])).2.program.parentOf 16 = none := by
  have htext : (taggedScript "no-reap").text = String.ofList _ :=
    text_append (text_append rfl rfl) rfl
  have hprogram : taggedProgram "no-reap" = _ :=
    congrArg (·.1.withTypes fun _ => some (.function "m" .void false)) (Program.ofSources_one htext)
  have htag : TagBefore (taggedScript "no-reap").text 16 "no-reap" :=
    tagBefore_taggedScript rfl (by rw [htext, String.toList_ofList]; decide +kernel)
      (by decide +kernel)
  rw [hprogram]
  exact ⟨⟨by decide +kernel, by decide +kernel, by decide +kernel, by decide +kernel,
    by decide +kernel⟩, by decide +kernel, htag, by decide +kernel⟩

end Removal

end SuperForward
