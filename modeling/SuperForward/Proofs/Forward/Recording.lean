/-
  Records of what was taken out, and the texts they are about.

  The records about one script stand in the order of its text. Each tells the passage that a
  statement takes up: from the documentation comment on its assignment, if there is one, to the
  semicolon that ends it. The passages do not overlap, and neither do the lines that they grow to
  when they are cut, so that as many places are cut as there are records.
-/
import SuperForward.Proofs.Script.Passage
import SuperForward.Proofs.Unfailing

namespace SuperForward

open SuperForward.Files (Path)
open SuperForward.Program (root Below scriptSketch scriptsOf)
open SuperForward.Removal (Taken Forwarder describe)
open SuperForward.Text (Span removeSpans)

/-- The records about the script with the path of a source. -/
def Analysis.recordsOf (a : Analysis) (s : Source) : List Removed :=
  a.removed.filter fun r => decide (r.path = some s.path)

/-- The record tells the passage of a text that a node takes up which was taken out: the node
shows a statement of the text, and its assignment has the documentation of the passage. -/
def Removed.TellsOf (r : Removed) (a : Analysis) (text : String) (n : Handle) : Prop :=
  a.typing.program.kindOf? n = some .exprResult ∧ a.removal.program.parentOf n = none ∧
    ∃ assign, a.typing.program.childrenOf n = [assign] ∧
      ∃ statements, Script.read text = .ok statements ∧ ∃ z ∈ statements, ∃ x, x.Inside z ∧
        a.typing.program.Shows n (Sketch.ofTree x) ∧
        Script.Passage text x (a.typing.program.docOf? assign) r.span

/-! ## Scripts by their paths -/

theorem text_scriptsOf_sublist (sources : List Source) :
    ((scriptsOf sources).map Sketch.text).Sublist (sources.map (·.path)) := by
  induction sources with
  | nil => exact .slnil
  | cons s sources ih =>
    unfold scriptsOf at ih ⊢
    rw [List.filterMap_cons, List.map_cons]
    split
    · exact ih.cons _
    · next sketch heq =>
      split at heq
      · cases heq
        exact ih.cons_cons _
      · cases heq

section

variable {sources : List Source} {tags : List String} {a : Analysis} {taken : List Taken}
  (h : Analysed sources tags a taken)
include h

/-- Scripts with one path are one script, if the sources can be told apart by their paths. -/
theorem Analysed.script_eq (hpaths : (sources.map fun s => Path.ofText s.path).Nodup)
    {m n : Handle} (hm : a.typing.program.parentOf m = some root)
    (hn : a.typing.program.parentOf n = some root)
    (htext : a.typing.program.textOf? m = a.typing.program.textOf? n) : m = n := by
  have hall : List.Forall₂ a.typing.program.Shows (a.typing.program.childrenOf root)
      (scriptsOf sources) := by
    obtain ⟨types, htypes⟩ := h.types
    rw [htypes]
    exact (Program.composed_ofSources sources).shows.withTypes.childrenOf
  have htexts : (a.typing.program.childrenOf root).map a.typing.program.textOf?
      = ((scriptsOf sources).map Sketch.text).map some := by
    generalize a.typing.program.childrenOf root = ns at hall
    generalize scriptsOf sources = ss at hall
    induction hall with
    | nil => rfl
    | cons head _ ih => rw [List.map_cons, List.map_cons, List.map_cons, ih, head.textOf?]
  have hnodup : ((a.typing.program.childrenOf root).map a.typing.program.textOf?).Nodup := by
    have hnames : (sources.map (·.path)).Nodup := by
      have heq : (sources.map fun s => Path.ofText s.path)
          = (sources.map (·.path)).map Path.ofText := by
        rw [List.map_map]
        rfl
      exact (heq ▸ hpaths).of_map
    rw [htexts]
    exact (hnames.sublist (text_scriptsOf_sublist sources)).map (Option.some_injective _)
  exact List.inj_on_of_nodup_map hnodup (h.parsed.forest.mem_children_iff.mpr hm)
    (h.parsed.forest.mem_children_iff.mpr hn) htext

/-! ## The statement of a record -/

/-- What a record is about: a statement in the script of a source, with the phrase that it was
made for. -/
structure RecordsStatement (p : Program) (sources : List Source) (t : Taken) (record : Removed)
    (source : Source) (script : Handle) (statements : List Script.Tree) (x : Script.Tree) :
    Prop where
  mem : source ∈ sources
  read : Script.read source.text = .ok statements
  parent : p.parentOf script = some root
  shows : p.Shows script (scriptSketch source.path source.text.length statements)
  below : p.Below script t.statement
  inside : ∃ z ∈ statements, x.Inside z
  phrase : ∃ y last, x = .node .expressionStatement [y, .leaf last] ∧
    last.kind = .mark .semicolon
  shows_phrase : p.Shows t.statement (Sketch.ofTree x)
  path : record.path = some source.path
  span : record.span = Script.cutSpan x.tokens
  doc : ∃ assign, p.childrenOf t.statement = [assign] ∧ x.docBefore? = p.docOf? assign

theorem Analysed.exists_recordsStatement {t : Taken} (ht : t ∈ taken) {record : Removed}
    (hdescribe : describe a.typing.program t.name t.statement = .ok record) :
    ∃ source script statements x,
      RecordsStatement a.typing.program sources t record source script statements x := by
  obtain ⟨hfn, assign, hforward⟩ := h.below_of_taken ht
  obtain ⟨-, hstatement⟩ := hforward.assigned.below h.parsed hfn
  have hkind := hforward.assigned.statement_kind
  -- the script that the statement is in
  rcases h.parsed.forest.eq_or_mem_below hstatement with hroot | ⟨script, hscript, hbelow⟩
  · rw [hroot, h.parsed.kindOf?_root] at hkind
    cases hkind
  have hparent := h.parsed.forest.mem_children_iff.mp hscript
  obtain ⟨source, hsource, statements, hread, hshows⟩ : ∃ source ∈ sources, ∃ statements,
      Script.read source.text = .ok statements ∧ a.typing.program.Shows script
        (scriptSketch source.path source.text.length statements) := by
    obtain ⟨types, htypes⟩ := h.types
    rw [htypes] at hscript ⊢
    exact Program.exists_source_of_script hscript
  have hpath := h.parsed.scriptPath_of_below hparent hshows.kindOf? hshows.textOf? hbelow
  rw [Removal.path_of_describe hdescribe] at hpath
  -- the phrase that the statement was made for
  obtain ⟨z, hz, parts, hinside, hphrase⟩ :=
    hshows.exprResult_of_script h.parsed.forest hbelow hkind
  obtain ⟨depth, hformed⟩ := Program.mem_statements (Program.statementsStand_of_read hread).1 z hz
  obtain ⟨y, last, rfl, hlast⟩ := Sketch.exists_semicolon_of_formed hformed hinside
  obtain ⟨-, hchildren, -⟩ := hforward.parts h.parsed hfn
  obtain ⟨c, hc, hassign⟩ : ∃ c, (Sketch.ofTree (.node .expressionStatement
      [y, .leaf last])).children = [c] ∧ a.typing.program.Shows assign c := by
    have hall := hphrase.childrenOf
    rw [hchildren] at hall
    obtain ⟨c, _, hc, hnil, heq⟩ := List.forall₂_cons_left_iff.mp hall
    rw [List.forall₂_nil_left_iff.mp hnil] at heq
    exact ⟨c, heq, hc⟩
  have hkindAssign : c.kind = .assign :=
    Option.some.inj (hassign.kindOf?.symm.trans hforward.assigned.assign_kind)
  refine ⟨source, script, statements, _, hsource, hread, hparent, hshows, hbelow,
    ⟨z, hz, hinside⟩, ⟨y, last, rfl, hlast⟩, hphrase, Except.ok.inj hpath, ?_,
    ⟨assign, hchildren, ?_⟩⟩
  · rw [Removal.span_of_describe hdescribe, hphrase.spanOf_eq, Sketch.span_ofTree hc hkindAssign]
  · rw [hassign.docOf?, Sketch.doc_eq_docBefore hc hkindAssign]

omit h in
/-- The passage of a record in the text of its source. -/
theorem RecordsStatement.passage {p : Program} {t : Taken} {record : Removed} {source : Source}
    {script : Handle} {statements : List Script.Tree} {x : Script.Tree}
    (h : RecordsStatement p sources t record source script statements x) :
    Script.Passage source.text x x.docBefore? record.span ∧
      record.span.Solid source.text.toList ∧
      ∀ u ∈ (Script.scan source.text.toList).tokens, u.stop ≤ x.extent.start →
        u.stop ≤ record.start := by
  obtain ⟨z, hz, hinside⟩ := h.inside
  obtain ⟨y, last, heq, hlast⟩ := h.phrase
  rw [show record.start = record.span.start from rfl, h.span]
  exact Script.passage_of_read h.read hz hinside heq hlast

omit h in
/-- A record goes to the last token of its statement. -/
theorem RecordsStatement.exists_last {p : Program} {t : Taken} {record : Removed}
    {source : Source} {script : Handle} {statements : List Script.Tree} {x : Script.Tree}
    (h : RecordsStatement p sources t record source script statements x) :
    ∃ last ∈ (Script.scan source.text.toList).tokens,
      last.stop = record.stop ∧ x.extent.stop = record.stop := by
  obtain ⟨z, hz, hinside⟩ := h.inside
  obtain ⟨y, last, rfl, -⟩ := h.phrase
  obtain ⟨ls, hls, htokens⟩ := Script.exists_cutInto_of_read h.read
  have hmem : last ∈ (Script.Tree.node .expressionStatement [y, .leaf last]).tokens := by
    simp [Script.Tree.tokens, Script.Tree.tokensOfAll]
  have hstop : last.stop = record.stop := by
    rw [show record.stop = record.span.stop from rfl, h.span]
    simp [Script.cutSpan, Script.Tree.tokens, Script.Tree.tokensOfAll]
  have hextent : (Script.Tree.node .expressionStatement [y, .leaf last]).extent.stop = last.stop := by
    rw [Script.Tree.extent, Script.Tree.firstToken?_eq, Script.Tree.lastToken?_eq,
      List.head?_eq_some_head (List.ne_nil_of_mem hmem)]
    simp [Script.Tree.tokens, Script.Tree.tokensOfAll]
  refine ⟨last, ?_, hstop, hextent.trans hstop⟩
  rw [hls.scan_eq, htokens]
  exact Script.Tree.mem_tokensOfAll.mpr ⟨z, hz, hinside.mem_tokens hmem⟩

/-! ## The order of the records -/

/-- What was taken out stands in the order in which it was taken out. -/
theorem Analysed.pairwise_before : taken.Pairwise fun t u =>
    a.typing.program.Before t.statement u.statement := by
  have hfns := (h.parsed.forest.pairwise_postOrder root).sublist h.order
  have hnodup : (taken.map Taken.fn).Nodup :=
    (h.parsed.forest.nodup_postOrder root).sublist h.order
  refine (List.pairwise_map.mp (hfns.and hnodup)).imp_of_mem fun {t u} ht hu htu => ?_
  obtain ⟨hbefore, hne⟩ := htu
  obtain ⟨hfn, assign, hforward⟩ := h.below_of_taken ht
  obtain ⟨hfn', assign', hforward'⟩ := h.below_of_taken hu
  have habove := (Below.here.child hforward.assigned.assign_parent).child hforward.assigned.fn_parent
  have habove' :=
    (Below.here.child hforward'.assigned.assign_parent).child hforward'.assigned.fn_parent
  -- neither statement has the other function in it
  have hnot : ¬ a.typing.program.Below t.statement u.fn := fun hbelow =>
    hne (hforward.function_eq h.parsed hfn hbelow hforward'.assigned.fn_kind).symm
  have hnot' : ¬ a.typing.program.Below u.statement t.fn := fun hbelow =>
    hne (hforward'.function_eq h.parsed hfn' hbelow hforward.assigned.fn_kind)
  rcases hbefore with hbelow | hbefore
  · exact absurd (habove'.trans hbelow) hnot'
  · exact hbefore.of_below h.parsed.forest habove habove' hnot hnot'

variable (hpaths : (sources.map fun s => Path.ofText s.path).Nodup)
include hpaths

/-- Of two records about one script, the earlier one ends before the later one begins. -/
theorem Analysed.pairwise_removed : a.removed.Pairwise fun r r' =>
    r.path = r'.path → r.stop ≤ r'.start := by
  have hrecorded := Program.forall₂_imp_of_mem (S := fun t record => t ∈ taken ∧
    describe a.typing.program t.name t.statement = .ok record)
    (fun t ht record _ hd => ⟨ht, hd⟩) h.recorded
  refine Program.pairwise_of_forall₂ hrecorded h.pairwise_before
    fun {t u r r'} hbefore hr hr' hsame => ?_
  obtain ⟨ht, hr⟩ := hr
  obtain ⟨hu, hr'⟩ := hr'
  obtain ⟨source, script, statements, x, hx⟩ := h.exists_recordsStatement ht hr
  obtain ⟨source', script', statements', x', hx'⟩ := h.exists_recordsStatement hu hr'
  -- both are in one script
  have hpath : source'.path = source.path :=
    Option.some.inj (hx'.path.symm.trans (hsame.symm.trans hx.path))
  have hsource : source' = source :=
    List.inj_on_of_nodup_map hpaths hx'.mem hx.mem (congrArg Path.ofText hpath)
  have hscript : script' = script := h.script_eq hpaths hx'.parent hx.parent
    (hx'.shows.textOf?.trans ((congrArg some hpath).trans hx.shows.textOf?.symm))
  subst hsource hscript
  have hkind {x : Script.Tree} (hx : ∃ y last, x = .node .expressionStatement [y, .leaf last] ∧
      last.kind = .mark .semicolon) : (Sketch.ofTree x).kind = .exprResult := by
    obtain ⟨y, last, rfl, -⟩ := hx
    rw [Sketch.ofTree, Sketch.kind_documented]
    rfl
  have hle := hbefore.stop_le_start h.parsed.forest hx.shows
    (Program.inOrder_scriptSketch hx.read) hx.below hx'.below hx.shows_phrase hx'.shows_phrase
    (hkind hx.phrase) (hkind hx'.phrase)
  have hextent {x : Script.Tree} (hx : ∃ y last, x = .node .expressionStatement [y, .leaf last] ∧
      last.kind = .mark .semicolon) : (Sketch.ofTree x).extent = x.extent := by
    obtain ⟨y, last, rfl, -⟩ := hx
    exact Sketch.extent_expressionStatement _
  obtain ⟨last, hlast, hstop, hend⟩ := hx.exists_last
  rw [hextent hx.phrase, hextent hx'.phrase, hend, ← hstop] at hle
  exact hstop ▸ hx'.passage.2.2 last hlast hle

end

/-! ## All records -/

/-- The records about each script stand in the order of its text, and do not overlap. Each tells
exactly the passage of a statement that was taken out. Removing the parts that the records of a
script tell from its text cuts it at as many places as there are records. -/
theorem exists_exact_disjoint_records {sources : List Source}
    (hpaths : (sources.map fun s => Path.ofText s.path).Nodup) (tags : List String) :
    ∃ a, Analysis.ofProgram (Program.ofSources sources).1 tags = .ok a ∧
      (∀ r ∈ a.removed, ∃ s ∈ sources, r.path = some s.path) ∧
      ∀ s ∈ sources,
        (a.recordsOf s).Pairwise (fun r r' => r.start < r'.start ∧ r.stop ≤ r'.start) ∧
        (∀ r ∈ a.recordsOf s, ∃ n, r.TellsOf a s.text n) ∧
        (s.path ≠ "" → Pruned.recordsAt a.removed (Path.ofText s.path) = a.recordsOf s) ∧
        ∃ left, removeSpans s.text ((a.recordsOf s).map Removed.span)
          = .ok (left, (a.recordsOf s).length) := by
  obtain ⟨a, taken, ha, h⟩ := analysed_ofSources sources tags
  have hrecord : ∀ r ∈ a.removed, ∃ t ∈ taken, ∃ source script statements x,
      RecordsStatement a.typing.program sources t r source script statements x := by
    intro r hr
    obtain ⟨t, ht, hdescribe⟩ := Program.forall₂_exists_of_mem h.recorded.flip hr
    exact ⟨t, ht, h.exists_recordsStatement ht hdescribe⟩
  refine ⟨a, ha, fun r hr => ?_, fun s hs => ?_⟩
  · obtain ⟨_, _, source, _, _, _, hx⟩ := hrecord r hr
    exact ⟨source, hx.mem, hx.path⟩
  -- a record with the path of the source is about the source
  have hof : ∀ r ∈ a.recordsOf s, ∃ t ∈ taken, ∃ script statements x,
      RecordsStatement a.typing.program sources t r s script statements x := by
    intro r hr
    obtain ⟨hr, hpath⟩ := List.mem_filter.mp hr
    rw [decide_eq_true_iff] at hpath
    obtain ⟨t, ht, source, script, statements, x, hx⟩ := hrecord r hr
    have hsame : source.path = s.path := Option.some.inj (hx.path.symm.trans hpath)
    obtain rfl := List.inj_on_of_nodup_map hpaths hx.mem hs (congrArg Path.ofText hsame)
    exact ⟨t, ht, script, statements, x, hx⟩
  have hsolid : ∀ r ∈ a.recordsOf s, r.span.Solid s.text.toList := by
    intro r hr
    obtain ⟨_, _, _, _, _, hx⟩ := hof r hr
    exact hx.passage.2.1
  have hpair : (a.recordsOf s).Pairwise fun r r' => r.stop ≤ r'.start := by
    refine ((h.pairwise_removed hpaths).filter _).imp_of_mem fun hr hr' hle => hle ?_
    have hpath := of_decide_eq_true (List.mem_filter.mp hr).2
    have hpath' := of_decide_eq_true (List.mem_filter.mp hr').2
    exact hpath.trans hpath'.symm
  refine ⟨hpair.imp_of_mem fun {r r'} hr _ hle => ⟨?_, hle⟩, fun r hr => ?_, fun hne => ?_, ?_⟩
  · exact Nat.lt_of_lt_of_le (hsolid r hr).start_lt hle
  · obtain ⟨t, ht, script, statements, x, hx⟩ := hof r hr
    obtain ⟨z, hz, hinside⟩ := hx.inside
    obtain ⟨assign, hchildren, hdoc⟩ := hx.doc
    obtain ⟨-, assign', hforward⟩ := h.below_of_taken ht
    refine ⟨t.statement, hforward.assigned.statement_kind, ?_, assign, hchildren, statements,
      hx.read, z, hz, x, hinside, hx.shows_phrase, hdoc ▸ hx.passage.1⟩
    rw [h.program, Program.parentOf_without, if_pos (List.mem_map_of_mem ht)]
  · refine List.filter_congr fun r hr => ?_
    obtain ⟨_, _, source, _, _, _, hx⟩ := hrecord r hr
    unfold Removed.scriptPath?
    rw [hx.path, Option.bind_some, decide_eq_decide, Option.some.injEq]
    by_cases hempty : source.path = ""
    · simp [hempty, Ne.symm hne]
    · simp only [beq_iff_eq, if_neg hempty, Option.some.injEq]
      refine ⟨fun hsame => ?_, congrArg Path.ofText⟩
      rw [List.inj_on_of_nodup_map hpaths hx.mem hs hsame]
  · have hspans : ∀ span ∈ (a.recordsOf s).map Removed.span, span.Solid s.text.toList := by
      intro span hspan
      obtain ⟨r, hr, rfl⟩ := List.mem_map.mp hspan
      exact hsolid r hr
    have hcuts := Text.exists_removeSpans_length hspans (List.pairwise_map.mpr hpair)
    rwa [List.length_map] at hcuts

/-- Two forwards on lines that follow each other, the second one indented and documented, with a
plain comment after its documentation. -/
def adjacentScript : Source :=
  scriptAround "a.js" "" ("\n\t/** Again. */ // plain\n " ++
    "B.prototype.n = function() { B.superClass_.n.call(this); };\nA.prototype.n = function() {};")

theorem removed_adjacentScript : ∃ a,
    Analysis.ofProgram (Program.ofSources [adjacentScript]).1 Removal.defaultExclusions = .ok a ∧
      a.removed = [⟨"B.prototype.m", some "a.js", 1, 122, 181⟩,
        ⟨"B.prototype.n", some "a.js", 3, 183, 266⟩] := by
  have htext : adjacentScript.text = String.ofList _ :=
    text_append (text_append (text_append (text_append rfl rfl) rfl) rfl) (text_append rfl rfl)
  obtain ⟨a, ha, htest⟩ := @exists_analysis [adjacentScript] (fun a =>
    decide (a.removed = [⟨"B.prototype.m", some "a.js", 1, 122, 181⟩,
      ⟨"B.prototype.n", some "a.js", 3, 183, 266⟩])) (by
    rw [show Program.ofSources [adjacentScript] = _ from Program.ofSources_one htext]
    decide +kernel)
  exact ⟨a, ha, of_decide_eq_true htest⟩

theorem exists_exact_disjoint_records_adjacentScript :
    ([adjacentScript].map fun s => Path.ofText s.path).Nodup ∧ ∃ a,
      Analysis.ofProgram (Program.ofSources [adjacentScript]).1 Removal.defaultExclusions = .ok a ∧
        a.removed = [⟨"B.prototype.m", some "a.js", 1, 122, 181⟩,
          ⟨"B.prototype.n", some "a.js", 3, 183, 266⟩] ∧
        (∀ r ∈ a.removed, ∃ s ∈ [adjacentScript], r.path = some s.path) ∧
        ∀ s ∈ [adjacentScript],
          (a.recordsOf s).Pairwise (fun r r' => r.start < r'.start ∧ r.stop ≤ r'.start) ∧
          (∀ r ∈ a.recordsOf s, ∃ n, r.TellsOf a s.text n) ∧
          (s.path ≠ "" → Pruned.recordsAt a.removed (Path.ofText s.path) = a.recordsOf s) ∧
          ∃ left, removeSpans s.text ((a.recordsOf s).map Removed.span)
            = .ok (left, (a.recordsOf s).length) := by
  have hpaths : ([adjacentScript].map fun s => Path.ofText s.path).Nodup := List.nodup_singleton _
  obtain ⟨a, ha, hremoved⟩ := removed_adjacentScript
  obtain ⟨a', ha', hrecords⟩ := exists_exact_disjoint_records hpaths Removal.defaultExclusions
  rw [ha] at ha'
  cases ha'
  exact ⟨hpaths, a, ha, hremoved, hrecords⟩

end SuperForward
