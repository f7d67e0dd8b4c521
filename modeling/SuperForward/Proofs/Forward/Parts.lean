/-
  The parts of texts that records tell.

  A record has the place of its statement together with the documentation of the assignment in
  it, and the path of the script that the statement is in. So it tells a part of the text of one
  of the sources, and the texts of all sources can be cut at the parts that are told of them.
-/
import SuperForward.Proofs.Analysed
import SuperForward.Proofs.Program.Excision
import SuperForward.Proofs.Pruned

namespace SuperForward

open SuperForward.Files (Path)
open SuperForward.Program (root Below scriptSketch scriptsOf)
open SuperForward.Removal (Taken Removable Recorded describe)
open SuperForward.Text (Span removeSpans)

/-! ## What a record says -/

namespace Removal

/-- The part of the text in a record is that of the statement. -/
theorem span_of_describe {p : Program} {name : QualifiedName} {statement : Handle}
    {record : Removed} (h : describe p name statement = .ok record) :
    record.span = p.spanOf statement := by
  unfold describe at h
  obtain ⟨node, hnode, h⟩ := except_bind_eq_ok.mp h
  obtain ⟨head, hhead, h⟩ := except_bind_eq_ok.mp h
  obtain ⟨inner, hinner, h⟩ := except_bind_eq_ok.mp h
  obtain ⟨path, -, h⟩ := except_bind_eq_ok.mp h
  cases h
  rw [Program.node_eq_ok_iff] at hnode hinner
  have hchild : (p.childrenOf statement).head? = some head := by
    unfold Program.childrenOf
    rw [hnode]
    show node.children.head? = some head
    cases hc : node.children.head? with
    | none => rw [hc] at hhead; cases hhead
    | some c => rw [hc] at hhead; cases hhead; rfl
  have hdoc : p.docOf? head = inner.doc := by
    unfold Program.docOf?
    rw [hinner]
    rfl
  cases hcomment : inner.doc <;>
    simp [Program.spanOf, Removed.span, hnode, hchild, hdoc, hcomment]

/-- The path in a record is that of the script of the statement. -/
theorem path_of_describe {p : Program} {name : QualifiedName} {statement : Handle}
    {record : Removed} (h : describe p name statement = .ok record) :
    p.scriptPath statement = .ok record.path := by
  unfold describe at h
  obtain ⟨node, -, h⟩ := except_bind_eq_ok.mp h
  obtain ⟨head, -, h⟩ := except_bind_eq_ok.mp h
  obtain ⟨inner, -, h⟩ := except_bind_eq_ok.mp h
  obtain ⟨path, hpath, h⟩ := except_bind_eq_ok.mp h
  cases h
  exact hpath

end Removal

/-! ## Parts of sources -/

namespace Script

/-- What is inside a statement of a text stands within the text. -/
theorem extent_le_of_read {text : String} {statements : List Tree}
    (hread : read text = .ok statements) {x y : Tree} (hx : x ∈ statements) (h : y.Inside x) :
    y.extent.start ≤ text.length ∧ y.extent.stop ≤ text.length := by
  obtain ⟨hstand, hending⟩ := Program.statementsStand_of_read hread
  obtain ⟨ls, hls⟩ := exists_cutInto_iff.mpr hending
  have htokens := TakesRepeated.tokens_eq (fun h => Stands.tokens_eq h) hstand
  have hbounds : ∀ t ∈ y.tokens, t.start < t.stop ∧ t.stop ≤ text.length := by
    intro t ht
    have hmem : t ∈ tokensFrom .origin ls := by
      have hall : tokensFrom .origin ls = Tree.tokensOfAll statements := by
        rw [hls.scan_eq, List.append_nil] at htokens
        exact htokens
      rw [hall]
      exact Tree.mem_tokensOfAll.mpr ⟨x, hx, h.mem_tokens ht⟩
    obtain ⟨-, hlt, hle⟩ := bounds_of_mem_tokensFrom hls.ne_nil hmem
    rw [Spot.offset_after, hls.flatten_eq, String.length_toList] at hle
    exact ⟨hlt, Nat.le_trans hle (Nat.le_of_eq (Nat.zero_add _))⟩
  unfold Tree.extent
  rw [Tree.firstToken?_eq, Tree.lastToken?_eq]
  split
  · next first last hfirst hlast =>
    have hfirst := hbounds first (List.mem_of_mem_head? (Option.mem_def.mpr hfirst))
    have hlast := hbounds last (List.mem_of_getLast? hlast)
    exact ⟨Nat.le_trans (Nat.le_of_lt hfirst.1) hfirst.2, hlast.2⟩
  · exact ⟨Nat.zero_le _, Nat.zero_le _⟩

end Script

/-- The record tells a part of the text of one of some sources, under the path of the source. -/
def Removed.IsPartOf (r : Removed) (sources : List Source) : Prop :=
  ∃ s ∈ sources, r.path = some s.path ∧ r.start ≤ s.text.length ∧ r.stop ≤ s.text.length

/-- The scripts of a program of sources are those sources that can be read. -/
theorem Program.exists_source_of_script {sources : List Source} {types : Handle → Option JsType}
    {script : Handle}
    (h : script ∈ ((ofSources sources).1.withTypes types).childrenOf root) :
    ∃ s ∈ sources, ∃ statements, Script.read s.text = .ok statements ∧
      ((ofSources sources).1.withTypes types).Shows script
        (scriptSketch s.path s.text.length statements) := by
  obtain ⟨sketch, hsketch, hshows⟩ := (composed_ofSources sources).shows.withTypes.child h
  obtain ⟨s, hs, hscript⟩ := List.mem_filterMap.mp (show sketch ∈ scriptsOf sources from hsketch)
  split at hscript
  · next statements hread =>
    cases hscript
    exact ⟨s, hs, statements, hread, hshows⟩
  · cases hscript

/-- A statement knows after others have been taken out the part of the text that it knew
before. -/
theorem Program.Parsed.spanOf_remaining {p : Program} (hp : p.Parsed) {removed : List Handle}
    (hr : p.AreStatements removed) {n : Handle} (hn : p.Below root n)
    (hkind : p.kindOf? n = some .exprResult) : (p.without removed).spanOf n = p.spanOf n := by
  have hchildren := hp.childrenOf_remaining hr hn hkind (by decide) (by decide) (by decide)
  unfold Program.spanOf
  rw [hchildren, Program.nodes_without, Option.map_map]
  simp only [Program.docOf?_without]
  rfl

section

variable {sources : List Source} {types : Handle → Option JsType} {p : Program}
  (hp : p = (Program.ofSources sources).1.withTypes types)
  {removed : List Handle} (hr : p.AreStatements removed)
include hp hr

/-- What is described of a statement, also after others have been taken out, is a part of the
source of its script. -/
theorem isPartOf_of_describe {name : QualifiedName} {statement : Handle} {record : Removed}
    (hbelow : (p.without removed).Below root statement)
    (hkind : p.kindOf? statement = some .exprResult)
    (h : describe (p.without removed) name statement = .ok record) : record.IsPartOf sources := by
  have hparsed : p.Parsed := hp ▸ Program.parsed_ofSources sources types
  have hrest : (p.without removed).Parsed := hparsed.without hr
  -- the script that the statement is in
  rcases hrest.forest.eq_or_mem_below hbelow with hroot | ⟨script, hscript, hin⟩
  · rw [hroot, hparsed.kindOf?_root] at hkind
    cases hkind
  have hparent := hrest.forest.mem_children_iff.mp hscript
  rw [Program.childrenOf_without] at hscript
  obtain ⟨s, hs, statements, hread, hshows⟩ := Program.exists_source_of_script
    (hp ▸ (List.mem_filter.mp hscript).1)
  rw [← hp] at hshows
  have hpath := hrest.scriptPath_of_below hparent
    (Program.kindOf?_without.trans hshows.kindOf?)
    (Program.textOf?_without.trans hshows.textOf?) hin
  rw [Removal.path_of_describe h] at hpath
  refine ⟨s, hs, Except.ok.inj hpath, ?_⟩
  -- the phrase that the statement was made for
  obtain ⟨x, hx, parts, hinside, hstatement⟩ :=
    hshows.exprResult_of_script hparsed.forest hin.of_without hkind
  have hextent := Script.extent_le_of_read hread hx hinside
  rw [← Sketch.extent_expressionStatement] at hextent
  have hspan : record.span = (Sketch.ofTree (.node .expressionStatement parts)).span := by
    rw [Removal.span_of_describe h, hparsed.spanOf_remaining hr hbelow.of_without hkind,
      hstatement.spanOf_eq]
  have hstart : record.start ≤ (Sketch.ofTree (.node .expressionStatement parts)).extent.start := by
    rw [show record.start = record.span.start from rfl, hspan]
    unfold Sketch.span
    split <;> simp
  have hstop : record.stop = (Sketch.ofTree (.node .expressionStatement parts)).extent.stop := by
    rw [show record.stop = record.span.stop from rfl, hspan]
    rfl
  exact ⟨by omega, by omega⟩

/-- What a removal records, also after another one, are parts of the sources. -/
theorem isPartOf_of_recorded {r : Registry} {tags : List String} {taken : List Taken}
    (htaken : ∀ t ∈ taken, Removable (p.without removed) r tags root t.fn t.statement t.name)
    {records : List Removed} (h : Recorded (p.without removed) taken records) :
    ∀ record ∈ records, record.IsPartOf sources := by
  have hparsed : p.Parsed := hp ▸ Program.parsed_ofSources sources types
  have hrest : (p.without removed).Parsed := hparsed.without hr
  intro record hrecord
  obtain ⟨t, ht, hdescribe⟩ := Program.forall₂_exists_of_mem h.flip hrecord
  obtain ⟨assign, hforward⟩ := (htaken t ht).forwarder
  obtain ⟨-, hstatement⟩ := hforward.assigned.below hrest (htaken t ht).within
  refine isPartOf_of_describe hp hr hstatement ?_ hdescribe
  exact Program.kindOf?_without.symm.trans hforward.assigned.statement_kind

end

/-- What a first removal records are parts of the sources. -/
theorem isPartOf_of_first {sources : List Source} {types : Handle → Option JsType} {p : Program}
    (hp : p = (Program.ofSources sources).1.withTypes types) {r : Registry} {tags : List String}
    {taken : List Taken}
    (htaken : ∀ t ∈ taken, Removable p r tags root t.fn t.statement t.name)
    {records : List Removed} (h : Recorded p taken records) :
    ∀ record ∈ records, record.IsPartOf sources := by
  have hnone : p.AreStatements [] := fun n hn => absurd hn List.not_mem_nil
  have hwhole := p.without_nil
  exact isPartOf_of_recorded hp hnone (by rw [hwhole]; exact htaken) (by rw [hwhole]; exact h)

/-- What an analysis records are parts of the sources. -/
theorem Analysed.isPartOf {sources : List Source} {tags : List String} {a : Analysis}
    {taken : List Taken} (h : Analysed sources tags a taken) :
    ∀ record ∈ a.removed, record.IsPartOf sources := by
  obtain ⟨types, htypes⟩ := h.types
  exact isPartOf_of_first htypes (fun t ht => (h.mem_taken t).mp ht) h.recorded

/-! ## Cutting parts of sources -/

theorem exists_removeSpans {text : String} {spans : List Span}
    (h : ∀ s ∈ spans, s.start ≤ text.length) : ∃ left, removeSpans text spans = .ok left := by
  unfold removeSpans
  rw [Script.mapM_grow (by rwa [String.length_toList])]
  exact ⟨_, rfl⟩

/-- The texts of sources that can be told apart by their paths can be cut at parts of them, each
at its own. -/
theorem Pruned.exists_of_isPartOf {sources : List Source}
    (hpaths : (sources.map fun s => Path.ofText s.path).Nodup) {records : List Removed}
    (h : ∀ r ∈ records, r.IsPartOf sources) :
    ∃ pruned, Pruned.ofSources sources records = .ok pruned ∧ ∀ s ∈ sources, ∃ count,
      removeSpans s.text ((recordsAt records (Path.ofText s.path)).map Removed.span)
        = .ok ((s.prunedBy pruned).text, count) := by
  have hpath : ∀ r ∈ records, ∀ path ∈ r.scriptPath?, ∃ s ∈ sources,
      path = Path.ofText s.path ∧ r.start ≤ s.text.length := by
    intro r hr path hpath
    obtain ⟨s, hs, hsome, hstart, -⟩ := h r hr
    refine ⟨s, hs, ?_, hstart⟩
    unfold Removed.scriptPath? at hpath
    rw [hsome, Option.bind_some] at hpath
    split at hpath
    · cases hpath
    · exact (Option.some.inj hpath).symm
  have hcut : ∀ s ∈ sources, ∃ left, removeSpans s.text
      ((recordsAt records (Path.ofText s.path)).map Removed.span) = .ok left := by
    intro s hs
    refine exists_removeSpans fun span hspan => ?_
    obtain ⟨r, hr, rfl⟩ := List.mem_map.mp hspan
    obtain ⟨hr, heq⟩ := List.mem_filter.mp hr
    obtain ⟨u, hu, hsame, hstart⟩ := hpath r hr _ (of_decide_eq_true heq)
    rwa [List.inj_on_of_nodup_map hpaths hs hu hsame]
  choose! left hleft using hcut
  obtain ⟨pruned, hpruned, htext⟩ := exists_ofSources hpaths
    (fun r hr path hp => (hpath r hr path hp).imp fun s hs => ⟨hs.1, hs.2.1⟩)
    fun s hs => ⟨(left s).2, show _ = Except.ok (Prod.fst (left s), _) from hleft s hs⟩
  refine ⟨pruned, hpruned, fun s hs => ⟨(left s).2, ?_⟩⟩
  rw [hleft s hs, htext s hs]

end SuperForward
