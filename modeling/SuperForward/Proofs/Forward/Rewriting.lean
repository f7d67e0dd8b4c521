/-
  Removing forwards from texts.

  Forwards are taken out of the program, and their parts are removed from the texts of their
  scripts. Where the two can be compared, they agree: what is left of the texts can be read, and
  gives what is left of the program, places apart.
-/
import SuperForward.Proofs.Forward.Parts
import SuperForward.Proofs.Program.Characters

namespace SuperForward

open SuperForward.Files (Path)
open SuperForward.Program (root Below scriptSketch scriptsOf)
open SuperForward.Removal (Taken Forwarder describe)
open SuperForward.Text (Span)

/-! ## What was taken out -/

section

variable {sources : List Source} {tags : List String} {a : Analysis} {taken : List Taken}
  (h : Analysed sources tags a taken)
include h

theorem Analysed.below_of_taken {t : Taken} (ht : t ∈ taken) :
    a.typing.program.Below root t.fn ∧ ∃ assign,
      Forwarder a.typing.program a.typing.registry tags t.fn assign t.statement t.name :=
  ⟨((h.mem_taken t).mp ht).within, ((h.mem_taken t).mp ht).forwarder⟩

/-- No statement was taken out twice. -/
theorem Analysed.nodup_statements : (taken.map Taken.statement).Nodup := by
  have hfns : (taken.map Taken.fn).Nodup :=
    (h.parsed.forest.nodup_postOrder root).sublist h.order
  refine List.Nodup.map_on (fun t ht u hu heq => ?_) hfns.of_map
  obtain ⟨hfn, assign, hforward⟩ := h.below_of_taken ht
  obtain ⟨-, assign', hforward'⟩ := h.below_of_taken hu
  refine List.inj_on_of_nodup_map hfns ht hu (Eq.symm ?_)
  refine hforward.function_eq h.parsed hfn ?_ hforward'.assigned.fn_kind
  rw [heq]
  exact (Below.here.child hforward'.assigned.assign_parent).child hforward'.assigned.fn_parent

/-- What was taken out are statements, and none is below another. -/
theorem Analysed.statements {top : Handle}
    (hlisted : ∀ n above, a.typing.program.Below top n →
      a.typing.program.parentOf n = some above → a.removal.program.parentOf n = none →
      a.typing.program.Lists above) :
    a.typing.program.Statements top (taken.map Taken.statement) where
  kind := Removal.areStatements_taken h.mem_taken
  listed := by
    intro m hm hbelow n hparent
    refine hlisted m n hbelow hparent ?_
    rw [h.program, Program.parentOf_without, if_pos hm]
  alone := by
    intro d hd m hm hbelow
    obtain ⟨t, ht, rfl⟩ := List.mem_map.mp hd
    obtain ⟨u, hu, rfl⟩ := List.mem_map.mp hm
    obtain ⟨hfn, assign, hforward⟩ := h.below_of_taken ht
    obtain ⟨-, assign', hforward'⟩ := h.below_of_taken hu
    exact hforward.eq_of_below h.parsed hfn hforward'.assigned hbelow

/-- What was taken out are assignments. -/
theorem Analysed.assignments : ∀ m ∈ taken.map Taken.statement, ∃ c,
    a.typing.program.childrenOf m = [c] ∧ a.typing.program.kindOf? c = some .assign := by
  intro m hm
  obtain ⟨t, ht, rfl⟩ := List.mem_map.mp hm
  obtain ⟨hfn, assign, hforward⟩ := h.below_of_taken ht
  obtain ⟨-, hchildren, -, -⟩ := hforward.parts h.parsed hfn
  exact ⟨assign, hchildren, hforward.assigned.assign_kind⟩

end

/-! ## The scripts of some sources -/

theorem exists_map_eq {α β : Type} {R : α → β → Prop} {as : List α} {bs : List β}
    (hnodup : as.Nodup) (h : List.Forall₂ R as bs) (b₀ : β) :
    ∃ f : α → β, bs = as.map f ∧ ∀ a ∈ as, R a (f a) := by
  classical
  induction h with
  | nil => exact ⟨fun _ => b₀, rfl, by simp⟩
  | @cons a b as bs head _ ih =>
    obtain ⟨hnot, hnodup⟩ := List.nodup_cons.mp hnodup
    obtain ⟨f, rfl, hf⟩ := ih hnodup
    have hother {x : α} (hx : x ∈ as) : (if x = a then b else f x) = f x := by
      rw [if_neg]
      rintro rfl
      exact hnot hx
    refine ⟨fun x => if x = a then b else f x, ?_, ?_⟩
    · rw [List.map_cons, if_pos rfl, List.map_congr_left fun x hx => hother hx]
    · refine List.forall_mem_cons.mpr ⟨?_, fun x hx => ?_⟩
      · show R a (if a = a then b else f a)
        rwa [if_pos rfl]
      · show R x (if x = a then b else f x)
        rw [hother hx]
        exact hf x hx

theorem scriptsOf_cons {s : Source} {statements : List Script.Tree}
    (h : Script.read s.text = .ok statements) (sources : List Source) :
    scriptsOf (s :: sources)
      = scriptSketch s.path s.text.length statements :: scriptsOf sources := by
  simp only [scriptsOf, List.filterMap_cons, h]

theorem scriptsOf_map {sources : List Source} {g : Source → Source}
    {statements : Source → List Script.Tree}
    (h : ∀ s ∈ sources, Script.read (g s).text = .ok (statements s)) :
    scriptsOf (sources.map g)
      = sources.map fun s => scriptSketch (g s).path (g s).text.length (statements s) := by
  induction sources with
  | nil => rfl
  | cons s sources ih =>
    obtain ⟨hs, hrest⟩ := List.forall_mem_cons.mp h
    rw [List.map_cons, scriptsOf_cons hs, ih hrest, List.map_cons]

/-! ## Programs and texts -/

/-- A text that is left can be read, and what is read shows what is left of the script in the
program, places apart. -/
def AgreesAt (a : Analysis) (left : Source) (script : Handle) : Prop :=
  ∃ statements sketch, Script.read left.text = .ok statements ∧
    a.removal.program.Shows script sketch ∧
    sketch.unplaced = (scriptSketch left.path left.text.length statements).unplaced

/-- What was taken out of the script of a source can be compared with what is removed from its
text: the source has a path if it loses anything, what was taken out stood where statements are
listed, and no documentation before it comes to stand before another statement. -/
structure Comparable (a : Analysis) (s : Source) : Prop where
  named : ∀ r ∈ a.removed, r.path = some s.path → s.path ≠ ""
  listed : ∀ n above, a.typing.program.scriptPath n = .ok (some s.path) →
    a.typing.program.parentOf n = some above → a.removal.program.parentOf n = none →
    a.typing.program.Lists above
  settled : Script.Settled s.text
    ((Pruned.recordsAt a.removed (Path.ofText s.path)).map Removed.span)

/-- What is left of the sources can be read, and what is read shows what is left of the program,
places apart. -/
structure Agrees (sources : List Source) (a : Analysis) (pruned : List Pruned) : Prop where
  reads : ∀ s ∈ sources, ∃ statements, Script.read (s.prunedBy pruned).text = .ok statements
  shows : ∃ scripts,
    List.Forall₂ a.removal.program.Shows (a.removal.program.childrenOf root) scripts ∧
      scripts.map Sketch.unplaced
        = (scriptsOf (sources.map (Source.prunedBy pruned))).map Sketch.unplaced

/-- Sources agree if each of them does. -/
theorem agrees_of_forall₂ {sources : List Source} {a : Analysis} {pruned : List Pruned}
    (h : List.Forall₂ (fun s script => AgreesAt a (s.prunedBy pruned) script) sources
      (a.removal.program.childrenOf root)) : Agrees sources a pruned where
  reads := by
    intro s hs
    obtain ⟨_, -, statements, -, hread, -⟩ := Program.forall₂_exists_of_mem h hs
    exact ⟨statements, hread⟩
  shows := by
    generalize a.removal.program.childrenOf root = scripts at h
    induction h with
    | nil => exact ⟨[], .nil, rfl⟩
    | @cons s script sources scripts head _ ih =>
      obtain ⟨statements, sketch, hread, hshows, hsame⟩ := head
      obtain ⟨sketches, hall, hmap⟩ := ih
      refine ⟨sketch :: sketches, .cons hshows hall, ?_⟩
      rw [List.map_cons, List.map_cons, scriptsOf_cons hread, List.map_cons, hsame, hmap]

/-- The scripts of the program are those of some sources, one for each. -/
structure Program.ScriptsAt (p : Program) (sources : List Source) (script : Source → Handle)
    (statements : Source → List Script.Tree) : Prop where
  children : p.childrenOf root = sources.map script
  shows : ∀ s ∈ sources, p.Shows (script s)
    (scriptSketch s.path s.text.length (statements s))

section

variable {sources : List Source} {tags : List String} {a : Analysis} {taken : List Taken}
  (h : Analysed sources tags a taken)
  {script : Source → Handle} {statements : Source → List Script.Tree}
  (hscripts : a.typing.program.ScriptsAt sources script statements)
include h hscripts

theorem parentOf_script {s : Source} (hs : s ∈ sources) :
    a.typing.program.parentOf (script s) = some root := by
  rw [← h.parsed.forest.mem_children_iff, hscripts.children]
  exact List.mem_map_of_mem hs

/-- The path of a record is that of the source whose script the statement is in. -/
theorem exists_source_of_record {t : Taken} (ht : t ∈ taken) {record : Removed}
    (hdescribe : describe a.typing.program t.name t.statement = .ok record) :
    ∃ s ∈ sources, a.typing.program.Below (script s) t.statement ∧ record.path = some s.path := by
  obtain ⟨hfn, assign, hforward⟩ := h.below_of_taken ht
  obtain ⟨-, hstatement⟩ := hforward.assigned.below h.parsed hfn
  have hkind := hforward.assigned.statement_kind
  rcases h.parsed.forest.eq_or_mem_below hstatement with hroot | ⟨n, hn, hbelow⟩
  · rw [hroot, h.parsed.kindOf?_root] at hkind
    cases hkind
  rw [hscripts.children] at hn
  obtain ⟨s, hs, rfl⟩ := List.mem_map.mp hn
  have hpath := h.parsed.scriptPath_of_below (parentOf_script h hscripts hs)
    (hscripts.shows s hs).kindOf? (hscripts.shows s hs).textOf? hbelow
  rw [Removal.path_of_describe hdescribe] at hpath
  exact ⟨s, hs, hbelow, Except.ok.inj hpath⟩

/-- The statements that were taken out of the script of a source are listed, if they are where the
source is. -/
theorem statements_of_comparable {s : Source} (hs : s ∈ sources) (hcomparable : Comparable a s) :
    a.typing.program.Statements (script s) (taken.map Taken.statement) := by
  refine h.statements fun n above hbelow => hcomparable.listed n above ?_
  exact h.parsed.scriptPath_of_below (parentOf_script h hscripts hs)
    (hscripts.shows s hs).kindOf? (hscripts.shows s hs).textOf? hbelow

variable (hpaths : (sources.map fun s => Path.ofText s.path).Nodup)
include hpaths

/-- The records of a path are those about statements of the script. -/
theorem scriptPath_eq_iff {t : Taken} (ht : t ∈ taken) {record : Removed}
    (hrecord : record ∈ a.removed)
    (hdescribe : describe a.typing.program t.name t.statement = .ok record) {s : Source}
    (hs : s ∈ sources) (hnamed : ∀ r ∈ a.removed, r.path = some s.path → s.path ≠ "") :
    record.scriptPath? = some (Path.ofText s.path) ↔
      a.typing.program.Below (script s) t.statement := by
  obtain ⟨u, hu, hbelow, hpath⟩ := exists_source_of_record h hscripts ht hdescribe
  constructor
  · intro heq
    have hsame := Removed.ofText_of_scriptPath? heq hpath
    rwa [← List.inj_on_of_nodup_map hpaths hu hs hsame]
  · intro hbelow'
    have hnodup := h.parsed.forest.nodup_children root
    rw [hscripts.children] at hnodup
    have hsame := h.parsed.forest.child_eq_of_below
      (parentOf_script h hscripts hu) (parentOf_script h hscripts hs)
      hbelow hbelow'
    obtain rfl := List.inj_on_of_nodup_map hnodup hu hs hsame
    exact Removed.scriptPath?_of_path hpath (hnamed record hrecord hpath)

/-- The parts that are removed from the text of a script are those of the statements that were
taken out of it. -/
theorem spans_perm {s : Source} (hs : s ∈ sources)
    (hnamed : ∀ r ∈ a.removed, r.path = some s.path → s.path ≠ "") {ms : List Handle}
    {gone : List Sketch}
    (hloss : a.typing.program.Loss (taken.map Taken.statement) [script s] ms gone) :
    ((Pruned.recordsAt a.removed (Path.ofText s.path)).map Removed.span).Perm
      (gone.map Sketch.span) := by
  classical
  -- the records of the path, and the statements they are about
  have hfilter : List.Forall₂
      (fun t record => describe a.typing.program t.name t.statement = .ok record)
      (taken.filter fun t => decide (a.typing.program.Below (script s) t.statement))
      (Pruned.recordsAt a.removed (Path.ofText s.path)) := by
    have hmem : List.Forall₂ (fun t record => t ∈ taken ∧ record ∈ a.removed ∧
        describe a.typing.program t.name t.statement = .ok record) taken a.removed :=
      Program.forall₂_imp_of_mem (fun t ht record hrecord hd => ⟨ht, hrecord, hd⟩) h.recorded
    refine (List.rel_filter ?_ hmem).imp fun t record hd => hd.2.2
    rintro t record ⟨ht, hrecord, hd⟩
    show decide _ = true ↔ decide _ = true
    rw [decide_eq_true_iff, decide_eq_true_iff]
    exact (scriptPath_eq_iff h hscripts hpaths ht hrecord hd hs hnamed).symm
  have hspans : (Pruned.recordsAt a.removed (Path.ofText s.path)).map Removed.span
      = ((taken.filter fun t => decide (a.typing.program.Below (script s) t.statement)).map
          Taken.statement).map a.typing.program.spanOf := by
    rw [List.map_map]
    generalize Pruned.recordsAt a.removed (Path.ofText s.path) = records at hfilter
    generalize (taken.filter fun t => decide (a.typing.program.Below (script s) t.statement)) = ts
      at hfilter
    induction hfilter with
    | nil => rfl
    | cons hd _ ih => rw [List.map_cons, List.map_cons, ih, Removal.span_of_describe hd]; rfl
  have hgone : gone.map Sketch.span = ms.map a.typing.program.spanOf := by
    have hall := hloss.shows
    clear hloss
    induction hall with
    | nil => rfl
    | cons hd _ ih => rw [List.map_cons, List.map_cons, ih, hd.spanOf_eq]
  rw [hspans, hgone]
  refine List.Perm.map _ ((List.perm_ext_iff_of_nodup ?_ hloss.nodup).mpr fun m => ?_)
  · exact h.nodup_statements.sublist (List.filter_sublist.map _)
  · rw [hloss.mem]
    simp only [List.mem_map, List.mem_filter, decide_eq_true_iff, List.mem_singleton,
      exists_eq_left]
    constructor
    · rintro ⟨t, ⟨ht, hbelow⟩, rfl⟩
      exact ⟨⟨t, ht, rfl⟩, hbelow⟩
    · rintro ⟨⟨t, ht, rfl⟩, hbelow⟩
      exact ⟨t, ⟨ht, hbelow⟩, rfl⟩

/-- What is left of a source agrees with what is left of its script, if the two can be compared. -/
theorem agreesAt_of_comparable (hread : ∀ s ∈ sources, Script.read s.text = .ok (statements s))
    {pruned : List Pruned} {s : Source} (hs : s ∈ sources)
    (hleft : ∃ count, Text.removeSpans s.text
      ((Pruned.recordsAt a.removed (Path.ofText s.path)).map Removed.span)
        = .ok ((s.prunedBy pruned).text, count))
    (hcomparable : Comparable a s) : AgreesAt a (s.prunedBy pruned) (script s) := by
  obtain ⟨gone, ms, sketch, hloss, hshow, hexcised⟩ := (hscripts.shows s hs).exists_excised
    h.parsed.forest (statements_of_comparable h hscripts hs hcomparable) h.assignments (hread s hs)
  obtain ⟨new, statements', hremove, hread', hsame⟩ := hexcised _
    (spans_perm h hscripts hpaths hs hcomparable.named hloss) hcomparable.settled
  obtain ⟨count, hcount⟩ := hleft
  obtain ⟨rfl, -⟩ := Prod.mk.inj (Except.ok.inj (hremove.symm.trans hcount))
  rw [← h.program] at hshow
  exact ⟨statements', sketch, hread', hshow, hsame⟩

end

section

variable {sources : List Source} {tags : List String} {a : Analysis} {taken : List Taken}
  (h : Analysed sources tags a taken)
  (hread : ∀ s ∈ sources, ∃ statements, Script.read s.text = .ok statements)
  (hpaths : (sources.map fun s => Path.ofText s.path).Nodup)
include h hread hpaths

/-- The texts without the parts of forwards agree with the program without the forwards, wherever
the two can be compared. -/
theorem Analysed.exists_agreesAt :
    ∃ pruned, Pruned.ofSources sources a.removed = .ok pruned ∧
      List.Forall₂ (fun s script => Comparable a s → AgreesAt a (s.prunedBy pruned) script) sources
        (a.removal.program.childrenOf root) := by
  choose! statements hread using hread
  -- the script of each source
  obtain ⟨script, hscripts⟩ : ∃ script, a.typing.program.ScriptsAt sources script statements := by
    have hall : List.Forall₂ a.typing.program.Shows (a.typing.program.childrenOf root)
        (scriptsOf (sources.map fun s => s)) := by
      obtain ⟨types, htypes⟩ := h.types
      rw [htypes, List.map_id']
      exact (Program.composed_ofSources sources).shows.withTypes.childrenOf
    rw [scriptsOf_map hread] at hall
    obtain ⟨script, hscript, hshows⟩ := exists_map_eq hpaths.of_map
      (List.forall₂_map_right_iff.mp hall).flip root
    exact ⟨script, hscript, hshows⟩
  -- no script was taken out
  have hchildren : a.removal.program.childrenOf root = sources.map script := by
    rw [h.program, Program.childrenOf_without, hscripts.children, List.filter_eq_self]
    intro c hc
    obtain ⟨s, hs, rfl⟩ := List.mem_map.mp hc
    rw [decide_eq_true_iff]
    intro hmem
    have hkind := Removal.areStatements_taken h.mem_taken _ hmem
    rw [(hscripts.shows s hs).kindOf?] at hkind
    cases hkind
  obtain ⟨pruned, hpruned, hleft⟩ := Pruned.exists_of_isPartOf hpaths h.isPartOf
  refine ⟨pruned, hpruned, ?_⟩
  rw [hchildren, List.forall₂_map_right_iff, List.forall₂_same]
  exact fun s hs => agreesAt_of_comparable h hscripts hpaths hread hs (hleft s hs)

/-- A source can be compared where nothing that was taken out of the program keeps it from it. -/
theorem Analysed.comparable (hnamed : ∀ r ∈ a.removed, r.path ≠ some "")
    (hlisted : ∀ n above, a.typing.program.parentOf n = some above →
      a.removal.program.parentOf n = none → a.typing.program.Lists above)
    (hdocs : ∀ r ∈ a.removed, ∀ s ∈ sources, r.path = some s.path →
      DocumentedWithin s.text r.span) : ∀ s ∈ sources, Comparable a s := by
  intro s hs
  refine ⟨fun r hr hpath hempty => hnamed r hr (hempty ▸ hpath), fun n above _ => hlisted n above, ?_⟩
  obtain ⟨statements, hstatements⟩ := hread s hs
  refine settled_of_documentedWithin (Program.statementsStand_of_read hstatements).2 fun span hspan => ?_
  obtain ⟨r, hr, rfl⟩ := List.mem_map.mp hspan
  obtain ⟨hmem, hpath⟩ := List.mem_filter.mp hr
  obtain ⟨u, hu, hupath, -⟩ := h.isPartOf r hmem
  have hsame := Removed.ofText_of_scriptPath? (of_decide_eq_true hpath) hupath
  obtain rfl := List.inj_on_of_nodup_map hpaths hu hs hsame
  exact hdocs r hmem u hu hupath

/-- Where the statements that were taken out are listed and take the documentation before them
with them, the texts without their parts agree with the program without them. -/
theorem Analysed.exists_agrees (hnamed : ∀ r ∈ a.removed, r.path ≠ some "")
    (hlisted : ∀ n above, a.typing.program.parentOf n = some above →
      a.removal.program.parentOf n = none → a.typing.program.Lists above)
    (hdocs : ∀ r ∈ a.removed, ∀ s ∈ sources, r.path = some s.path →
      DocumentedWithin s.text r.span) :
    ∃ pruned, Pruned.ofSources sources a.removed = .ok pruned ∧ Agrees sources a pruned := by
  have hcomparable := h.comparable hread hpaths hnamed hlisted hdocs
  obtain ⟨pruned, hpruned, hall⟩ := h.exists_agreesAt hread hpaths
  have hagrees : List.Forall₂ (fun s script => AgreesAt a (s.prunedBy pruned) script) sources
      (a.removal.program.childrenOf root) :=
    Program.forall₂_imp_of_mem (fun s hs _ _ h => h (hcomparable s hs)) hall
  exact ⟨pruned, hpruned, agrees_of_forall₂ hagrees⟩

end

/-- Removing the parts of forwards from the texts of scripts agrees with taking them out of the
program: the text of each source can be read again and shows what is left of its script, places
apart. This is so for every source that has a path, as far as it loses anything, that loses
forwards from lists of statements only, and in which no documentation comment before a forward
comes to stand before another statement; whatever the other sources lose. -/
theorem agrees_ofSources {sources : List Source} {tags : List String} {a : Analysis}
    (h : Analysis.ofProgram (Program.ofSources sources).1 tags = .ok a)
    (hread : ∀ s ∈ sources, ∃ statements, Script.read s.text = .ok statements)
    (hpaths : (sources.map fun s => Path.ofText s.path).Nodup) :
    ∃ pruned, Pruned.ofSources sources a.removed = .ok pruned ∧
      List.Forall₂ (fun s script => Comparable a s → AgreesAt a (s.prunedBy pruned) script) sources
        (a.removal.program.childrenOf root) := by
  obtain ⟨taken, hanalysed⟩ := exists_analysed h
  exact hanalysed.exists_agreesAt hread hpaths

/-! ## Scripts with a forward -/

/-- A script with two classes and a forward in the second one, with something before the forward
and something after it. -/
def scriptAround (path before after : String) : Source :=
  ⟨path, "/** @constructor */ A = function() {}; A.prototype.m = function() {}; " ++
    "/** @constructor @extends {A} */ B = function() {}; " ++ before ++
    "B.prototype.m = function() { B.superClass_.m.call(this); };" ++ after⟩

/-- What a decidable test says of the analysis of some sources. -/
theorem exists_analysis {sources : List Source} {test : Analysis → Bool}
    (h : (Analysis.ofProgram (Program.ofSources sources).1
      Removal.defaultExclusions).toOption.map test = some true) :
    ∃ a, Analysis.ofProgram (Program.ofSources sources).1 Removal.defaultExclusions = .ok a ∧
      test a = true := by
  obtain ⟨a, ha, htest⟩ := Option.map_eq_some_iff.mp h
  exact ⟨a, toOption_eq_some.mp ha, htest⟩

/-- What is left of a script that loses one forward, computed on characters. -/
theorem exists_pruned_of_characters {path text new : String} {cs ds : List Char} {r : Removed}
    {count : Nat} (htext : text = String.ofList cs) (hnew : new = String.ofList ds)
    (hpath : r.scriptPath? = some (Path.ofText path))
    (hcut : (do
      let united := Span.unite (← [r.span].mapM (Span.grow cs))
      return (Span.cutAll cs united, united.length)) = Except.ok (ds, count)) :
    ∃ pruned, Pruned.ofSources [⟨path, text⟩] [r] = .ok pruned ∧
      Source.prunedBy pruned ⟨path, text⟩ = ⟨path, new⟩ := by
  have hrecords : Pruned.recordsAt [r] (Path.ofText path) = [r] := by
    unfold Pruned.recordsAt
    rw [List.filter_cons_of_pos (by rw [decide_eq_true_iff]; exact hpath), List.filter_nil]
  have hremove : Text.removeSpans text [r.span] = .ok (new, count) := by
    obtain ⟨spans, hspans, h⟩ := except_bind_eq_ok.mp hcut
    unfold Text.removeSpans
    rw [htext, String.toList_ofList, hspans]
    cases h
    rw [hnew]
    rfl
  have hleft : ∀ s ∈ [(⟨path, text⟩ : Source)], ∃ count, Text.removeSpans s.text
      ((Pruned.recordsAt [r] (Path.ofText s.path)).map Removed.span) = .ok (new, count) := by
    refine List.forall_mem_singleton.mpr ⟨count, ?_⟩
    rw [hrecords]
    exact hremove
  have hpaths : ([(⟨path, text⟩ : Source)].map fun s => Path.ofText s.path).Nodup :=
    List.nodup_singleton _
  obtain ⟨pruned, hpruned, hsame⟩ := @Pruned.exists_ofSources _ _ hpaths
    (List.forall_mem_singleton.mpr fun path' hpath' => by
      rw [hpath] at hpath'
      exact ⟨_, List.mem_singleton_self _, (Option.some.inj hpath').symm⟩) (fun _ => new) hleft
  refine ⟨pruned, hpruned, ?_⟩
  exact congrArg (Source.mk path) (hsame _ (List.mem_singleton_self _))

theorem exists_read {text : String} (h : (Script.read text).isOk = true) :
    ∃ statements, Script.read text = .ok statements := by
  cases hread : Script.read text with
  | error e => rw [hread] at h; cases h
  | ok statements => exact ⟨statements, rfl⟩

theorem scriptsOf_singleton {path text : String} {cs : List Char} (h : text = String.ofList cs) :
    scriptsOf [⟨path, text⟩] = match Script.statementsOf (Script.scan cs) with
      | .ok statements => [scriptSketch path cs.length statements]
      | .error _ => [] := by
  unfold scriptsOf
  rw [List.filterMap_cons, List.filterMap_nil, h, Script.read_ofList, String.length_ofList]
  cases Script.statementsOf (Script.scan cs) <;> rfl

/-- Which statements of the scripts are documented themselves. -/
def documentedStatements (p : Program) : List (List Bool) :=
  (p.childrenOf root).map fun n => (p.childrenOf n).map fun c => (p.docOf? c).isSome

/-- What agrees has the same statements documented. -/
theorem Agrees.documentedStatements {sources : List Source} {a : Analysis} {pruned : List Pruned}
    (h : Agrees sources a pruned) : documentedStatements a.removal.program
      = (scriptsOf (sources.map (Source.prunedBy pruned))).map fun s =>
          s.children.map fun c => c.doc.isSome := by
  obtain ⟨scripts, hshows, hsame⟩ := h.shows
  -- whether a comment is there can be seen in a sketch, and in one without places as well
  have hview : ∀ {p : Program} {ns : List Handle} {ss : List Sketch},
      List.Forall₂ p.Shows ns ss →
        ns.map (fun n => (p.docOf? n).isSome) = ss.map fun s => s.doc.isSome := by
    intro p ns ss hall
    induction hall with
    | nil => rfl
    | cons head _ ih => rw [List.map_cons, List.map_cons, ih, head.docOf?]
  have hunplaced : ∀ s : Sketch, (s.children.map fun c => c.doc.isSome)
      = s.unplaced.children.map fun c => c.doc.isSome := by
    rintro ⟨kind, text, doc, e, cs⟩
    show (cs.map fun c => c.doc.isSome) = (Sketch.unplacedAll cs).map fun c => c.doc.isSome
    rw [Sketch.unplacedAll_eq, List.map_map]
    refine List.map_congr_left fun c _ => ?_
    cases c
    exact Option.isSome_map.symm
  have hleft : SuperForward.documentedStatements a.removal.program
      = scripts.map fun s => s.children.map fun c => c.doc.isSome := by
    unfold SuperForward.documentedStatements
    generalize a.removal.program.childrenOf root = ns at hshows
    clear hsame
    induction hshows with
    | nil => rfl
    | cons head _ ih => rw [List.map_cons, List.map_cons, ih, hview head.childrenOf]
  have hright : ∀ ss : List Sketch, (ss.map fun s => s.children.map fun c => c.doc.isSome)
      = (ss.map Sketch.unplaced).map fun s => s.children.map fun c => c.doc.isSome := by
    intro ss
    rw [List.map_map]
    exact List.map_congr_left fun s _ => hunplaced s
  rw [hleft, hright, hsame, ← hright]

/-- A forward with its documentation, and a statement after it. -/
def documentedScript : Source := scriptAround "a.js" "/** Forwards. */ " " f();"

/-- A forward with two documentation comments before it, and a statement with its own after it. -/
def settledScript : Source :=
  scriptAround "a.js" "/** @deprecated */ /** Forwards. */ " " /** Calls. */ f();"

/-- Another script, in which a forward to a class of the first one is the body of a condition. -/
def otherScript : Source :=
  ⟨"b.js", "/** @constructor @extends {A} */ D = function() {}; " ++
    "if (x) D.prototype.m = function() { D.superClass_.m.call(this); };"⟩

/-- What is left of the first script agrees, although what is left of the second one does not. -/
theorem agrees_ofSources_settledScript : ∃ a,
    Analysis.ofProgram (Program.ofSources [settledScript, otherScript]).1
        Removal.defaultExclusions = .ok a ∧
      a.removed = [⟨"B.prototype.m", some "a.js", 1, 141, 217⟩,
        ⟨"D.prototype.m", some "b.js", 1, 59, 118⟩] ∧
      ∃ pruned script other,
        Pruned.ofSources [settledScript, otherScript] a.removed = .ok pruned ∧
          a.removal.program.childrenOf root = [script, other] ∧
          AgreesAt a (settledScript.prunedBy pruned) script ∧ ¬ Comparable a otherScript := by
  have htext : settledScript.text = String.ofList _ :=
    text_append (text_append (text_append (text_append rfl rfl) rfl) rfl) rfl
  have htext' : otherScript.text = String.ofList _ := text_append rfl rfl
  obtain ⟨a, ha, htest⟩ := @exists_analysis [settledScript, otherScript] (fun a =>
    decide (a.removed = [⟨"B.prototype.m", some "a.js", 1, 141, 217⟩,
      ⟨"D.prototype.m", some "b.js", 1, 59, 118⟩]) &&
    (decide (∀ n ∈ List.range a.typing.program.size, ∀ above ∈ a.typing.program.parentOf n,
      (a.typing.program.scriptPath n).toOption = some (some "a.js") →
        a.removal.program.parentOf n = none → a.typing.program.Lists above) &&
    decide (∃ n ∈ List.range a.typing.program.size, ∃ above ∈ a.typing.program.parentOf n,
      (a.typing.program.scriptPath n).toOption = some (some "b.js") ∧
        a.removal.program.parentOf n = none ∧ ¬ a.typing.program.Lists above))) (by
    rw [show Program.ofSources [settledScript, otherScript] = _ from
      Program.ofSources_two htext htext']
    decide +kernel)
  simp only [Bool.and_eq_true, decide_eq_true_iff] at htest
  obtain ⟨hremoved, hlisted, n, -, above, hparent, hpath, hnone, hnot⟩ := htest
  have hread : ∀ s ∈ [settledScript, otherScript],
      ∃ statements, Script.read s.text = .ok statements := by
    refine List.forall_mem_cons.mpr ⟨exists_read ?_, List.forall_mem_singleton.mpr (exists_read ?_)⟩
    · rw [htext, Script.read_ofList]
      decide +kernel
    · rw [htext', Script.read_ofList]
      decide +kernel
  have hsettled : Script.Settled settledScript.text [⟨141, 217⟩] := by
    unfold Script.Settled Script.LeftOver
    rw [htext, String.toList_ofList]
    decide +kernel
  have hcomparable : Comparable a settledScript := by
    refine ⟨fun _ _ _ => by decide, fun n above hpath hparent hnone => ?_, ?_⟩
    · exact hlisted n (List.mem_range.mpr (Program.lt_size_of_parentOf hparent)) above hparent
        (toOption_eq_some.mpr hpath) hnone
    · rw [hremoved]
      exact hsettled
  obtain ⟨pruned, hpruned, hall⟩ := agrees_ofSources ha hread (by decide)
  obtain ⟨script, scripts, hagrees, hrest, hchildren⟩ := List.forall₂_cons_left_iff.mp hall
  obtain ⟨other, _, -, hnil, rfl⟩ := List.forall₂_cons_left_iff.mp hrest
  rw [List.forall₂_nil_left_iff.mp hnil] at hchildren
  exact ⟨a, ha, hremoved, pruned, script, other, hpruned, hchildren, hagrees hcomparable,
    fun h => hnot (h.listed n above (toOption_eq_some.mp hpath) hparent hnone)⟩

/-- A forward that is the body of a condition. -/
def conditionalScript : Source := scriptAround "a.js" "if (x) " ""

/-- A forward with its documentation after another documentation comment, and a statement after
it. -/
def crowdedScript : Source := scriptAround "a.js" "/** @deprecated */ /** Forwards. */ " " f();"

/-- A forward in a script without a path. -/
def namelessScript : Source := scriptAround "" "" " f();"

/-- A script that loses something can be read. -/
theorem exists_read_of_removed {s : Source} {a : Analysis}
    (h : Analysis.ofProgram (Program.ofSources [s]).1 Removal.defaultExclusions = .ok a)
    (hremoved : a.removed ≠ []) : ∃ statements, Script.read s.text = .ok statements := by
  cases hread : Script.read s.text with
  | ok statements => exact ⟨statements, rfl⟩
  | error e =>
    -- nothing is left to analyse
    have hempty : (Program.ofSources [s]).1 = .empty := by
      simp [Program.ofSources, Program.addSources, Program.addText, hread]
    have hnothing : (Analysis.ofProgram .empty Removal.defaultExclusions).toOption.map
        (fun a => decide (a.removed = [])) = some true := rfl
    rw [hempty] at h
    rw [h] at hnothing
    exact absurd (of_decide_eq_true (Option.some.inj hnothing)) hremoved

/-- The text of a script that can be read does not agree, without its forward, with the program
without it. -/
def Disagrees (s : Source) : Prop :=
  (∃ statements, Script.read s.text = .ok statements) ∧
    ∃ a, Analysis.ofProgram (Program.ofSources [s]).1 Removal.defaultExclusions = .ok a ∧
      ¬ ∃ pruned, Pruned.ofSources [s] a.removed = .ok pruned ∧ Agrees [s] a pruned

/-- Other statements are documented in what is left of the text than in what is left of the
program. -/
theorem disagrees_of_documentedStatements {s t : Source} {record : Removed}
    {left : List (List Bool)}
    (hanalysis : (Analysis.ofProgram (Program.ofSources [s]).1
      Removal.defaultExclusions).toOption.map (fun a => decide (a.removed = [record]) &&
        decide (documentedStatements a.removal.program = left)) = some true)
    (hpruned : ∀ pruned, Pruned.ofSources [s] [record] = .ok pruned → s.prunedBy pruned = t)
    (hleft : ((scriptsOf [t]).map fun s => s.children.map fun c => c.doc.isSome) ≠ left) :
    Disagrees s := by
  obtain ⟨a, ha, htest⟩ := exists_analysis hanalysis
  rw [Bool.and_eq_true, decide_eq_true_iff, decide_eq_true_iff] at htest
  obtain ⟨hremoved, rfl⟩ := htest
  refine ⟨exists_read_of_removed ha (by simp [hremoved]), a, ha, ?_⟩
  rintro ⟨pruned, hok, hagrees⟩
  rw [hremoved] at hok
  have hsame := hagrees.documentedStatements
  rw [List.map_singleton, hpruned pruned hok] at hsame
  exact hleft hsame.symm

/-- The same, computed on characters: what is removed, what is left of the text, and what is read
of that. -/
theorem disagrees_of_characters {path text new : String} {cs ds : List Char} (record : Removed)
    (count : Nat) (left : List (List Bool)) (htext : text = String.ofList cs)
    (hnew : new = String.ofList ds) (hpath : record.scriptPath? = some (Path.ofText path))
    (hcomputed : (Analysis.ofProgram (Program.empty.addCharacters [(path, cs)]).1
        Removal.defaultExclusions).toOption.map (fun a => decide (a.removed = [record]) &&
          decide (documentedStatements a.removal.program = left)) = some true ∧
      (do
        let united := Span.unite (← [record.span].mapM (Span.grow cs))
        return (Span.cutAll cs united, united.length)) = Except.ok (ds, count) ∧
      ((match Script.statementsOf (Script.scan ds) with
        | .ok statements => [scriptSketch path ds.length statements]
        | .error _ => []).map fun s : Sketch => s.children.map fun c : Sketch => c.doc.isSome)
        ≠ left) :
    Disagrees ⟨path, text⟩ := by
  obtain ⟨hanalysis, hcut, hleft⟩ := hcomputed
  refine @disagrees_of_documentedStatements _ ⟨path, new⟩ record left ?_ ?_ ?_
  · rw [Program.ofSources_one htext]
    exact hanalysis
  · intro pruned hok
    obtain ⟨pruned', hok', hsame⟩ := exists_pruned_of_characters htext hnew hpath hcut
    cases hok'.symm.trans hok
    exact hsame
  · rw [scriptsOf_singleton hnew]
    exact hleft

/-- What is left of the first script, which ends too early. -/
def truncatedScript : Source :=
  ⟨"a.js", "/** @constructor */ A = function() {}; A.prototype.m = function() {}; " ++
    "/** @constructor @extends {A} */ B = function() {}; if (x) "⟩

/-- What is left of the second script, in which the last statement is documented. -/
def misdocumentedScript : Source :=
  ⟨"a.js", "/** @constructor */ A = function() {}; A.prototype.m = function() {}; " ++
    "/** @constructor @extends {A} */ B = function() {}; /** @deprecated */  f();"⟩

/-- Where the forward is the body of a condition, what is left of the text cannot be read; where
another documentation comment stands before it, the next statement gets that one; and a script
without a path is not rewritten. -/
theorem disagrees_scriptAround :
    Disagrees conditionalScript ∧ Disagrees crowdedScript ∧ Disagrees namelessScript := by
  have hnameless : namelessScript.text = String.ofList _ :=
    text_append (text_append (text_append (text_append rfl rfl) rfl) rfl) rfl
  refine ⟨?_, ?_, ?_⟩
  -- the body of a condition
  · exact disagrees_of_characters ⟨"B.prototype.m", some "a.js", 1, 129, 188⟩ 1
      [[false, false, false, false]]
      (text_append (text_append (text_append (text_append rfl rfl) rfl) rfl) rfl)
      (show truncatedScript.text = _ from text_append rfl rfl) rfl (by decide +kernel)
  -- two documentation comments
  · exact disagrees_of_characters ⟨"B.prototype.m", some "a.js", 1, 141, 217⟩ 1
      [[false, false, false, false]]
      (text_append (text_append (text_append (text_append rfl rfl) rfl) rfl) rfl)
      (show misdocumentedScript.text = _ from text_append rfl rfl) rfl (by decide +kernel)
  -- without a path nothing is cut, and the forward is still there
  · refine @disagrees_of_documentedStatements _ namelessScript
      ⟨"B.prototype.m", some "", 1, 122, 181⟩ [[false, false, false, false]] ?_ ?_ ?_
    · rw [show Program.ofSources [namelessScript] = _ from Program.ofSources_one hnameless]
      decide +kernel
    · intro pruned hok
      have hnone : Pruned.ofSources [namelessScript] [⟨"B.prototype.m", some "", 1, 122, 181⟩]
          = .ok [] := rfl
      cases hnone.symm.trans hok
      rfl
    · rw [show scriptsOf [namelessScript] = _ from scriptsOf_singleton hnameless]
      decide +kernel

end SuperForward
