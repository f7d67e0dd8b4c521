/-
  The order of sources.

  If nothing is declared twice and no circle of links is asked for, the order in which sources
  are read has no part in what is found out about them: the registries say the same about
  classes, methods and functions, callees have the same types, and the same is removed.
-/
import SuperForward.Proofs.Analysed
import SuperForward.Proofs.Forward.Alike
import SuperForward.Proofs.Program.Characters
import SuperForward.Proofs.Program.Excision
import SuperForward.Proofs.Program.Renumbering
import SuperForward.Proofs.Types.Agreeing

namespace SuperForward

open SuperForward.Program (root Below Renumbering)

/-! ## Removals under other numbers -/

theorem Registry.Agrees.isSuperclassMethod {r s : Registry} (h : r.Agrees s)
    (enclosing called : QualifiedName) :
    Forward.isSuperclassMethod s enclosing called = Forward.isSuperclassMethod r enclosing called := by
  unfold Forward.isSuperclassMethod
  simp only [h.superclass?, h.isClass]

namespace Removal

open SuperForward.Forward (below_child)

section

variable {p q : Program} {f : Handle → Handle} (h : Renumbering p q f) (hp : p.Parsed)
  {fn statement : Handle} {name : QualifiedName}
include h hp

variable (hq : q.Parsed)
include hq

/-- The same functions are to be taken out. -/
theorem removable_renumbered {r s : Registry} (hagrees : r.Agrees s) {tags : List String}
    (hr : Removable p r tags root fn statement name) :
    Removable q s tags root (f fn) (f statement) name := by
  refine removable_alike h.toLikeness hp hq (fun call callee honly hcallee => ⟨?_, ?_⟩) hr
  · obtain ⟨assign, hf⟩ := hr.forwarder
    obtain ⟨-, hcall⟩ := onlyCall_alike h.toLikeness hp hr.within hf.assigned.fn_kind honly
    exact h.typeOf? (below_child hp hcall (List.mem_of_mem_head? hcallee))
  · exact fun name called _ _ => hagrees.isSuperclassMethod name called

/-- What hangs below a script has the same path. -/
theorem scriptPath_renumbered {n : Handle} (hn : p.Below root n) (hroot : n ≠ root) :
    q.scriptPath (f n) = p.scriptPath n := by
  obtain ⟨script, hscript, hbelow⟩ : ∃ script, p.parentOf script = some root ∧
      p.Below script n := by
    rcases hn.eq_or_child with rfl | h
    · exact absurd rfl hroot
    · exact h
  have hscriptBelow : p.Below root script := Below.here.child hscript
  obtain ⟨scripts, hshows, hscripts⟩ := hp.shows
  obtain ⟨sketch, hsketch, hshown⟩ := hshows.child (hp.forest.mem_children_iff.mpr hscript)
  have hkind : p.kindOf? script = some .script := by
    rw [hshown.kindOf?]
    exact congrArg some (hscripts sketch hsketch).kind
  have htext : p.textOf? script = some sketch.text := hshown.textOf?
  have hbelow' : q.Below (f script) (f n) := by
    clear hn hroot
    induction hbelow with
    | here => exact .here
    | child up link ih =>
      exact ih.child (parent_alike h.toLikeness ((hscriptBelow.trans up).child link) link)
  have hscript' : q.parentOf (f script) = some root := by
    rw [parent_alike h.toLikeness hscriptBelow hscript, h.fixed]
  rw [hp.scriptPath_of_below hscript hkind htext hbelow,
    hq.scriptPath_of_below hscript' ((h.kindOf? hscriptBelow).trans hkind)
      ((h.textOf? hscriptBelow).trans htext) hbelow']

/-- The same is recorded of a statement. -/
theorem describe_renumbered (hstatement : p.Below root statement)
    (hkind : p.kindOf? statement = some .exprResult) :
    describe q name (f statement) = describe p name statement := by
  have hroot := hp.ne_root_of_kind hkind (by simp)
  obtain ⟨node, node', hnode, hnode', -, -, -, hstart, hstop, hline, -, hchildren⟩ :=
    h.exists_node hp hstatement
  obtain ⟨-, -, hcs, -, -⟩ := Program.node_fields hnode
  obtain ⟨child, hchild⟩ := hp.children_exprResult hstatement hkind
  have hbelow := below_child hp hstatement (c := child) (by rw [hchild]; simp)
  obtain ⟨inner, inner', hinner, hinner', -, -, hdoc, hinnerStart, -⟩ := h.exists_node hp hbelow
  rw [hcs] at hchild
  unfold describe
  simp only [hnode, hnode', hchildren hroot, hchild, List.map_cons, List.map_nil,
    List.head?_cons, Program.present, except_ok_bind, hinner, hinner', hdoc, hstart, hstop, hline,
    scriptPath_renumbered h hp hq hstatement hroot]

/-- What is removed from the one program is removed from the other one. -/
theorem removed_renumbered {r s : Registry} (hagrees : r.Agrees s) {tags : List String}
    {taken taken' : List Taken} {records records' : List Removed}
    (htaken : ∀ t : Taken, t ∈ taken ↔ Removable p r tags root t.fn t.statement t.name)
    (htaken' : ∀ t : Taken, t ∈ taken' ↔ Removable q s tags root t.fn t.statement t.name)
    (hrecords : Recorded p taken records) (hrecords' : Recorded q taken' records')
    {record : Removed} (hmem : record ∈ records) : record ∈ records' := by
  obtain ⟨t, ht, hrecord⟩ := Program.forall₂_exists_of_mem (List.Forall₂.flip hrecords) hmem
  have hr := (htaken t).mp ht
  obtain ⟨assign, hf⟩ := hr.forwarder
  have hstatement := hp.below_parent (hp.below_parent hr.within hf.assigned.fn_parent)
    hf.assigned.assign_parent
  have ht' : (⟨f t.fn, f t.statement, t.name⟩ : Taken) ∈ taken' :=
    (htaken' _).mpr (removable_renumbered h hp hq hagrees hr)
  obtain ⟨record', hmem', hrecord'⟩ := Program.forall₂_exists_of_mem hrecords' ht'
  have hsame : describe q t.name (f t.statement) = describe p t.name t.statement :=
    describe_renumbered h hp hq hstatement hf.assigned.statement_kind
  rw [hrecord'] at hsame
  have hrecord : describe p t.name t.statement = .ok record := hrecord
  rw [hrecord] at hsame
  exact Except.ok.inj hsame ▸ hmem'

end

end Removal

/-! ## Typed programs -/

namespace Program

/-- The same scripts in another order are read to the same nodes under other numbers. -/
theorem exists_renumbering_ofSources {sources sources' : List Source}
    (hperm : sources.Perm sources') :
    ∃ f, Renumbering (ofSources sources).1 (ofSources sources').1 f :=
  (composed_ofSources sources).exists_renumbering (composed_ofSources sources')
    (parsed_untyped sources) (parsed_untyped sources') (hperm.filterMap _)

variable {p q : Program} {f : Handle → Handle} (h : Renumbering p q f)
include h

/-- Nodes that have the same types go on having the same numbers. -/
theorem Renumbering.withTypes {types types' : Handle → Option JsType}
    (htypes : ∀ n, p.Below root n → types' (f n) = types n) :
    Renumbering (p.withTypes types) (q.withTypes types') f where
  fixed := h.fixed
  kindOf? := fun hn => by rw [kindOf?_withTypes, kindOf?_withTypes, h.kindOf? hn.of_withTypes]
  textOf? := fun hn => by rw [textOf?_withTypes, textOf?_withTypes, h.textOf? hn.of_withTypes]
  docs := fun hn => by rw [docOf?_withTypes, docOf?_withTypes, h.docs hn.of_withTypes]
  childrenOf := fun hn hroot => by
    rw [childrenOf_withTypes, childrenOf_withTypes, h.childrenOf hn.of_withTypes hroot]
  parentOf := fun hn => by
    rw [parentOf_withTypes, parentOf_withTypes, h.parentOf hn.of_withTypes]
  scripts := by
    rw [childrenOf_withTypes, childrenOf_withTypes]
    exact h.scripts
  node := by
    intro n hn hroot
    have hn := hn.of_withTypes
    rw [nodes_withTypes, nodes_withTypes, h.node hn hroot, htypes n hn]
    cases p.nodes[n]? <;> rfl
  top := by
    have hroot := htypes root .here
    rw [h.fixed] at hroot
    rw [nodes_withTypes, nodes_withTypes, h.top, hroot, childrenOf_withTypes]
    cases p.nodes[root]? <;> rfl

end Program

namespace Typing

section

variable {p q : Program} {f : Handle → Handle} (h : Renumbering p q f) (hp : p.Parsed)
  {r s : Registry} (hagrees : r.Agrees s)
include h hp hagrees

/-- The callee of a call has the same type. -/
theorem calleeType_renumbered {call n : Handle} {type : JsType} (hcall : p.Below root call)
    (ht : CalleeType p r call n type) : p.Below root n ∧ CalleeType q s (f call) (f n) type := by
  have hn : p.Below root n :=
    hcall.child (hp.forest.mem_children_iff.mp (List.mem_of_mem_head? ht.first))
  refine ⟨hn, (h.kindOf? hcall).trans ht.kind, ?_, ?_⟩
  · rw [h.childrenOf hcall (hp.ne_root_of_kind ht.kind (by simp)), List.head?_map, ht.first]
    rfl
  · obtain ⟨name, hspells, htype⟩ := ht.named
    exact ⟨name, h.spells hp hn hspells, (hagrees.typeOfCallee? name).trans htype⟩

/-- The same types are attached. -/
theorem types_renumbered (hq : q.Parsed) {types types' : Handle → Option JsType}
    (ht : Attached p r (p.preOrder root) (fun _ => none) types)
    (ht' : Attached q s (q.preOrder root) (fun _ => none) types') {n : Handle}
    (hn : p.Below root n) : types' (f n) = types n := by
  have hmem {q : Program} (hq : q.Parsed) {m : Handle} : m ∈ q.preOrder root ↔ q.Below root m :=
    hq.forest.mem_preOrder_iff
  by_cases htyped : ∃ call type, p.Below root call ∧ CalleeType p r call n type
  · obtain ⟨call, type, hcall, htype⟩ := htyped
    obtain ⟨-, htype'⟩ := calleeType_renumbered h hp hagrees hcall htype
    rw [ht.typed call ((hmem hp).mpr hcall) n type htype,
      ht'.typed _ ((hmem hq).mpr (h.below hcall)) _ type htype']
  · rw [ht.kept n fun call hcall type htype => htyped ⟨call, type, (hmem hp).mp hcall, htype⟩]
    refine ht'.kept _ fun call' hcall' type htype => htyped ?_
    -- a call with that callee in the one program is a call in the other one
    obtain ⟨call, hcall, rfl⟩ := h.surjective hp hq ((hmem hq).mp hcall')
    obtain ⟨back, hback, hinverse⟩ := h.exists_symm hp hq
    obtain ⟨-, htype⟩ := calleeType_renumbered hback hq hagrees.symm (h.below hcall) htype
    rw [hinverse call hcall, hinverse n hn] at htype
    exact ⟨call, type, hcall, htype⟩

end

/-- Typing a program in which nothing is declared twice and one with other numbers for its nodes
comes to registries that say the same, and to the same types. -/
theorem ofProgram_renumbered {p q : Program} {f : Handle → Handle} (h : Renumbering p q f)
    (hp : p.Parsed) (hq : q.Parsed) (huntyped : p.withTypes (fun _ => none) = p)
    (huntyped' : q.withTypes (fun _ => none) = q) (hunambiguous : Unambiguous p) :
    ∃ a b, ofProgram p = .ok a ∧ ofProgram q = .ok b ∧ a.registry.Agrees b.registry ∧
      Renumbering a.program b.program f := by
  obtain ⟨ds, hds, hof⟩ := declarationsOf_ok hp
  obtain ⟨called, hcalled⟩ := inheritsOf_ok hp
  obtain ⟨ds', hds', -⟩ := declarationsOf_ok hq
  obtain ⟨called', hcalled'⟩ := inheritsOf_ok hq
  have hsame : SameDeclared f ds ds' called called' :=
    ⟨mem_declarationsOf_renumbered h hp hq hds hds',
      mem_inheritsOf_renumbered h hp hq hcalled hcalled'⟩
  have hdistinct := hunambiguous.distinct hp hds hcalled
  have hacyclic := hunambiguous.acyclic hds hcalled
  have hrequested : Requested ds' called' = Requested ds called := by
    funext c parent
    exact propext (hsame.requested hdistinct)
  obtain ⟨a, c, types, ha, hprogram, hc, hclasses, hsettled, hattached⟩ :=
    ofProgram_settled hp huntyped hds hcalled hdistinct hacyclic
  obtain ⟨b, c', types', hb, hprogram', hc', hclasses', hsettled', hattached'⟩ :=
    ofProgram_settled hq huntyped' hds' hcalled' (hsame.distinct hdistinct)
      (hrequested ▸ hacyclic)
  have hagrees : a.registry.Agrees b.registry :=
    Settled.agrees h hp hq hof hsame hdistinct hc hc' hclasses hclasses' hsettled hsettled'
  refine ⟨a, b, ha, hb, hagrees, ?_⟩
  rw [hprogram, hprogram']
  exact h.withTypes fun n hn => types_renumbered h hp hagrees hq hattached hattached' hn

end Typing

/-! ## The same is found and removed -/

/-- If nothing is declared twice and no circle of links is asked for, the order of the sources
has no part in what is declared and removed. -/
theorem Analysis.ofProgram_reordered {sources sources' : List Source}
    (hperm : sources.Perm sources')
    (hunambiguous : Typing.Unambiguous (Program.ofSources sources).1) (tags : List String) :
    ∃ a b, ofProgram (Program.ofSources sources).1 tags = .ok a ∧
      ofProgram (Program.ofSources sources').1 tags = .ok b ∧
      a.typing.registry.Agrees b.typing.registry ∧
      ∀ record, record ∈ b.removed ↔ record ∈ a.removed := by
  have huntyped := Program.withTypes_ofSources sources
  have huntyped' := Program.withTypes_ofSources sources'
  have hp := Program.parsed_untyped sources
  have hq := Program.parsed_untyped sources'
  obtain ⟨f, h⟩ := Program.exists_renumbering_ofSources hperm
  obtain ⟨typing, typing', htyping, htyping', hagrees, hrenumbered⟩ :=
    Typing.ofProgram_renumbered h hp hq huntyped huntyped' hunambiguous
  obtain ⟨a, taken, ha, hanalysed⟩ := analysed_ofSources sources tags
  obtain ⟨b, taken', hb, hanalysed'⟩ := analysed_ofSources sources' tags
  have hsame {s : List Source} {t : Typing} {c : Analysis}
      (ht : Typing.ofProgram (Program.ofSources s).1 = .ok t)
      (hc : ofProgram (Program.ofSources s).1 tags = .ok c) : c.typing = t := by
    unfold ofProgram at hc
    rw [ht] at hc
    simp only [except_ok_bind] at hc
    unfold ofTyping at hc
    split at hc
    · cases hc
      rfl
    · cases hc
  obtain rfl := hsame htyping ha
  obtain rfl := hsame htyping' hb
  -- a renumbering of the sources can be turned round, so one direction gives both
  refine ⟨a, b, ha, hb, hagrees, fun record => ⟨?_, ?_⟩⟩
  · obtain ⟨back, hback, -⟩ := hrenumbered.exists_symm hanalysed.parsed hanalysed'.parsed
    exact Removal.removed_renumbered hback hanalysed'.parsed hanalysed.parsed hagrees.symm
      hanalysed'.mem_taken hanalysed.mem_taken hanalysed'.recorded hanalysed.recorded
  · exact Removal.removed_renumbered hrenumbered hanalysed.parsed hanalysed'.parsed hagrees
      hanalysed.mem_taken hanalysed'.mem_taken hanalysed.recorded hanalysed'.recorded

namespace Typing

/-- A program without calls that link classes is unambiguous if all its functions have different
names, and the links that are documented lead downwards in some order. -/
theorem unambiguous_of_documented {p : Program} (hp : p.Parsed) {ds : List Declaration}
    (hds : declarationsOf p = .ok ds) (hcalled : inheritsOf p = .ok [])
    (hnames : (ds.map fun d => toString d.name).Nodup) (rank : String → Nat)
    (hrank : ∀ l ∈ linksOf ds [], rank l.2 < rank l.1) : Unambiguous p where
  named := by
    intro fn fn' name hfn hfn' hkind hkind' hname hname'
    have hdeclared {n : Handle} (hn : p.Below root n) (hkind : p.kindOf? n = some .function)
        (hname : p.functionName n = .ok (some name)) : ∃ d ∈ ds, d.fn = n ∧ d.name = name := by
      obtain ⟨doc, hdoc⟩ := docOfFunction_ok hp hn
      refine ⟨⟨name, n, doc⟩, (mem_declarationsOf hp hds).mpr ⟨hn, ?_⟩, rfl, rfl⟩
      unfold declarationAt
      simp only [Program.isKind_of_lt (hp.lt_size_of_below hn), hkind, hname, hdoc,
        except_ok_bind, decide_true, Bool.not_true, Bool.false_eq_true, if_false]
      rfl
    obtain ⟨d, hd, rfl, hn⟩ := hdeclared hfn hkind hname
    obtain ⟨d', hd', rfl, hn'⟩ := hdeclared hfn' hkind' hname'
    rw [List.inj_on_of_nodup_map hnames hd hd' (by rw [hn, hn'])]
  linked := by
    intro ds' n n' c parent parent' _ _ hn _ hl _
    have hmem := (mem_inheritsOf hp hcalled).mpr ⟨n, hn, hl⟩
    exact absurd hmem List.not_mem_nil
  acyclic := by
    intro ds' called' hds' hcalled' c hc
    rw [hds] at hds'
    rw [hcalled] at hcalled'
    cases hds'
    cases hcalled'
    -- along each link the rank goes down, so no chain of them comes back
    have hlower {c d : String} (h : Relation.TransGen (Requested ds []) c d) :
        rank d < rank c := by
      induction h with
      | single h => exact hrank _ h.link
      | tail _ h ih => exact (hrank _ h.link).trans ih
    exact lt_irrefl _ (hlower hc)

end Typing

namespace Analysis

/-- A script with a class and a method. -/
def baseSource : Source :=
  ⟨"a.js", "/** @constructor */ A = function() {}; A.prototype.m = function() {};"⟩

/-- A script with a class below it, the method of which forwards. -/
def derivedSource : Source :=
  ⟨"b.js", "/** @constructor @extends {A} */ B = function() {}; " ++
    "/** @override */ B.prototype.m = function() { A.prototype.m.call(this); };"⟩

theorem declared_baseSource_derivedSource :
    ((Typing.declarationsOf (Program.ofSources [baseSource, derivedSource]).1).map fun ds =>
        (ds.map fun d => toString d.name, Typing.linksOf ds []),
      Typing.inheritsOf (Program.ofSources [baseSource, derivedSource]).1)
      = (.ok (["A", "A.prototype.m", "B", "B.prototype.m"], [("B", "A")]), .ok []) := by
  rw [show Program.ofSources [baseSource, derivedSource] = _ from
    Program.ofSources_two rfl (text_append rfl rfl)]
  decide +kernel

theorem unambiguous_baseSource_derivedSource :
    Typing.Unambiguous (Program.ofSources [baseSource, derivedSource]).1 := by
  have hp := Program.parsed_untyped [baseSource, derivedSource]
  obtain ⟨ds, hds, -⟩ := Typing.declarationsOf_ok hp
  obtain ⟨hdeclared, hcalled⟩ := Prod.mk.inj declared_baseSource_derivedSource
  rw [hds] at hdeclared
  obtain ⟨hnames, hlinks⟩ := Prod.mk.inj (Except.ok.inj hdeclared)
  refine Typing.unambiguous_of_documented hp hds hcalled ?_ (fun c => if c = "A" then 0 else 1) ?_
  · rw [hnames]
    decide
  · rw [hlinks]
    decide

theorem ofProgram_derivedSource_baseSource :
    [baseSource, derivedSource].Perm [derivedSource, baseSource] ∧
      Typing.Unambiguous (Program.ofSources [baseSource, derivedSource]).1 ∧
      ∃ a b, ofProgram (Program.ofSources [baseSource, derivedSource]).1 [] = .ok a ∧
        ofProgram (Program.ofSources [derivedSource, baseSource]).1 [] = .ok b ∧
        a.typing.registry.Agrees b.typing.registry ∧
        ∀ record, record ∈ b.removed ↔ record ∈ a.removed := by
  have hperm : [baseSource, derivedSource].Perm [derivedSource, baseSource] := .swap ..
  exact ⟨hperm, unambiguous_baseSource_derivedSource,
    ofProgram_reordered hperm unambiguous_baseSource_derivedSource []⟩

end Analysis

end SuperForward
