/-
  What is known of a method that was taken out.

  The second walk looks for rivals among the functions that are assigned in statements of their
  own. A function may be assigned to the same name inside a larger expression, and then it does
  not protect the name. Apart from this, a method that is taken out is the only function that
  is bound to its name.

  The matcher trusts the name that is called and the type that the callee was given. Put
  together with what typing and reading guarantee, this is enough: the method called the method
  of that name on the superclass of its class, with its own parameters, and passed the result on
  if there is one.
-/
import SuperForward.Proofs.Analysed
import SuperForward.Proofs.Program.Characters
import SuperForward.Proofs.Types.Called

namespace SuperForward.Removal

open SuperForward.Program (root Below)

/-! ## The functions that are bound to its name -/

/-- A function of the program is bound to a name. -/
structure BoundTo (p : Program) (fn : Handle) (name : QualifiedName) : Prop where
  below : p.Below root fn
  kind : p.kindOf? fn = some .function
  named : p.functionName fn = .ok (some name)

/-- Wherever a function is bound to the name by an assignment, the assignment is a statement. -/
def AssignedInStatements (p : Program) (name : QualifiedName) : Prop :=
  ∀ fn assign, BoundTo p fn name → p.parentOf fn = some assign →
    p.kindOf? assign = some .assign →
    ∃ statement, p.parentOf assign = some statement ∧ p.kindOf? statement = some .exprResult

/-- A forward that is taken out is the only function that is bound to its name, unless one is
bound to it inside a larger expression. -/
theorem Removable.only_iff {p : Program} (hp : p.Parsed) {r : Registry} {tags : List String}
    {fn statement : Handle} {name : QualifiedName}
    (h : Removable p r tags root fn statement name) :
    (∀ g, BoundTo p g name → g = fn) ↔ AssignedInStatements p name := by
  obtain ⟨assign, hforward⟩ := h.forwarder
  constructor
  · intro honly g assign' hg hparent _
    have hgfn := honly g hg
    subst hgfn
    have hassign := hforward.assigned.fn_parent
    rw [hassign] at hparent
    cases hparent
    exact ⟨statement, hforward.assigned.assign_parent, hforward.assigned.statement_kind⟩
  · intro hstatements g hg
    obtain ⟨name?, hname, hlong⟩ := hp.functionName_ok hg.below hg.kind
    have hsame : name? = some name := by
      rw [hg.named] at hname
      exact (Except.ok.inj hname).symm
    subst hsame
    obtain ⟨call, -, hexact⟩ := hforward.forwards
    -- a method has too long a name to be bound by anything but an assignment
    rcases hlong name rfl with hshort | ⟨assign', target, hparent, hkind, -, -⟩
    · have := hexact.three_le_length
      omega
    · obtain ⟨statement', hstatement', hexpr⟩ := hstatements g assign' hg hparent hkind
      exact h.alone g hg.below
        ⟨⟨assign', statement', hg.kind, hparent, hkind, hstatement', hexpr⟩, hg.named⟩

/-- A record carries the name that it was made for. -/
theorem name_of_describe {p : Program} {name : QualifiedName} {statement : Handle}
    {record : Removed} (h : describe p name statement = .ok record) :
    record.name = toString name := by
  unfold describe at h
  obtain ⟨node, -, h⟩ := except_bind_eq_ok.mp h
  obtain ⟨head, -, h⟩ := except_bind_eq_ok.mp h
  obtain ⟨inner, -, h⟩ := except_bind_eq_ok.mp h
  obtain ⟨path, -, h⟩ := except_bind_eq_ok.mp h
  cases h
  rfl

/-- Each record of an analysis is about a function that was assigned to a method in a statement
of its own and is no longer part of the program; no other function was bound to the name
exactly if every assignment of a function to the name was a statement of its own. -/
theorem only_function_of_record {sources : List Source} {tags : List String} {a : Analysis}
    (h : Analysis.ofProgram (Program.ofSources sources).1 tags = .ok a) {record : Removed}
    (hrecord : record ∈ a.removed) :
    ∃ name fn assign statement, record.name = toString name ∧
      BoundTo a.typing.program fn name ∧ AssignedIn a.typing.program fn assign statement ∧
      describe a.typing.program name statement = .ok record ∧
      ¬ a.removal.program.Below root fn ∧
      ((∀ g, BoundTo a.typing.program g name → g = fn) ↔
        AssignedInStatements a.typing.program name) := by
  obtain ⟨taken, hanalysed⟩ := exists_analysed h
  obtain ⟨t, ht, hdescribe⟩ := Program.forall₂_exists_of_mem hanalysed.recorded.flip hrecord
  have hremovable := (hanalysed.mem_taken t).mp ht
  obtain ⟨assign, hforward⟩ := hremovable.forwarder
  refine ⟨t.name, t.fn, assign, t.statement, ?_,
    ⟨hremovable.within, hforward.assigned.fn_kind, hforward.named⟩, hforward.assigned, hdescribe,
    ?_, hremovable.only_iff hanalysed.parsed⟩
  · exact name_of_describe hdescribe
  · have hparsed := hanalysed.parsed
    rw [hanalysed.program]
    refine Program.not_below_of_mem_removed hparsed.root_parent
      (List.mem_map_of_mem ht) ?_ ((Below.here.child hforward.assigned.assign_parent).child
        hforward.assigned.fn_parent)
    intro hroot
    have hkind := hparsed.kindOf?_root
    rw [← hroot, hforward.assigned.statement_kind] at hkind
    cases hkind

/-- A script in which a method that is a forward is assigned again, in the middle of a chain of
assignments. The forward is node 37, and the other function is node 50. -/
def chainedScript : Source :=
  ⟨"a.js", "/** @constructor */ A = function() {}; A.prototype.m = function() {}; " ++
    "/** @constructor @extends {A} */ B = function() {}; " ++
    "B.prototype.m = function() { B.superClass_.m.call(this); }; " ++
    "x = B.prototype.m = function() { f(); };"⟩

/-- The method that is assigned twice there. -/
def chainedName : QualifiedName := ⟨["B", "prototype", "m"], by simp, by decide⟩

theorem analysis_chainedScript :
    ∃ a, Analysis.ofProgram (Program.ofSources [chainedScript]).1 defaultExclusions = .ok a ∧
      a.removed = [⟨"B.prototype.m", some "a.js", 1, 122, 181⟩] ∧
      (∀ n ∈ [37, 50], n ∈ a.typing.program.postOrder root ∧
        a.typing.program.kindOf? n = some .function ∧
        (a.typing.program.functionName n).toOption = some (some chainedName)) ∧
      50 ∈ a.removal.program.postOrder root := by
  have h : (Analysis.ofProgram (Program.ofSources [chainedScript]).1
      defaultExclusions).toOption.map (fun a : Analysis =>
        decide (a.removed = [⟨"B.prototype.m", some "a.js", 1, 122, 181⟩]) &&
          decide (∀ n ∈ ([37, 50] : List Handle), n ∈ a.typing.program.postOrder root ∧
            a.typing.program.kindOf? n = some .function ∧
            (a.typing.program.functionName n).toOption = some (some chainedName)) &&
          decide (50 ∈ a.removal.program.postOrder root)) = some true := by
    rw [show Program.ofSources [chainedScript] = _ from
      Program.ofSources_one (text_append (text_append (text_append rfl rfl) rfl) rfl)]
    decide +kernel
  obtain ⟨a, ha, hdecide⟩ := Option.map_eq_some_iff.mp h
  simp only [Bool.and_eq_true, decide_eq_true_iff] at hdecide
  refine ⟨a, ?_, hdecide.1.1, hdecide.1.2, hdecide.2⟩
  cases hanalysis : Analysis.ofProgram (Program.ofSources [chainedScript]).1 defaultExclusions with
  | error e => rw [hanalysis] at ha; cases ha
  | ok a' => rw [hanalysis] at ha; cases ha; rfl

theorem only_function_of_record_chainedScript :
    ∃ a record, Analysis.ofProgram (Program.ofSources [chainedScript]).1 defaultExclusions = .ok a ∧
      record ∈ a.removed ∧
      ∃ name fn assign statement, record.name = toString name ∧
        BoundTo a.typing.program fn name ∧ AssignedIn a.typing.program fn assign statement ∧
        describe a.typing.program name statement = .ok record ∧
        ¬ a.removal.program.Below root fn ∧
        ((∀ g, BoundTo a.typing.program g name → g = fn) ↔
          AssignedInStatements a.typing.program name) := by
  obtain ⟨a, ha, hremoved, -, -⟩ := analysis_chainedScript
  have hrecord : ⟨"B.prototype.m", some "a.js", 1, 122, 181⟩ ∈ a.removed := by
    rw [hremoved]
    exact List.mem_singleton_self _
  exact ⟨a, _, ha, hrecord, only_function_of_record ha hrecord⟩

/-- A method is taken out although another function that stays in the program is bound to its
name. -/
theorem chained_assignment_overlooked :
    ∃ a record, Analysis.ofProgram (Program.ofSources [chainedScript]).1 defaultExclusions = .ok a ∧
      record ∈ a.removed ∧ record.name = toString chainedName ∧
      BoundTo a.typing.program 37 chainedName ∧ BoundTo a.typing.program 50 chainedName ∧
      a.removal.program.Below root 50 := by
  obtain ⟨a, ha, hremoved, hbound, hstays⟩ := analysis_chainedScript
  obtain ⟨taken, hanalysed⟩ := exists_analysed ha
  have hforest := hanalysed.parsed.forest
  have bound {n : Handle} (hn : n ∈ [37, 50]) : BoundTo a.typing.program n chainedName := by
    obtain ⟨hbelow, hkind, hname⟩ := hbound n hn
    refine ⟨hforest.mem_postOrder_iff.mp hbelow, hkind, ?_⟩
    cases hfn : a.typing.program.functionName n with
    | error e => rw [hfn] at hname; cases hname
    | ok name? => rw [hfn] at hname; cases hname; rfl
  have hforest' : a.removal.program.Forest := by
    rw [hanalysed.program]
    exact hforest.without _
  refine ⟨a, _, ha, by rw [hremoved]; exact List.mem_singleton_self _, by decide +kernel,
    bound (by simp), bound (by simp), hforest'.mem_postOrder_iff.mp hstays⟩

/-! ## What it called -/

/-- Two nodes are plain names, and the same name. -/
def SamePlainName (p : Program) (a b : Handle) : Prop :=
  p.kindOf? a = some .name ∧ p.kindOf? b = some .name ∧ p.textOf? a = p.textOf? b

/-- A function is a forward to the method of the same name on the superclass of its class. -/
structure ForwardsTo (p : Program) (r : Registry) (fn : Handle)
    (className method parent : String) : Prop where
  declared : r.isClass className = true
  superclass : r.superclass? className = some parent
  superclass_declared : r.isClass parent = true
  /-- The only statement is a call of the method on the superclass with `this` and the
  parameters, and it gives back what the method declares. -/
  body : ∃ statement call callee receiver args params type,
    (∃ block, (p.childrenOf fn).getLast? = some block ∧ p.childrenOf block = [statement]) ∧
    p.childrenOf statement = [call] ∧ p.kindOf? call = some .call ∧
    p.childrenOf call = callee :: receiver :: args ∧
    (∃ called : QualifiedName, p.Spells callee called.names ∧
      (toString called = className ++ ".superClass_." ++ method ++ ".call" ∨
        toString called = parent ++ ".prototype." ++ method ++ ".call")) ∧
    p.kindOf? receiver = some .this ∧
    (p.childrenOf fn)[1]? = some params ∧
    List.Forall₂ (SamePlainName p) (p.childrenOf params) args ∧
    r.findMethod parent method = some type ∧ Forward.typeOf? p callee = some type ∧
    ∀ returns, type.returns? = some returns → returns.isDefinite = true →
      p.kindOf? statement = some .returnStmt

section

variable {p : Program} (hp : p.Parsed)
include hp

/-- Parameters that spell the same name as plain arguments are plain themselves. -/
theorem samePlainName_of_forwarded {params : Handle} {args : List Handle}
    (hparams : p.Below root params) (hkind : p.kindOf? params = some .paramList)
    (h : Forward.Forwarded p (p.childrenOf params) args) :
    List.Forall₂ (SamePlainName p) (p.childrenOf params) args := by
  refine Program.forall₂_imp_of_mem ?_ h
  rintro param hparam arg - ⟨harg, names, hs, hs'⟩
  rcases hp.children_paramList hparams hkind hparam with ⟨hname, -⟩ | hother
  · obtain ⟨text, htext, rfl⟩ := hs.of_name hname
    obtain ⟨text', htext', hsame⟩ := hs'.of_name harg
    refine ⟨hname, harg, ?_⟩
    rw [htext, htext', List.cons.inj hsame |>.1]
  · exact absurd hother hs.ne_other

omit hp in
theorem declared_of_superclass {r : Registry} {c parent : String}
    (h : r.superclass? c = some parent) : r.isClass c = true := by
  unfold Registry.superclass? at h
  unfold Registry.isClass OrderedMap.contains
  cases hget : r.classes.get? c with
  | none => rw [hget] at h; cases h
  | some _ => rfl

omit hp in
/-- Where the matcher accepts a name that is called, and the name stands for something, that is
the method on the superclass. -/
theorem superclass_of_isSuperclassMethod {r : Registry} {name called : QualifiedName}
    {type : JsType} (h : Forward.isSuperclassMethod r name called = true)
    {owner : List String} {method : String} (howner : owner ≠ [])
    (hname : name.names = owner ++ [prototypeMarker, method])
    (hstands : r.typeOfCallee? called = some type) :
    ∃ parent, r.superclass? (".".intercalate owner) = some parent ∧
      r.findMethod parent method = some type ∧
      (toString called = ".".intercalate owner ++ ".superClass_." ++ method ++ ".call" ∨
        toString called = parent ++ ".prototype." ++ method ++ ".call") := by
  unfold Forward.isSuperclassMethod at h
  split at h
  · cases h
  next ownClass methodName hsplit =>
  obtain ⟨howns, hmethods⟩ :=
    QualifiedName.eq_of_splitOn hsplit hname howner (by simp) (by decide)
  have howns' : toString ownClass = ".".intercalate owner := by
    rw [← howns]
    rfl
  -- what is written for a call of the method behind a marker
  have hwritten {className rest : QualifiedName} {access : Access} {marker : String}
      (hsplit : called.splitOn access = some (className, rest))
      (hrest : Forward.callsMethod methodName rest = true)
      (hmarker : ∀ s, Access.ofSegment s = access → s = marker) :
      toString called = toString className ++ "." ++ marker ++ "." ++ method ++ ".call" := by
    obtain ⟨s, hcalled, haccess⟩ := QualifiedName.names_of_splitOn hsplit
    rw [hmarker s haccess, beq_iff_eq.mp hrest, hmethods] at hcalled
    rw [QualifiedName.toString_append (by simp) hcalled]
    simp [String.append_assoc, Forward.callSegment]
  rw [Bool.or_eq_true] at h
  rcases h with h | h
  · obtain ⟨⟨className, rest⟩, hsplit', h⟩ := (Option.any_eq_true _ _).mp h
    rw [Bool.and_eq_true, beq_iff_eq] at h
    obtain ⟨rfl, hrest⟩ := h
    obtain ⟨parent, hparent, hfind⟩ :=
      Registry.findMethod_of_superclass hsplit' hrest hmethods hstands
    rw [howns'] at hparent
    refine ⟨parent, hparent, hfind, .inl ?_⟩
    rw [hwritten hsplit' hrest fun s => QualifiedName.superclass_of_access, howns']
    simp [String.append_assoc, superclassMarker]
  · obtain ⟨⟨className, rest⟩, hsplit', h⟩ := (Option.any_eq_true _ _).mp h
    rw [Bool.and_eq_true, Bool.and_eq_true, beq_iff_eq] at h
    obtain ⟨⟨hrest, -⟩, hparent⟩ := h
    rw [howns'] at hparent
    refine ⟨toString className, hparent,
      Registry.findMethod_of_prototype hsplit' hrest hmethods hstands, .inr ?_⟩
    rw [hwritten hsplit' hrest fun s => QualifiedName.prototype_of_access]
    simp [String.append_assoc, prototypeMarker]

/-- An exact forward in the only statement of a method calls the method of that name on the
superclass of its class, if types are those that names stand for. -/
theorem ForwardsTo.of_exactForward {r : Registry} {fn call : Handle} {name : QualifiedName}
    (hknown : ∀ n type, Forward.typeOf? p n = some type → ∃ name : QualifiedName,
      p.Spells n name.names ∧ r.typeOfCallee? name = some type)
    (hlinked : ∀ c parent, r.superclass? c = some parent → r.isClass parent = true)
    (hfn : p.Below root fn) (hkind : p.kindOf? fn = some .function) (hcall : OnlyCall p fn call)
    (hforward : Forward.ExactForward p r fn call name) {owner : List String} {method : String}
    (howner : owner ≠ []) (hname : name.names = owner ++ [prototypeMarker, method]) :
    ∃ parent, ForwardsTo p r fn (".".intercalate owner) method parent := by
  obtain ⟨block, statement, hblock, hstatement, -, hchildren, hcall_kind⟩ := hcall
  obtain ⟨params, callee, receiver, args, hparams, hargs, hreceiver, hforwarded⟩ := hforward.args
  obtain ⟨callee', type, returns, hcallee', htype, hreturns, hdefinite⟩ := hforward.result
  obtain ⟨callee'', called, hcallee'', hcalled, hmethod⟩ := hforward.target
  rw [hargs] at hcallee' hcallee''
  cases hcallee'
  cases hcallee''
  -- the type of the callee is what the called name stands for
  obtain ⟨called', hcalled', hstands⟩ := hknown callee type htype
  have hsame : called' = called := QualifiedName.ext_names (hcalled'.unique hcalled)
  subst hsame
  obtain ⟨own, params', body, hparts, -, hparams_kind, -⟩ := hp.children_function hfn hkind
  have hparams' : params' = params := by
    rw [hparts] at hparams
    exact Option.some.inj hparams
  subst hparams'
  have hplain := samePlainName_of_forwarded hp
    (hp.below_of_mem hfn (by rw [hparts]; simp)) hparams_kind hforwarded
  have hreturn : ∀ returns, type.returns? = some returns → returns.isDefinite = true →
      p.kindOf? statement = some .returnStmt := by
    intro returns' hreturns' hd
    rw [hreturns] at hreturns'
    cases hreturns'
    obtain ⟨above, habove, hk⟩ := hdefinite hd
    have hlink : p.parentOf call = some statement :=
      hp.forest.mem_children_iff.mp (by rw [hchildren]; simp)
    rw [hlink] at habove
    cases habove
    exact hk
  -- it is left to find the superclass, in either of the two spellings
  obtain ⟨parent, hsuper, hfind, hspelled⟩ : ∃ parent,
      r.superclass? (".".intercalate owner) = some parent ∧
      r.findMethod parent method = some type ∧
      (toString called' = ".".intercalate owner ++ ".superClass_." ++ method ++ ".call" ∨
        toString called' = parent ++ ".prototype." ++ method ++ ".call") :=
    superclass_of_isSuperclassMethod hmethod howner hname hstands
  refine ⟨parent, declared_of_superclass hsuper, hsuper, hlinked _ _ hsuper, ?_⟩
  exact ⟨statement, call, callee, receiver, args, params', type, ⟨block, hblock, hstatement⟩,
    hchildren, hcall_kind, hargs, ⟨called', hcalled, hspelled⟩, hreceiver, hparams, hplain, hfind,
    htype, hreturn⟩

end

/-- A method that is taken out was a forward to the method of that name on the superclass of
the class. -/
theorem Removable.forwardsTo {p : Program} (hp : p.Parsed) {r : Registry} {tags : List String}
    (hknown : ∀ n type, Forward.typeOf? p n = some type → ∃ name : QualifiedName,
      p.Spells n name.names ∧ r.typeOfCallee? name = some type)
    (hfounded : Typing.Founded p r) {fn statement : Handle} {name : QualifiedName}
    (h : Removable p r tags root fn statement name) {className method : String}
    (hmethod : '.' ∉ method.toList) (hname : toString name = className ++ ".prototype." ++ method) :
    ∃ parent, ForwardsTo p r fn className method parent := by
  obtain ⟨assign, hforward⟩ := h.forwarder
  -- no segment of the name has a dot in it
  obtain ⟨target, -, htarget, hspells⟩ := hforward.parts hp h.within
  have hassign := (hforward.assigned.below hp h.within).1
  have hfree : ∀ segment ∈ name.names, '.' ∉ segment.toList := fun segment hsegment =>
    (hp.isSegment_of_spells hspells (hp.below_of_mem hassign (by rw [htarget]; simp)) segment
      hsegment).2
  obtain ⟨owner, howner, hnames, rfl⟩ := QualifiedName.names_of_toString hfree hmethod hname
  obtain ⟨call, hcall, hexact⟩ := hforward.forwards
  exact ForwardsTo.of_exactForward hp hknown hfounded.linked h.within hforward.assigned.fn_kind
    hcall hexact howner hnames

/-- Each record of an analysis whose name is that of a method is about a function that was a
forward to the method of that name on the superclass of the class. -/
theorem forwardsTo_of_record {sources : List Source} {tags : List String} {a : Analysis}
    (h : Analysis.ofProgram (Program.ofSources sources).1 tags = .ok a) {record : Removed}
    (hrecord : record ∈ a.removed) {className method : String} (hmethod : '.' ∉ method.toList)
    (hname : record.name = className ++ ".prototype." ++ method) :
    ∃ name fn assign statement parent, record.name = toString name ∧
      AssignedIn a.typing.program fn assign statement ∧
      describe a.typing.program name statement = .ok record ∧
      ForwardsTo a.typing.program a.typing.registry fn className method parent := by
  obtain ⟨taken, hanalysed⟩ := exists_analysed h
  obtain ⟨t, ht, hdescribe⟩ := Program.forall₂_exists_of_mem hanalysed.recorded.flip hrecord
  have hremovable := (hanalysed.mem_taken t).mp ht
  obtain ⟨assign, hforward⟩ := hremovable.forwarder
  have htext := name_of_describe hdescribe
  obtain ⟨parent, hparent⟩ := hremovable.forwardsTo hanalysed.parsed hanalysed.known
    hanalysed.founded hmethod (htext.symm.trans hname)
  exact ⟨t.name, t.fn, assign, t.statement, parent, htext, hforward.assigned, hdescribe, hparent⟩

theorem forwardsTo_of_record_chainedScript :
    ∃ a record, Analysis.ofProgram (Program.ofSources [chainedScript]).1 defaultExclusions = .ok a ∧
      record ∈ a.removed ∧ '.' ∉ "m".toList ∧ record.name = "B" ++ ".prototype." ++ "m" ∧
      ∃ name fn assign statement parent, record.name = toString name ∧
        AssignedIn a.typing.program fn assign statement ∧
        describe a.typing.program name statement = .ok record ∧
        ForwardsTo a.typing.program a.typing.registry fn "B" "m" parent := by
  obtain ⟨a, ha, hremoved, -, -⟩ := analysis_chainedScript
  have hrecord : ⟨"B.prototype.m", some "a.js", 1, 122, 181⟩ ∈ a.removed := by
    rw [hremoved]
    exact List.mem_singleton_self _
  have hmethod : '.' ∉ "m".toList := by decide
  exact ⟨a, _, ha, hrecord, hmethod, rfl, forwardsTo_of_record ha hrecord hmethod rfl⟩

end SuperForward.Removal
