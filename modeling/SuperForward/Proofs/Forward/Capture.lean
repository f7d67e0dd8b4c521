/-
  What the class in a forward stands for.

  The matcher compares names by their segments. What a name stands for depends on where it is
  read: in the body of a function its first segment may be a name that the function binds
  itself. The class that a forward names is the one that it is outside of the function, whatever
  the values are, exactly if the function does not bind the first segment of its name.
-/
import SuperForward.Proofs.Forward.Faithful
import SuperForward.Proofs.Forward.Passing

namespace SuperForward

open SuperForward.Program (root Below Spells)

namespace Forward

/-! ## Values of paths -/

namespace Binding

variable {V : Type}

/-- The value of a path: that of its first name, and then one property after the other. -/
def resolve (get : V → String → Option V) (b : Binding V) : List String → Option V
  | [] => none
  | name :: names => (b name).bind fun v => names.foldlM get v

/-- A name has the one value that all names are given. -/
theorem bindAll_replicate_of_mem {names : List String} {name : String} (h : name ∈ names) (v : V)
    (b : Binding V) : bindAll names (List.replicate names.length v) b name = some v := by
  induction names generalizing b with
  | nil => exact absurd h List.not_mem_nil
  | cons n names ih =>
    rw [List.length_cons, List.replicate_succ, bindAll]
    by_cases hrest : name ∈ names
    · exact ih hrest _
    · rw [bindAll_of_not_mem hrest]
      exact if_pos ((List.mem_cons.mp h).resolve_right hrest)

/-- A path stands for the same inside as outside, whatever the values are, exactly if its first
name is not bound inside. -/
theorem resolve_bindAll_iff {names path : List String} {name : String}
    (hpath : path.head? = some name) :
    (∀ {V : Type} (get : V → String → Option V) (outer : Binding V) (values : List V),
      values.length = names.length →
        (bindAll names values outer).resolve get path = outer.resolve get path) ↔
      name ∉ names := by
  obtain ⟨_, rest⟩ := path
  · cases hpath
  obtain rfl := Option.some.inj hpath
  constructor
  · intro h hmem
    -- everything is true inside and false outside
    have hsame := h (fun v _ => some v) (fun _ => some false)
      (List.replicate names.length true) List.length_replicate
    have hfold : ∀ (segments : List String) (v : Bool),
        segments.foldlM (fun v _ => some v) v = some v := by
      intro segments v
      induction segments with
      | nil => rfl
      | cons _ segments ih => exact ih
    rw [resolve, resolve, bindAll_replicate_of_mem hmem, Option.bind_some, Option.bind_some, hfold,
      hfold] at hsame
    cases hsame
  · intro h V get outer values _
    rw [resolve, resolve, bindAll_of_not_mem h]

end Binding

/-! ## What a function binds -/

/-- The names that a function binds for its body: the name that it carries itself, what every
function has, and its parameters. Later ones hide earlier ones. -/
def boundNames (p : Program) (fn : Handle) : Except Fault (List String) := do
  let own ← p.text (← Program.present (← p.firstChild fn))
  let params ← parameterNames p fn
  return (if own = "" then [] else [own]) ++ "this" :: "arguments" :: params

/-- The names that an exact forward binds are known. -/
theorem ExactForward.boundNames_ok {p : Program} (hp : p.Parsed) {r : Registry}
    {fn call : Handle} {name : QualifiedName} (h : ExactForward p r fn call name)
    (hfn : p.Below root fn) (hkind : p.kindOf? fn = some .function) :
    ∃ bound, boundNames p fn = .ok bound := by
  obtain ⟨params, callee, receiver, args, hparams, -, -, hforwarded⟩ := h.args
  obtain ⟨own, params', body, hparts, -, hparams_kind, -⟩ := hp.children_function hfn hkind
  obtain rfl : params' = params := by
    rw [hparts] at hparams
    exact Option.some.inj hparams
  have hbelow : p.Below root params' := below_child hp hfn (by rw [hparts]; simp)
  obtain ⟨names, hnames, -⟩ := mapM_of_forwarded hp (Binding.empty (V := Unit)) hbelow
    hparams_kind (List.Subset.refl _) hforwarded
  obtain ⟨node, hnode, -⟩ := Program.node_of_lt
    (hp.lt_size_of_below (below_child hp hfn (by rw [hparts]; simp : own ∈ p.childrenOf fn)))
  have hchildren := Program.children_of_lt (hp.lt_size_of_below hfn)
  unfold boundNames parameterNames
  simp only [Program.firstChild, Program.secondChild, Program.childAt, hchildren, hparts,
    Program.children_of_lt (hp.lt_size_of_below hbelow), Program.text, hnode, Program.present,
    except_ok_bind, except_pure, List.getElem?_cons_zero, List.getElem?_cons_succ, hnames]
  exact ⟨_, rfl⟩

/-! ## The class that is named -/

/-- How the only call of a function names a method: by the superclass marker of the own class,
or by the prototype of the superclass. -/
structure NamesBy (p : Program) (r : Registry) (fn : Handle)
    (ownClass calledClass method : QualifiedName) : Prop where
  named : ∃ call callee, Removal.OnlyCall p fn call ∧ (p.childrenOf call).head? = some callee ∧
    ((calledClass = ownClass ∧ p.Spells callee
        (calledClass.names ++ superclassMarker :: (method.names ++ [callSegment]))) ∨
      (r.superclass? (toString ownClass) = some (toString calledClass) ∧ p.Spells callee
        (calledClass.names ++ prototypeMarker :: (method.names ++ [callSegment]))))

/-- The classes and the method in a name that is accepted. -/
theorem names_of_isSuperclassMethod {r : Registry} {name called : QualifiedName}
    (h : isSuperclassMethod r name called = true) :
    ∃ ownClass calledClass method : QualifiedName,
      name.names = ownClass.names ++ prototypeMarker :: method.names ∧
      ((calledClass = ownClass ∧ called.names
          = calledClass.names ++ superclassMarker :: (method.names ++ [callSegment])) ∨
        (r.superclass? (toString ownClass) = some (toString calledClass) ∧ called.names
          = calledClass.names ++ prototypeMarker :: (method.names ++ [callSegment]))) := by
  unfold isSuperclassMethod at h
  split at h
  · cases h
  next ownClass method hsplit =>
  obtain ⟨marker, hname, hmarker⟩ := QualifiedName.names_of_splitOn hsplit
  rw [QualifiedName.prototype_of_access hmarker] at hname
  rw [Bool.or_eq_true] at h
  rcases h with h | h
  · obtain ⟨⟨calledClass, rest⟩, hcalled, h⟩ := (Option.any_eq_true _ _).mp h
    rw [Bool.and_eq_true, beq_iff_eq] at h
    obtain ⟨rfl, hrest⟩ := h
    obtain ⟨marker', hnames, hmarker'⟩ := QualifiedName.names_of_splitOn hcalled
    rw [QualifiedName.superclass_of_access hmarker', beq_iff_eq.mp hrest] at hnames
    exact ⟨calledClass, calledClass, method, hname, .inl ⟨rfl, hnames⟩⟩
  · obtain ⟨⟨calledClass, rest⟩, hcalled, h⟩ := (Option.any_eq_true _ _).mp h
    rw [Bool.and_eq_true, Bool.and_eq_true, beq_iff_eq] at h
    obtain ⟨⟨hrest, -⟩, hsuper⟩ := h
    obtain ⟨marker', hnames, hmarker'⟩ := QualifiedName.names_of_splitOn hcalled
    rw [QualifiedName.prototype_of_access hmarker', beq_iff_eq.mp hrest] at hnames
    exact ⟨ownClass, calledClass, method, hname, .inr ⟨hsuper, hnames⟩⟩

end Forward

namespace Removal

open Forward (Binding boundNames NamesBy)

/-- Each record of an analysis is about a method of a class that called the method of that name
by its own class or by the superclass. What this class stands for in the body of the method is
what it stands for where the method was assigned, whatever the values are, exactly if the method
does not bind the first segment of its name. -/
theorem class_uncaptured_iff_of_record {sources : List Source} {tags : List String} {a : Analysis}
    (h : Analysis.ofProgram (Program.ofSources sources).1 tags = .ok a) {record : Removed}
    (hrecord : record ∈ a.removed) :
    ∃ (name ownClass calledClass method : QualifiedName) (fn assign statement : Handle)
      (bound : List String), record.name = toString name ∧
      AssignedIn a.typing.program fn assign statement ∧
      describe a.typing.program name statement = .ok record ∧
      name.names = ownClass.names ++ prototypeMarker :: method.names ∧
      NamesBy a.typing.program a.typing.registry fn ownClass calledClass method ∧
      boundNames a.typing.program fn = .ok bound ∧
      ((∀ {V : Type} (get : V → String → Option V) (outer : Binding V) (values : List V),
        values.length = bound.length →
          (Binding.bindAll bound values outer).resolve get calledClass.names
            = outer.resolve get calledClass.names) ↔ calledClass.root ∉ bound) := by
  obtain ⟨taken, hanalysed⟩ := exists_analysed h
  obtain ⟨t, ht, hdescribe⟩ := Program.forall₂_exists_of_mem hanalysed.recorded.flip hrecord
  have hremovable := (hanalysed.mem_taken t).mp ht
  obtain ⟨assign, hforward⟩ := hremovable.forwarder
  obtain ⟨call, honly, hexact⟩ := hforward.forwards
  obtain ⟨callee, called, hcallee, hcalled, hmethod⟩ := hexact.target
  obtain ⟨ownClass, calledClass, method, hname, hnames⟩ :=
    Forward.names_of_isSuperclassMethod hmethod
  obtain ⟨bound, hbound⟩ :=
    hexact.boundNames_ok hanalysed.parsed hremovable.within hforward.assigned.fn_kind
  have hroot : calledClass.names.head? = some calledClass.root :=
    List.head?_eq_some_head calledClass.names_ne_nil
  refine ⟨t.name, ownClass, calledClass, method, t.fn, assign, t.statement, bound,
    name_of_describe hdescribe, hforward.assigned, hdescribe, hname,
    ⟨call, callee, honly, hcallee, ?_⟩, hbound, Binding.resolve_bindAll_iff hroot⟩
  rcases hnames with ⟨hsame, hnames⟩ | ⟨hsuper, hnames⟩
  · exact .inl ⟨hsame, hnames ▸ hcalled⟩
  · exact .inr ⟨hsuper, hnames ▸ hcalled⟩

theorem class_uncaptured_iff_of_record_chainedScript :
    ∃ a record, Analysis.ofProgram (Program.ofSources [chainedScript]).1 defaultExclusions = .ok a ∧
      record ∈ a.removed ∧
      ∃ (name ownClass calledClass method : QualifiedName) (fn assign statement : Handle)
        (bound : List String), record.name = toString name ∧
        AssignedIn a.typing.program fn assign statement ∧
        describe a.typing.program name statement = .ok record ∧
        name.names = ownClass.names ++ prototypeMarker :: method.names ∧
        NamesBy a.typing.program a.typing.registry fn ownClass calledClass method ∧
        boundNames a.typing.program fn = .ok bound ∧
        ((∀ {V : Type} (get : V → String → Option V) (outer : Binding V) (values : List V),
          values.length = bound.length →
            (Binding.bindAll bound values outer).resolve get calledClass.names
              = outer.resolve get calledClass.names) ↔ calledClass.root ∉ bound) := by
  obtain ⟨a, ha, hremoved, -, -⟩ := analysis_chainedScript
  have hrecord : ⟨"B.prototype.m", some "a.js", 1, 122, 181⟩ ∈ a.removed := by
    rw [hremoved]
    exact List.mem_singleton_self _
  exact ⟨a, _, ha, hrecord, class_uncaptured_iff_of_record ha hrecord⟩

/-- A script in which a parameter of a forward has the name of the class. -/
def capturingScript : Source :=
  ⟨"a.js", "/** @constructor */ A = function() {}; A.prototype.m = function(B) {}; " ++
    "/** @constructor @extends {A} */ B = function() {}; " ++
    "B.prototype.m = function(B) { B.superClass_.m.call(this, B); };"⟩

/-- The method is taken out, although its call names the class by a parameter. The function is
node 40, and the name that it calls is node 32. -/
theorem class_captured_capturingScript :
    ∃ a bound, ∃ called : QualifiedName,
      Analysis.ofProgram (Program.ofSources [capturingScript]).1 defaultExclusions = .ok a ∧
      a.removed = [⟨"B.prototype.m", some "a.js", 1, 123, 186⟩] ∧
      a.removal.deletedFunctions = [40] ∧
      onlyCall? a.typing.program 40 = .ok (some 35) ∧
      a.typing.program.firstChild 35 = .ok (some 32) ∧
      a.typing.program.qualifiedName 32 = .ok (some called) ∧
      boundNames a.typing.program 40 = .ok bound ∧ called.root ∈ bound := by
  have h : (Analysis.ofProgram (Program.ofSources [capturingScript]).1
      defaultExclusions).toOption.map (fun a : Analysis =>
        decide (a.removed = [⟨"B.prototype.m", some "a.js", 1, 123, 186⟩]) &&
          decide (a.removal.deletedFunctions = [40]) &&
          decide ((onlyCall? a.typing.program 40).toOption = some (some 35)) &&
          decide ((a.typing.program.firstChild 35).toOption = some (some 32)) &&
          decide ((a.typing.program.qualifiedName 32).toOption
            = some (some ⟨["B", "superClass_", "m", "call"], by simp, by decide⟩)) &&
          decide ((boundNames a.typing.program 40).toOption = some ["this", "arguments", "B"]))
        = some true := by
    rw [show Program.ofSources [capturingScript] = _ from
      Program.ofSources_one (text_append (text_append rfl rfl) rfl)]
    decide +kernel
  obtain ⟨a, ha, hdecide⟩ := Option.map_eq_some_iff.mp h
  simp only [Bool.and_eq_true, decide_eq_true_iff, toOption_eq_some] at hdecide
  obtain ⟨⟨⟨⟨⟨hremoved, hdeleted⟩, hcall⟩, hcallee⟩, hnamed⟩, hbound⟩ := hdecide
  exact ⟨a, _, _, toOption_eq_some.mp ha, hremoved, hdeleted, hcall, hcallee, hnamed, hbound,
    by decide⟩

end Removal

end SuperForward
