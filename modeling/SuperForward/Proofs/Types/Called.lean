/-
  What a called method stands for.

  The matcher splits the name that is called with its caller, and typing splits it without. For
  the two names that a forward may call, both splits fall on the same segment, so that the type
  of the callee is that of the method on the superclass.
-/
import SuperForward.Forward.Matcher
import SuperForward.Proofs.Splitting

namespace SuperForward

open SuperForward.QualifiedName

/-- The method that is called by its caller is the name without the caller. -/
theorem QualifiedName.calledName_of_append {called rest : QualifiedName} {names : List String}
    (h : called.names = names ++ [Forward.callSegment]) (hrest : rest.names = names) :
    called.calledName = rest := by
  have hlast : called.last = Forward.callSegment := by
    unfold last
    simp only [h, List.getLast_append_singleton]
  unfold calledName
  rw [if_pos (by rw [hlast]; decide)]
  have hparent : called.parent? = some rest := by
    unfold parent?
    rw [ofNames?_eq_some_iff, h, List.dropLast_concat, hrest]
  rw [hparent]
  rfl

namespace Registry

section

variable {r : Registry} {called owner rest method : QualifiedName} {type : JsType} {m : String}

/-- The parts of a call of a method: what stands before the caller. -/
theorem exists_calledName (hrest : Forward.callsMethod method rest = true) {access : Access}
    (h : called.splitOn access = some (owner, rest)) :
    ∃ name, called.calledName = name ∧
      called.names = name.names ++ [Forward.callSegment] ∧
      rest.names = method.names ++ [Forward.callSegment] ∧
      name.splitOn access = some (owner, method) := by
  unfold Forward.callsMethod at hrest
  rw [beq_iff_eq] at hrest
  obtain ⟨segment, hnames, -⟩ := names_of_splitOn h
  rw [hrest, ← List.cons_append, ← List.append_assoc] at hnames
  have hname : QualifiedName.ofNames? (owner.names ++ segment :: method.names) ≠ none := by
    unfold QualifiedName.ofNames?
    rw [dif_pos]
    · exact fun h => nomatch h
    · refine ⟨by simp, fun name hmem => called.nonempty name ?_⟩
      rw [hnames]
      exact List.mem_append_left _ hmem
  obtain ⟨name, hname⟩ := Option.ne_none_iff_exists'.mp hname
  have hname' := ofNames?_eq_some_iff.mp hname
  refine ⟨name, calledName_of_append hnames hname'.symm, ?_, hrest, ?_⟩
  · rw [hnames, hname']
  · exact splitOn_of_append (by rw [hnames, hname']) h hrest

/-- A call by the superclass marker has a type only if a single segment follows the marker, and
it has the type of that method on the superclass. -/
theorem exists_findMethod_of_superclass (h : called.splitOn .superclass = some (owner, rest))
    (hrest : Forward.callsMethod method rest = true)
    (htype : r.typeOfCallee? called = some type) :
    ∃ m parent, method.names = [m] ∧ r.superclass? (toString owner) = some parent ∧
      r.findMethod parent m = some type := by
  obtain ⟨name, hcalled, -, -, hsplit⟩ := exists_calledName hrest h
  unfold typeOfCallee? typeOfCalled? at htype
  rw [hcalled, hsplit] at htype
  obtain ⟨m, hm, htype⟩ := Option.bind_eq_some_iff.mp htype
  obtain ⟨parent, hparent, htype⟩ := Option.bind_eq_some_iff.mp htype
  exact ⟨m, parent, names_of_single? hm, hparent, htype⟩

/-- A name with two markers before its last segment: the later one stands right before that
segment if splitting there leaves a single segment. -/
theorem exists_between_of_splits {name left right owner method : QualifiedName} {m : String}
    (hsuper : name.splitOn .superclass = some (left, right)) (hright : right.names = [m])
    (hsplit : name.splitOn .prototype = some (owner, method)) :
    ∃ between, method.names = between ++ [superclassMarker, m] ∧
      left.names = owner.names ++ prototypeMarker :: between := by
  obtain ⟨marker, hnames, hmarker⟩ := names_of_splitOn hsuper
  obtain ⟨prototype, hnames', hprototype⟩ := names_of_splitOn hsplit
  rw [hright, superclass_of_access hmarker] at hnames
  rw [prototype_of_access hprototype, hnames] at hnames'
  obtain hnil | ⟨before, last, hmethod⟩ := List.eq_nil_or_concat' method.names
  · exact absurd hnil method.names_ne_nil
  have hpair (xs : List String) (a b : String) : xs ++ [a, b] = (xs ++ [a]) ++ [b] := by simp
  rw [hpair, hmethod, ← List.cons_append, ← List.append_assoc] at hnames'
  obtain ⟨hfront, hlast⟩ := List.append_inj' hnames' rfl
  cases hlast
  obtain rfl | ⟨between, marker', rfl⟩ := List.eq_nil_or_concat' before
  · -- the two markers would stand at one place
    exact absurd (List.append_inj' hfront rfl).2 (by decide)
  · rw [← List.cons_append, ← List.append_assoc] at hfront
    obtain ⟨hleft, hmarkers⟩ := List.append_inj' hfront rfl
    cases hmarkers
    exact ⟨between, by rw [hmethod, hpair], hleft⟩

/-- A call by the prototype has the type of the method on that class, if a single segment follows
the marker. It has a type otherwise only if a superclass marker stands before its last segment,
and then that marker is the one that counts. -/
theorem exists_findMethod_of_prototype (h : called.splitOn .prototype = some (owner, rest))
    (hrest : Forward.callsMethod method rest = true)
    (htype : r.typeOfCallee? called = some type) :
    (∃ m, method.names = [m] ∧ r.findMethod (toString owner) m = some type) ∨
      ∃ (object : QualifiedName) (between : List String) (m parent : String),
        method.names = between ++ [superclassMarker, m] ∧
        object.names = owner.names ++ prototypeMarker :: between ∧
        r.superclass? (toString object) = some parent ∧ r.findMethod parent m = some type := by
  obtain ⟨name, hcalled, -, -, hsplit⟩ := exists_calledName hrest h
  unfold typeOfCallee? typeOfCalled? at htype
  rw [hcalled] at htype
  cases hsuper : name.splitOn .superclass with
  | some parts =>
    obtain ⟨left, right⟩ := parts
    rw [hsuper] at htype
    obtain ⟨m, hm, htype⟩ := Option.bind_eq_some_iff.mp htype
    obtain ⟨parent, hparent, htype⟩ := Option.bind_eq_some_iff.mp htype
    obtain ⟨between, hmethod, hleft⟩ :=
      exists_between_of_splits hsuper (names_of_single? hm) hsplit
    exact .inr ⟨left, between, m, parent, hmethod, hleft, hparent, htype⟩
  | none =>
    rw [hsuper, hsplit] at htype
    obtain ⟨m, hm, htype⟩ := Option.bind_eq_some_iff.mp htype
    exact .inl ⟨m, names_of_single? hm, htype⟩

/-- A call by the superclass marker has the type of the method on the superclass. -/
theorem findMethod_of_superclass (h : called.splitOn .superclass = some (owner, rest))
    (hrest : Forward.callsMethod method rest = true) (hmethod : method.names = [m])
    (htype : r.typeOfCallee? called = some type) :
    ∃ parent, r.superclass? (toString owner) = some parent ∧ r.findMethod parent m = some type := by
  obtain ⟨m', parent, hm', hparent, htype⟩ := exists_findMethod_of_superclass h hrest htype
  rw [hmethod] at hm'
  cases hm'
  exact ⟨parent, hparent, htype⟩

/-- A call of a single segment by the prototype has the type of the method on that class. -/
theorem findMethod_of_prototype (h : called.splitOn .prototype = some (owner, rest))
    (hrest : Forward.callsMethod method rest = true) (hmethod : method.names = [m])
    (htype : r.typeOfCallee? called = some type) :
    r.findMethod (toString owner) m = some type := by
  obtain ⟨m', hm', htype⟩ | ⟨-, between, m', -, hm', -⟩ :=
    exists_findMethod_of_prototype h hrest htype
  · rw [hmethod] at hm'
    cases hm'
    exact htype
  · have hlength := congrArg List.length (hmethod.symm.trans hm')
    rw [List.length_append, List.length_singleton, List.length_cons, List.length_singleton]
      at hlength
    omega

/-! ## The matcher and typing read a called name alike -/

/-- Where the matcher takes a called name for the enclosing method on the superclass and typing
gives that name a type, it is the type of the method on the superclass. Typing looks for a
superclass marker first, so that a method written below the prototype of the superclass as
`between.superClass_.m` is taken from the superclass of what stands before that marker. -/
theorem typeOfCallee?_of_isSuperclassMethod {enclosing ownClass : QualifiedName}
    (henclosing : enclosing.splitOn .prototype = some (ownClass, method))
    (hmatches : Forward.isSuperclassMethod r enclosing called = true)
    (htype : r.typeOfCallee? called = some type) :
    (∃ m parent, method.names = [m] ∧ r.superclass? (toString ownClass) = some parent ∧
        r.findMethod parent m = some type) ∨
      ∃ (parent object : QualifiedName) (between : List String) (m other : String),
        r.superclass? (toString ownClass) = some (toString parent) ∧
        method.names = between ++ [superclassMarker, m] ∧
        object.names = parent.names ++ prototypeMarker :: between ∧
        r.superclass? (toString object) = some other ∧ r.findMethod other m = some type := by
  unfold Forward.isSuperclassMethod at hmatches
  rw [henclosing] at hmatches
  obtain hmatches | hmatches := Bool.or_eq_true _ _ |>.mp hmatches
  · obtain ⟨⟨owner, rest⟩, hsplit, hmatches⟩ := (Option.any_eq_true _ _).mp hmatches
    rw [Bool.and_eq_true, beq_iff_eq] at hmatches
    obtain ⟨rfl, hrest⟩ := hmatches
    exact .inl (exists_findMethod_of_superclass hsplit hrest htype)
  · obtain ⟨⟨owner, rest⟩, hsplit, hmatches⟩ := (Option.any_eq_true _ _).mp hmatches
    rw [Bool.and_eq_true, Bool.and_eq_true, beq_iff_eq] at hmatches
    obtain ⟨⟨hrest, -⟩, hparent⟩ := hmatches
    obtain ⟨m, hmethod, htype⟩ | ⟨object, between, m, other, hmethod, hobject, hother, htype⟩ :=
      exists_findMethod_of_prototype hsplit hrest htype
    · exact .inl ⟨m, toString owner, hmethod, hparent, htype⟩
    · exact .inr ⟨owner, object, between, m, other, hparent, hmethod, hobject, hother, htype⟩

end

/-! ## A plain method, and one whose name holds a marker -/

/-- Four classes: `C` below `S`, which has a method, and a class named `S.prototype` below `P`,
which has another one. -/
def detour : Registry where
  classes := .ofList [("P", none), ("S", none), ("S.prototype", some "P"), ("C", some "S")]
  methods := .ofList [(("S", "m"), some (.function "m" .void false)),
    (("P", "x"), some (.function "x" .void false))]
  functions := .empty

/-- The name `C.prototype.m`. -/
def plainMethod : QualifiedName := ⟨["C", "prototype", "m"], by decide, by decide⟩

/-- The name `C.superClass_.m.call`. -/
def plainCall : QualifiedName := ⟨["C", "superClass_", "m", "call"], by decide, by decide⟩

/-- The name `C.prototype.superClass_.x`. -/
def markedMethod : QualifiedName := ⟨["C", "prototype", "superClass_", "x"], by decide, by decide⟩

/-- The name `S.prototype.superClass_.x.call`. -/
def markedCall : QualifiedName :=
  ⟨["S", "prototype", "superClass_", "x", "call"], by decide, by decide⟩

theorem splitOn_markedMethod : markedMethod.splitOn .prototype =
    some (⟨["C"], by decide, by decide⟩, ⟨["superClass_", "x"], by decide, by decide⟩) := by
  decide

theorem isSuperclassMethod_markedCall :
    Forward.isSuperclassMethod detour markedMethod markedCall = true := by
  decide

theorem typeOfCallee?_markedCall :
    detour.typeOfCallee? markedCall = some (.function "x" .void false) := by
  decide

/-- The type of the plain method comes from `S`, and that of the other one from the superclass of
`S.prototype`. -/
theorem typeOfCallee?_of_plainCall_markedCall :
    ((∃ m parent, ["m"] = [m] ∧ detour.superclass? "C" = some parent ∧
        detour.findMethod parent m = some (.function "m" .void false)) ∨
      ∃ (parent object : QualifiedName) (between : List String) (m other : String),
        detour.superclass? "C" = some (toString parent) ∧
        ["m"] = between ++ [superclassMarker, m] ∧
        object.names = parent.names ++ prototypeMarker :: between ∧
        detour.superclass? (toString object) = some other ∧
        detour.findMethod other m = some (.function "m" .void false)) ∧
    ((∃ m parent, ["superClass_", "x"] = [m] ∧ detour.superclass? "C" = some parent ∧
        detour.findMethod parent m = some (.function "x" .void false)) ∨
      ∃ (parent object : QualifiedName) (between : List String) (m other : String),
        detour.superclass? "C" = some (toString parent) ∧
        ["superClass_", "x"] = between ++ [superclassMarker, m] ∧
        object.names = parent.names ++ prototypeMarker :: between ∧
        detour.superclass? (toString object) = some other ∧
        detour.findMethod other m = some (.function "x" .void false)) := by
  have hsplit : plainMethod.splitOn .prototype
      = some (⟨["C"], by decide, by decide⟩, ⟨["m"], by decide, by decide⟩) := by decide
  have hmatches : Forward.isSuperclassMethod detour plainMethod plainCall = true := by decide
  have htype : detour.typeOfCallee? plainCall = some (.function "m" .void false) := by decide
  exact ⟨typeOfCallee?_of_isSuperclassMethod hsplit hmatches htype,
    typeOfCallee?_of_isSuperclassMethod splitOn_markedMethod isSuperclassMethod_markedCall
      typeOfCallee?_markedCall⟩

/-- A called name that is taken for the enclosing method can have a type although that method is
not a single segment. -/
theorem not_single_of_isSuperclassMethod :
    ¬ ∀ (r : Registry) (enclosing called ownClass method : QualifiedName) (type : JsType),
      enclosing.splitOn .prototype = some (ownClass, method) →
      Forward.isSuperclassMethod r enclosing called = true →
      r.typeOfCallee? called = some type →
      ∃ m parent, method.names = [m] ∧ r.superclass? (toString ownClass) = some parent ∧
        r.findMethod parent m = some type := by
  intro hall
  obtain ⟨m, parent, hm, -, -⟩ := hall detour markedMethod markedCall _ _ _ splitOn_markedMethod
    isSuperclassMethod_markedCall typeOfCallee?_markedCall
  simp at hm

end Registry

end SuperForward
