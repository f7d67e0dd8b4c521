/-
  Methods that override.

  A method that is documented to override, and not to give anything back, has in the end the
  result that the method has which is declared nearest above its class, whatever the order in
  which methods are declared: base classes come first, and a class that is declared has fewer
  classes above it than those that it is the superclass of.
-/
import SuperForward.Proofs.Types.Methods
import SuperForward.Proofs.Types.Renumbered
import SuperForward.Proofs.Types.Searching

namespace SuperForward

open SuperForward.Program (root Below)

/-! ## Looking up a method -/

namespace Registry

variable {r : Registry}

/-- The class is the nearest one above another that declares the method itself. -/
structure NearestAbove (r : Registry) (method c above : String) : Prop where
  isAbove : r.Above c above
  declares : (r.ownMethod? above method).isSome = true
  nearest : ∀ d, r.Above c d → (r.ownMethod? d method).isSome = true → d = above ∨ r.Above above d

/-- What is above a class is its superclass, or above that. -/
theorem above_iff {c parent d : String} (h : r.superclass? c = some parent) :
    r.Above c d ↔ d = parent ∨ r.Above parent d := by
  unfold Above
  rw [Relation.TransGen.head'_iff]
  constructor
  · rintro ⟨q, hq, hpath⟩
    rw [h] at hq
    cases hq
    exact (Relation.reflTransGen_iff_eq_or_transGen.mp hpath)
  · rintro (rfl | hpath)
    · exact ⟨d, h, .refl⟩
    · exact ⟨parent, h, hpath.to_reflTransGen⟩

theorem not_above_of_superclass? {c d : String} (h : r.superclass? c = none) : ¬ r.Above c d := by
  intro habove
  obtain ⟨q, hq, -⟩ := Relation.TransGen.head'_iff.mp habove
  rw [h] at hq
  cases hq

section

variable (rank : String → Nat)
  (hrank : ∀ c parent, r.superclass? c = some parent → rank parent < rank c)
include hrank

/-- What is found above a class is what the nearest class declares that declares the method. -/
theorem findMethod_superclass_cases (method c : String) :
    (∃ above type, r.NearestAbove method c above ∧ r.ownMethod? above method = some type ∧
        ((r.superclass? c).bind fun parent => r.findMethod parent method) = some type) ∨
      ((∀ above, r.Above c above → r.ownMethod? above method = none) ∧
        ((r.superclass? c).bind fun parent => r.findMethod parent method) = none) := by
  -- the search goes up, where ranks are smaller
  induction c using (measure rank).wf.induction with
  | h c ih =>
    cases hparent : r.superclass? c with
    | none =>
      exact .inr ⟨fun above habove => absurd habove (not_above_of_superclass? hparent), rfl⟩
    | some parent =>
      have hfind : ((some parent).bind fun parent => r.findMethod parent method)
          = (r.ownMethod? parent method).or
            ((r.superclass? parent).bind fun parent => r.findMethod parent method) :=
        findMethod_eq r parent method
      rw [hfind]
      cases hown : r.ownMethod? parent method with
      | some type =>
        exact .inl ⟨parent, type, ⟨.single hparent, by rw [hown]; rfl,
          fun d hd _ => (above_iff hparent).mp hd⟩, hown, rfl⟩
      | none =>
        rw [Option.none_or]
        rcases ih parent (hrank c parent hparent) with ⟨above, type, hnearest, hown', hfound⟩ |
          ⟨hnone, hfound⟩
        · refine .inl ⟨above, type, ⟨(above_iff hparent).mpr (.inr hnearest.isAbove),
            hnearest.declares, fun d hd hdeclares => ?_⟩, hown', hfound⟩
          rcases (above_iff hparent).mp hd with rfl | hd
          · rw [hown] at hdeclares
            cases hdeclares
          · exact hnearest.nearest d hd hdeclares
        · refine .inr ⟨fun above habove => ?_, hfound⟩
          rcases (above_iff hparent).mp habove with rfl | habove
          · exact hown
          · exact hnone above habove

end

end Registry

namespace Typing

/-! ## What is declared under the name of a method -/

/-- How the name of a method of a class is written. -/
def methodName (c m : String) : String := c ++ ".prototype." ++ m

/-- The declarations of a name, in order. -/
def namedAs (ds : List Declaration) (name : String) : List Declaration :=
  ds.filter fun d => toString d.name == name

/-- The names of declarations can be told apart where they are written. -/
def Written (ds : List Declaration) : Prop := ∀ d ∈ ds, ∀ s ∈ d.name.names, '.' ∉ s.toList

/-- A name is that of a method of a declared class, and nothing else. -/
structure NamesMethod (r : Registry) (c m : String) : Prop where
  isClass : r.isClass c = true
  not_isClass : r.isClass (methodName c m) = false
  method : '.' ∉ m.toList
  owner : prototypeMarker ∉ (QualifiedName.segmentsOf c).tail

section

variable {p : Program} {r : Registry} {c m : String} (h : NamesMethod r c m)
include h

/-- A declaration of the name of a method announces that method. -/
theorem NamesMethod.announcement_eq {d : Declaration} (hwritten : ∀ s ∈ d.name.names, '.' ∉ s.toList)
    (hname : toString d.name = methodName c m) : announcement p r d
      = if leavesResult d.doc then .override ⟨c, m, d.fn⟩
        else .method c m (.function (methodName c m) (resultOf p r d) false) := by
  obtain ⟨owner, member, hsplit, howner, hsingle⟩ :=
    QualifiedName.splitOn_prototype_of_toString hwritten h.method h.owner hname
  unfold announcement
  rw [hname, h.not_isClass]
  simp only [hsplit, hsingle, howner, h.isClass, if_true, Bool.false_eq_true, if_false]

/-- What waits for a method are the declarations of its name that leave its result. -/
theorem NamesMethod.filter_waiting {ds : List Declaration} (hwritten : Written ds) :
    (waiting p r ds).filter (fun o => o.key == (c, m))
      = ((namedAs ds (methodName c m)).filter fun d => leavesResult d.doc).map
        fun d => ⟨c, m, d.fn⟩ := by
  induction ds with
  | nil => rfl
  | cons d ds ih =>
    have ih := ih fun d hd => hwritten d (List.mem_cons_of_mem _ hd)
    have hcons : waiting p r (d :: ds)
        = (announcement p r d).override?.toList ++ waiting p r ds := by
      unfold waiting
      rw [List.filterMap_cons]
      cases (announcement p r d).override? <;> rfl
    unfold namedAs at ih ⊢
    rw [hcons, List.filter_append, ih, List.filter_cons]
    by_cases hname : toString d.name = methodName c m
    · rw [h.announcement_eq (hwritten d (List.mem_cons_self ..)) hname,
        if_pos (beq_iff_eq.mpr hname), List.filter_cons]
      cases leavesResult d.doc with
      | true => simp [Announcement.override?, Override.key]
      | false => rfl
    · rw [if_neg (by simpa using hname)]
      refine congrArg (· ++ _) (List.filter_eq_nil_iff.mpr fun o ho hkey => hname ?_)
      have hx := Announcement.override?_eq_some.mp (Option.mem_toList.mp ho)
      refine toString_of_key? (p := p) (r := r) ?_
      rw [hx]
      exact congrArg some (beq_iff_eq.mp hkey)

/-- What else is announced for a method are the other declarations of its name. -/
theorem NamesMethod.last?_methodOf? {ds : List Declaration} (hwritten : Written ds) :
    OrderedMap.last? (c, m) (ds.filterMap fun d => (announcement p r d).methodOf?)
      = ((namedAs ds (methodName c m)).filter fun d => !leavesResult d.doc).getLast?.map
        fun d => some (.function (methodName c m) (resultOf p r d) false) := by
  induction ds with
  | nil => rfl
  | cons d ds ih =>
    have ih := ih fun d hd => hwritten d (List.mem_cons_of_mem _ hd)
    have hcons : OrderedMap.last? (c, m) ((d :: ds).filterMap fun d => (announcement p r d).methodOf?)
        = (OrderedMap.last? (c, m) (ds.filterMap fun d => (announcement p r d).methodOf?)).or
          ((announcement p r d).methodOf?.bind fun e => if e.1 = (c, m) then some e.2 else none) := by
      rw [List.filterMap_cons]
      cases (announcement p r d).methodOf? with
      | none => exact (Option.or_none).symm
      | some e => exact OrderedMap.last?_cons ..
    unfold namedAs at ih ⊢
    rw [hcons, ih, List.filter_cons]
    -- a declaration of another name announces nothing for the method, whatever it announces
    by_cases hname : toString d.name = methodName c m
    · rw [h.announcement_eq (hwritten d (List.mem_cons_self ..)) hname,
        if_pos (beq_iff_eq.mpr hname), List.filter_cons]
      cases leavesResult d.doc with
      | true => exact Option.or_none
      | false =>
        simp only [Bool.not_false, Bool.false_eq_true, if_true, if_false, Announcement.methodOf?,
          Option.bind_some, List.getLast?_cons]
        cases ((ds.filter fun d => toString d.name == methodName c m).filter
          fun d => !leavesResult d.doc).getLast? <;> rfl
    · have hnone : ((announcement p r d).methodOf?.bind fun e =>
          if e.1 = (c, m) then some e.2 else none) = none := by
        refine Option.bind_eq_none_iff.mpr fun e he => if_neg fun hkey => hname ?_
        obtain ⟨type, -, hx⟩ := Announcement.methodOf?_eq_some.mp he
        refine toString_of_key? (p := p) (r := r) ?_
        rw [hx, hkey]
        rfl
      rw [if_neg (by simpa using hname), hnone, Option.or_none]

end

/-! ## Results of methods -/

/-- A value is returned in the body of a function, outside of further functions. -/
def ReturnsValue (p : Program) (fn : Handle) : Prop :=
  ∃ body, (p.childrenOf fn).getLast? = some body ∧ ∃ n ∈ p.childrenOf body, Returns p n

/-- What a method gives back that leaves its result: what the method does that is declared
nearest above its class. If there is none, then anything or nothing, as its function returns a
value or not. -/
inductive Inherits (p : Program) (r : Registry) (c m : String) (fn : Handle) : JsType → Prop
  | overridden {above : String} {type result : JsType} (nearest : r.NearestAbove m c above)
      (own : r.ownMethod? above m = some type) (returns : type.returns? = some result) :
      Inherits p r c m fn result
  | anything (none : ∀ above, r.Above c above → r.ownMethod? above m = none)
      (value : ReturnsValue p fn) : Inherits p r c m fn .unknown
  | nothing (none : ∀ above, r.Above c above → r.ownMethod? above m = none)
      (value : ¬ ReturnsValue p fn) : Inherits p r c m fn .void

/-- A method of a class is declared as its declarations say: if one of them leaves its result,
the last of those inherits it, and otherwise the last one counts. -/
structure MethodDeclared (p : Program) (ds : List Declaration) (r : Registry) (c m : String) :
    Prop where
  inherited : ∀ d, ((namedAs ds (methodName c m)).filter fun d => leavesResult d.doc).getLast?
      = some d →
    ∃ result, Inherits p r c m d.fn result ∧
      r.ownMethod? c m = some (.function (methodName c m) result false)
  announced : ∀ d, (namedAs ds (methodName c m)).getLast? = some d →
    (∀ d' ∈ namedAs ds (methodName c m), leavesResult d'.doc = false) →
    r.ownMethod? c m = some (.function (methodName c m) (resultOf p r d) false)

section

variable {p : Program} (hp : p.Parsed) {ds : List Declaration} {called : List (String × String)}
  {a : Typing} (h : Chosen ds called a)
include hp h

/-- The type of a method that overrides says what the method inherits. -/
theorem inherits_of_overrideType {r : Registry} (hclasses : r.classes = a.registry.classes)
    (hcallable : r.Callable) {o : Override} (ho : p.Below root o.fn) :
    ∃ result, overrideType p r o = .function (methodName o.className o.method) result false ∧
      Inherits p r o.className o.method o.fn result := by
  have hsuper := superclass?_of_classes hclasses
  have hcases := Registry.findMethod_superclass_cases (r := r) a.ancestry.depth
    (fun c parent hparent => h.depth_lt (hsuper c ▸ hparent)) o.method o.className
  unfold overrideType overridden?
  rcases hcases with ⟨above, type, hnearest, hown, hfound⟩ | ⟨hnone, hfound⟩
  · obtain ⟨result, hresult⟩ := Option.isSome_iff_exists.mp (hcallable above o.method type hown)
    simp only [hfound, hresult, Option.getD_some]
    exact ⟨result, rfl, .overridden hnearest hown hresult⟩
  · simp only [hfound]
    rcases inferred_eq hp ho with ⟨hvalue, hreturns⟩ | ⟨hvalue, hreturns⟩
    · exact ⟨.unknown, by rw [hvalue]; rfl, .anything hnone hreturns⟩
    · exact ⟨.void, by rw [hvalue]; rfl, .nothing hnone hreturns⟩

/-- When everything has been declared, methods are declared as their declarations say. -/
theorem methodDeclared_withFunctions (hds : declarationsOf p = .ok ds) {c m : String}
    (hname : NamesMethod a.registry c m) :
    MethodDeclared p ds (withFunctions p a.registry a.ancestry ds) c m := by
  have hof := isOf_of_mem hp hds
  have hwritten : Written ds := fun d hd s hs =>
    (hp.isSegment_of_functionName (hof d hd).below (hof d hd).kind (hof d hd).named s hs).2
  have hclasses := classes_withFunctions (p := p) a.registry a.ancestry ds
  have hcallable : a.registry.Callable := by
    intro n k type htype
    unfold Registry.ownMethod? at htype
    rw [h.methods] at htype
    cases htype
  have hown := ownMethod?_withFunctions (p := p) (r := a.registry) (a := a.ancestry) ds
    (fun _ _ => h.depth_lt) c m
  rw [hname.filter_waiting hwritten, List.getLast?_map] at hown
  -- an override that comes last wins over every announcement; without one the last announcement
  -- counts
  constructor
  · intro d hd
    rw [hd] at hown
    have hbelow : p.Below root d.fn :=
      (hof d (List.mem_filter.mp (List.mem_filter.mp (List.mem_of_getLast? hd)).1).1).below
    obtain ⟨result, htype, hinherits⟩ := inherits_of_overrideType hp h hclasses
      (callable_withOverrides (callable_withAnnounced hcallable ds) _) (o := ⟨c, m, d.fn⟩) hbelow
    exact ⟨result, hinherits, hown.trans (congrArg some htype)⟩
  · intro d hd hall
    have hnone : (namedAs ds (methodName c m)).filter (fun d => leavesResult d.doc) = [] :=
      List.filter_eq_nil_iff.mpr fun d' hd' => by simp [hall d' hd']
    have hevery : (namedAs ds (methodName c m)).filter (fun d => !leavesResult d.doc)
        = namedAs ds (methodName c m) :=
      List.filter_eq_self.mpr fun d' hd' => by simp [hall d' hd']
    rw [hnone] at hown
    refine hown.trans ?_
    simp only [List.getLast?_nil, Option.map_none]
    rw [ownMethod?_withAnnounced, hname.last?_methodOf? hwritten, hevery, hd]
    have hresult : resultOf p (withFunctions p a.registry a.ancestry ds) d
        = resultOf p a.registry d := by
      unfold resultOf declaredType Registry.instanceOf?
      simp only [isClass_of_classes hclasses]
    rw [hresult]
    rfl

end

/-- Typing a program declares a method of a declared class as the declarations of its name say,
whatever their order, unless that name is declared to be a class itself. The name of the class
must not have a prototype in it after its first segment: where a name has two of them inside, it
is not split into a class and a method. -/
theorem methodDeclared_ofSources (sources : List Source) :
    ∃ a ds, ofProgram (Program.ofSources sources).1 = .ok a ∧
      declarationsOf (Program.ofSources sources).1 = .ok ds ∧
      ∀ c m, DeclaresClass ds c → ¬ DeclaresClass ds (methodName c m) → '.' ∉ m.toList →
        prototypeMarker ∉ (QualifiedName.segmentsOf c).tail →
        MethodDeclared (Program.ofSources sources).1 ds a.registry c m := by
  have hp := Program.parsed_untyped sources
  obtain ⟨ds, hds, -⟩ := declarationsOf_ok hp
  obtain ⟨called, hcalled⟩ := inheritsOf_ok hp
  obtain ⟨c, types, hc, hrun, -⟩ :=
    ofProgram_chosen hp (Program.withTypes_ofSources sources) hds hcalled
  refine ⟨_, ds, hrun, hds, fun n m hclass hnot hmethod howner => ?_⟩
  refine methodDeclared_withFunctions hp hc hds ⟨(hc.isClass n).mpr hclass, ?_, hmethod, howner⟩
  rw [← Bool.not_eq_true, hc.isClass]
  exact hnot

/-- Declarations without their functions: what they are called, and whether they declare a class
and leave their result. -/
def outline (ds : List Declaration) : List (String × Bool × Bool) :=
  ds.map fun d => (toString d.name, d.declaresClass, leavesResult d.doc)

theorem declaresClass_iff_outline {ds : List Declaration} {c : String} :
    DeclaresClass ds c ↔ ∃ e ∈ outline ds, e.1 = c ∧ e.2.1 = true := by
  unfold DeclaresClass outline
  simp only [List.mem_map, exists_exists_and_eq_and]
  exact exists_congr fun d => and_congr_right fun _ => and_comm

/-- A script in which a method overrides one that is declared later. -/
def overridingScript : Source :=
  ⟨"a.js", "/** @constructor @extends {A} */ B = function() {}; /** @override */ B.prototype.m = function() {}; /** @constructor */ A = function() {}; /** @return {string} */ A.prototype.m = function() {};"⟩

theorem outline_overridingScript : ((declarationsOf (Program.ofSources [overridingScript]).1).map
      outline).toOption = some [("B", true, false), ("B.prototype.m", false, true),
        ("A", true, false), ("A.prototype.m", false, false)] := by
  rw [overridingScript, Program.ofSources_one rfl]
  decide +kernel

theorem methodDeclared_overridingScript :
    ∃ a ds, ofProgram (Program.ofSources [overridingScript]).1 = .ok a ∧
      declarationsOf (Program.ofSources [overridingScript]).1 = .ok ds ∧
      DeclaresClass ds "B" ∧ ¬ DeclaresClass ds (methodName "B" "m") ∧
      MethodDeclared (Program.ofSources [overridingScript]).1 ds a.registry "B" "m" := by
  obtain ⟨a, ds, ha, hds, hmethods⟩ := methodDeclared_ofSources [overridingScript]
  have houtline := toOption_eq_some.mp outline_overridingScript
  rw [hds] at houtline
  have hclass : DeclaresClass ds "B" := by
    rw [declaresClass_iff_outline, Except.ok.inj houtline]
    decide
  have hmethod : ¬ DeclaresClass ds (methodName "B" "m") := by
    rw [declaresClass_iff_outline, Except.ok.inj houtline]
    decide
  exact ⟨a, ds, ha, hds, hclass, hmethod,
    hmethods "B" "m" hclass hmethod (by decide) (by decide)⟩

/-- A script with a class that is itself declared on the prototype of another one. -/
def nestedScript : Source :=
  ⟨"a.js", "/** @constructor */ A.prototype.B = function() {}; A.prototype.B.prototype.m = function() {};"⟩

theorem outline_nestedScript : ((declarationsOf (Program.ofSources [nestedScript]).1).map
      outline).toOption
        = some [("A.prototype.B", true, false), ("A.prototype.B.prototype.m", false, false)] := by
  rw [nestedScript, Program.ofSources_one rfl]
  decide +kernel

theorem methods_nestedScript : ((ofProgram (Program.ofSources [nestedScript]).1).map
      (·.registry.methods.entries)).toOption = some [] := by
  rw [nestedScript, Program.ofSources_one rfl]
  decide +kernel

/-- What is written as a method of such a class is not declared as one. -/
theorem not_methodDeclared_nestedScript :
    ∃ a ds, ofProgram (Program.ofSources [nestedScript]).1 = .ok a ∧
      declarationsOf (Program.ofSources [nestedScript]).1 = .ok ds ∧
      DeclaresClass ds "A.prototype.B" ∧ ¬ DeclaresClass ds (methodName "A.prototype.B" "m") ∧
      '.' ∉ "m".toList ∧ namedAs ds (methodName "A.prototype.B" "m") ≠ [] ∧
      ¬ MethodDeclared (Program.ofSources [nestedScript]).1 ds a.registry "A.prototype.B" "m" := by
  obtain ⟨a, ds, ha, hds, -⟩ := methodDeclared_ofSources [nestedScript]
  have houtline := toOption_eq_some.mp outline_nestedScript
  rw [hds] at houtline
  have houtline := Except.ok.inj houtline
  have hentries := toOption_eq_some.mp methods_nestedScript
  rw [ha] at hentries
  have hentries : a.registry.methods.entries = [] := Except.ok.inj hentries
  -- what is declared is seen in the outline, which is computed from the characters
  have hnamed : (namedAs ds (methodName "A.prototype.B" "m")).map (fun d => leavesResult d.doc)
      = ((outline ds).filter fun e => e.1 == methodName "A.prototype.B" "m").map (·.2.2) := by
    unfold namedAs outline
    rw [List.filter_map, List.map_map]
    rfl
  have hleaves : (namedAs ds (methodName "A.prototype.B" "m")).map (fun d => leavesResult d.doc)
      = [false] := by
    rw [hnamed, houtline]
    decide
  obtain ⟨d, hd, hleft⟩ := List.map_eq_singleton_iff.mp hleaves
  refine ⟨a, ds, ha, hds, ?_, ?_, by decide, by simp [hd], fun h => ?_⟩
  · rw [declaresClass_iff_outline, houtline]
    decide
  · rw [declaresClass_iff_outline, houtline]
    decide
  · have hown := h.announced d (by rw [hd]; rfl) fun d' hd' => by
      rw [hd, List.mem_singleton] at hd'
      rw [hd', hleft]
    unfold Registry.ownMethod? OrderedMap.get? at hown
    rw [hentries] at hown
    cases hown

end Typing

end SuperForward
