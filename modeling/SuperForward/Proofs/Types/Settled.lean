/-
  Programs in which nothing is declared twice.

  If every name has one function, every class is linked by one call at most, and the links that
  are asked for close no circle, then every link that is asked for is made. Which classes, links
  and functions such a program declares can be said without the order of its declarations.

  Its classes are those that are documented, and their superclasses those that are asked for.
  Every function and method has the type that is announced, and a method that overrides has the
  result of the method it overrides when everything has been declared: base classes came first.
-/
import SuperForward.Proofs.Entries
import SuperForward.Proofs.Types.Choosing
import SuperForward.Proofs.Types.Methods
import SuperForward.Proofs.Types.Renumbered

namespace SuperForward

open SuperForward.Program (root Below)

namespace Typing

/-! ## Nothing is declared twice -/

/-- A link to a superclass is asked for between classes that the program declares, and that are
no interfaces. -/
structure Requested (ds : List Declaration) (called : List (String × String))
    (child parent : String) : Prop where
  link : (child, parent) ∈ linksOf ds called
  isClass : DeclaresClass ds child
  isClass_parent : DeclaresClass ds parent
  child_not_interface : ¬ DeclaresInterface ds child
  parent_not_interface : ¬ DeclaresInterface ds parent

/-- Every name has one function, every class is linked by one call at most, and the links that
are asked for close no circle. -/
structure Unambiguous (p : Program) : Prop where
  named : ∀ {fn fn' : Handle} {name : QualifiedName}, p.Below root fn → p.Below root fn' →
    p.kindOf? fn = some .function → p.kindOf? fn' = some .function →
    p.functionName fn = .ok (some name) → p.functionName fn' = .ok (some name) → fn = fn'
  linked : ∀ {ds : List Declaration} {n n' : Handle} {c parent parent' : String},
    declarationsOf p = .ok ds → DeclaresClass ds c → p.Below root n → p.Below root n' →
    inheritsAt p n = .ok (some (c, parent)) → inheritsAt p n' = .ok (some (c, parent')) → n = n'
  acyclic : ∀ {ds : List Declaration} {called : List (String × String)},
    declarationsOf p = .ok ds → inheritsOf p = .ok called →
    ∀ c, ¬ Relation.TransGen (Requested ds called) c c

/-- Declarations of which no two have the same name, and links of which no two that calls ask
for are of the same class. -/
structure Distinct (ds : List Declaration) (called : List (String × String)) : Prop where
  unique : ∀ d ∈ ds, ∀ d' ∈ ds, toString d.name = toString d'.name → d = d'
  linked : ∀ {c parent parent' : String}, DeclaresClass ds c → (c, parent) ∈ called →
    (c, parent') ∈ called → parent = parent'

theorem Unambiguous.distinct {p : Program} (h : Unambiguous p) (hp : p.Parsed)
    {ds : List Declaration} {called : List (String × String)} (hds : declarationsOf p = .ok ds)
    (hcalled : inheritsOf p = .ok called) : Distinct ds called where
  unique := by
    intro d hd d' hd' hsame
    have hof := isOf_of_mem hp hds d hd
    have hof' := isOf_of_mem hp hds d' hd'
    -- names without dots in their segments are the same if they are written alike
    have hname : d.name = d'.name := by
      apply QualifiedName.ext_names
      rw [← QualifiedName.segmentsOf_toString fun s hs =>
          (hp.isSegment_of_functionName hof.below hof.kind hof.named s hs).2, hsame,
        QualifiedName.segmentsOf_toString fun s hs =>
          (hp.isSegment_of_functionName hof'.below hof'.kind hof'.named s hs).2]
    have hfn : d.fn = d'.fn :=
      h.named hof.below hof'.below hof.kind hof'.kind hof.named (hname ▸ hof'.named)
    have hat := ((mem_declarationsOf hp hds).mp hd).2
    rw [hfn, ((mem_declarationsOf hp hds).mp hd').2] at hat
    cases hat
    rfl
  linked := by
    intro c parent parent' hc hparent hparent'
    obtain ⟨n, hn, hl⟩ := (mem_inheritsOf hp hcalled).mp hparent
    obtain ⟨n', hn', hl'⟩ := (mem_inheritsOf hp hcalled).mp hparent'
    obtain rfl := h.linked hds hc hn hn' hl hl'
    rw [hl] at hl'
    cases hl'
    rfl

/-! ## Links -/

theorem name_of_documentedLink {d : Declaration} {c parent : String}
    (h : d.documentedLink = some (c, parent)) : toString d.name = c := by
  unfold Declaration.documentedLink at h
  split at h
  · obtain ⟨_, -, h⟩ := Option.map_eq_some_iff.mp h
    cases h
    rfl
  · cases h

/-- Which superclass a class is to be linked to: the one that a call says, or else the one that
its documentation names. -/
theorem Distinct.mem_linksOf {ds : List Declaration} {called : List (String × String)}
    (h : Distinct ds called) {c parent : String} (hc : DeclaresClass ds c) :
    (c, parent) ∈ linksOf ds called ↔ (c, parent) ∈ called ∨
      ((∀ q, (c, q) ∉ called) ∧ ∃ d ∈ ds, d.documentedLink = some (c, parent)) := by
  unfold linksOf
  rw [OrderedMap.mem_entries_iff (OrderedMap.nodup_keys_insertAll
    (OrderedMap.nodup_keys_ofList _) _)]
  -- the links of calls are entered over those of documentation
  by_cases hcalled : ∃ q, (c, q) ∈ called
  · obtain ⟨q, hq⟩ := hcalled
    rw [OrderedMap.get?_insertAll_of_mem hq fun q' hq' => h.linked hc hq' hq, Option.some.injEq]
    constructor
    · rintro rfl
      exact .inl hq
    · rintro (hmem | ⟨hnone, -⟩)
      · exact h.linked hc hq hmem
      · exact absurd hq (hnone q)
  · have hnone : ∀ q, (c, q) ∉ called := fun q hq => hcalled ⟨q, hq⟩
    rw [OrderedMap.get?_insertAll_of_not_mem fun e he hkey => hnone e.2 (hkey ▸ he)]
    have hdocumented : (OrderedMap.ofList (ds.filterMap Declaration.documentedLink)).get? c
        = some parent ↔ ∃ d ∈ ds, d.documentedLink = some (c, parent) := by
      rw [← List.mem_filterMap]
      have hunique {q q' : String} (hq : (c, q) ∈ ds.filterMap Declaration.documentedLink)
          (hq' : (c, q') ∈ ds.filterMap Declaration.documentedLink) : q' = q := by
        obtain ⟨d, hd, hlink⟩ := List.mem_filterMap.mp hq
        obtain ⟨d', hd', hlink'⟩ := List.mem_filterMap.mp hq'
        have hsame : toString d.name = toString d'.name :=
          (name_of_documentedLink hlink).trans (name_of_documentedLink hlink').symm
        rw [← h.unique d hd d' hd' hsame, hlink] at hlink'
        cases hlink'
        rfl
      by_cases hmem : ∃ q, (c, q) ∈ ds.filterMap Declaration.documentedLink
      · obtain ⟨q, hq⟩ := hmem
        rw [OrderedMap.get?_ofList_of_mem hq fun q' hq' => hunique hq hq', Option.some.injEq]
        constructor
        · rintro rfl
          exact hq
        · exact fun hparent => hunique hparent hq
      · rw [OrderedMap.get?_ofList_of_not_mem fun e he hkey => hmem ⟨e.2, hkey ▸ he⟩]
        constructor
        · intro h
          cases h
        · exact fun hparent => absurd ⟨parent, hparent⟩ hmem
    rw [hdocumented]
    constructor
    · exact fun hd => .inr ⟨hnone, hd⟩
    · rintro (hmem | ⟨-, hd⟩)
      · exact absurd hmem (hnone parent)
      · exact hd

/-- If the links that are asked for between classes close no circle, all of them are made. -/
theorem Chosen.superclass?_iff_requested {ds : List Declaration} {called : List (String × String)}
    {a : Typing} (h : Chosen ds called a)
    (hacyclic : ∀ c, ¬ Relation.TransGen (Requested ds called) c c) {c parent : String} :
    a.registry.superclass? c = some parent ↔ Requested ds called c parent := by
  have hrequested : ∀ l ∈ a.ancestry.links, Requested ds called l.1 l.2 := by
    intro l hl
    have heligible := h.eligible hl
    exact ⟨linksOf_eq ds called ▸ h.made.inOrder.subset hl, heligible.isClass,
      heligible.isClass_parent, heligible.child_not_interface, heligible.parent_not_interface⟩
  rw [h.superclass?]
  refine ⟨hrequested (c, parent), fun hr => ?_⟩
  obtain ⟨before, after, hasked⟩ := List.append_of_mem (linksOf_eq ds called ▸ hr.link)
  refine (h.made.made_iff before (c, parent) after hasked).mpr ⟨⟨hr.isClass, hr.isClass_parent,
    hr.child_not_interface, hr.parent_not_interface, ?_⟩, fun hback => ?_⟩
  · intro heq
    obtain rfl : c = parent := heq
    exact hacyclic c (.single hr)
  · -- a path back would be one of links that are asked for
    have hpath : Relation.ReflTransGen (Requested ds called) parent c :=
      Relation.ReflTransGen.mono (fun c q hlink => hrequested (c, q) hlink.1) _ _ hback
    exact hacyclic c (.head' hr hpath)

/-! ## Classes -/

/-- What is known when all classes of a program have been declared, and linked by all links
that are asked for. -/
structure ClassesSettled (ds : List Declaration) (called : List (String × String)) (a : Typing) :
    Prop extends Chosen ds called a where
  requested : ∀ c parent, a.registry.superclass? c = some parent ↔ Requested ds called c parent

theorem Chosen.settled {ds : List Declaration} {called : List (String × String)} {c : Typing}
    (h : Chosen ds called c)
    (hacyclic : ∀ c, ¬ Relation.TransGen (Requested ds called) c c) :
    ClassesSettled ds called c :=
  ⟨h, fun _ _ => h.superclass?_iff_requested hacyclic⟩

/-! ## Functions -/

/-- Functions and methods have the types that are announced, and methods that override have the
results of those they override. -/
structure Settled (p : Program) (ds : List Declaration) (r : Registry) : Prop where
  function : ∀ d ∈ ds, ∀ name type, announcement p r d = .function name type →
    r.functions.get? name = some (some type)
  no_function : ∀ name, (∀ d ∈ ds, ∀ type, announcement p r d ≠ .function name type) →
    r.functions.get? name = none
  method : ∀ d ∈ ds, ∀ c m type, announcement p r d = .method c m type →
    r.ownMethod? c m = some type
  override : ∀ d ∈ ds, ∀ o, announcement p r d = .override o →
    r.ownMethod? o.className o.method = some (overrideType p r o)
  no_method : ∀ c m, (∀ d ∈ ds, (announcement p r d).key? ≠ some (c, m)) →
    r.ownMethod? c m = none

section

variable {p : Program} {r : Registry} {ds : List Declaration} {called : List (String × String)}

/-- What is announced under one key is announced by one declaration. -/
theorem Distinct.eq_of_key? (h : Distinct ds called) {d d' : Declaration}
    {key : String × String} (hd : d ∈ ds) (hd' : d' ∈ ds)
    (hkey : (announcement p r d).key? = some key)
    (hkey' : (announcement p r d').key? = some key) : d = d' :=
  h.unique d hd d' hd' ((toString_of_key? hkey).trans (toString_of_key? hkey').symm)

theorem mem_waiting {o : Override} :
    o ∈ waiting p r ds ↔ ∃ d ∈ ds, announcement p r d = .override o := by
  unfold waiting
  rw [List.mem_filterMap]
  simp only [Announcement.override?_eq_some]

/-- Nothing waits for a method that no declaration overrides. -/
theorem getLast?_waiting_eq_none {n m : String}
    (hnone : ∀ d ∈ ds, ∀ o, announcement p r d = .override o → o.key ≠ (n, m)) :
    ((waiting p r ds).filter fun o => o.key == (n, m)).getLast? = none := by
  rw [List.getLast?_eq_none_iff, List.filter_eq_nil_iff]
  intro o ho hkey
  obtain ⟨d, hd, hx⟩ := mem_waiting.mp ho
  exact hnone d hd o hx (beq_iff_eq.mp hkey)

/-- One declaration at most waits for a method. -/
theorem Distinct.getLast?_waiting (h : Distinct ds called) {d : Declaration} (hd : d ∈ ds)
    {o : Override} (hx : announcement p r d = .override o) :
    ((waiting p r ds).filter fun o' => o'.key == o.key).getLast? = some o := by
  have hall : ∀ o' ∈ (waiting p r ds).filter fun o' => o'.key == o.key, o' = o := by
    intro o' ho'
    obtain ⟨hmem, hkey⟩ := List.mem_filter.mp ho'
    obtain ⟨d', hd', hx'⟩ := mem_waiting.mp hmem
    have hkeyd : (announcement p r d').key? = some o.key := by
      rw [hx']
      exact congrArg some (beq_iff_eq.mp hkey)
    rw [h.eq_of_key? hd' hd hkeyd (by rw [hx]; rfl), hx] at hx'
    exact (Announcement.override.inj hx').symm
  have hne : (waiting p r ds).filter (fun o' => o'.key == o.key) ≠ [] :=
    List.ne_nil_of_mem (List.mem_filter.mpr ⟨mem_waiting.mpr ⟨d, hd, hx⟩, beq_self_eq_true _⟩)
  rw [List.getLast?_eq_some_getLast hne, hall _ (List.getLast_mem hne)]

/-- A function has the type that is announced. -/
theorem Distinct.functions_get? (h : Distinct ds called) {d : Declaration} (hd : d ∈ ds)
    {name : String} {type : JsType} (hx : announcement p r d = .function name type) :
    (OrderedMap.ofList (ds.filterMap fun d => (announcement p r d).functionOf?)).get? name
      = some (some type) := by
  refine OrderedMap.get?_ofList_of_mem (List.mem_filterMap.mpr ⟨d, hd, by rw [hx]; rfl⟩) ?_
  intro type? hmem
  obtain ⟨d', hd', hentry⟩ := List.mem_filterMap.mp hmem
  obtain ⟨type', rfl, hx'⟩ := Announcement.functionOf?_eq_some.mp hentry
  rw [h.unique d hd d' hd' ((toString_of_function hx).trans (toString_of_function hx').symm),
    hx'] at hx
  cases hx
  rfl

/-- A method that is announced with a type has it. -/
theorem Distinct.methods_get? (h : Distinct ds called) {d : Declaration} (hd : d ∈ ds)
    {c m : String} {type : JsType} (hx : announcement p r d = .method c m type) :
    (OrderedMap.ofList (ds.filterMap fun d => (announcement p r d).methodOf?)).get? (c, m)
      = some (some type) := by
  refine OrderedMap.get?_ofList_of_mem (List.mem_filterMap.mpr ⟨d, hd, by rw [hx]; rfl⟩) ?_
  intro type? hmem
  obtain ⟨d', hd', hentry⟩ := List.mem_filterMap.mp hmem
  obtain ⟨type', rfl, hx'⟩ := Announcement.methodOf?_eq_some.mp hentry
  have hkey : (announcement p r d).key? = some (c, m) := by rw [hx]; rfl
  rw [h.eq_of_key? hd hd' hkey (by rw [hx']; rfl), hx'] at hx
  cases hx
  rfl

end

/-- If no two declarations have the same name, functions and methods have the types that are
announced, whatever the order of the declarations. -/
theorem Distinct.settled {p : Program} {ds : List Declaration} {called : List (String × String)}
    {c : Typing} (h : Distinct ds called) (hc : ClassesSettled ds called c) :
    Settled p ds (withFunctions p c.registry c.ancestry ds) := by
  have hclasses := classes_withFunctions (p := p) c.registry c.ancestry ds
  have hsame (d : Declaration) :
      announcement p (withFunctions p c.registry c.ancestry ds) d = announcement p c.registry d :=
    announcement_congr (isClass_of_classes hclasses) d
  have hown (n m : String) :=
    ownMethod?_withFunctions (p := p) ds (fun _ _ => hc.depth_lt) n m
  have hmethods : (withAnnounced p c.registry ds).methods = OrderedMap.ofList
      (ds.filterMap fun d => (announcement p c.registry d).methodOf?) := by
    rw [methods_withAnnounced, hc.methods]
    rfl
  have hfunctions : (withFunctions p c.registry c.ancestry ds).functions = OrderedMap.ofList
      (ds.filterMap fun d => (announcement p c.registry d).functionOf?) := by
    unfold withFunctions
    rw [functions_withOverrides, functions_withAnnounced, hc.functions]
    rfl
  -- names are distinct, so for each one there is a single declaration that could have entered it
  refine ⟨?function, ?noFunction, ?method, ?override, ?noMethod⟩
  case function =>
    intro d hd name type hx
    rw [hsame] at hx
    rw [hfunctions]
    exact h.functions_get? hd hx
  case noFunction =>
    intro name hnone
    simp only [hsame] at hnone
    rw [hfunctions]
    refine OrderedMap.get?_ofList_of_not_mem fun e he hname => ?_
    obtain ⟨d, hd, hentry⟩ := List.mem_filterMap.mp he
    obtain ⟨type, -, hx⟩ := Announcement.functionOf?_eq_some.mp hentry
    exact hnone d hd type (hname ▸ hx)
  case method =>
    intro d hd n m type hx
    rw [hsame] at hx
    have hkeyd : (announcement p c.registry d).key? = some (n, m) := by
      rw [hx]
      rfl
    rw [hown n m, getLast?_waiting_eq_none]
    · simp only [Registry.ownMethod?, hmethods, h.methods_get? hd hx, Option.join_some]
    · intro d' hd' o hx' hkey
      rw [h.eq_of_key? hd hd' hkeyd (by rw [hx', ← hkey]; rfl), hx'] at hx
      cases hx
  case override =>
    intro d hd o hx
    rw [hsame] at hx
    have hlast := h.getLast?_waiting hd hx
    rw [show o.key = (o.className, o.method) from rfl] at hlast
    rw [hown, hlast]
  case noMethod =>
    intro n m hnone
    simp only [hsame] at hnone
    rw [hown n m, getLast?_waiting_eq_none]
    · simp only [Registry.ownMethod?, hmethods]
      rw [OrderedMap.get?_ofList_of_not_mem]
      · rfl
      · intro e he hkey
        obtain ⟨d, hd, hentry⟩ := List.mem_filterMap.mp he
        obtain ⟨type, -, hx⟩ := Announcement.methodOf?_eq_some.mp hentry
        exact hnone d hd (by rw [hx, ← hkey]; rfl)
    · intro d hd o hx hkey
      exact hnone d hd (by rw [hx, ← hkey]; rfl)

/-! ## Typing -/

/-- Typing a program in which nothing is declared twice settles its classes, functions and
methods, and attaches the types of callees. -/
theorem ofProgram_settled {p : Program} (hp : p.Parsed) (huntyped : p.withTypes (fun _ => none) = p)
    {ds : List Declaration} {called : List (String × String)} (hds : declarationsOf p = .ok ds)
    (hcalled : inheritsOf p = .ok called) (hdistinct : Distinct ds called)
    (hacyclic : ∀ c, ¬ Relation.TransGen (Requested ds called) c c) :
    ∃ a c types, ofProgram p = .ok a ∧ a.program = p.withTypes types ∧
      ClassesSettled ds called c ∧ a.registry.classes = c.registry.classes ∧
      Settled p ds a.registry ∧ Attached p a.registry (p.preOrder root) (fun _ => none) types := by
  obtain ⟨c, types, hc, hrun, hattached⟩ := ofProgram_chosen hp huntyped hds hcalled
  have hsettled := hc.settled hacyclic
  exact ⟨_, c, types, hrun, rfl, hsettled, classes_withFunctions .., hdistinct.settled hsettled,
    hattached⟩

end Typing

end SuperForward
