/-
  Which links are made.

  Every class asks for one superclass at most: for the one that the last call links it to, or
  else for the one that is documented last. These links are dealt with in the order in which
  the classes were first named. One is made exactly if both ends are declared classes, different
  and no interfaces, and the links that were made before do not lead from the superclass back to
  the class.
-/
import SuperForward.Proofs.Types.Ancestors
import SuperForward.Proofs.Types.Sharing

namespace SuperForward

open SuperForward.Program (root)

namespace Typing

/-! ## What is asked for -/

/-- The links that documentation names, in order. -/
def documentedLinks (ds : List Declaration) : List (String × String) :=
  ds.filterMap Declaration.documentedLink

/-- The link that every class asks for, in the order in which the classes are first named, by
documentation or after that by calls: what the last call says goes before what is documented
last. -/
def requests (ds : List Declaration) (called : List (String × String)) : List (String × String) :=
  ((documentedLinks ds ++ called).map Prod.fst).eraseDups.filterMap fun c =>
    ((OrderedMap.last? c called).or (OrderedMap.last? c (documentedLinks ds))).map
      fun parent => (c, parent)

/-- A link between two different classes that are declared, and that are no interfaces. -/
structure Eligible (ds : List Declaration) (child parent : String) : Prop where
  isClass : DeclaresClass ds child
  isClass_parent : DeclaresClass ds parent
  child_not_interface : ¬ DeclaresInterface ds child
  parent_not_interface : ¬ DeclaresInterface ds parent
  ne : child ≠ parent

/-- The links are made one after the other as they are asked for, except for those that are not
between classes and those that would close a circle with links that were made before. -/
structure MadeInOrder (ds : List Declaration) (asked made : List (String × String)) : Prop where
  inOrder : made.Sublist asked
  made_iff : ∀ before link after, asked = before ++ link :: after →
    (link ∈ made ↔ Eligible ds link.1 link.2 ∧ ¬ Relation.ReflTransGen
      (fun c parent => (c, parent) ∈ made ∧ (c, parent) ∈ before) link.2 link.1)

theorem linksOf_eq (ds : List Declaration) (called : List (String × String)) :
    linksOf ds called = requests ds called := by
  have hall : (OrderedMap.ofList (documentedLinks ds)).insertAll called
      = OrderedMap.ofList (documentedLinks ds ++ called) := by
    unfold OrderedMap.ofList OrderedMap.insertAll
    rw [List.foldl_append]
  have hget (c : String) : ((OrderedMap.ofList (documentedLinks ds)).insertAll called).get? c
      = (OrderedMap.last? c called).or (OrderedMap.last? c (documentedLinks ds)) := by
    unfold OrderedMap.ofList
    rw [OrderedMap.get?_insertAll, OrderedMap.get?_insertAll, OrderedMap.get?_empty,
      Option.or_none]
  have hkeys := OrderedMap.nodup_keys_insertAll
    (OrderedMap.nodup_keys_ofList (documentedLinks ds)) called
  have hentries := OrderedMap.entries_eq hkeys
  simp only [hget] at hentries
  rw [hall, OrderedMap.keys_ofList] at hentries
  unfold linksOf requests
  rw [← hentries, ← hall]
  rfl

/-- No class asks for two superclasses. -/
theorem nodup_requests (ds : List Declaration) (called : List (String × String)) :
    ((requests ds called).map Prod.fst).Nodup := by
  rw [← linksOf_eq]
  exact OrderedMap.nodup_keys_insertAll (OrderedMap.nodup_keys_ofList _) _

/-- Which links are made is determined by what is asked for. -/
theorem MadeInOrder.eq {ds : List Declaration} {asked made made' : List (String × String)}
    (hkeys : (asked.map Prod.fst).Nodup) (h : MadeInOrder ds asked made)
    (h' : MadeInOrder ds asked made') : made = made' := by
  -- link after link, the same links were made before it
  have hbefore : ∀ before after, asked = before ++ after → ∀ l ∈ before, (l ∈ made ↔ l ∈ made') := by
    intro before
    induction before using List.reverseRecOn with
    | nil => exact fun _ _ l hl => absurd hl List.not_mem_nil
    | append_singleton before link ih =>
      intro after hasked l hl
      rw [List.append_assoc, List.singleton_append] at hasked
      have hsame (c parent : String) : ((c, parent) ∈ made ∧ (c, parent) ∈ before) ↔
          ((c, parent) ∈ made' ∧ (c, parent) ∈ before) :=
        and_congr_left fun hl => ih (link :: after) hasked _ hl
      rcases List.mem_append.mp hl with hl | hl
      · exact ih (link :: after) hasked l hl
      · rw [List.mem_singleton.mp hl, h.made_iff before link after hasked,
          h'.made_iff before link after hasked]
        simp only [hsame]
  have hnodup : asked.Nodup := hkeys.of_map _
  have hperm : made.Perm made' := by
    refine (List.perm_ext_iff_of_nodup (hnodup.sublist h.inOrder)
      (hnodup.sublist h'.inOrder)).mpr fun l => ?_
    by_cases hl : l ∈ asked
    · exact hbefore asked [] (List.append_nil _).symm l hl
    · exact iff_of_false (fun hmem => hl (h.inOrder.subset hmem))
        fun hmem => hl (h'.inOrder.subset hmem)
  exact (hnodup.perm_iff_eq_of_sublist h.inOrder h'.inOrder).mp hperm

/-! ## What is made -/

/-- Some of several links are made, after those that there were. -/
structure LinksMade (a : Typing) (links made : List (String × String)) (b : Typing) : Prop where
  ancestry : b.ancestry.links = a.ancestry.links ++ made
  inOrder : made.Sublist links
  made_iff : ∀ before link after, links = before ++ link :: after →
    (link ∈ made ↔ Linkable a link.1 link.2 ∧ ¬ Relation.ReflTransGen
      (fun c parent => (c, parent) ∈ a.ancestry.links ∨
        ((c, parent) ∈ made ∧ (c, parent) ∈ before)) link.2 link.1)
  superclass? : ∀ c parent, b.registry.superclass? c = some parent ↔
    (c, parent) ∈ made ∨ ((∀ q, (c, q) ∉ made) ∧ a.registry.superclass? c = some parent)

theorem LinksMade.nil (a : Typing) : LinksMade a [] [] a where
  ancestry := (List.append_nil _).symm
  inOrder := List.nil_sublist _
  made_iff := fun before _ _ h => by cases before <;> cases h
  superclass? := by simp

theorem not_mem_of_key {link l : String × String} {links : List (String × String)}
    (h : link.1 ∉ links.map Prod.fst) (hl : l ∈ links) : l ≠ link := by
  rintro rfl
  exact h (List.mem_map_of_mem hl)

/-- A link that is left out before others. -/
theorem LinksMade.leftOut {a c : Typing} {link : String × String} {log : List Log.Entry}
    {links made : List (String × String)} (hkey : link.1 ∉ links.map Prod.fst)
    (hcircle : Linkable a link.1 link.2 → link.1 ∈ a.ancestry.upwards link.2)
    (h : LinksMade { a with log } links made c) : LinksMade a (link :: links) made c where
  ancestry := h.ancestry
  inOrder := h.inOrder.cons _
  made_iff := by
    have hnot : link ∉ made := fun hmem => not_mem_of_key hkey (h.inOrder.subset hmem) rfl
    intro before l after heq
    rcases List.cons_eq_append_iff.mp heq with ⟨rfl, heq⟩ | ⟨before, rfl, rfl⟩
    · cases heq
      refine iff_of_false hnot fun ⟨hlinkable, hfree⟩ => hfree ?_
      exact Relation.ReflTransGen.mono (fun _ _ => .inl) _ _
        (Ancestry.mem_upwards_iff.mp (hcircle hlinkable))
    · have hbefore {e : String × String} : (e ∈ made ∧ e ∈ link :: before) ↔
          (e ∈ made ∧ e ∈ before) :=
        and_congr_right fun he => by
          rw [List.mem_cons]
          exact or_iff_right (not_mem_of_key hkey (h.inOrder.subset he))
      simp only [hbefore]
      rw [h.made_iff before l after rfl,
        SameClasses.linkable_iff (LinkStep.leftOut log hcircle).sameClasses]
  superclass? := h.superclass?

/-- A link that is made before others. -/
theorem LinksMade.made {a c : Typing} {link : String × String} {registry : Registry}
    {links made : List (String × String)} (hkey : link.1 ∉ links.map Prod.fst)
    (hnew : link ∉ a.ancestry.links) (hlinkable : Linkable a link.1 link.2)
    (hfree : link.1 ∉ a.ancestry.upwards link.2)
    (hset : a.registry.setSuperclass link.1 link.2 = .ok registry)
    (h : LinksMade { a with
      ancestry := a.ancestry.addLink link.1 link.2
      registry := registry } links made c) : LinksMade a (link :: links) (link :: made) c := by
  obtain ⟨r', hset', hclass, -, hsuper⟩ :=
    Registry.setSuperclass_eq hlinkable.isClass hlinkable.isClass_parent
  rw [hset] at hset'
  cases hset'
  have hlinks : (a.ancestry.addLink link.1 link.2).links = a.ancestry.links ++ [link] := by
    unfold Ancestry.addLink
    rw [if_neg (by simpa using hnew)]
  have hother {e : String × String} (he : e ∈ links) : e ≠ link := not_mem_of_key hkey he
  refine ⟨?ancestry, h.inOrder.cons_cons _, ?made, ?superclass⟩
  case ancestry =>
    rw [h.ancestry]
    show (a.ancestry.addLink link.1 link.2).links ++ made = _
    rw [hlinks, List.append_assoc, List.singleton_append]
  case made =>
    intro before l after heq
    rcases List.cons_eq_append_iff.mp heq with ⟨rfl, heq⟩ | ⟨before, rfl, rfl⟩
    · cases heq
      refine iff_of_true (List.mem_cons_self ..) ⟨hlinkable, fun hback => hfree ?_⟩
      refine Ancestry.mem_upwards_iff.mpr
        (Relation.ReflTransGen.mono (fun c parent hlink => ?_) _ _ hback)
      exact hlink.resolve_right fun hnone => List.not_mem_nil hnone.2
    · have hl : l ∈ before ++ l :: after := List.mem_append_right _ (List.mem_cons_self ..)
      -- the links that were made before are the first one and those among the others
      have hbefore (c parent : String) :
          ((c, parent) ∈ (a.ancestry.addLink link.1 link.2).links ∨
            ((c, parent) ∈ made ∧ (c, parent) ∈ before)) ↔
          ((c, parent) ∈ a.ancestry.links ∨
            ((c, parent) ∈ link :: made ∧ (c, parent) ∈ link :: before)) := by
        rw [hlinks, List.mem_append, List.mem_singleton, List.mem_cons, List.mem_cons, or_assoc]
        refine or_congr_right ⟨?_, ?_⟩
        · rintro (heq | ⟨hmade, hbefore⟩)
          · exact ⟨.inl heq, .inl heq⟩
          · exact ⟨.inr hmade, .inr hbefore⟩
        · rintro ⟨heq | hmade, heq' | hbefore⟩
          · exact .inl heq
          · exact .inl heq
          · exact .inl heq'
          · exact .inr ⟨hmade, hbefore⟩
      have hrest := h.made_iff before l after rfl
      simp only [hbefore] at hrest
      rw [List.mem_cons, or_iff_right (hother hl), hrest]
      refine and_congr_left fun _ => ?_
      exact SameClasses.linkable_iff (LinkStep.made hlinkable hfree registry hset).sameClasses
  case superclass =>
    intro c parent
    rw [h.superclass?]
    simp only [hsuper, List.mem_cons]
    by_cases hc : link.1 = c
    · subst hc
      have hnone (q : String) : (link.1, q) ∉ made := fun hq =>
        hkey (List.mem_map.mpr ⟨_, h.inOrder.subset hq, rfl⟩)
      have hself (q : String) : (link.1, q) = link ↔ link.2 = q :=
        ⟨fun heq => (congrArg Prod.snd heq).symm, fun heq => by rw [← heq]⟩
      simp [hnone, hself]
    · have hne (q : String) : (c, q) ≠ link := fun heq => hc (congrArg Prod.fst heq).symm
      simp [hc, hne]

/-- What becomes of links with different children, none of which has a link before. -/
theorem LinkSteps.linksMade {a b : Typing} {links : List (String × String)}
    (h : LinkSteps a links b) (hkeys : (links.map Prod.fst).Nodup)
    (hnew : ∀ l ∈ a.ancestry.links, l.1 ∉ links.map Prod.fst) :
    ∃ made, LinksMade a links made b := by
  induction h with
  | nil a => exact ⟨[], .nil a⟩
  | @cons a b c link links head tail ih =>
    rw [List.map_cons, List.nodup_cons] at hkeys
    have hold : ∀ l ∈ a.ancestry.links, l.1 ≠ link.1 ∧ l.1 ∉ links.map Prod.fst := fun l hl => by
      have hnot := hnew l hl
      rw [List.map_cons, List.mem_cons, not_or] at hnot
      exact hnot
    cases head with
    | leftOut log hcircle =>
      obtain ⟨made, hmade⟩ := ih hkeys.2 fun l hl => (hold l hl).2
      exact ⟨made, .leftOut hkeys.1 hcircle hmade⟩
    | made hlinkable hfree registry hset =>
      have hlink : link ∉ a.ancestry.links := fun hl => (hold link hl).1 rfl
      obtain ⟨made, hmade⟩ := ih hkeys.2 fun l hl => by
        rcases Ancestry.mem_links_addLink.mp hl with hl | rfl
        · exact (hold l hl).2
        · exact hkeys.1
      exact ⟨link :: made, .made hkeys.1 hlink hlinkable hfree hset hmade⟩

theorem LinkSteps.nodup {a b : Typing} {links : List (String × String)} (h : LinkSteps a links b)
    (ha : a.registry.classes.keys.Nodup) : b.registry.classes.keys.Nodup := by
  induction h with
  | nil => exact ha
  | cons head _ ih =>
    refine ih ?_
    cases head with
    | leftOut => exact ha
    | made _ _ _ set => exact Registry.nodup_setSuperclass ha set

/-! ## Classes and their superclasses -/

/-- The classes of a program are declared, and linked in the order in which they ask to be. -/
structure ClassesChosen (ds : List Declaration) (called : List (String × String)) (a : Typing) :
    Prop where
  isClass : ∀ c, a.registry.isClass c = true ↔ DeclaresClass ds c
  known : ∀ c, c ∈ a.ancestry.classes ↔ DeclaresClass ds c
  interfaces : ∀ c, c ∈ a.interfaces ↔ DeclaresInterface ds c
  made : MadeInOrder ds (requests ds called) a.ancestry.links
  superclass? : ∀ c parent,
    a.registry.superclass? c = some parent ↔ (c, parent) ∈ a.ancestry.links
  acyclic : a.ancestry.Acyclic
  nodup : a.registry.classes.keys.Nodup

/-- Nothing but classes has been declared. -/
structure Chosen (ds : List Declaration) (called : List (String × String)) (a : Typing) : Prop
    extends ClassesChosen ds called a where
  methods : a.registry.methods = .empty
  functions : a.registry.functions = .empty

/-- What has been declared before a program is typed is what the program declares as well. -/
structure Consistent (ds : List Declaration) (called : List (String × String)) (a : Typing) :
    Prop where
  isClass : ∀ c, a.registry.isClass c = true → DeclaresClass ds c
  known : ∀ c ∈ a.ancestry.classes, DeclaresClass ds c
  interfaces : ∀ c ∈ a.interfaces, DeclaresInterface ds c
  superclass? : ∀ c parent, a.registry.superclass? c = some parent →
    ∃ made, MadeInOrder ds (requests ds called) made ∧ (c, parent) ∈ made
  nodup : a.registry.classes.keys.Nodup

/-- So it is where nothing has been declared. -/
theorem consistent_start (p : Program) (ds : List Declaration) (called : List (String × String)) :
    Consistent ds called (start p .empty) where
  isClass := fun c h => by
    simp [start, Registry.isClass, Registry.empty, OrderedMap.contains] at h
  known := fun _ h => absurd h List.not_mem_nil
  interfaces := fun _ h => absurd h List.not_mem_nil
  superclass? := fun c parent h => by
    simp [start, Registry.superclass?, Registry.empty] at h
  nodup := List.nodup_nil

namespace Consistent

variable {ds : List Declaration} {called : List (String × String)} {a b c : Typing}
  (h : Consistent ds called a) (hb : ClassesDeclared ds a b)
include h hb

/-- A link can be made between classes that are declared. -/
theorem linkable_iff {child parent : String} :
    Linkable b child parent ↔ Eligible ds child parent := by
  have hclass {n : String} : (DeclaresClass ds n ∨ a.registry.isClass n = true) ↔
      DeclaresClass ds n := or_iff_left_of_imp (h.isClass n)
  have hinterface {n : String} : (DeclaresInterface ds n ∨ n ∈ a.interfaces) ↔
      DeclaresInterface ds n := or_iff_left_of_imp (h.interfaces n)
  rw [hb.linkable_iff]
  constructor
  · rintro ⟨hc, hq, hc', hq', hne⟩
    exact ⟨hclass.mp hc, hclass.mp hq, fun h => hc' (hinterface.mpr h),
      fun h => hq' (hinterface.mpr h), hne⟩
  · rintro ⟨hc, hq, hc', hq', hne⟩
    exact ⟨hclass.mpr hc, hclass.mpr hq, fun h => hc' (hinterface.mp h),
      fun h => hq' (hinterface.mp h), hne⟩

/-- Links are asked for between known classes. -/
theorem allKnown (links : List (String × String)) : AllKnown b links := by
  intro l _ hl
  have heligible := (h.linkable_iff hb).mp hl
  exact ⟨(hb.known _).mpr (.inl heligible.isClass),
    (hb.known _).mpr (.inl heligible.isClass_parent)⟩

/-- The links that a new ancestry comes to are those that are made in order. -/
theorem chosen (hlinks : a.ancestry.links = []) (hc : LinkSteps b (linksOf ds called) c) :
    ClassesChosen ds called c := by
  have hsame := hc.sameClasses
  have hlinks : b.ancestry.links = [] := hb.links.trans hlinks
  obtain ⟨made, hmade⟩ := hc.linksMade (by rw [linksOf_eq]; exact nodup_requests ds called)
    (by simp [hlinks])
  have hmadeLinks : c.ancestry.links = made := by rw [hmade.ancestry, hlinks, List.nil_append]
  have hinOrder : MadeInOrder ds (requests ds called) c.ancestry.links := by
    rw [hmadeLinks, ← linksOf_eq]
    refine ⟨hmade.inOrder, fun before link after heq => ?_⟩
    have hiff := hmade.made_iff before link after heq
    simp only [hlinks, List.not_mem_nil, false_or, h.linkable_iff hb] at hiff
    exact hiff
  have hstart : Linked b.registry b.ancestry.classes b := by
    refine ⟨fun n => .inl rfl, by simp [hlinks], ?_⟩
    unfold Ancestry.Acyclic
    rw [hlinks]
    exact Ancestry.acyclic_empty
  refine ⟨fun n => ?_, fun n => ?_, fun n => ?_, hinOrder, fun n parent => ?_,
    (hc.linked (h.allKnown hb _) hstart).acyclic, hc.nodup (hb.nodup h.nodup)⟩
  · rw [hsame.isClass, hb.isClass]
    exact or_iff_left_of_imp (h.isClass n)
  · rw [hsame.known, hb.known]
    exact or_iff_left_of_imp (h.known n)
  · rw [hsame.interfaces, hb.interfaces]
    exact or_iff_left_of_imp (h.interfaces n)
  · -- a superclass that there was before is made one again
    rw [hmade.superclass?, hmadeLinks, hb.superclass?]
    refine or_iff_left_of_imp fun ⟨_, hbefore⟩ => ?_
    obtain ⟨made', hmade', hmem⟩ := h.superclass? n parent hbefore
    rw [hmade'.eq (nodup_requests ds called) hinOrder, hmadeLinks] at hmem
    exact hmem

end Consistent

namespace ClassesChosen

variable {ds : List Declaration} {called : List (String × String)} {a : Typing}
  (h : ClassesChosen ds called a)
include h

/-- A class is linked to one superclass at most. -/
theorem unique {c parent parent' : String} (hlink : (c, parent) ∈ a.ancestry.links)
    (hlink' : (c, parent') ∈ a.ancestry.links) : parent = parent' := by
  have hsuper := (h.superclass? c parent).mpr hlink
  rw [(h.superclass? c parent').mpr hlink'] at hsuper
  exact (Option.some.inj hsuper).symm

/-- A link is one between declared classes. -/
theorem eligible {c parent : String} (hlink : (c, parent) ∈ a.ancestry.links) :
    Eligible ds c parent := by
  obtain ⟨before, after, hasked⟩ := List.append_of_mem (h.made.inOrder.subset hlink)
  exact ((h.made.made_iff before (c, parent) after hasked).mp hlink).1

/-- A superclass is less deep than its class. -/
theorem depth_lt {c parent : String} (hparent : a.registry.superclass? c = some parent) :
    a.ancestry.depth parent < a.ancestry.depth c := by
  have hlink := (h.superclass? c parent).mp hparent
  exact h.acyclic.depth_lt hlink ((h.known c).mpr (h.eligible hlink).isClass)

/-- No class is above itself. -/
theorem registry_acyclic : a.registry.Acyclic := by
  have hlower {c d : String} (habove : a.registry.Above c d) :
      a.ancestry.depth d < a.ancestry.depth c := by
    induction habove with
    | single hparent => exact h.depth_lt hparent
    | tail _ hparent ih => exact (h.depth_lt hparent).trans ih
  exact fun c habove => lt_irrefl _ (hlower habove)

end ClassesChosen

/-- What typing makes of a program of scripts that has no types yet: classes are linked, methods
and functions are declared on them, and callees have the types that these say. -/
theorem ofProgram_chosen {p : Program} (hp : p.Parsed) (huntyped : p.withTypes (fun _ => none) = p)
    {ds : List Declaration} {called : List (String × String)} (hds : declarationsOf p = .ok ds)
    (hcalled : inheritsOf p = .ok called) :
    ∃ c types, Chosen ds called c ∧
      ofProgram p = .ok { c with
        program := p.withTypes types
        registry := withFunctions p c.registry c.ancestry ds } ∧
      Attached p (withFunctions p c.registry c.ancestry ds) (p.preOrder root) (fun _ => none)
        types := by
  have hcallable : (start p .empty).registry.Callable := by
    intro c m type h
    cases h
  have hstart := consistent_start p ds called
  obtain ⟨b, hb, hknown, -⟩ := outcome_determine hp (a := start p .empty) huntyped.symm hcallable
    hds hcalled
  obtain ⟨c, types, hlinks, hattached, hout⟩ := hknown (hstart.allKnown hb _)
  have hsame := hlinks.sameClasses
  refine ⟨c, types, ⟨hstart.chosen hb rfl hlinks, hsame.methods.trans hb.methods,
    hsame.functions.trans hb.functions⟩, ?_, hattached⟩
  unfold ofProgram
  rw [hout]
  rfl

/-- The superclasses that typing a program comes to are those that the links say which are made
in the order in which they are asked for. So a class has one superclass at most, and none is
above itself. -/
theorem madeInOrder_ofSources (sources : List Source) :
    ∃ a ds called, ofProgram (Program.ofSources sources).1 = .ok a ∧
      declarationsOf (Program.ofSources sources).1 = .ok ds ∧
      inheritsOf (Program.ofSources sources).1 = .ok called ∧
      (∀ c, a.registry.isClass c = true ↔ DeclaresClass ds c) ∧
      MadeInOrder ds (requests ds called) a.ancestry.links ∧
      (∀ c parent, a.registry.superclass? c = some parent ↔ (c, parent) ∈ a.ancestry.links) ∧
      (∀ c parent parent', (c, parent) ∈ a.ancestry.links → (c, parent') ∈ a.ancestry.links →
        parent = parent') ∧
      a.registry.Acyclic := by
  have hp := Program.parsed_untyped sources
  obtain ⟨ds, hds, -⟩ := declarationsOf_ok hp
  obtain ⟨called, hcalled⟩ := inheritsOf_ok hp
  obtain ⟨c, types, hc, hrun, -⟩ :=
    ofProgram_chosen hp (Program.withTypes_ofSources sources) hds hcalled
  have hclasses :=
    classes_withFunctions (p := (Program.ofSources sources).1) c.registry c.ancestry ds
  have hsuper := superclass?_of_classes hclasses
  refine ⟨_, ds, called, hrun, hds, hcalled, fun n => ?_, hc.made, fun n parent => ?_,
    fun _ _ _ hlink hlink' => hc.unique hlink hlink', ?_⟩
  · exact (congrArg (· = true) (isClass_of_classes hclasses n)).to_iff.trans (hc.isClass n)
  · exact (congrArg (· = some parent) (hsuper n)).to_iff.trans (hc.superclass? n parent)
  · exact (Registry.acyclic_congr hsuper).mpr hc.registry_acyclic

end Typing

end SuperForward
