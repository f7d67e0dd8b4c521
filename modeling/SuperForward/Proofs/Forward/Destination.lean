/-
  Where forwards end up.

  Starting from a method that was taken out, one can follow the calls: to the superclass that a
  callee names as long as all functions of the method were taken out, and up to the superclass
  where there is no function. Superclasses come to an end, and every step leads to a class that
  the method is still found on, so that this stops at a class which keeps its own function. It
  is the nearest one above that has it when everything is done.
-/
import SuperForward.Proofs.Forward.Faithful
import Mathlib.Data.List.Chain

namespace SuperForward.Removal

open SuperForward.Program (root Below)

/-! ## Following calls -/

/-- What is called is a method of a superclass: of the class before the superclass marker, or of
the superclass by its own name. -/
def NamesSuperclass (r : Registry) (called method parent : String) : Prop :=
  (∃ className, called = className ++ ".superClass_." ++ method ++ ".call" ∧
    r.superclass? className = some parent) ∨ called = parent ++ ".prototype." ++ method ++ ".call"

/-- The only call in the body of a function is of a method of the superclass. -/
def CallsOn (p : Program) (r : Registry) (fn : Handle) (method parent : String) : Prop :=
  ∃ block statement call callee, (p.childrenOf fn).getLast? = some block ∧
    p.childrenOf block = [statement] ∧ p.childrenOf statement = [call] ∧
    (p.childrenOf call).head? = some callee ∧
    ∃ called : QualifiedName, p.Spells callee called.names ∧
      NamesSuperclass r (toString called) method parent

/-- A function was taken out: a record is about its assignment, and it is not attached any
more. -/
def TakenOut (a : Analysis) (fn : Handle) : Prop :=
  ∃ name assign statement record, a.typing.program.functionName fn = .ok (some name) ∧
    AssignedIn a.typing.program fn assign statement ∧
    describe a.typing.program name statement = .ok record ∧ record ∈ a.removed ∧
    ¬ a.removal.program.Below root fn

/-- Following the calls of a method goes on from a class to the superclass that the callee names
if all functions of the method were taken out, and to the superclass of the class if there is no
function. -/
def GoesOn (a : Analysis) (method c parent : String) : Prop :=
  (a.typing.program.HasMethod c method ∧ ∀ fn, a.typing.program.IsMethod c method fn →
    TakenOut a fn ∧ CallsOn a.typing.program a.typing.registry fn method parent) ∨
  (¬ a.typing.program.HasMethod c method ∧ a.typing.registry.superclass? c = some parent)

/-- Following the calls of a method from a class stops at a class. -/
inductive StopsAt (a : Analysis) (method : String) : String → String → Prop
  | here {c : String} (stuck : ∀ parent, ¬ GoesOn a method c parent) : StopsAt a method c c
  | on {c parent target : String} (step : GoesOn a method c parent)
      (rest : StopsAt a method parent target) : StopsAt a method c target

/-- A callee names one superclass. -/
theorem NamesSuperclass.unique {r : Registry} {called method parent parent' : String}
    (h : NamesSuperclass r called method parent) (h' : NamesSuperclass r called method parent') :
    parent = parent' := by
  -- the superclass marker is not the end of a name before the prototype
  have hmarkers (c d : String) :
      c ++ ".superClass_." ++ method ++ ".call" ≠ d ++ ".prototype." ++ method ++ ".call" := by
    intro heq
    have hlists := congrArg (fun s : String => s.toList.reverse) heq
    simp at hlists
  rcases h with ⟨c, rfl, hc⟩ | rfl
  · rcases h' with ⟨d, heq, hd⟩ | heq
    · simp only [String.append_left_inj] at heq
      rw [heq, hd] at hc
      exact (Option.some.inj hc).symm
    · exact absurd heq (hmarkers _ _)
  · rcases h' with ⟨d, heq, -⟩ | heq
    · exact absurd heq.symm (hmarkers _ _)
    · simpa only [String.append_left_inj] using heq

theorem CallsOn.unique {p : Program} {r : Registry} {fn : Handle}
    {method parent parent' : String} (h : CallsOn p r fn method parent)
    (h' : CallsOn p r fn method parent') : parent = parent' := by
  obtain ⟨block, statement, call, callee, hblock, hstatement, hcall, hcallee, called, hcalled,
    hnames⟩ := h
  obtain ⟨block', statement', call', callee', hblock', hstatement', hcall', hcallee', called',
    hcalled', hnames'⟩ := h'
  rw [hblock] at hblock'
  cases hblock'
  rw [hstatement] at hstatement'
  cases hstatement'
  rw [hcall] at hcall'
  cases hcall'
  rw [hcallee] at hcallee'
  cases hcallee'
  have hsame : called' = called := QualifiedName.ext_names (hcalled'.unique hcalled)
  exact hnames.unique (hsame ▸ hnames')

/-- There is one way to go on. -/
theorem GoesOn.unique {a : Analysis} {method c parent parent' : String}
    (h : GoesOn a method c parent) (h' : GoesOn a method c parent') : parent = parent' := by
  rcases h with ⟨⟨fn, hfn⟩, h⟩ | ⟨hnone, h⟩
  · rcases h' with ⟨-, h'⟩ | ⟨hnone, -⟩
    · exact (h fn hfn).2.unique (h' fn hfn).2
    · exact absurd ⟨fn, hfn⟩ hnone
  · rcases h' with ⟨hsome, -⟩ | ⟨-, h'⟩
    · exact absurd hsome hnone
    · rw [h] at h'
      exact Option.some.inj h'

/-- Following the calls of a method from a class stops at one class only. -/
theorem StopsAt.unique {a : Analysis} {method c target target' : String}
    (h : StopsAt a method c target) (h' : StopsAt a method c target') : target = target' := by
  induction h with
  | here stuck =>
    cases h' with
    | here _ => rfl
    | on step _ => exact absurd step (stuck _)
  | on step _ ih =>
    cases h' with
    | here stuck => exact absurd step (stuck _)
    | on step' rest' => exact ih (step.unique step' ▸ rest')

/-- A forward calls on to the superclass of its class. -/
theorem ForwardsTo.callsOn {p : Program} {r : Registry} {fn : Handle}
    {className method parent : String} (h : ForwardsTo p r fn className method parent) :
    CallsOn p r fn method parent := by
  obtain ⟨statement, call, callee, receiver, args, params, type, ⟨block, hblock, hstatement⟩,
    hcall, -, hchildren, ⟨called, hcalled, hspelled⟩, -⟩ := h.body
  refine ⟨block, statement, call, callee, hblock, hstatement, hcall, ?_, called, hcalled, ?_⟩
  · rw [hchildren, List.head?_cons]
  · rcases hspelled with hspelled | hspelled
    · exact .inl ⟨className, hspelled, h.superclass⟩
    · exact .inr hspelled

/-! ## Coming to an end -/

section

variable {sources : List Source} {tags : List String} {a : Analysis} {taken : List Taken}
  (h : Analysed sources tags a taken) {method : String}
include h

/-- What was taken out is what is not attached any more. -/
theorem takenOut_iff {fn : Handle} (hfn : a.typing.program.Below root fn)
    (hkind : a.typing.program.kindOf? fn = some .function) :
    TakenOut a fn ↔ ¬ a.removal.program.Below root fn := by
  constructor
  · rintro ⟨_, _, _, _, -, -, -, -, hgone⟩
    exact hgone
  · intro hgone
    have hmem : fn ∈ taken.map Taken.fn := by
      by_contra hfree
      rw [h.program] at hgone
      exact hgone ((below_remaining_iff h.mem_taken h.parsed hfn hkind).mpr hfree)
    obtain ⟨t, ht, rfl⟩ := List.mem_map.mp hmem
    obtain ⟨assign, hforward⟩ := ((h.mem_taken t).mp ht).forwarder
    obtain ⟨record, hrecord, hdescribe⟩ := Program.forall₂_exists_of_mem h.recorded ht
    exact ⟨t.name, assign, t.statement, record, hforward.named, hforward.assigned, hdescribe,
      hrecord, hgone⟩

/-- The functions of a method that are left are those that were not taken out. -/
theorem isMethod_remaining_iff {c : String} {fn : Handle} :
    a.removal.program.IsMethod c method fn ↔
      a.typing.program.IsMethod c method fn ∧ ¬ TakenOut a fn := by
  have hr := areStatements_taken h.mem_taken
  constructor
  · rintro ⟨hbelow, hkind, hnamed⟩
    have hgone := hbelow
    rw [h.program] at hbelow hkind hnamed
    rw [Program.kindOf?_without] at hkind
    rw [h.parsed.functionName_remaining hr hbelow hkind] at hnamed
    refine ⟨⟨hbelow.of_without, hkind, hnamed⟩, fun htaken => ?_⟩
    exact (takenOut_iff h hbelow.of_without hkind).mp htaken hgone
  · rintro ⟨⟨hbelow, hkind, hnamed⟩, hkept⟩
    rw [takenOut_iff h hbelow hkind, not_not] at hkept
    have hbelow' := hkept
    rw [h.program] at hbelow'
    refine ⟨hkept, ?_, ?_⟩
    · rw [h.program, Program.kindOf?_without]
      exact hkind
    · rw [h.program, h.parsed.functionName_remaining hr hbelow' hkind]
      exact hnamed

/-- A function of a method that was taken out was a forward to the superclass. -/
theorem forwardsTo_of_takenOut (hmethod : '.' ∉ method.toList) {c : String} {fn : Handle}
    (hfn : a.typing.program.IsMethod c method fn) (htaken : TakenOut a fn) :
    ∃ parent, ForwardsTo a.typing.program a.typing.registry fn c method parent := by
  have hgone := (takenOut_iff h hfn.below hfn.kind).mp htaken
  have hmem : fn ∈ taken.map Taken.fn := by
    by_contra hfree
    rw [h.program] at hgone
    exact hgone ((below_remaining_iff h.mem_taken h.parsed hfn.below hfn.kind).mpr hfree)
  obtain ⟨t, ht, rfl⟩ := List.mem_map.mp hmem
  have hremovable := (h.mem_taken t).mp ht
  obtain ⟨assign, hforward⟩ := hremovable.forwarder
  obtain ⟨name, hname, hwritten⟩ := hfn.named
  rw [hforward.named] at hname
  cases hname
  exact hremovable.forwardsTo h.parsed h.known h.founded hmethod hwritten

/-- From a class on which a method is found, following the calls goes up the superclasses to the
nearest class that has the method when everything is done. -/
theorem stopsAt_of_findMethod (hmethod : '.' ∉ method.toList) {c : String} {type : JsType}
    (htype : a.typing.registry.findMethod c method = some type) :
    ∃ passed target, StopsAt a method c target ∧ (passed ++ [target]).head? = some c ∧
      List.IsChain (fun c q => a.typing.registry.superclass? c = some q) (passed ++ [target]) ∧
      (∀ k ∈ passed, ¬ a.removal.program.HasMethod k method) ∧
      a.removal.program.HasMethod target method := by
  induction c using h.founded.wellFounded.induction generalizing type with
  | h c ih =>
  -- what is known of the superclass carries over to the class if one goes on to it
  have hon {parent : String} (hparent : a.typing.registry.superclass? c = some parent)
      (hstep : GoesOn a method c parent) (hnone : ¬ a.removal.program.HasMethod c method)
      {type : JsType} (htype : a.typing.registry.findMethod parent method = some type) :
      ∃ passed target, StopsAt a method c target ∧ (passed ++ [target]).head? = some c ∧
        List.IsChain (fun c q => a.typing.registry.superclass? c = some q) (passed ++ [target]) ∧
        (∀ k ∈ passed, ¬ a.removal.program.HasMethod k method) ∧
        a.removal.program.HasMethod target method := by
    obtain ⟨passed, target, hstops, hhead, hchain, hpassed, htarget⟩ := ih parent hparent htype
    refine ⟨c :: passed, target, .on hstep hstops, rfl, ?_, ?_, htarget⟩
    · rw [List.cons_append, List.isChain_cons]
      refine ⟨fun q hq => ?_, hchain⟩
      rw [hhead] at hq
      cases hq
      exact hparent
    · intro k hk
      rcases List.mem_cons.mp hk with rfl | hk
      · exact hnone
      · exact hpassed k hk
  by_cases hhas : a.typing.program.HasMethod c method
  · by_cases hall : ∀ fn, a.typing.program.IsMethod c method fn → TakenOut a fn
    · -- every function of the method was taken out, and all of them call the same superclass
      obtain ⟨fn, hfn⟩ := hhas
      obtain ⟨parent, hforward⟩ := forwardsTo_of_takenOut h hmethod hfn (hall fn hfn)
      obtain ⟨_, _, _, _, _, _, type', -, -, -, -, -, -, -, -, hfind, -, -⟩ := hforward.body
      refine hon hforward.superclass (.inl ⟨⟨fn, hfn⟩, fun g hg => ⟨hall g hg, ?_⟩⟩) ?_ hfind
      · obtain ⟨parent', hforward'⟩ := forwardsTo_of_takenOut h hmethod hg (hall g hg)
        have hsame := hforward'.superclass
        rw [hforward.superclass] at hsame
        cases hsame
        exact hforward'.callsOn
      · rintro ⟨g, hg⟩
        obtain ⟨hg, hkept⟩ := (isMethod_remaining_iff h).mp hg
        exact hkept (hall g hg)
    · -- a function of the method was kept
      rw [not_forall] at hall
      obtain ⟨fn, hfn⟩ := hall
      rw [Classical.not_imp] at hfn
      refine ⟨[], c, .here fun parent hstep => ?_, rfl, .singleton c, by simp,
        fn, (isMethod_remaining_iff h).mpr hfn⟩
      rcases hstep with ⟨-, hstep⟩ | ⟨hnone, -⟩
      · exact hfn.2 (hstep fn hfn.1).1
      · exact hnone hhas
  · -- without a function the class does not declare the method
    have hown : a.typing.registry.ownMethod? c method = none := by
      rw [Option.eq_none_iff_forall_ne_some]
      exact fun t ht => hhas (h.founded.declared c method t ht)
    obtain ⟨parent, hparent, hfind⟩ := Registry.findMethod_of_superclass? htype hown
    refine hon hparent (.inr ⟨hhas, hparent⟩) ?_ hfind
    rintro ⟨g, hg⟩
    exact hhas ⟨g, ((isMethod_remaining_iff h).mp hg).1⟩

end

/-- Along links that come to an end nothing is met twice. -/
theorem nodup_of_isChain {α : Type} {link : α → α → Prop} (h : WellFounded (Function.swap link))
    {l : List α} (hchain : l.IsChain link) : l.Nodup := by
  have hall : l.Pairwise (Relation.TransGen link) :=
    List.isChain_iff_pairwise.mp (hchain.imp fun _ _ => .single)
  refine hall.imp fun {a b} hab heq => ?_
  subst heq
  exact h.transGen.irrefl.irrefl a (Relation.transGen_swap.mpr hab)

/-- Following the calls of a method that was taken out, to the superclass that its callee names
and on from there, stops at the nearest proper ancestor of the class that still has a function
of the method, and nowhere else. The superclasses up to it are all different. -/
theorem destination_of_record {sources : List Source} {tags : List String} {a : Analysis}
    (h : Analysis.ofProgram (Program.ofSources sources).1 tags = .ok a) {record : Removed}
    (hrecord : record ∈ a.removed) {className method : String} (hmethod : '.' ∉ method.toList)
    (hname : record.name = className ++ ".prototype." ++ method) :
    ∃ name fn assign statement parent passed target, record.name = toString name ∧
      AssignedIn a.typing.program fn assign statement ∧
      describe a.typing.program name statement = .ok record ∧
      CallsOn a.typing.program a.typing.registry fn method parent ∧
      StopsAt a method parent target ∧
      (∀ other, StopsAt a method parent other → other = target) ∧
      (passed ++ [target]).head? = some parent ∧
      List.IsChain (fun c q => a.typing.registry.superclass? c = some q)
        (className :: (passed ++ [target])) ∧ (className :: (passed ++ [target])).Nodup ∧
      (∀ c ∈ passed, ¬ a.removal.program.HasMethod c method) ∧
      a.removal.program.HasMethod target method := by
  obtain ⟨taken, hanalysed⟩ := exists_analysed h
  obtain ⟨t, ht, hdescribe⟩ := Program.forall₂_exists_of_mem hanalysed.recorded.flip hrecord
  have hremovable := (hanalysed.mem_taken t).mp ht
  obtain ⟨assign, hforward⟩ := hremovable.forwarder
  have htext := name_of_describe hdescribe
  obtain ⟨parent, hparent⟩ := hremovable.forwardsTo hanalysed.parsed hanalysed.known
    hanalysed.founded hmethod (htext.symm.trans hname)
  obtain ⟨_, _, _, _, _, _, type, -, -, -, -, -, -, -, -, hfind, -, -⟩ := hparent.body
  obtain ⟨passed, target, hstops, hhead, hchain, hpassed, htarget⟩ :=
    stopsAt_of_findMethod hanalysed hmethod hfind
  have hchain' : List.IsChain (fun c q => a.typing.registry.superclass? c = some q)
      (className :: (passed ++ [target])) := by
    rw [List.isChain_cons]
    refine ⟨fun q hq => ?_, hchain⟩
    rw [hhead] at hq
    cases hq
    exact hparent.superclass
  refine ⟨t.name, t.fn, assign, t.statement, parent, passed, target, htext, hforward.assigned,
    hdescribe, hparent.callsOn, hstops, fun _ hother => hother.unique hstops, hhead, hchain',
    nodup_of_isChain hanalysed.founded.wellFounded hchain', hpassed, htarget⟩

theorem destination_of_record_chainedScript :
    ∃ a record, Analysis.ofProgram (Program.ofSources [chainedScript]).1 defaultExclusions = .ok a ∧
      record ∈ a.removed ∧ '.' ∉ "m".toList ∧ record.name = "B" ++ ".prototype." ++ "m" ∧
      ∃ name fn assign statement parent passed target, record.name = toString name ∧
        AssignedIn a.typing.program fn assign statement ∧
        describe a.typing.program name statement = .ok record ∧
        CallsOn a.typing.program a.typing.registry fn "m" parent ∧
        StopsAt a "m" parent target ∧
        (∀ other, StopsAt a "m" parent other → other = target) ∧
        (passed ++ [target]).head? = some parent ∧
        List.IsChain (fun c q => a.typing.registry.superclass? c = some q)
          ("B" :: (passed ++ [target])) ∧ ("B" :: (passed ++ [target])).Nodup ∧
        (∀ c ∈ passed, ¬ a.removal.program.HasMethod c "m") ∧
        a.removal.program.HasMethod target "m" := by
  obtain ⟨a, ha, hremoved, -, -⟩ := analysis_chainedScript
  have hrecord : ⟨"B.prototype.m", some "a.js", 1, 122, 181⟩ ∈ a.removed := by
    rw [hremoved]
    exact List.mem_singleton_self _
  have hmethod : '.' ∉ "m".toList := by decide
  exact ⟨a, _, ha, hrecord, hmethod, rfl, destination_of_record ha hrecord hmethod rfl⟩

end SuperForward.Removal
