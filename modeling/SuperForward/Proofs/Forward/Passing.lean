/-
  What a forward passes on.

  A function finds the values of its parameters by their names, and of two parameters of one
  name the later one hides the earlier one. The matcher compares names position by position, so
  that every argument of a call that it accepts has the value of the last parameter of its name.
  This is the value that the function was called with, whatever the values are, exactly if no
  two parameters have the same name.
-/
import SuperForward.Proofs.Forward.Matching
import SuperForward.Proofs.Program.Characters
import Mathlib.Data.Option.Basic

namespace SuperForward.Forward

open SuperForward.Program (root Below Spells)

/-! ## Values of names -/

/-- The values of names, as the body of a function finds them. -/
abbrev Binding (V : Type) := String → Option V

namespace Binding

variable {V : Type}

/-- No name has a value. -/
def empty : Binding V := fun _ => none

/-- Gives a name a value, which hides the one it had. -/
def bind (b : Binding V) (name : String) (v : V) : Binding V :=
  fun n => if n = name then some v else b n

/-- Gives names their values, from left to right. -/
def bindAll : List String → List V → Binding V → Binding V
  | name :: names, v :: values, b => bindAll names values (b.bind name v)
  | _, _, b => b

theorem bindAll_of_not_mem {names : List String} {values : List V} {b : Binding V} {name : String}
    (h : name ∉ names) : bindAll names values b name = b name := by
  induction names generalizing values b with
  | nil => cases values <;> rfl
  | cons n names ih =>
    rw [List.mem_cons, not_or] at h
    cases values with
    | nil => rfl
    | cons v values =>
      rw [bindAll, ih h.2]
      exact if_neg h.1

/-- Names that are all different keep the values that they are given. -/
theorem map_bindAll_of_nodup {names : List String} {values : List V} (b : Binding V)
    (hlength : values.length = names.length) (h : names.Nodup) :
    names.map (bindAll names values b) = values.map some := by
  induction names generalizing values b with
  | nil =>
    rw [List.length_eq_zero_iff.mp hlength]
    rfl
  | cons name names ih =>
    rw [List.nodup_cons] at h
    obtain _ | ⟨v, values⟩ := values
    · cases hlength
    · have hhead : bindAll names values (b.bind name v) name = some v :=
        (bindAll_of_not_mem h.1).trans (if_pos rfl)
      rw [List.map_cons, List.map_cons, bindAll, hhead]
      exact congrArg _ (ih (b.bind name v) (Nat.succ.inj hlength) h.2)

/-- If names have the values that they are given, even if these are all different, then the
names are all different. -/
theorem nodup_of_map_bindAll {names : List String} {values : List V} {b : Binding V}
    (hvalues : values.Nodup) (h : names.map (bindAll names values b) = values.map some) :
    names.Nodup := by
  have hmap : (names.map (bindAll names values b)).Nodup := by
    rw [h]
    exact hvalues.map (Option.some_injective V)
  exact hmap.of_map _

end Binding

/-! ## Parameters and arguments -/

/-- The names of the parameters of a function. -/
def parameterNames (p : Program) (fn : Handle) : Except Fault (List String) := do
  (← p.children (← Program.present (← p.secondChild fn))).mapM p.text

/-- The value of an argument: that of its name, if it is a plain name. -/
def valueOf {V : Type} (p : Program) (b : Binding V) (n : Handle) : Except Fault (Option V) := do
  if (← p.kind n) == .name then return b (← p.text n) else return none

/-- The values that a call passes on after the receiver. -/
def passedOn {V : Type} (p : Program) (b : Binding V) (call : Handle) :
    Except Fault (List (Option V)) := do
  ((← p.children call).drop 2).mapM (valueOf p b)

section

variable {p : Program}

theorem text_eq_ok {n : Handle} {text : String} (h : p.textOf? n = some text) :
    p.text n = .ok text := by
  obtain ⟨node, hnode, htext⟩ := Option.map_eq_some_iff.mp h
  have hn : p.node n = .ok node := Program.node_eq_ok_iff.mpr hnode
  rw [← htext]
  simp only [Program.text, hn, except_ok_bind, except_pure]

theorem kind_eq_ok {n : Handle} {kind : NodeKind} (h : p.kindOf? n = some kind) :
    p.kind n = .ok kind := by
  obtain ⟨node, hnode, hkind⟩ := Option.map_eq_some_iff.mp h
  have hn : p.node n = .ok node := Program.node_eq_ok_iff.mpr hnode
  rw [← hkind]
  simp only [Program.kind, hn, except_ok_bind, except_pure]

variable (hp : p.Parsed)
include hp

/-- A parameter that spells the name of an argument has it as its text. -/
theorem textOf?_of_forwarded {list param arg : Handle} (hlist : p.Below root list)
    (hkind : p.kindOf? list = some .paramList) (hparam : param ∈ p.childrenOf list)
    (harg : p.kindOf? arg = some .name) {names : List String} (hspells : p.Spells param names)
    (hspells' : p.Spells arg names) :
    ∃ text, p.textOf? param = some text ∧ p.textOf? arg = some text := by
  obtain ⟨text, htext, rfl⟩ := hspells'.of_name harg
  rcases hp.children_paramList hlist hkind hparam with ⟨hname, -⟩ | hother
  · obtain ⟨text', htext', hsame⟩ := hspells.of_name hname
    rw [List.singleton_inj] at hsame
    exact ⟨text, hsame ▸ htext', htext⟩
  · exact absurd hother hspells.ne_other

/-- What parameters are called, and what the arguments that they are forwarded as stand for. -/
theorem mapM_of_forwarded {V : Type} (b : Binding V) {list : Handle} (hlist : p.Below root list)
    (hkind : p.kindOf? list = some .paramList) {params args : List Handle}
    (hparams : params ⊆ p.childrenOf list) (h : Forwarded p params args) :
    ∃ names, params.mapM p.text = .ok names ∧ args.mapM (valueOf p b) = .ok (names.map b) := by
  induction h with
  | nil => exact ⟨[], rfl, rfl⟩
  | @cons param arg params args hhead _ ih =>
    rw [List.cons_subset] at hparams
    obtain ⟨harg, names, hspells, hspells'⟩ := hhead
    obtain ⟨text, hparam, htext⟩ :=
      textOf?_of_forwarded hp hlist hkind hparams.1 harg hspells hspells'
    obtain ⟨rest, hnames, hvalues⟩ := ih hparams.2
    refine ⟨text :: rest, ?_, ?_⟩
    · rw [List.mapM_cons, text_eq_ok hparam, except_ok_bind, hnames]
      rfl
    · have hvalue : valueOf p b arg = .ok (b text) := by
        simp only [valueOf, kind_eq_ok harg, text_eq_ok htext, except_ok_bind, except_pure,
          beq_self_eq_true, if_true]
      rw [List.mapM_cons, hvalue, except_ok_bind, hvalues]
      rfl

/-- Every argument of a call that is accepted has the value of its name. -/
theorem passedOn_of_argumentsMatch {fn call : Handle} (hfn : p.Below root fn)
    (hkind : p.kindOf? fn = some .function) (hcall : p.Below root call)
    (hmatch : argumentsMatch p fn call = .ok true) :
    ∃ names, parameterNames p fn = .ok names ∧
      ∀ {V : Type} (b : Binding V), passedOn p b call = .ok (names.map b) := by
  obtain ⟨matched, hok, hiff⟩ := argumentsMatch_iff hp hfn hkind hcall
  rw [hmatch] at hok
  cases hok
  obtain ⟨list, callee, receiver, args, hlist, hchildren, -, hforwarded⟩ := hiff.mp rfl
  obtain ⟨_, list', _, hfunction, -, hlistKind, -⟩ := hp.children_function hfn hkind
  have hsame : list' = list := by
    rw [hfunction] at hlist
    exact Option.some.inj hlist
  subst hsame
  have hbelow : p.Below root list' := below_child hp hfn (by rw [hfunction]; simp)
  have hparams : parameterNames p fn = (p.childrenOf list').mapM p.text := by
    simp only [parameterNames, Program.secondChild, Program.childAt,
      Program.children_of_lt (hp.lt_size_of_below hfn), except_ok_bind, except_pure, hlist,
      Program.present, Program.children_of_lt (hp.lt_size_of_below hbelow)]
  have hvalues {V : Type} (b : Binding V) : passedOn p b call = args.mapM (valueOf p b) := by
    simp only [passedOn, Program.children_of_lt (hp.lt_size_of_below hcall), except_ok_bind,
      hchildren, List.drop_succ_cons, List.drop_zero]
  obtain ⟨names, hnames, -⟩ := mapM_of_forwarded hp (Binding.empty (V := Unit)) hbelow hlistKind
    (List.Subset.refl _) hforwarded
  refine ⟨names, hparams.trans hnames, fun b => ?_⟩
  obtain ⟨names', hnames', hpassed⟩ := mapM_of_forwarded hp b hbelow hlistKind
    (List.Subset.refl _) hforwarded
  rw [hnames] at hnames'
  cases hnames'
  exact (hvalues b).trans hpassed

end

/-! ## What arrives -/

/-- Every argument of a call that the matcher accepts has the value of the last parameter of its
name. These are the values that the function was called with, whatever they are, exactly if its
parameters have different names. -/
theorem passedOn_unchanged_iff (sources : List Source) (types : Handle → Option JsType)
    {p : Program} (hp : p = (Program.ofSources sources).1.withTypes types) {fn call : Handle}
    (hfn : p.Below root fn) (hkind : p.kindOf? fn = some .function) (hcall : p.Below root call)
    (hmatch : argumentsMatch p fn call = .ok true) :
    ∃ names, parameterNames p fn = .ok names ∧
      (∀ {V : Type} (values : List V),
        passedOn p (.bindAll names values .empty) call
          = .ok (names.map (Binding.bindAll names values .empty))) ∧
      ((∀ {V : Type} (values : List V), values.length = names.length →
        passedOn p (.bindAll names values .empty) call = .ok (values.map some)) ↔
          names.Nodup) := by
  have hparsed : p.Parsed := hp ▸ Program.parsed_ofSources sources types
  obtain ⟨names, hnames, hpassed⟩ := passedOn_of_argumentsMatch hparsed hfn hkind hcall hmatch
  refine ⟨names, hnames, fun values => hpassed _, fun h => ?_, fun h V values hlength => ?_⟩
  · -- values that are all different tell the parameters apart
    have hrange := h (List.range names.length) List.length_range
    rw [hpassed] at hrange
    exact Binding.nodup_of_map_bindAll List.nodup_range (Except.ok.inj hrange)
  · rw [hpassed, Binding.map_bindAll_of_nodup .empty hlength h]

/-- A script with a forward of two parameters. -/
def passingScript : Source :=
  ⟨"a.js", "B.prototype.m = function(a, b) { B.superClass_.m.call(this, a, b); };"⟩

/-- The program of a script with a forward of two parameters. Its function is node 18, and the
call is node 13. -/
def passingProgram : Program := (Program.ofSources [passingScript]).1.withTypes fun _ => none

theorem passedOn_unchanged_passingProgram :
    passingProgram.Below root 18 ∧ passingProgram.kindOf? 18 = some .function ∧
      passingProgram.Below root 13 ∧ argumentsMatch passingProgram 18 13 = .ok true ∧
      ∃ names, parameterNames passingProgram 18 = .ok names ∧
        (∀ {V : Type} (values : List V),
          passedOn passingProgram (.bindAll names values .empty) 13
            = .ok (names.map (Binding.bindAll names values .empty))) ∧
        ((∀ {V : Type} (values : List V), values.length = names.length →
          passedOn passingProgram (.bindAll names values .empty) 13
            = .ok (values.map some)) ↔ names.Nodup) := by
  have hforest : passingProgram.Forest := (Program.parsed_ofSources [passingScript] _).forest
  obtain ⟨hfn, hkind, hcall, hmatch⟩ : passingProgram.Below root 18 ∧
      passingProgram.kindOf? 18 = some .function ∧ passingProgram.Below root 13 ∧
      argumentsMatch passingProgram 18 13 = .ok true := by
    rw [← hforest.mem_postOrder_iff, ← hforest.mem_postOrder_iff, passingProgram,
      show Program.ofSources [passingScript] = _ from Program.ofSources_one rfl]
    decide +kernel
  exact ⟨hfn, hkind, hcall, hmatch,
    passedOn_unchanged_iff [passingScript] _ rfl hfn hkind hcall hmatch⟩

/-- A script with a forward of two parameters of one name. -/
def hidingScript : Source :=
  ⟨"a.js", "B.prototype.m = function(a, a) { B.superClass_.m.call(this, a, a); };"⟩

/-- The program of a script with a forward of two parameters of one name, with the same nodes. -/
def hidingProgram : Program := (Program.ofSources [hidingScript]).1.withTypes fun _ => none

/-- The second value arrives twice. -/
theorem passedOn_hidingProgram :
    hidingProgram.Below root 18 ∧ hidingProgram.kindOf? 18 = some .function ∧
      hidingProgram.Below root 13 ∧ argumentsMatch hidingProgram 18 13 = .ok true ∧
      parameterNames hidingProgram 18 = .ok ["a", "a"] ∧
      passedOn hidingProgram (.bindAll ["a", "a"] [1, 2] .empty) 13 = .ok [some 2, some 2] := by
  have hforest : hidingProgram.Forest := (Program.parsed_ofSources [hidingScript] _).forest
  rw [← hforest.mem_postOrder_iff, ← hforest.mem_postOrder_iff, hidingProgram,
    show Program.ofSources [hidingScript] = _ from Program.ofSources_one rfl]
  decide +kernel

end SuperForward.Forward
