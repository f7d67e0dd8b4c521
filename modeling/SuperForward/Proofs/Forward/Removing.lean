/-
  What removal does to a program.

  Removal never fails on a program of scripts. It takes out the statements of those forwards
  whose name no other function is assigned to, in the order of a walk that visits children
  first, and reports them in this order. Nothing else of the program changes.
-/
import SuperForward.Analysis
import SuperForward.Proofs.Forward.TakingOut
import SuperForward.Proofs.Program.Remaining

namespace SuperForward.Removal

open SuperForward.Program (root Below)

/-- A function that is taken out, with its statement and the name of its method. -/
structure Taken where
  fn : Handle
  statement : Handle
  name : QualifiedName

/-- One record for each function that was taken out says what was known of its statement. -/
def Recorded (p : Program) (taken : List Taken) (records : List Removed) : Prop :=
  List.Forall₂ (fun t record => describe p t.name t.statement = .ok record) taken records

/-- The nearest function or script above the statement of each function that is taken out. -/
def Scoped (p : Program) (taken : List Taken) (scopes : List Handle) : Prop :=
  List.Forall₂ (fun t scope => p.Nearest [.function, .script] t.statement scope) taken scopes

/-- Removal goes on after both walks, which note nothing down, with those forwards whose name no
other function is assigned to. -/
theorem outcome_process_eq {p : Program} {top : Handle} (hp : p.ParsedAt top) {r : Registry}
    {tags : List String} {start : Handle} (hstart : p.Below top start) {s : Removal}
    (hs : LooksAt p r tags s) :
    ∃ s₁ : Removal, LooksAt p r tags s₁ ∧ notes s₁ = notes s ∧
      (s₁.candidates.entries.map Prod.snd).Sublist (p.postOrder start) ∧
      (∀ name fn, (name, fn) ∈ s₁.candidates.entries ↔
        ∃ statement, Removable p r tags start fn statement name) ∧
      (process start).outcome s = Task.outcome (do
        let removed ← s₁.candidates.entries.mapM fun (name, fn) => takeOut name fn
        modify fun s => { s with candidates := .empty }
        return removed) s₁ := by
  have hempty : LooksAt p r tags { s with candidates := .empty } :=
    ⟨hs.program, hs.registry, hs.exclusions⟩
  obtain ⟨s₀, s₁, hout₀, hout₁, hs₁, hsublist, hentries⟩ := outcome_walks hp hstart hempty rfl
  have hnotes₀ := Program.leaves_traverse Removal.program leaves_collect start
    { s with candidates := .empty }
  have hnotes₁ := Program.leaves_traverse Removal.program leaves_dropRival start s₀
  rw [hout₀] at hnotes₀
  rw [hout₁] at hnotes₁
  refine ⟨s₁, hs₁, hnotes₁.trans hnotes₀, hsublist, hentries, ?_⟩
  unfold process
  rw [Task.outcome_bind_ok (Task.outcome_modify _ _), Task.outcome_bind_ok hout₀,
    Task.outcome_bind_ok hout₁, Task.outcome_get_bind]

section

variable {p : Program} (hp : p.Parsed) {r : Registry} {tags : List String}
include hp

/-- Taking out the statements of some forwards, after others have been taken out. -/
theorem outcome_takeOut_mapM (taken : List Taken)
    (hbelow : ∀ t ∈ taken, p.Below root t.fn)
    (hforward : ∀ t ∈ taken, ∃ assign, Forwarder p r tags t.fn assign t.statement t.name)
    (hnodup : (taken.map Taken.fn).Nodup) (done : List Handle)
    (hclear : ∀ t ∈ taken, ∀ d ∈ done, ¬ p.Below d t.fn) {s : Removal}
    (hs : LooksAt (p.without done) r tags s) :
    ∃ records scopes s', ((taken.map fun t : Taken => (t.name, t.fn)).mapM fun (name, fn) =>
        takeOut name fn).outcome s = (.ok records, s') ∧ Recorded p taken records ∧
      LooksAt (p.without (done ++ taken.map Taken.statement)) r tags s' ∧
      Noted s s' (taken.map Taken.fn) scopes ∧ Scoped p taken scopes := by
  induction taken generalizing done s with
  | nil => exact ⟨[], [], s, rfl, .nil, by simpa using hs, .refl s, .nil⟩
  | cons t taken ih =>
    have ht := List.mem_cons_self (a := t) (l := taken)
    obtain ⟨assign, hassign⟩ := hforward t ht
    obtain ⟨record, scope, s₁, hout₁, hrecord, hs₁, hnoted₁, hscope⟩ :=
      hassign.outcome_takeOut hp (hbelow t ht) (hclear t ht) hs
    rw [List.map_cons, List.nodup_cons] at hnodup
    obtain ⟨records, scopes, s₂, hout₂, hrecords, hs₂, hnoted₂, hscopes⟩ := ih
      (fun u hu => hbelow u (List.mem_cons_of_mem _ hu))
      (fun u hu => hforward u (List.mem_cons_of_mem _ hu)) hnodup.2 (done ++ [t.statement])
      (by
        intro u hu d hd hd_below
        rcases List.mem_append.mp hd with hd | hd
        · exact hclear u (List.mem_cons_of_mem _ hu) d hd hd_below
        · -- the function of another forward is not in this statement
          obtain rfl := List.mem_singleton.mp hd
          obtain ⟨assign', hassign'⟩ := hforward u (List.mem_cons_of_mem _ hu)
          have hsame : u.fn = t.fn := hassign.function_eq hp (hbelow t ht) hd_below
            hassign'.assigned.fn_kind
          exact hnodup.1 (hsame ▸ List.mem_map_of_mem hu)) hs₁
    refine ⟨record :: records, scope :: scopes, s₂, ?_, .cons hrecord hrecords, ?_,
      hnoted₁.trans hnoted₂, .cons hscope hscopes⟩
    · rw [List.map_cons, List.mapM_cons, Task.outcome_bind_ok hout₁, Task.outcome_bind_ok hout₂]
      rfl
    · rw [List.append_assoc, List.singleton_append] at hs₂
      exact hs₂

/-- What removal below a node does to a program of scripts, and what it notes down. -/
theorem outcome_process_noted {start : Handle} (hstart : p.Below root start) {s : Removal}
    (hs : LooksAt p r tags s) :
    ∃ taken records scopes s', (process start).outcome s = (.ok records, s') ∧
      (∀ t : Taken, t ∈ taken ↔ Removable p r tags start t.fn t.statement t.name) ∧
      (taken.map Taken.fn).Sublist (p.postOrder start) ∧ Recorded p taken records ∧
      LooksAt (p.without (taken.map Taken.statement)) r tags s' ∧
      Noted s s' (taken.map Taken.fn) scopes ∧ Scoped p taken scopes := by
  obtain ⟨s₁, hs₁, hnotes, hsublist, hentries, hprocess⟩ := outcome_process_eq hp hstart hs
  -- the entries with the statements of their functions
  obtain ⟨taken, htaken, hmem⟩ : ∃ taken : List Taken,
      taken.map (fun t => (t.name, t.fn)) = s₁.candidates.entries ∧
        ∀ t ∈ taken, Removable p r tags start t.fn t.statement t.name := by
    have hall : ∀ es : List (QualifiedName × Handle), (∀ e ∈ es, ∃ statement,
        Removable p r tags start e.2 statement e.1) → ∃ taken : List Taken,
          taken.map (fun t => (t.name, t.fn)) = es ∧
            ∀ t ∈ taken, Removable p r tags start t.fn t.statement t.name := by
      intro es
      induction es with
      | nil => exact fun _ => ⟨[], rfl, by simp⟩
      | cons e es ih =>
        intro hes
        obtain ⟨statement, hstatement⟩ := hes e (List.mem_cons_self ..)
        obtain ⟨taken, htaken, hmem⟩ := ih fun e' he' => hes e' (List.mem_cons_of_mem _ he')
        refine ⟨⟨e.2, statement, e.1⟩ :: taken, by rw [List.map_cons, htaken], ?_⟩
        intro t ht
        rcases List.mem_cons.mp ht with rfl | ht
        · exact hstatement
        · exact hmem t ht
    exact hall _ fun e he => (hentries e.1 e.2).mp he
  have hfns : taken.map Taken.fn = s₁.candidates.entries.map Prod.snd := by
    rw [← htaken, List.map_map]
    rfl
  rw [← hfns] at hsublist
  rw [← Program.without_nil p] at hs₁
  obtain ⟨records, scopes, s₂, hout₂, hrecords, hs₂, hnoted, hscoped⟩ := outcome_takeOut_mapM hp taken
    (fun t ht => hstart.trans (hmem t ht).within) (fun t ht => (hmem t ht).forwarder)
    ((hp.forest.nodup_postOrder start).sublist hsublist) [] (by simp) hs₁
  rw [htaken] at hout₂
  refine ⟨taken, records, scopes, { s₂ with candidates := .empty }, ?_, ?_, hsublist, hrecords,
    ⟨hs₂.program, hs₂.registry, hs₂.exclusions⟩, ⟨?_, ?_⟩, hscoped⟩
  · rw [hprocess, Task.outcome_bind_ok hout₂, Task.outcome_bind_ok (Task.outcome_modify _ _)]
    rfl
  · intro t
    refine ⟨hmem t, fun h => ?_⟩
    have hentry := (hentries t.name t.fn).mpr ⟨_, h⟩
    rw [← htaken] at hentry
    obtain ⟨u, hu, heq⟩ := List.mem_map.mp hentry
    obtain ⟨hname, hfn⟩ := Prod.mk.inj heq
    obtain ⟨assign, hassign⟩ := h.forwarder
    obtain ⟨assign', hassign'⟩ := (hmem u hu).forwarder
    have hstatement : u.statement = t.statement := by
      rw [hfn] at hassign'
      exact (hassign'.assigned.unique hassign.assigned).2
    have : u = t := by
      obtain ⟨_, _, _⟩ := u
      obtain ⟨_, _, _⟩ := t
      cases hname
      cases hfn
      cases hstatement
      rfl
    exact this ▸ hu
  · exact hnoted.deleted.trans (congrArg (· ++ _) (congrArg Prod.snd hnotes))
  · exact hnoted.changed.trans (congrArg (· ++ _) (congrArg Prod.fst hnotes))

/-- What removal below a node does to a program of scripts. -/
theorem outcome_process_of_parsed {start : Handle} (hstart : p.Below root start) {s : Removal}
    (hs : LooksAt p r tags s) :
    ∃ taken records s', (process start).outcome s = (.ok records, s') ∧
      (∀ t : Taken, t ∈ taken ↔ Removable p r tags start t.fn t.statement t.name) ∧
      (taken.map Taken.fn).Sublist (p.postOrder start) ∧ Recorded p taken records ∧
      LooksAt (p.without (taken.map Taken.statement)) r tags s' := by
  obtain ⟨taken, records, -, s', hout, hmem, hsublist, hrecords, hs', -, -⟩ :=
    outcome_process_noted hp hstart hs
  exact ⟨taken, records, s', hout, hmem, hsublist, hrecords, hs'⟩

end

/-! ## What remains -/

section

variable {p : Program} {r : Registry} {tags : List String} {taken : List Taken}
  (htaken : ∀ t : Taken, t ∈ taken ↔ Removable p r tags root t.fn t.statement t.name)
include htaken

theorem areStatements_taken : p.AreStatements (taken.map Taken.statement) := by
  intro d hd
  obtain ⟨t, ht, rfl⟩ := List.mem_map.mp hd
  obtain ⟨assign, h⟩ := ((htaken t).mp ht).forwarder
  exact h.assigned.statement_kind

/-- The functions that remain are those that were not taken out. -/
theorem below_remaining_iff (hp : p.Parsed) {fn : Handle} (hfn : p.Below root fn)
    (hkind : p.kindOf? fn = some .function) :
    (p.without (taken.map Taken.statement)).Below root fn ↔ fn ∉ taken.map Taken.fn := by
  constructor
  · intro hremains hmem
    obtain ⟨t, ht, rfl⟩ := List.mem_map.mp hmem
    obtain ⟨assign, h⟩ := ((htaken t).mp ht).forwarder
    refine Program.not_below_of_mem_removed hp.root_parent (List.mem_map_of_mem ht) ?_
      ((Below.here.child h.assigned.assign_parent).child h.assigned.fn_parent) hremains
    intro hroot
    have hstatement := h.assigned.statement_kind
    rw [hroot, hp.kindOf?_root] at hstatement
    cases hstatement
  · intro hfree
    refine hfn.without fun d hd hd_below => hfree ?_
    obtain ⟨t, ht, rfl⟩ := List.mem_map.mp hd
    obtain ⟨assign, h⟩ := ((htaken t).mp ht).forwarder
    -- the statement of a forward holds no other function
    rw [h.function_eq hp ((htaken t).mp ht).within hd_below hkind]
    exact List.mem_map_of_mem ht

end

/-! ## Programs of sources -/

/-- Removal below any node of a program of sources, whatever types its nodes have: it ends, it
takes out exactly the statements of the forwards below the node that are alone with their
names, it reports them in the order of the walk, and everything else stays as it is. -/
theorem outcome_process (sources : List Source) (types : Handle → Option JsType) {p : Program}
    (hp : p = (Program.ofSources sources).1.withTypes types) {r : Registry} {tags : List String}
    {start : Handle} (hstart : p.Below root start) {s : Removal} (hs : LooksAt p r tags s) :
    ∃ taken records s', (process start).outcome s = (.ok records, s') ∧
      (∀ t : Taken, t ∈ taken ↔ Removable p r tags start t.fn t.statement t.name) ∧
      (taken.map Taken.fn).Sublist (p.postOrder start) ∧ Recorded p taken records ∧
      s'.program = p.without (taken.map Taken.statement) := by
  have hparsed : p.Parsed := hp ▸ Program.parsed_ofSources sources types
  obtain ⟨taken, records, s', hout, hmem, hsublist, hrecords, hs'⟩ :=
    outcome_process_of_parsed hparsed hstart hs
  exact ⟨taken, records, s', hout, hmem, hsublist, hrecords, hs'.program⟩

/-- A script that is nothing but a forward. -/
def forwardScript : Source :=
  ⟨"a.js", "B.prototype.m = function() { B.superClass_.m.call(this); };"⟩

/-- The program of a script that is nothing but a forward, where everything is known to be a
function without a result. Its function is node 14, and its statement is node 16. -/
def forwardProgram : Program :=
  (Program.ofSources [forwardScript]).1.withTypes fun _ => some (.function "m" .void false)

theorem outcome_process_forwardProgram : forwardProgram.Below root root ∧
    ∃ taken records s', (process root).outcome (.start forwardProgram .empty [])
        = (.ok records, s') ∧
      (∀ t : Taken, t ∈ taken ↔
        Removable forwardProgram .empty [] root t.fn t.statement t.name) ∧
      (taken.map Taken.fn).Sublist (forwardProgram.postOrder root) ∧
      Recorded forwardProgram taken records ∧
      s'.program = forwardProgram.without (taken.map Taken.statement) :=
  ⟨.here, outcome_process [forwardScript] _ rfl .here ⟨rfl, rfl, rfl⟩⟩

/-- Removal below a function looks at the assignment above it: the statement that it takes out
is not below the function. -/
theorem process_function_of_forwardProgram :
    forwardProgram.Below root 14 ∧ ¬ forwardProgram.Below 14 16 ∧
      forwardProgram.parentOf 16 = some 17 ∧
      ((process 14).outcome (.start forwardProgram .empty [])).1.toOption
        = some [⟨"B.prototype.m", some "a.js", 1, 0, 59⟩] ∧
      ((process 14).outcome (.start forwardProgram .empty [])).2.program.parentOf 16 = none := by
  have hforest : forwardProgram.Forest := (Program.parsed_ofSources [forwardScript] _).forest
  rw [← hforest.mem_postOrder_iff, ← hforest.mem_postOrder_iff]
  decide +kernel

end SuperForward.Removal
