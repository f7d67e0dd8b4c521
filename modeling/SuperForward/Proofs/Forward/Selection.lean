/-
  What the two walks leave in the map of candidates.

  Neither walk can fail or change the program. Together they compute a set that can be said
  without any map: the forwards below the start whose name is assigned to no other function
  below the start, in the order in which a walk comes to them that visits children first.
-/
import SuperForward.Proofs.Forward.Candidates

namespace SuperForward.Removal

open SuperForward.Program (Below)

/-- A forward below a node that is to be taken out: no other function below the node is
assigned to its name. -/
structure Removable (p : Program) (r : Registry) (tags : List String)
    (start fn statement : Handle) (name : QualifiedName) : Prop where
  within : p.Below start fn
  forwarder : ∃ assign, Forwarder p r tags fn assign statement name
  alone : ∀ g, p.Below start g → AssignedAs p g name → g = fn

/-- What the walks look at, and never change. -/
structure LooksAt (p : Program) (r : Registry) (tags : List String) (s : Removal) : Prop where
  program : s.program = p
  registry : s.registry = r
  exclusions : s.exclusions = tags

/-- The name of a forward that is not protected. -/
def candidateOf (p : Program) (r : Registry) (tags : List String) (n : Handle) :
    Option QualifiedName :=
  match candidate? (.start p r tags) n (p.parentOf n) with
  | .ok name? => name?
  | .error _ => none

/-- The name that a function is assigned to in a statement of its own. -/
def assignedName (p : Program) (n : Handle) : Option QualifiedName :=
  match isFunctionAssignment p n (p.parentOf n), p.functionName n with
  | .ok true, .ok name? => name?
  | _, _ => none

section

variable {p : Program} {top : Handle} (hp : p.ParsedAt top) {r : Registry} {tags : List String}
include hp

theorem candidateOf_eq_some {n : Handle} (hn : p.Below top n) {name : QualifiedName} :
    candidateOf p r tags n = some name ↔
      ∃ assign statement, Forwarder p r tags n assign statement name := by
  obtain ⟨name?, hok, hiff⟩ := candidate?_iff hp (s := .start p r tags) rfl hn
  unfold candidateOf
  rw [hok]
  exact hiff name

theorem assignedName_eq_some {n : Handle} (hn : p.Below top n) {name : QualifiedName} :
    assignedName p n = some name ↔ AssignedAs p n name := by
  obtain ⟨b, hb, hb'⟩ := isFunctionAssignment_iff hp hn
  unfold assignedName AssignedAs
  rw [hb, ← hb']
  cases b with
  | false => simp
  | true =>
    obtain ⟨assign, statement, h⟩ := hb'.mp rfl
    obtain ⟨name?, hname, -⟩ := hp.functionName_ok hn h.fn_kind
    rw [hname]
    simp

/-- One step of the first walk. -/
theorem outcome_collect {s : Removal} (hs : LooksAt p r tags s) {n : Handle}
    (hn : p.Below top n) :
    ∃ s', (collect n (p.parentOf n)).outcome s = (.ok (), s') ∧ LooksAt p r tags s' ∧
      s'.candidates = OrderedMap.putUnder (candidateOf p r tags) s.candidates n := by
  obtain ⟨name?, hok, -⟩ := candidate?_iff hp hs.program hn
  have hcandidate : candidateOf p r tags n = name? := by
    obtain ⟨rfl, rfl, rfl⟩ := hs
    unfold candidateOf
    rw [show candidate? (.start s.program s.registry s.exclusions) n (s.program.parentOf n)
      = candidate? s n (s.program.parentOf n) from rfl, hok]
  unfold collect
  rw [Task.outcome_get_bind, Task.outcome_ofExcept_bind hok, OrderedMap.putUnder, hcandidate]
  cases name? with
  | none => exact ⟨s, rfl, hs, rfl⟩
  | some name => exact ⟨_, rfl, ⟨hs.program, hs.registry, hs.exclusions⟩, rfl⟩

/-- One step of the second walk. -/
theorem outcome_dropRival {s : Removal} (hs : LooksAt p r tags s) {n : Handle}
    (hn : p.Below top n) :
    ∃ s', (dropRival n (p.parentOf n)).outcome s = (.ok (), s') ∧ LooksAt p r tags s' ∧
      s'.candidates = OrderedMap.dropOther (assignedName p) s.candidates n := by
  obtain ⟨name?, hok, hiff⟩ := rival?_iff hp hs.program hn
  unfold dropRival
  rw [Task.outcome_get_bind, Task.outcome_ofExcept_bind hok, OrderedMap.dropOther]
  cases name? with
  | none =>
    refine ⟨s, rfl, hs, ?_⟩
    cases hassigned : assignedName p n with
    | none => rfl
    | some name =>
      have hnot : ¬ (s.candidates.get? name).any (· != n) = true := by
        intro hany
        have := (hiff name).mpr ⟨(assignedName_eq_some hp hn).mp hassigned, hany⟩
        cases this
      simp only [if_neg hnot]
  | some name =>
    obtain ⟨hassigned, hany⟩ := (hiff name).mp rfl
    refine ⟨_, rfl, ⟨hs.program, hs.registry, hs.exclusions⟩, ?_⟩
    rw [(assignedName_eq_some hp hn).mpr hassigned]
    simp only [if_pos hany]

/-- The state that a step of a walk leaves. -/
def stepped (visitor : Handle → Option Handle → Task Removal Unit) (p : Program) (s : Removal)
    (n : Handle) : Removal :=
  ((visitor n (p.parentOf n)).outcome s).2

/-- A walk whose steps look at the program only, and change the candidates only, changes them
step by step. -/
theorem outcome_traverse {visitor : Handle → Option Handle → Task Removal Unit}
    {step : OrderedMap QualifiedName Handle → Handle → OrderedMap QualifiedName Handle}
    (hvisit : ∀ {s : Removal}, LooksAt p r tags s → ∀ {n : Handle}, p.Below top n →
      ∃ s', (visitor n (p.parentOf n)).outcome s = (.ok (), s') ∧ LooksAt p r tags s' ∧
        s'.candidates = step s.candidates n)
    {start : Handle} (hstart : p.Below top start) {s : Removal} (hs : LooksAt p r tags s) :
    ∃ s', (Program.traverse (·.program) visitor start).outcome s = (.ok (), s') ∧
      LooksAt p r tags s' ∧
      s'.candidates = (p.postOrder start).foldl step s.candidates := by
  have hstep : ∀ s n, LooksAt p r tags s → p.Below top n →
      (visitor n (p.parentOf n)).outcome s = (.ok (), stepped visitor p s n) ∧
        LooksAt p r tags (stepped visitor p s n) ∧
        (stepped visitor p s n).candidates = step s.candidates n := by
    intro s n hs hn
    obtain ⟨s', hout, hs', hcandidates⟩ := hvisit hs hn
    rw [stepped, hout]
    exact ⟨rfl, hs', hcandidates⟩
  obtain ⟨hout, hs'⟩ := hp.forest.traverse_eq (·.program) (stepped visitor p)
    (I := LooksAt p r tags) (fun s hs => hs.program) (hp.lt_size_of_below hstart)
    (fun s n hs hn => ⟨(hstep s n hs (hstart.trans hn)).1, (hstep s n hs (hstart.trans hn)).2.1⟩)
    s hs
  refine ⟨_, hout, hs', ?_⟩
  have hfold : ∀ l : List Handle, (∀ n ∈ l, p.Below top n) → ∀ s, LooksAt p r tags s →
      (l.foldl (stepped visitor p) s).candidates = l.foldl step s.candidates := by
    intro l
    induction l with
    | nil => intro _ s _; rfl
    | cons n l ih =>
      intro hl s hs
      obtain ⟨-, hs', hcandidates⟩ := hstep s n hs (hl n (List.mem_cons_self ..))
      rw [List.foldl_cons, List.foldl_cons, ← hcandidates]
      exact ih (fun m hm => hl m (List.mem_cons_of_mem _ hm)) _ hs'
  exact hfold _ (fun n hn => hstart.trans (hp.forest.mem_postOrder_iff.mp hn)) s hs

omit hp in
theorem filterMap_sublist {α : Type} {f : α → Option α} (l : List α)
    (hf : ∀ a b, f a = some b → b = a) : (l.filterMap f).Sublist l := by
  induction l with
  | nil => exact .slnil
  | cons a l ih =>
    rw [List.filterMap_cons]
    cases h : f a with
    | none => exact .cons a ih
    | some b =>
      rw [hf a b h]
      exact .cons_cons a ih

/-- No other function below a node is assigned to the name of an entry. -/
def standsAlone (p : Program) (start : Handle) (e : QualifiedName × Handle) : Bool :=
  (p.postOrder start).all fun n => assignedName p n != some e.1 || n == e.2

/-- The candidates below a node whose names stand alone, in the order of a walk. -/
def selected (p : Program) (r : Registry) (tags : List String) (start : Handle) :
    List (QualifiedName × Handle) :=
  (p.postOrder start).filterMap fun n => (candidateOf p r tags n).bind fun name =>
    if standsAlone p start (name, n) then some (name, n) else none

omit hp in
theorem selected_sublist (start : Handle) :
    ((selected p r tags start).map Prod.snd).Sublist (p.postOrder start) := by
  rw [selected, List.map_filterMap]
  refine filterMap_sublist _ fun n m hm => ?_
  obtain ⟨e, he, rfl⟩ := Option.map_eq_some_iff.mp hm
  obtain ⟨name, -, hif⟩ := Option.bind_eq_some_iff.mp he
  split at hif
  · cases hif
    rfl
  · cases hif

section Selecting

variable {start : Handle} (hstart : p.Below top start)
include hstart

theorem below_of_mem_postOrder {n : Handle} (hn : n ∈ p.postOrder start) : p.Below top n :=
  hstart.trans (hp.forest.mem_postOrder_iff.mp hn)

theorem standsAlone_iff {name : QualifiedName} {fn : Handle} :
    standsAlone p start (name, fn) = true ↔
      ∀ g, p.Below start g → AssignedAs p g name → g = fn := by
  rw [standsAlone, List.all_eq_true]
  constructor
  · intro h g hg hname
    have hmem := hp.forest.mem_postOrder_iff.mpr hg
    have hg' := h g hmem
    rw [(assignedName_eq_some hp (hstart.trans hg)).mpr hname] at hg'
    simpa using hg'
  · intro h g hg
    by_cases hname : assignedName p g = some name
    · have := h g (hp.forest.mem_postOrder_iff.mp hg)
        ((assignedName_eq_some hp (below_of_mem_postOrder hp hstart hg)).mp hname)
      simp [this]
    · simp [hname]

theorem mem_selected_iff {name : QualifiedName} {fn : Handle} :
    (name, fn) ∈ selected p r tags start ↔
      ∃ statement, Removable p r tags start fn statement name := by
  rw [selected, List.mem_filterMap]
  constructor
  · rintro ⟨n, hn, hbind⟩
    obtain ⟨name', hname', hif⟩ := Option.bind_eq_some_iff.mp hbind
    split at hif
    · next halone =>
      cases hif
      obtain ⟨assign, statement, h⟩ :=
        (candidateOf_eq_some hp (below_of_mem_postOrder hp hstart hn)).mp hname'
      exact ⟨statement, hp.forest.mem_postOrder_iff.mp hn, ⟨assign, h⟩,
        (standsAlone_iff hp hstart).mp halone⟩
    · cases hif
  · rintro ⟨statement, hwithin, ⟨assign, h⟩, halone⟩
    have hmem := hp.forest.mem_postOrder_iff.mpr hwithin
    refine ⟨fn, hmem, ?_⟩
    rw [(candidateOf_eq_some hp (hstart.trans hwithin)).mpr ⟨assign, statement, h⟩,
      Option.bind_some, if_pos ((standsAlone_iff hp hstart).mpr halone)]

/-- What is put under a name and dropped later is never looked at: of two candidates with one
name neither stands alone. -/
theorem entries_eq_selected :
    ((p.postOrder start).foldl (OrderedMap.dropOther (assignedName p))
      ((p.postOrder start).foldl (OrderedMap.putUnder (candidateOf p r tags)) .empty)).entries
      = selected p r tags start := by
  have hassigned : ∀ n ∈ p.postOrder start, ∀ name, candidateOf p r tags n = some name →
      assignedName p n = some name := by
    intro n hn name hname
    have hbelow := below_of_mem_postOrder hp hstart hn
    obtain ⟨assign, statement, h⟩ := (candidateOf_eq_some hp hbelow).mp hname
    exact (assignedName_eq_some hp hbelow).mpr ⟨⟨assign, statement, h.assigned⟩, h.named⟩
  have hnodup : (OrderedMap.empty : OrderedMap QualifiedName Handle).keys.Nodup := List.nodup_nil
  rw [OrderedMap.entries_erase_foldl _ _ (OrderedMap.nodup_insert_foldl _ _ hnodup)]
  refine OrderedMap.filter_insert_foldl (standsAlone p start) (hp.forest.nodup_postOrder start) ?_
  intro a ha b hb name _ hnameb hne
  rw [standsAlone, List.all_eq_false]
  exact ⟨b, hb, by simp [hassigned b hb name hnameb, Ne.symm hne]⟩

/-- What is left after both walks: the forwards that are alone with their names, in the order
of the walk. -/
theorem outcome_walks {s : Removal} (hs : LooksAt p r tags s) (hempty : s.candidates = .empty) :
    ∃ s₁ s', (Program.traverse (·.program) collect start).outcome s = (.ok (), s₁) ∧
      (Program.traverse (·.program) dropRival start).outcome s₁ = (.ok (), s') ∧
      LooksAt p r tags s' ∧
      (s'.candidates.entries.map Prod.snd).Sublist (p.postOrder start) ∧
      ∀ name fn, (name, fn) ∈ s'.candidates.entries ↔
        ∃ statement, Removable p r tags start fn statement name := by
  obtain ⟨s₁, hout₁, hs₁, hcand₁⟩ := outcome_traverse hp (outcome_collect hp) hstart hs
  obtain ⟨s₂, hout₂, hs₂, hcand₂⟩ := outcome_traverse hp (outcome_dropRival hp) hstart hs₁
  rw [hcand₁, hempty] at hcand₂
  refine ⟨s₁, s₂, hout₁, hout₂, hs₂, ?_⟩
  rw [hcand₂, entries_eq_selected hp hstart]
  exact ⟨selected_sublist start, fun _ _ => mem_selected_iff hp hstart⟩

end Selecting

end

end SuperForward.Removal
