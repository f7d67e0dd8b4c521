/-
  Which forwards are candidates, and which of them are left.

  The first walk puts forwards into a map by the name of their method, where a later one takes
  the place of an earlier one; the second walk drops every name that another function than the
  one in the map is assigned to. What is left are the forwards whose name no other function is
  assigned to, in the order in which the walk comes to them: a name that was overwritten has
  two functions, so that it is dropped whatever the map holds.
-/
import SuperForward.Forward.Remove
import SuperForward.Proofs.Entries
import SuperForward.Proofs.Forward.Matching
import SuperForward.Proofs.Program.Walk

namespace SuperForward

open SuperForward.Program (Below)

/-! ## Maps that are filled and emptied -/

namespace OrderedMap

variable {α β : Type} [DecidableEq α]

/-- Puts a value under the key that it has, if it has one. -/
def putUnder (key : β → Option α) (m : OrderedMap α β) (value : β) : OrderedMap α β :=
  match key value with
  | some k => m.insert k value
  | none => m

/-- Takes out the key that a value has, if another value is found under it. -/
def dropOther [DecidableEq β] (key : β → Option α) (m : OrderedMap α β) (value : β) :
    OrderedMap α β :=
  match key value with
  | some k => if (m.get? k).any (· != value) then m.erase k else m
  | none => m

/-- Overwriting does not show where neither the old value nor the new one is looked at. -/
theorem filter_put {keep : α × β → Bool} {key : α} {value : β} {es : List (α × β)}
    (hmem : ∃ e ∈ es, e.1 = key) (hnew : keep (key, value) = false)
    (hold : ∀ v, (key, v) ∈ es → keep (key, v) = false) :
    (put key value es).filter keep = es.filter keep := by
  induction es with
  | nil =>
    obtain ⟨e, he, -⟩ := hmem
    exact absurd he List.not_mem_nil
  | cons e es ih =>
    obtain ⟨k, v⟩ := e
    by_cases hk : k = key
    · subst hk
      have hv : keep (k, v) = false := hold v (List.mem_cons_self ..)
      rw [put, if_pos rfl, List.filter_cons_of_neg (by simp [hnew]),
        List.filter_cons_of_neg (by simp [hv])]
    · rw [put, if_neg hk, List.filter_cons, List.filter_cons, ih]
      · obtain ⟨e, he, hkey⟩ := hmem
        rcases List.mem_cons.mp he with rfl | he
        · exact absurd hkey hk
        · exact ⟨e, he, hkey⟩
      · exact fun v hv => hold v (List.mem_cons_of_mem _ hv)

/-- The entries of a map that is filled from a list: where `keep` tells overwritten entries
from others, those kept stand in the order of the list. -/
theorem filter_insert_foldl {cand : β → Option α} (keep : α × β → Bool) {l : List β}
    (hnodup : l.Nodup)
    (hkeep : ∀ a ∈ l, ∀ b ∈ l, ∀ name, cand a = some name → cand b = some name → a ≠ b →
      keep (name, a) = false) :
    (l.foldl (putUnder cand) (empty : OrderedMap α β)).entries.filter keep
      = l.filterMap fun n => (cand n).bind fun name =>
          if keep (name, n) then some (name, n) else none := by
  -- the induction goes along the prefixes of the list, of which the map knows all candidates
  have key : ∀ pre : List β, pre <+: l →
      (∀ e ∈ (pre.foldl (putUnder cand) (empty : OrderedMap α β)).entries,
        e.2 ∈ pre ∧ cand e.2 = some e.1) ∧
      (pre.foldl (putUnder cand) (empty : OrderedMap α β)).entries.filter keep
        = pre.filterMap fun n => (cand n).bind fun name =>
            if keep (name, n) then some (name, n) else none := by
    intro pre
    induction pre using List.reverseRecOn with
    | nil =>
      intro _
      exact ⟨fun e he => absurd he List.not_mem_nil, rfl⟩
    | append_singleton pre n ih =>
      intro hpre
      have hpre' : pre <+: l := (List.prefix_append pre [n]).trans hpre
      obtain ⟨hentries, hfilter⟩ := ih hpre'
      rw [List.foldl_append, List.filterMap_append]
      generalize pre.foldl (putUnder cand) (empty : OrderedMap α β) = m at hentries hfilter ⊢
      simp only [List.foldl_cons, List.foldl_nil, List.filterMap_cons, List.filterMap_nil, putUnder]
      have hnodup_pre : (pre ++ [n]).Nodup := hnodup.sublist hpre.sublist
      have hn_notin : n ∉ pre := by
        intro hmem
        have := (List.nodup_append.mp hnodup_pre).2.2 n hmem n (List.mem_singleton_self n)
        exact this rfl
      have hmem_l : ∀ b ∈ pre ++ [n], b ∈ l := fun b hb => hpre.subset hb
      cases hcand : cand n with
      | none =>
        refine ⟨?_, by simp [hfilter]⟩
        intro e he
        exact ⟨List.mem_append_left _ (hentries e he).1, (hentries e he).2⟩
      | some name =>
        refine ⟨?_, ?_⟩
        · intro e he
          rcases mem_put he with rfl | he
          · exact ⟨by simp, hcand⟩
          · exact ⟨List.mem_append_left _ (hentries e he).1, (hentries e he).2⟩
        · show (put name n m.entries).filter keep = _
          by_cases hmem : ∃ e ∈ m.entries, e.1 = name
          · obtain ⟨e, he, rfl⟩ := hmem
            obtain ⟨he_pre, he_cand⟩ := hentries e he
            have hne : n ≠ e.2 := fun h => hn_notin (h ▸ he_pre)
            have hdrop : keep (e.1, n) = false :=
              hkeep n (hmem_l n (by simp)) e.2 (hmem_l _ (List.mem_append_left _ he_pre)) e.1
                hcand he_cand hne
            rw [filter_put ⟨e, he, rfl⟩ hdrop, hfilter]
            · simp [hdrop]
            · intro v hv
              obtain ⟨hv_pre, hv_cand⟩ := hentries _ hv
              exact hkeep v (hmem_l _ (List.mem_append_left _ hv_pre)) n (hmem_l n (by simp)) e.1
                hv_cand hcand fun h => hn_notin (h ▸ hv_pre)
          · rw [put_of_not_mem (fun e he h => hmem ⟨e, he, h⟩), List.filter_append, hfilter]
            cases hk : keep (name, n) <;> simp [hk]
  exact (key l (List.prefix_refl l)).2

theorem nodup_insert_foldl {cand : β → Option α} (l : List β) (m : OrderedMap α β)
    (h : m.keys.Nodup) :
    (l.foldl (putUnder cand) m).keys.Nodup := by
  induction l generalizing m with
  | nil => exact h
  | cons n l ih =>
    rw [List.foldl_cons]
    apply ih
    unfold putUnder
    split
    · exact nodup_put h
    · exact h

/-- The entries that are left when every key is taken out under which the map has another
value than one of the list. -/
theorem entries_erase_foldl [DecidableEq β] {named : β → Option α} (l : List β)
    (m : OrderedMap α β) (h : m.keys.Nodup) :
    (l.foldl (dropOther named) m).entries
      = m.entries.filter fun e => l.all fun n => named n != some e.1 || n == e.2 := by
  induction l generalizing m with
  | nil => simp
  | cons n l ih =>
    -- one value takes out the entry of its key, if that has another value
    have hstep : (dropOther named m n).entries
        = m.entries.filter fun e => named n != some e.1 || n == e.2 := by
      unfold dropOther
      cases hnamed : named n with
      | none =>
        rw [eq_comm, List.filter_eq_self]
        intro e _
        rfl
      | some name =>
        simp only
        cases hget : m.get? name with
        | none =>
          rw [Option.any_none, if_neg (by simp), eq_comm, List.filter_eq_self]
          intro e he
          have hne : name ≠ e.1 := by
            rintro rfl
            have := lookup_of_mem h he
            unfold get? at hget
            rw [hget] at this
            cases this
          simp [hne]
        | some value =>
          have hvalue {e : α × β} (he : e ∈ m.entries) (hk : e.1 = name) : e.2 = value := by
            obtain ⟨k, v⟩ := e
            have := lookup_of_mem h he
            unfold get? at hget
            rw [show k = name from hk, hget] at this
            exact (Option.some.inj this).symm
          rw [Option.any_some]
          by_cases hv : value = n
          · rw [if_neg (by simp [hv]), eq_comm, List.filter_eq_self]
            intro e he
            by_cases hk : e.1 = name
            · simp [hvalue he hk, hv]
            · simp [Ne.symm hk]
          · rw [if_pos (by simp [hv])]
            show m.entries.filter _ = _
            apply List.filter_congr
            intro e he
            by_cases hk : e.1 = name
            · have hne : n ≠ e.2 := by
                rw [hvalue he hk]
                exact fun h => hv h.symm
              simp [hk, hne]
            · simp [hk, Ne.symm hk]
    rw [List.foldl_cons, ih, hstep, List.filter_filter]
    · apply List.filter_congr
      intro e _
      rw [List.all_cons, Bool.and_comm]
    · unfold keys
      rw [hstep]
      exact h.sublist (List.filter_sublist.map _)

end OrderedMap

/-! ## What makes a candidate -/

namespace Removal

/-- A function is the value of an assignment that is a whole statement. -/
structure AssignedIn (p : Program) (fn assign statement : Handle) : Prop where
  fn_kind : p.kindOf? fn = some .function
  fn_parent : p.parentOf fn = some assign
  assign_kind : p.kindOf? assign = some .assign
  assign_parent : p.parentOf assign = some statement
  statement_kind : p.kindOf? statement = some .exprResult

/-- A function assignment that is a whole statement, with the name that it gives. -/
def AssignedAs (p : Program) (fn : Handle) (name : QualifiedName) : Prop :=
  (∃ assign statement, AssignedIn p fn assign statement) ∧ p.functionName fn = .ok (some name)

/-- The body of a function is one statement that is a call or returns one. -/
def OnlyCall (p : Program) (fn call : Handle) : Prop :=
  ∃ body statement, (p.childrenOf fn).getLast? = some body ∧ p.childrenOf body = [statement] ∧
    (p.kindOf? statement = some .exprResult ∨ p.kindOf? statement = some .returnStmt) ∧
    p.childrenOf statement = [call] ∧ p.kindOf? call = some .call

/-- The only member of a list. -/
def only? {α : Type} : List α → Option α
  | [a] => some a
  | _ => none

theorem only?_eq_some_iff {α : Type} {l : List α} {a : α} : only? l = some a ↔ l = [a] := by
  match l with
  | [] => simp [only?]
  | [b] => simp [only?]
  | _ :: _ :: _ => simp [only?]

/-- The call that the body of a function consists of, if it consists of one. -/
def onlyCallOf? (p : Program) (fn : Handle) : Option Handle :=
  (p.childrenOf fn).getLast?.bind fun body =>
  (only? (p.childrenOf body)).bind fun statement =>
  if p.kindOf? statement = some .exprResult ∨ p.kindOf? statement = some .returnStmt then
    (only? (p.childrenOf statement)).filter fun call => p.kindOf? call = some .call
  else none

theorem onlyCallOf?_eq_some_iff {p : Program} {fn call : Handle} :
    onlyCallOf? p fn = some call ↔ OnlyCall p fn call := by
  simp only [onlyCallOf?, OnlyCall, Option.bind_eq_some_iff, only?_eq_some_iff,
    Option.ite_none_right_eq_some, Option.filter_eq_some_iff, decide_eq_true_eq]
  constructor
  · rintro ⟨body, hlast, statement, hbody, hkind, hcall⟩
    exact ⟨body, statement, hlast, hbody, hkind, hcall⟩
  · rintro ⟨body, statement, hlast, hbody, hkind, hcall⟩
    exact ⟨body, hlast, statement, hbody, hkind, hcall⟩

/-- A node is documented with a tag that protects it. -/
def Protected (p : Program) (tags : List String) (n : Handle) : Prop :=
  ∃ doc, p.docOf? n = some doc ∧ ∃ tag ∈ tags, tag ∈ doc.tags

/-- A statement assigns a function that is nothing but a forward to the method of that name on
the superclass, and no tag protects it. -/
structure Forwarder (p : Program) (r : Registry) (tags : List String)
    (fn assign statement : Handle) (name : QualifiedName) : Prop where
  assigned : AssignedIn p fn assign statement
  unprotected : ¬ Protected p tags assign
  named : p.functionName fn = .ok (some name)
  forwards : ∃ call, OnlyCall p fn call ∧ Forward.ExactForward p r fn call name

theorem AssignedIn.unique {p : Program} {fn a b s t : Handle} (h : AssignedIn p fn a s)
    (h' : AssignedIn p fn b t) : a = b ∧ s = t := by
  have hab : a = b := by
    have := h.fn_parent.symm.trans h'.fn_parent
    exact Option.some.inj this
  subst hab
  have := h.assign_parent.symm.trans h'.assign_parent
  exact ⟨rfl, Option.some.inj this⟩

section Deciding

variable {p : Program} {top : Handle} (hp : p.ParsedAt top)
include hp

/-- The node has a function assignment above it as its parent and grandparent. -/
theorem isFunctionAssignment_eq {n : Handle} (hn : p.Below top n) :
    isFunctionAssignment p n (p.parentOf n) = .ok ((p.parentOf n).any fun assign =>
      p.kindOf? n = some .function && p.kindOf? assign = some .assign &&
        (p.parentOf assign).any fun statement => p.kindOf? statement = some .exprResult) := by
  unfold isFunctionAssignment
  cases hparent : p.parentOf n with
  | none => rfl
  | some assign =>
    have halt : assign < p.size := hp.forest.parent_lt_size hparent
    simp only [Program.isKind_of_lt (hp.lt_size_of_below hn), Program.isKind_of_lt halt,
      Program.parent_of_lt halt, except_ok_bind, except_pure, Option.any_some]
    by_cases hfn : p.kindOf? n = some .function
    · by_cases hassign : p.kindOf? assign = some .assign
      · cases hstatement : p.parentOf assign with
        | none => simp [hassign]
        | some statement =>
          have hslt : statement < p.size := hp.forest.parent_lt_size hstatement
          simp [hfn, hassign, Program.isKind_of_lt hslt]
      · simp [hfn, hassign]
    · simp [hfn]

theorem isFunctionAssignment_iff {n : Handle} (hn : p.Below top n) :
    ∃ b, isFunctionAssignment p n (p.parentOf n) = .ok b ∧
      (b = true ↔ ∃ assign statement, AssignedIn p n assign statement) := by
  refine ⟨_, isFunctionAssignment_eq hp hn, ?_⟩
  simp only [Option.any_eq_true, Bool.and_eq_true, decide_eq_true_eq]
  constructor
  · rintro ⟨assign, hassign, ⟨hfn, hkind⟩, statement, hstatement, hexpr⟩
    exact ⟨assign, statement, hfn, hassign, hkind, hstatement, hexpr⟩
  · rintro ⟨assign, statement, h⟩
    exact ⟨assign, h.fn_parent, ⟨h.fn_kind, h.assign_kind⟩, statement, h.assign_parent,
      h.statement_kind⟩

omit hp in
theorem isExcluded_iff {n : Handle} (hn : n < p.size) (tags : List String) :
    ∃ b, isExcluded p tags n = .ok b ∧ (b = true ↔ Protected p tags n) := by
  obtain ⟨node, hnode, -⟩ := Program.node_of_lt hn
  obtain ⟨-, -, -, -, hdoc⟩ := Program.node_fields hnode
  unfold isExcluded Protected
  simp only [hnode, except_ok_bind, except_pure, hdoc]
  refine ⟨_, rfl, ?_⟩
  cases node.doc with
  | none => simp
  | some doc => simp [DocComment.hasTag]

/-- The search for the only call goes through three children that have to be there: the last
child of the function, the only child of that, and the only child of the statement. -/
theorem onlyCall?_eq {fn : Handle} (hfn : p.Below top fn) :
    onlyCall? p fn = .ok (onlyCallOf? p fn) := by
  unfold onlyCall? onlyCallOf?
  simp only [Program.lastChild, Program.children_of_lt (hp.lt_size_of_below hfn), except_ok_bind,
    except_pure]
  -- three lists of children in turn, of which each has to have a single one, or the search ends
  cases hlast : (p.childrenOf fn).getLast? with
  | none => rfl
  | some body =>
    have hbody : p.Below top body := Forward.below_child hp hfn (List.mem_of_getLast? hlast)
    obtain ⟨node, hnode, -⟩ := Program.node_of_lt (hp.lt_size_of_below hbody)
    obtain ⟨-, -, hchildren, -, -⟩ := Program.node_fields hnode
    simp only [hnode, except_ok_bind, ← hchildren, Option.bind_some]
    match hlist : p.childrenOf body with
    | [] => rfl
    | _ :: _ :: _ => rfl
    | [statement] =>
      have hstatement : p.Below top statement :=
        Forward.below_child hp hbody (by rw [hlist]; exact List.mem_singleton_self statement)
      obtain ⟨node, hnode, -⟩ := Program.node_of_lt (hp.lt_size_of_below hstatement)
      obtain ⟨hkind, -, hchildren, -, -⟩ := Program.node_fields hnode
      simp only [hnode, except_ok_bind, only?, Option.bind_some, hkind, Option.some.injEq,
        ← hchildren]
      by_cases hk : node.kind = .exprResult ∨ node.kind = .returnStmt
      · rw [if_pos hk, if_pos (by simpa using hk)]
        match hlist : p.childrenOf statement with
        | [] => rfl
        | _ :: _ :: _ => rfl
        | [call] =>
          have hcall : p.Below top call :=
            Forward.below_child hp hstatement (by rw [hlist]; exact List.mem_singleton_self call)
          by_cases hcallKind : p.kindOf? call = some .call
          · simp [Program.isKind_of_lt (hp.lt_size_of_below hcall), hcallKind, Option.filter]
          · simp [Program.isKind_of_lt (hp.lt_size_of_below hcall), hcallKind, Option.filter]
      · rw [if_neg hk, if_neg (by simpa using hk)]

theorem onlyCall?_iff {fn : Handle} (hfn : p.Below top fn) :
    ∃ call?, onlyCall? p fn = .ok call? ∧
      ∀ call, call? = some call ↔ OnlyCall p fn call :=
  ⟨_, onlyCall?_eq hp hfn, fun _ => onlyCallOf?_eq_some_iff⟩

/-- A function with only one call is given a name or none, and compared under it. -/
theorem forwardName_iff {fn call : Handle} (hfn : p.Below top fn)
    (hkind : p.kindOf? fn = some .function) (hcall : OnlyCall p fn call) (r : Registry) :
    ∃ name? : Option QualifiedName, (do
        let some name ← p.functionName fn | return none
        return if ← Forward.isForward p r fn call name then some name else none) = .ok name? ∧
      ∀ name, name? = some name ↔
        p.functionName fn = .ok (some name) ∧ Forward.ExactForward p r fn call name := by
  obtain ⟨name?, hname, -⟩ := hp.functionName_ok hfn hkind
  simp only [hname, except_ok_bind]
  cases name? with
  | none => exact ⟨none, rfl, by simp⟩
  | some name =>
    obtain ⟨body, statement, hlast, hbody, -, hstatement, hcallKind⟩ := hcall
    have hbelow : p.Below top body := Forward.below_child hp hfn (List.mem_of_getLast? hlast)
    have hbelow' : p.Below top statement :=
      Forward.below_child hp hbelow (by rw [hbody]; exact List.mem_singleton_self statement)
    have hlink : p.parentOf call = some statement :=
      hp.forest.mem_children_iff.mp (by rw [hstatement]; exact List.mem_singleton_self call)
    obtain ⟨b, hb, hb'⟩ :=
      Forward.isForward_iff hp hfn hkind (hbelow'.child hlink) hcallKind hlink r name
    simp only [hb, except_ok_bind, except_pure]
    refine ⟨if b = true then some name else none, rfl, ?_⟩
    intro name'
    constructor
    · intro h
      split at h
      · next hforward =>
        cases h
        exact ⟨rfl, hb'.mp hforward⟩
      · cases h
    · rintro ⟨heq, hforward⟩
      cases heq
      rw [if_pos (hb'.mpr hforward)]

/-- The candidates of the first walk are the forwards that are not protected. -/
theorem candidate?_iff {s : Removal} (hs : s.program = p) {n : Handle} (hn : p.Below top n) :
    ∃ name?, candidate? s n (p.parentOf n) = .ok name? ∧ ∀ name, name? = some name ↔
      ∃ assign statement, Forwarder p s.registry s.exclusions n assign statement name := by
  subst hs
  generalize hp' : s.program = p at hp hn
  have hnone (h : ∀ assign statement name,
      ¬ Forwarder p s.registry s.exclusions n assign statement name) : ∀ name, none = some name ↔
      ∃ assign statement, Forwarder p s.registry s.exclusions n assign statement name := by
    simp [h]
  -- the checks in the order of the walk: each one turns the node down for a reason that no
  -- forwarder has, or gives a fact about it
  obtain ⟨a, ha, ha'⟩ := isFunctionAssignment_iff hp hn
  unfold candidate?
  rw [hp', ha, except_ok_bind]
  cases a with
  | false =>
    refine ⟨none, rfl, hnone fun assign statement name h => ?_⟩
    have := ha'.mpr ⟨assign, statement, h.assigned⟩
    cases this
  | true =>
    obtain ⟨assign, statement, hassigned⟩ := ha'.mp rfl
    have halt : assign < p.size := hp.forest.parent_lt_size hassigned.fn_parent
    obtain ⟨b, hb, hb'⟩ := isExcluded_iff halt s.exclusions
    simp only [Bool.not_true, Bool.false_eq_true, if_false, hassigned.fn_parent, Program.present,
      except_ok_bind, hb]
    cases b with
    | true =>
      refine ⟨none, rfl, hnone fun assign' statement' name h => ?_⟩
      obtain ⟨rfl, -⟩ := hassigned.unique h.assigned
      exact h.unprotected (hb'.mp rfl)
    | false =>
      have hunprotected : ¬ Protected p s.exclusions assign := fun h => by cases hb'.mpr h
      obtain ⟨call?, hcall?, hcall'⟩ := onlyCall?_iff hp hn
      simp only [Bool.false_eq_true, if_false, hcall?, except_ok_bind]
      cases call? with
      | none =>
        refine ⟨none, rfl, hnone fun assign' statement' name h => ?_⟩
        obtain ⟨call, honly, -⟩ := h.forwards
        cases (hcall' call).mpr honly
      | some call =>
        obtain ⟨name?, hname, hname'⟩ :=
          forwardName_iff hp hn hassigned.fn_kind ((hcall' call).mp rfl) s.registry
        refine ⟨name?, hname, fun name => (hname' name).trans ?_⟩
        constructor
        · rintro ⟨hnamed, hforward⟩
          exact ⟨assign, statement, hassigned, hunprotected, hnamed, call, (hcall' call).mp rfl,
            hforward⟩
        · rintro ⟨assign', statement', h⟩
          obtain ⟨call', honly, hforward⟩ := h.forwards
          cases (hcall' call').mpr honly
          exact ⟨h.named, hforward⟩

/-- The names that the second walk drops are those that the map has for another function. -/
theorem rival?_iff {s : Removal} (hs : s.program = p) {n : Handle} (hn : p.Below top n) :
    ∃ name?, rival? s n (p.parentOf n) = .ok name? ∧ ∀ name, name? = some name ↔
      AssignedAs p n name ∧ (s.candidates.get? name).any (· != n) = true := by
  subst hs
  generalize hp' : s.program = p at hp hn
  -- the checks in the order of the walk, as for the candidates
  obtain ⟨a, ha, ha'⟩ := isFunctionAssignment_iff hp hn
  unfold rival?
  rw [hp', ha, except_ok_bind]
  cases a with
  | false =>
    refine ⟨none, rfl, fun name => ?_⟩
    constructor
    · intro h
      cases h
    · rintro ⟨⟨h, -⟩, -⟩
      have := ha'.mpr h
      cases this
  | true =>
    obtain ⟨assign, statement, hassigned⟩ := ha'.mp rfl
    obtain ⟨name?, hname, -⟩ := hp.functionName_ok hn hassigned.fn_kind
    simp only [Bool.not_true, Bool.false_eq_true, if_false, hname, except_ok_bind]
    cases name? with
    | none =>
      refine ⟨none, rfl, fun name => ?_⟩
      constructor
      · intro h
        cases h
      · rintro ⟨⟨-, h⟩, -⟩
        rw [hname] at h
        cases h
    | some name =>
      refine ⟨_, rfl, fun name' => ?_⟩
      constructor
      · intro h
        split at h
        · next hany =>
          cases h
          exact ⟨⟨⟨assign, statement, hassigned⟩, hname⟩, hany⟩
        · cases h
      · rintro ⟨⟨-, h⟩, hany⟩
        rw [hname] at h
        cases h
        rw [if_pos hany]

end Deciding

end Removal

end SuperForward
