/-
  What removal changes, and what it leaves as it is.

  The removed statements lose their parents and their parents lose them; every other link and
  everything else that is known of any node stays. For each record one deleted function and one
  changed scope is noted, in the order of the records. A changed scope is still in the program:
  the statement of a forward holds no statement of another one, so that no scope of a removed
  statement is removed itself.
-/
import SuperForward.Proofs.Forward.Again

namespace SuperForward

open SuperForward.Program (root Below)

namespace Program

/-- A program is another one in which some nodes have been taken off their parents. Nothing but
links has changed, and no other links than those of the removed nodes. -/
structure TakenOff (p : Program) (removed : List Handle) (q : Program) : Prop where
  size : q.size = p.size
  parent_removed : ∀ d ∈ removed, q.parentOf d = none
  parent_kept : ∀ n, n ∉ removed → q.parentOf n = p.parentOf n
  children_former : ∀ d ∈ removed, ∀ parent, p.parentOf d = some parent →
    q.childrenOf parent = (p.childrenOf parent).filter (· ∉ removed)
  children_kept : ∀ n, (∀ d ∈ removed, p.parentOf d ≠ some n) → q.childrenOf n = p.childrenOf n
  contents : ∀ (n : Handle) (node : Node), p.nodes[n]? = some node →
    q.nodes[n]? = some { node with parent := q.parentOf n, children := q.childrenOf n }

theorem Forest.takenOff_without {p : Program} (hp : p.Forest) (removed : List Handle) :
    p.TakenOff removed (p.without removed) where
  size := size_without
  parent_removed d hd := by rw [parentOf_without, if_pos hd]
  parent_kept n hn := by rw [parentOf_without, if_neg hn]
  children_former _ _ _ _ := childrenOf_without
  children_kept n hn := by
    rw [childrenOf_without, List.filter_eq_self]
    intro c hc
    rw [decide_eq_true_iff]
    exact fun hmem => hn c hmem (hp.mem_children_iff.mp hc)
  contents n node hn := by
    have hparent : p.parentOf n = node.parent := by
      unfold parentOf
      rw [hn]
      rfl
    have hchildren : p.childrenOf n = node.children := by
      unfold childrenOf
      rw [hn]
      rfl
    rw [nodes_without, hn, parentOf_without, childrenOf_without, hparent, hchildren]
    rfl

end Program

namespace Removal

/-- The scope of a statement that is removed is not removed itself, and not with another
statement. -/
theorem below_scope_of_taken {p : Program} (hp : p.Parsed) {r : Registry} {tags : List String}
    {taken : List Taken}
    (htaken : ∀ t : Taken, t ∈ taken ↔ Removable p r tags root t.fn t.statement t.name)
    {t : Taken} (ht : t ∈ taken) {scope : Handle}
    (hscope : p.Nearest [.function, .script] t.statement scope) :
    (p.without (taken.map Taken.statement)).Below root scope := by
  have htremovable := (htaken t).mp ht
  obtain ⟨assign, hforward⟩ := htremovable.forwarder
  have hstatement := (hforward.assigned.below hp htremovable.within).2
  refine (hp.below_root_of_above hstatement hscope.below).without fun d hd hbelow => ?_
  obtain ⟨u, hu, rfl⟩ := List.mem_map.mp hd
  have huremovable := (htaken u).mp hu
  obtain ⟨assign', hforward'⟩ := huremovable.forwarder
  -- the statement would be below that of the other forward, and so be the same
  have hsame : t.statement = u.statement :=
    hforward'.eq_of_below hp huremovable.within hforward.assigned (hbelow.trans hscope.below)
  rw [← hsame] at hbelow
  exact hscope.ne (hp.forest.eq_of_below_of_below hscope.below hbelow)

/-- No statement is taken out twice. -/
theorem nodup_statements {p : Program} (hp : p.Parsed) {r : Registry} {tags : List String}
    {taken : List Taken}
    (htaken : ∀ t : Taken, t ∈ taken ↔ Removable p r tags root t.fn t.statement t.name)
    (hnodup : (taken.map Taken.fn).Nodup) : (taken.map Taken.statement).Nodup := by
  refine (List.Nodup.of_map _ hnodup).map_on fun t ht u hu hsame => ?_
  obtain ⟨assign, hforward⟩ := ((htaken t).mp ht).forwarder
  obtain ⟨assign', hforward'⟩ := ((htaken u).mp hu).forwarder
  have hfn : u.fn = t.fn := by
    refine hforward.function_eq hp ((htaken t).mp ht).within ?_ hforward'.assigned.fn_kind
    rw [hsame]
    exact (Below.here.child hforward'.assigned.assign_parent).child hforward'.assigned.fn_parent
  exact List.inj_on_of_nodup_map hnodup ht hu hfn.symm

/-- Removal of all forwards of a program of sources, whatever types its nodes have: one record
for each removed statement; the removed statements are taken off their parents, and nothing
else changes in the program; for each record the removed function is noted as deleted, and the
nearest function or script above the statement as changed. All changed scopes are still in the
program. -/
theorem outcome_process_frame (sources : List Source) (types : Handle → Option JsType)
    {s : Removal} (hs : s.program = (Program.ofSources sources).1.withTypes types) :
    ∃ (taken : List Taken) (records : List Removed) (scopes : List Handle) (s' : Removal),
      (process root).outcome s = (.ok records, s') ∧
      (∀ t : Taken, t ∈ taken ↔
        Removable s.program s.registry s.exclusions root t.fn t.statement t.name) ∧
      Recorded s.program taken records ∧
      (taken.map Taken.statement).Nodup ∧
      (∀ t ∈ taken, s.program.kindOf? t.statement = some .exprResult) ∧
      s.program.TakenOff (taken.map Taken.statement) s'.program ∧
      s'.deletedFunctions = s.deletedFunctions ++ taken.map Taken.fn ∧
      s'.changedScopes = s.changedScopes ++ scopes ∧
      Scoped s.program taken scopes ∧
      (∀ scope ∈ scopes, s'.program.isAttached scope = .ok true) := by
  have hparsed : s.program.Parsed := hs ▸ Program.parsed_ofSources sources types
  obtain ⟨taken, records, scopes, s', hout, htaken, hsublist, hrecords, hs', hnoted, hscoped⟩ :=
    outcome_process_noted hparsed .here (s := s) ⟨rfl, rfl, rfl⟩
  have hnodup := (hparsed.forest.nodup_postOrder root).sublist hsublist
  refine ⟨taken, records, scopes, s', hout, htaken, hrecords,
    nodup_statements hparsed htaken hnodup, ?_, ?_, hnoted.deleted, hnoted.changed, hscoped, ?_⟩
  · exact fun t ht => areStatements_taken htaken _ (List.mem_map_of_mem ht)
  · rw [hs'.program]
    exact hparsed.forest.takenOff_without _
  · intro scope hmem
    obtain ⟨t, ht, hnearest⟩ := Program.forall₂_exists_of_mem hscoped.flip hmem
    have hbelow := below_scope_of_taken hparsed htaken ht hnearest
    have hparsed' := hparsed.without (areStatements_taken htaken)
    obtain ⟨b, hb, hiff⟩ := hparsed'.forest.isAttached_eq (hparsed'.lt_size_of_below hbelow)
    rw [hs'.program, hb, hiff.mpr hbelow]

/-- A forward in the body of a function: the statement goes, and the function that it was in is
the scope that has changed. -/
theorem outcome_process_frame_nestedProgram :
    (Removal.start nestedProgram .empty []).program
        = (Program.ofSources [nestedScript]).1.withTypes
          (fun _ => some (.function "m" .void false)) ∧
      ∃ (taken : List Taken) (records : List Removed) (scopes : List Handle) (s' : Removal),
        (process root).outcome (.start nestedProgram .empty []) = (.ok records, s') ∧
        (∀ t : Taken, t ∈ taken ↔
          Removable nestedProgram .empty [] root t.fn t.statement t.name) ∧
        Recorded nestedProgram taken records ∧
        (taken.map Taken.statement).Nodup ∧
        (∀ t ∈ taken, nestedProgram.kindOf? t.statement = some .exprResult) ∧
        nestedProgram.TakenOff (taken.map Taken.statement) s'.program ∧
        s'.deletedFunctions = [] ++ taken.map Taken.fn ∧
        s'.changedScopes = [] ++ scopes ∧
        Scoped nestedProgram taken scopes ∧
        (∀ scope ∈ scopes, s'.program.isAttached scope = .ok true) :=
  ⟨rfl, outcome_process_frame [nestedScript] _ (s := .start nestedProgram .empty []) rfl⟩

example : ((process root).outcome (.start nestedProgram .empty [])).2.deletedFunctions.length = 1 ∧
    ((process root).outcome (.start nestedProgram .empty [])).2.changedScopes.map
      nestedProgram.kindOf? = [some .function] := by
  decide +kernel

end Removal

end SuperForward
