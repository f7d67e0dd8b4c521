/-
  Removal takes all forwards out or none.

  A program may have lost statements before removal starts, and removal may start anywhere, also
  at a node that is not in the program any more. Whatever is at or above the start is then gone
  with it: the forwards below the start are all in the program, or none of them is. In the
  second case removal ends with a fault at the first of them, before anything was taken out.
-/
import SuperForward.Proofs.Forward.Removing
import SuperForward.Proofs.Program.Reaching

namespace SuperForward

open SuperForward.Program (root Below)

/-! ## Programs that have lost statements -/

namespace Program

/-- A node stands where the grammar has statements: in a script, in a block, or below a node
without a sort of its own. -/
def IsStatement (p : Program) (n : Handle) : Prop :=
  ∃ parent, p.parentOf n = some parent ∧
    ∃ kind ∈ [NodeKind.script, .block, .other], p.kindOf? parent = some kind

section Detached

variable {p : Program} (hp : p.Parsed) {detached : List Handle}
  (hstatements : ∀ d ∈ detached, p.IsStatement d)
include hp hstatements

theorem Parsed.spares : p.Spares detached := by
  intro n s hs hregular hblock hother c hc hmem
  obtain ⟨parent, hparent, kind, hkind, hsort⟩ := hstatements c hmem
  rw [hp.forest.mem_children_iff.mp hc] at hparent
  cases hparent
  rw [hs.kindOf?] at hsort
  cases hsort
  have hfits := hregular.shaped.fits
  simp only [List.mem_cons, List.not_mem_nil, or_false] at hkind
  rcases hkind with hk | hk | hk
  · rw [hk] at hfits
    exact hfits
  · exact hblock hk
  · exact hother hk

/-- A detached statement is the top of what is as the grammar has it. -/
theorem Parsed.at_detached {d : Handle} (hd : d ∈ detached) (hbelow : p.Below root d) :
    (p.without detached).ParsedAt d := by
  obtain ⟨parent, hparent, kind, hkind, hsort⟩ := hstatements d hd
  have habove : p.Below root parent := by
    cases hbelow with
    | here =>
      rw [hp.root_parent] at hparent
      cases hparent
    | child up link =>
      rw [link] at hparent
      cases hparent
      exact up
  obtain ⟨s, hs, hregular⟩ : ∃ s, p.Shows d s ∧ s.Regular := by
    have hc := hp.forest.mem_children_iff.mpr hparent
    rcases hp.shows_of_below habove with ⟨rfl, -⟩ | ⟨t, ht, ht'⟩
    · rw [hp.kindOf?_root] at hsort
      cases hsort
      simp at hkind
    · obtain ⟨s, hs, hds⟩ := ht.child hc
      exact ⟨s, hds, ht'.elim (fun h => h.regular s hs) fun h => h.child hs⟩
  obtain ⟨s', hs', hregular', -⟩ := hs.remaining (hp.spares hstatements) hregular
  refine ⟨hp.forest.without detached, by rw [parentOf_without, if_pos hd], s', hs',
    .inr ⟨?_, hregular'⟩⟩
  rintro rfl
  rw [hp.root_parent] at hparent
  cases hparent

/-- Every node of what is left hangs below the root, or below a statement that was detached. -/
theorem Parsed.exists_parsedAt (hwhole : p.Whole) {n : Handle} (hn : n < p.size) :
    ∃ top, (p.without detached).ParsedAt top ∧ (p.without detached).Below top n := by
  have hlt : n < (p.without detached).size := by rwa [size_without]
  obtain ⟨top, htop, hbelow, hnone⟩ := (hp.forest.without detached).exists_top hlt
  rw [size_without] at htop
  refine ⟨top, ?_, hbelow⟩
  rw [parentOf_without] at hnone
  split at hnone
  · next hmem =>
    obtain ⟨top', htop', habove, hnone'⟩ := hp.forest.exists_top htop
    obtain rfl := hwhole top' htop' hnone'
    exact hp.at_detached hstatements hmem habove
  · obtain rfl := hwhole top htop hnone
    exact hp.without_spared (hp.spares hstatements)

end Detached

end Program

namespace Removal

section

variable {p : Program} {top : Handle} (hp : p.ParsedAt top) {r : Registry} {tags : List String}
include hp

/-- The statement of a forward that does not hang below the root is refused. -/
theorem Forwarder.statementOf_gone {fn assign statement : Handle} {name : QualifiedName}
    (h : Forwarder p r tags fn assign statement name) (hfn : p.Below top fn)
    (hgone : ¬ p.Below root fn) :
    statementOf p name fn = .error (.statementGone (toString name)) := by
  have hassign : assign < p.size := hp.forest.parent_lt_size h.assigned.fn_parent
  have hstatement : statement < p.size := hp.forest.parent_lt_size h.assigned.assign_parent
  obtain ⟨b, hb, hiff⟩ := hp.forest.isAttached_eq hstatement
  have hfalse : b = false := by
    rw [← Bool.not_eq_true, hiff]
    exact fun hroot => hgone ((hroot.child h.assigned.assign_parent).child h.assigned.fn_parent)
  subst hfalse
  unfold statementOf Program.grandparent
  simp only [Program.parent_of_lt (hp.lt_size_of_below hfn), Program.parent_of_lt hassign,
    h.assigned.fn_parent, h.assigned.assign_parent, except_ok_bind,
    Program.isKind_of_lt hstatement, h.assigned.statement_kind, hb]
  rfl

/-- Removal below a node that does not hang below the root ends at the first forward, if there
is one; it takes out nothing and notes nothing down. -/
theorem outcome_process_gone {start : Handle} (hstart : p.Below top start)
    (hroot : p.parentOf root = none) (hgone : ¬ p.Below root start) {s : Removal}
    (hs : LooksAt p r tags s) :
    ∃ s', s'.program = p ∧ notes s' = notes s ∧
      ((∃ fn statement name, Removable p r tags start fn statement name) ∧
          (∃ name, (process start).outcome s = (.error (.statementGone name), s')) ∨
        (¬ ∃ fn statement name, Removable p r tags start fn statement name) ∧
          (process start).outcome s = (.ok [], s')) := by
  obtain ⟨s₁, hs₁, hnotes, -, hentries, hprocess⟩ := outcome_process_eq hp hstart hs
  rw [hprocess]
  cases hlist : s₁.candidates.entries with
  | nil =>
    rw [hlist] at hentries
    refine ⟨{ s₁ with candidates := .empty }, hs₁.program, hnotes, .inr ⟨?_, rfl⟩⟩
    rintro ⟨fn, statement, name, h⟩
    exact absurd ((hentries name fn).mpr ⟨statement, h⟩) List.not_mem_nil
  | cons e es =>
    obtain ⟨name, fn⟩ := e
    rw [hlist] at hentries
    obtain ⟨statement, h⟩ := (hentries name fn).mp (List.mem_cons_self ..)
    obtain ⟨assign, hforward⟩ := h.forwarder
    -- the forward is gone with the start, and nothing has been taken out before it
    have hrefused := hforward.statementOf_gone hp (hstart.trans h.within) fun hfn =>
      hgone (hfn.of_above hroot h.within)
    refine ⟨s₁, hs₁.program, hnotes, .inl ⟨⟨fn, statement, name, h⟩, toString name, ?_⟩⟩
    rw [List.mapM_cons]
    refine Task.outcome_bind_error (Task.outcome_bind_error (outcome_ask_bind_error ?_ _))
    rw [hs₁.program]
    exact hrefused

end

/-- Removal below any node of a program of sources that may have lost statements. It ends with a
fault exactly if the node is not in the program any more and has forwards below it that are alone
with their names; it has then changed neither the program nor its notes. -/
theorem outcome_process_all_or_none (sources : List Source) (types : Handle → Option JsType)
    {p q : Program} (hp : p = (Program.ofSources sources).1.withTypes types)
    {detached : List Handle} (hstatements : ∀ d ∈ detached, p.IsStatement d)
    (hq : (detached.forM Program.detach).outcome p = (.ok (), q)) {r : Registry}
    {tags : List String} {start : Handle} (hstart : start < q.size) {s : Removal}
    (hs : LooksAt q r tags s) :
    ((∃ name s', (process start).outcome s = (.error (.statementGone name), s')) ↔
      q.isAttached start = .ok false ∧
        ∃ fn statement name, Removable q r tags start fn statement name) ∧
    ∀ fault s', (process start).outcome s = (.error fault, s') →
      (∃ name, fault = .statementGone name) ∧ s'.program = s.program ∧
        s'.changedScopes = s.changedScopes ∧ s'.deletedFunctions = s.deletedFunctions := by
  have hparsed : p.Parsed := hp ▸ Program.parsed_ofSources sources types
  have hwhole : p.Whole := by
    intro n hn hnone
    subst hp
    rw [Program.size_withTypes] at hn
    rw [Program.parentOf_withTypes] at hnone
    exact Program.whole_ofSources sources n hn hnone
  obtain rfl := hparsed.forest.eq_without_of_detach hq
  obtain ⟨b, hb, hiff⟩ := (hparsed.forest.without detached).isAttached_eq hstart
  rw [hb]
  by_cases hattached : (p.without detached).Below root start
  · -- everything below the start is in the program
    obtain ⟨taken, records, s', hout, -⟩ := outcome_process_of_parsed
      (hparsed.without_spared (hparsed.spares hstatements)) hattached hs
    rw [hout, hiff.mpr hattached]
    refine ⟨⟨?_, ?_⟩, ?_⟩
    · rintro ⟨name, s'', h⟩
      cases h
    · rintro ⟨h, -⟩
      cases h
    · intro fault s'' h
      cases h
  · rw [Program.size_without] at hstart
    obtain ⟨top, htop, hbelow⟩ := hparsed.exists_parsedAt hstatements hwhole hstart
    have hroot : (p.without detached).parentOf root = none := by
      rw [Program.parentOf_without, hparsed.root_parent]
      split <;> rfl
    obtain rfl : b = false := by
      rw [← Bool.not_eq_true, hiff]
      exact hattached
    obtain ⟨s', hprogram, hnotes, ⟨hsome, name, hout⟩ | ⟨hnone, hout⟩⟩ :=
      outcome_process_gone htop hbelow hroot hattached hs
    · rw [hout]
      refine ⟨⟨fun _ => ⟨rfl, hsome⟩, fun _ => ⟨name, s', rfl⟩⟩, fun fault s'' h => ?_⟩
      cases h
      exact ⟨⟨name, rfl⟩, hprogram.trans hs.program.symm, congrArg Prod.fst hnotes,
        congrArg Prod.snd hnotes⟩
    · rw [hout]
      refine ⟨⟨?_, fun h => absurd h.2 hnone⟩, ?_⟩
      · rintro ⟨name, s'', h⟩
        cases h
      · intro fault s'' h
        cases h

/-- Where the only statement of a script was detached before, removal at the function in it is
refused. -/
theorem outcome_process_all_or_none_forwardProgram :
    (∀ d ∈ [16], forwardProgram.IsStatement d) ∧
      ([16].forM Program.detach).outcome forwardProgram = (.ok (), forwardProgram.without [16]) ∧
      14 < (forwardProgram.without [16]).size ∧
      (((∃ name s', (process 14).outcome (.start (forwardProgram.without [16]) .empty [])
            = (.error (.statementGone name), s')) ↔
          (forwardProgram.without [16]).isAttached 14 = .ok false ∧
            ∃ fn statement name,
              Removable (forwardProgram.without [16]) .empty [] 14 fn statement name) ∧
        ∀ fault s', (process 14).outcome (.start (forwardProgram.without [16]) .empty [])
            = (.error fault, s') →
          (∃ name, fault = .statementGone name) ∧ s'.program = forwardProgram.without [16] ∧
            s'.changedScopes = [] ∧ s'.deletedFunctions = []) ∧
      ((process 14).outcome (.start (forwardProgram.without [16]) .empty [])).1
        = .error (.statementGone "B.prototype.m") := by
  have hparent : forwardProgram.parentOf 16 = some 17 := by decide +kernel
  have hstatements : ∀ d ∈ [16], forwardProgram.IsStatement d :=
    List.forall_mem_singleton.mpr ⟨17, hparent, .script, by decide, by decide +kernel⟩
  have hforest : forwardProgram.Forest := (Program.parsed_ofSources [forwardScript] _).forest
  have hdetach : ([16].forM Program.detach).outcome forwardProgram
      = (.ok (), forwardProgram.without [16]) :=
    Task.outcome_bind_ok (hforest.detach_eq hparent)
  have hlt : 14 < (forwardProgram.without [16]).size := by decide +kernel
  exact ⟨hstatements, hdetach, hlt, outcome_process_all_or_none [forwardScript] _ rfl hstatements
    hdetach hlt ⟨rfl, rfl, rfl⟩, by decide +kernel⟩

end Removal

end SuperForward
