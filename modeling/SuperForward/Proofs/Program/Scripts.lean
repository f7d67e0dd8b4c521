/-
  Programs of scripts.

  A program that scripts were added to is a forest whose root shows the scripts, one below the
  other, in the order in which they came.
-/
import SuperForward.Analysis
import SuperForward.Proofs.Program.Building

namespace SuperForward.Program

open SuperForward.Script

/-- The program is made of scripts and nothing else that is attached; no types are known. -/
structure Composed (p : Program) (scripts : List Sketch) : Prop where
  mem_children_iff : ∀ {n c : Nat}, c ∈ p.childrenOf n ↔ p.parentOf c = some n
  nodup_children : ∀ n, (p.childrenOf n).Nodup
  younger : ∀ {n c : Nat}, p.parentOf c = some n → n = root ∨ c < n
  root_parent : p.parentOf root = none
  shows : p.Shows root (.fresh .root "" ⟨0, 0, 0⟩ scripts)
  untyped : ∀ (n : Nat) (node : Node), p.nodes[n]? = some node → node.type = none

theorem Composed.root_lt_size {p : Program} {scripts : List Sketch} (h : p.Composed scripts) :
    root < p.size := h.shows.lt_size

/-- The links of a program of scripts lead upwards. -/
theorem Composed.forest {p : Program} {scripts : List Sketch} (h : p.Composed scripts) :
    p.Forest where
  mem_children_iff := h.mem_children_iff
  nodup_children := h.nodup_children
  ranked := by
    refine ⟨fun n : Nat => if n = root then p.size else if n < p.size then n else 0, ?_, ?_⟩
    · intro n
      show (if n = root then p.size else if n < p.size then n else 0) ≤ p.size
      split
      · exact Nat.le_refl _
      · split
        · next hn => exact Nat.le_of_lt hn
        · exact Nat.zero_le _
    · intro n c hc
      show (if c = root then p.size else if c < p.size then c else 0)
        < (if n = root then p.size else if n < p.size then n else 0)
      have hcroot : c ≠ root := by
        rintro rfl
        rw [h.root_parent] at hc
        cases hc
      have hclt : c < p.size := lt_size_of_parentOf hc
      have hnlt : n < p.size := lt_size_of_mem_children (h.mem_children_iff.mpr hc)
      rw [if_neg hcroot, if_pos hclt, if_pos hnlt]
      rcases h.younger hc with hn | hn
      · rw [if_pos hn]
        exact hclt
      · split
        · exact hclt
        · exact hn

/-- The program without scripts. -/
theorem composed_empty : empty.Composed [] := by
  -- there is one node, the root, which is at the first handle
  have hnodes : ∀ (n : Nat) (node : Node), empty.nodes[n]? = some node →
      node = .fresh .root "" 0 0 0 := by
    intro n node hn
    match n with
    | 0 => exact (Option.some.inj hn).symm
    | n + 1 => cases hn
  have hparent : ∀ c : Nat, empty.parentOf c = none := by
    intro c
    unfold parentOf
    cases hc : empty.nodes[c]? with
    | none => rfl
    | some node =>
      rw [hnodes c node hc]
      rfl
  have hchildren : ∀ n : Nat, empty.childrenOf n = [] := by
    intro n
    unfold childrenOf
    cases hn : empty.nodes[n]? with
    | none => rfl
    | some node =>
      rw [hnodes n node hn]
      rfl
  refine ⟨?_, ?_, ?_, hparent root, ?_, ?_⟩
  · intro n c
    rw [hparent, hchildren]
    simp
  · intro n
    rw [hchildren]
    exact List.nodup_nil
  · intro n c hc
    rw [hparent] at hc
    cases hc
  · exact shows_iff.mpr ⟨_, rfl, rfl, rfl, rfl, rfl, .nil⟩
  · intro n node hn
    rw [hnodes n node hn]
    rfl

/-! ## Hanging a script below the root -/

/-- A node that has no parent becomes the last child of the root. -/
def hang (q : Program) (n : Handle) : Program :=
  (q.update n fun node => { node with parent := some root }).update root
    fun node => { node with children := node.children ++ [n] }

theorem nodes_hang {q : Program} {n m : Handle} (hn : n ≠ root) :
    (q.hang n).nodes[m]? = (q.nodes[m]?).map fun node =>
      if m = root then { node with children := node.children ++ [n] }
      else if m = n then { node with parent := some root } else node := by
  unfold hang Program.update
  rw [Array.getElem?_modify, Array.getElem?_modify]
  by_cases hm : m = root
  · subst hm
    cases q.nodes[root]? <;> simp [hn]
  · by_cases hmn : m = n
    · subst hmn
      cases q.nodes[m]? <;> simp [hm, Ne.symm hm]
    · cases q.nodes[m]? <;> simp [hm, hmn, Ne.symm hm, Ne.symm hmn]

theorem size_hang {q : Program} {n : Handle} : (q.hang n).size = q.size := by
  simp [hang, Program.size, Program.update]

theorem parentOf_hang {q : Program} {n c : Handle} (hn : n ≠ root) (hlt : n < q.size) :
    (q.hang n).parentOf c = if c = n then some root else q.parentOf c := by
  unfold parentOf
  rw [nodes_hang hn]
  by_cases hc : c = n
  · subst hc
    obtain ⟨node, hnode⟩ := lt_size_iff.mp hlt
    simp [hnode, hn]
  · rw [if_neg hc]
    cases q.nodes[c]? with
    | none => rfl
    | some node =>
      simp only [Option.map_some, Option.bind_some, if_neg hc]
      split <;> rfl

theorem childrenOf_hang {q : Program} {n m : Handle} (hn : n ≠ root) (hroot : root < q.size) :
    (q.hang n).childrenOf m
      = if m = root then q.childrenOf root ++ [n] else q.childrenOf m := by
  unfold childrenOf
  rw [nodes_hang hn]
  by_cases hm : m = root
  · subst hm
    obtain ⟨node, hnode⟩ := lt_size_iff.mp hroot
    simp [hnode]
  · rw [if_neg hm]
    cases q.nodes[m]? with
    | none => rfl
    | some node =>
      simp only [Option.map_some, Option.getD_some, if_neg hm]
      split <;> rfl

section

variable {p q : Program} {scripts : List Sketch} {tops : List Handle}
  (hp : p.Composed scripts) (h : Grown p q tops)
include hp h

/-- Old nodes are linked with old ones only, and new nodes with new ones. -/
theorem Composed.mem_children_grown {m c : Nat} :
    c ∈ q.childrenOf m ↔ q.parentOf c = some m := by
  by_cases hm : m < p.size
  · rw [childrenOf_eq_of_nodes_eq (h.old m hm)]
    by_cases hc : c < p.size
    · rw [parentOf_eq_of_nodes_eq (h.old c hc), hp.mem_children_iff]
    · refine iff_of_false (fun hmem => hc (hp.forest.lt_size_of_mem hmem)) fun hparent => ?_
      have hyounger := (h.younger (Nat.not_lt.mp hc) hparent).1
      omega
  · rw [h.mem_children_iff (Nat.not_lt.mp hm)]
    refine and_iff_right_of_imp fun hparent => Nat.not_lt.mp fun hc => hm ?_
    rw [parentOf_eq_of_nodes_eq (h.old c hc), ← hp.mem_children_iff] at hparent
    exact lt_size_of_mem_children hparent

/-- A program that has grown is made of the same scripts: what is new is not attached. -/
theorem Composed.grown : q.Composed scripts where
  mem_children_iff := hp.mem_children_grown h
  nodup_children m := by
    by_cases hm : m < p.size
    · rw [childrenOf_eq_of_nodes_eq (h.old m hm)]
      exact hp.nodup_children m
    · exact h.nodup_children m (Nat.not_lt.mp hm)
  younger := by
    intro m c hc
    by_cases hcp : c < p.size
    · rw [parentOf_eq_of_nodes_eq (h.old c hcp)] at hc
      exact hp.younger hc
    · exact .inr (h.younger (Nat.not_lt.mp hcp) hc).1
  root_parent := by
    rw [parentOf_eq_of_nodes_eq (h.old root hp.root_lt_size)]
    exact hp.root_parent
  shows := by
    obtain ⟨node, hnode, hkind, htext, hdoc, hextent, hscripts⟩ := shows_iff.mp hp.shows
    refine shows_iff.mpr ⟨node, ?_, hkind, htext, hdoc, hextent, ?_⟩
    · rw [h.old root hp.root_lt_size, hnode]
    · exact forall₂_imp_of_mem (fun _ _ _ _ ht => ht.keeps h.keeps) hscripts
  untyped := by
    intro m node hnode
    by_cases hm : m < p.size
    · rw [h.old m hm] at hnode
      exact hp.untyped m node hnode
    · exact h.untyped m node (Nat.not_lt.mp hm) hnode

end

section

variable {q : Program} {scripts : List Sketch} (hq : q.Composed scripts) {n : Nat} (hn : n ≠ root)
include hq hn

/-- What a node other than the root shows stays below it when another one is hung below the
root. -/
theorem Composed.shows_hang {m : Handle} {t : Sketch} (hm : m ≠ root) (ht : q.Shows m t) :
    (q.hang n).Shows m t := by
  refine ht.congr (S := fun m => m ≠ root) ?_ ?_ hm
  · -- the root is below no node
    rintro k - c hc rfl
    rw [hq.mem_children_iff, hq.root_parent] at hc
    cases hc
  · intro k node hk hnode
    rw [nodes_hang hn, hnode, Option.map_some, if_neg hk]
    split
    · exact ⟨some root, rfl⟩
    · exact ⟨node.parent, rfl⟩

/-- The scripts below the root stay, and the new one comes last. -/
theorem Composed.shows_root_hang {s : Sketch} (hs : q.Shows n s) :
    (q.hang n).Shows root (.fresh .root "" ⟨0, 0, 0⟩ (scripts ++ [s])) := by
  obtain ⟨node, hnode, hkind, htext, hdoc, hextent, hscripts⟩ := shows_iff.mp hq.shows
  rw [shows_iff]
  refine ⟨{ node with children := node.children ++ [n] }, ?_, hkind, htext, hdoc, hextent, ?_⟩
  · rw [nodes_hang hn, hnode, Option.map_some, if_pos rfl]
  · refine List.rel_append (forall₂_imp_of_mem (fun m hm t _ ht => ?_) hscripts)
      (.cons (hq.shows_hang hn hn hs) .nil)
    refine hq.shows_hang hn ?_ ht
    rintro rfl
    have hm' : root ∈ q.childrenOf root := by
      unfold childrenOf
      rw [hnode]
      exact hm
    rw [hq.mem_children_iff, hq.root_parent] at hm'
    cases hm'

/-- A script that has no parent yet can be hung below the root. -/
theorem Composed.hang (hlt : n < q.size) (hnone : q.parentOf n = none) {s : Sketch}
    (hs : q.Shows n s) : (q.hang n).Composed (scripts ++ [s]) where
  mem_children_iff := by
    intro m c
    rw [childrenOf_hang hn hq.root_lt_size, parentOf_hang hn hlt]
    -- the script is not below anything yet, so the only link that is new is the one to the root
    have hfree : c = n → c ∉ q.childrenOf m := by
      rintro rfl hc
      rw [hq.mem_children_iff, hnone] at hc
      cases hc
    by_cases hcn : c = n
    · rw [if_pos hcn]
      by_cases hm : m = root
      · simp [hm, hcn]
      · simp [hm, hfree hcn, Ne.symm hm]
    · rw [if_neg hcn, ← hq.mem_children_iff]
      by_cases hm : m = root
      · simp [hm, hcn]
      · rw [if_neg hm]
  nodup_children := by
    intro m
    rw [childrenOf_hang hn hq.root_lt_size]
    split
    · refine List.nodup_append.mpr ⟨hq.nodup_children root, List.nodup_singleton n, ?_⟩
      rintro a ha b hb rfl
      rw [List.mem_singleton] at hb
      rw [hb, hq.mem_children_iff, hnone] at ha
      cases ha
    · exact hq.nodup_children m
  younger := by
    intro m c hc
    rw [parentOf_hang hn hlt] at hc
    split at hc
    · exact .inl (Option.some.inj hc).symm
    · exact hq.younger hc
  root_parent := by
    rw [parentOf_hang hn hlt, if_neg (Ne.symm hn)]
    exact hq.root_parent
  shows := hq.shows_root_hang hn hs
  untyped := by
    intro m node hm
    rw [nodes_hang hn] at hm
    obtain ⟨node', hnode', rfl⟩ := Option.map_eq_some_iff.mp hm
    have htype := hq.untyped m node' hnode'
    split
    · exact htype
    · split <;> exact htype

end

/-! ## Adding scripts -/

/-- The sketch of a script. -/
def scriptSketch (path : String) (length : Nat) (statements : List Tree) : Sketch :=
  .fresh .script path ⟨0, length, 1⟩ (Sketch.ofTrees statements)

theorem Composed.addScript {p : Program} {scripts : List Sketch} (hp : p.Composed scripts)
    (path : String) (length : Nat) (statements : List Tree) :
    (p.addScript path length statements).1.Composed
      (scripts ++ [scriptSketch path length statements]) := by
  obtain ⟨hgrown, hshows⟩ :=
    (Build.ofTrees_makes statements).make .script path ⟨0, length, 1⟩ p
  obtain ⟨hle, hlt, hnone⟩ := hgrown.new _ (List.mem_singleton_self _)
  have hnew : _ ≠ root := Nat.ne_of_gt (Nat.lt_of_lt_of_le hp.root_lt_size hle)
  exact (hp.grown hgrown).hang hnew hlt hnone hshows

/-- The sketches of those sources that are scripts. -/
def scriptsOf (sources : List Source) : List Sketch :=
  sources.filterMap fun s =>
    match Script.read s.text with
    | .ok statements => some (scriptSketch s.path s.text.length statements)
    | .error _ => none

theorem Composed.addSources {p : Program} {scripts : List Sketch} (hp : p.Composed scripts)
    (sources : List Source) :
    (p.addSources sources).1.Composed (scripts ++ scriptsOf sources) := by
  induction sources generalizing p scripts with
  | nil =>
    rw [scriptsOf, List.filterMap_nil, List.append_nil]
    exact hp
  | cons s rest ih =>
    unfold Program.addSources addText scriptsOf
    rw [List.filterMap_cons]
    cases Script.read s.text with
    | error e => exact ih hp
    | ok statements =>
      have h := ih (hp.addScript s.path s.text.length statements)
      rw [List.append_assoc] at h
      exact h

/-- The program of some sources is made of those that are scripts. -/
theorem composed_ofSources (sources : List Source) :
    (ofSources sources).1.Composed (scriptsOf sources) := composed_empty.addSources sources

end SuperForward.Program
