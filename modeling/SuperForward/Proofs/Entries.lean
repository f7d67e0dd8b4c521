/-
  The entries of maps.

  What is looked up in a map is what stands in its list of entries, in which every key stands
  once. After several values have been put into it, the last one counts.
-/
import SuperForward.Data.OrderedMap
import Mathlib.Data.List.Basic

namespace SuperForward.OrderedMap

variable {α β : Type} [DecidableEq α]

/-! ## Putting and looking up -/

/-- What is in a list of entries after a value has been put there. -/
theorem mem_put {key : α} {value : β} {es : List (α × β)} {e : α × β}
    (h : e ∈ put key value es) : e = (key, value) ∨ e ∈ es := by
  induction es with
  | nil => exact .inl (List.mem_singleton.mp h)
  | cons e' es ih =>
    rw [put] at h
    split at h
    · next hk =>
      rcases List.mem_cons.mp h with rfl | h
      · exact .inl (by rw [hk])
      · exact .inr (List.mem_cons_of_mem _ h)
    · rcases List.mem_cons.mp h with rfl | h
      · exact .inr (List.mem_cons_self ..)
      · exact (ih h).imp id (List.mem_cons_of_mem _)

theorem mem_of_lookup {key : α} {value : β} {es : List (α × β)} (h : lookup key es = some value) :
    (key, value) ∈ es := by
  induction es with
  | nil => cases h
  | cons e es ih =>
    rw [lookup] at h
    split at h
    · next hk =>
      cases h
      rw [← hk]
      exact List.mem_cons_self ..
    · exact List.mem_cons_of_mem _ (ih h)

theorem lookup_of_mem {key : α} {value : β} {es : List (α × β)}
    (hnodup : (es.map Prod.fst).Nodup) (h : (key, value) ∈ es) : lookup key es = some value := by
  induction es with
  | nil => exact absurd h List.not_mem_nil
  | cons e es ih =>
    rw [List.map_cons, List.nodup_cons] at hnodup
    rw [lookup]
    rcases List.mem_cons.mp h with rfl | h
    · rw [if_pos rfl]
    · have hne : e.1 ≠ key := by
        rintro rfl
        exact hnodup.1 (List.mem_map.mpr ⟨_, h, rfl⟩)
      rw [if_neg hne]
      exact ih hnodup.2 h

theorem nodup_put {key : α} {value : β} {es : List (α × β)} (h : (es.map Prod.fst).Nodup) :
    ((put key value es).map Prod.fst).Nodup := by
  induction es with
  | nil => simp [put]
  | cons e es ih =>
    rw [List.map_cons, List.nodup_cons] at h
    rw [put]
    split
    · rw [List.map_cons, List.nodup_cons]
      exact h
    · next hk =>
      rw [List.map_cons, List.nodup_cons]
      refine ⟨?_, ih h.2⟩
      intro hmem
      obtain ⟨e', he', heq⟩ := List.mem_map.mp hmem
      rcases mem_put he' with rfl | he'
      · exact hk heq.symm
      · exact h.1 (List.mem_map.mpr ⟨e', he', heq⟩)

/-! ## Maps that are filled -/

theorem insertAll_cons (m : OrderedMap α β) (e : α × β) (es : List (α × β)) :
    m.insertAll (e :: es) = (m.insert e.1 e.2).insertAll es := rfl

theorem nodup_keys_insertAll {m : OrderedMap α β} (h : m.keys.Nodup) (es : List (α × β)) :
    (m.insertAll es).keys.Nodup := by
  induction es generalizing m with
  | nil => exact h
  | cons e es ih => exact ih (nodup_put h)

theorem nodup_keys_ofList (es : List (α × β)) : (ofList es).keys.Nodup :=
  nodup_keys_insertAll (m := empty) List.nodup_nil es

/-- With keys that are different, what is looked up is what there is. -/
theorem mem_entries_iff {m : OrderedMap α β} (h : m.keys.Nodup) {key : α} {value : β} :
    (key, value) ∈ m.entries ↔ m.get? key = some value :=
  ⟨lookup_of_mem h, mem_of_lookup⟩

/-- The value that entries give to a key last. -/
def last? (key : α) (es : List (α × β)) : Option β := es.reverse.lookup key

theorem last?_cons (key : α) (e : α × β) (es : List (α × β)) :
    last? key (e :: es) = (last? key es).or (if e.1 = key then some e.2 else none) := by
  obtain ⟨k, v⟩ := e
  unfold last?
  rw [List.reverse_cons, List.lookup_append, List.lookup_cons, List.lookup_nil]
  by_cases h : k = key
  · simp [h]
  · simp [h, beq_false_of_ne (Ne.symm h)]

/-- After several values have been put in, the last one of a key counts. -/
theorem get?_insertAll (m : OrderedMap α β) (es : List (α × β)) (key : α) :
    (m.insertAll es).get? key = (last? key es).or (m.get? key) := by
  induction es generalizing m with
  | nil => rfl
  | cons e es ih =>
    rw [insertAll_cons, ih, get?_insert, last?_cons, Option.or_assoc]
    congr 1
    split <;> rfl

theorem keys_insert (m : OrderedMap α β) (key : α) (value : β) :
    (m.insert key value).keys = if key ∈ m.keys then m.keys else m.keys ++ [key] := by
  unfold insert keys
  induction m.entries with
  | nil => rfl
  | cons e es ih =>
    rw [put]
    by_cases h : e.1 = key
    · simp [h]
    · simp only [if_neg h, List.map_cons, ih, List.mem_cons, Ne.symm h, false_or]
      split
      · rfl
      · rfl

/-- New keys come after those that were there, in the order in which they came first. -/
theorem keys_insertAll (m : OrderedMap α β) (es : List (α × β)) :
    (m.insertAll es).keys
      = m.keys ++ ((es.map Prod.fst).filter fun k => decide (k ∉ m.keys)).eraseDups := by
  induction es generalizing m with
  | nil => exact (List.append_nil _).symm
  | cons e es ih =>
    rw [insertAll_cons, ih, keys_insert, List.map_cons]
    by_cases h : e.1 ∈ m.keys
    · rw [if_pos h, List.filter_cons_of_neg (by simpa using h)]
    · rw [if_neg h, List.filter_cons_of_pos (by simpa using h), List.eraseDups_cons,
        List.filter_filter, List.append_assoc, List.singleton_append]
      congr 4
      funext k
      by_cases hk : k = e.1 <;> simp [hk]

theorem keys_ofList (es : List (α × β)) : (ofList es).keys = (es.map Prod.fst).eraseDups := by
  have h := keys_insertAll (empty : OrderedMap α β) es
  have hnew : ((es.map Prod.fst).filter fun k => decide (k ∉ (empty : OrderedMap α β).keys))
      = es.map Prod.fst := List.filter_eq_self.mpr fun k _ => decide_eq_true List.not_mem_nil
  rwa [hnew] at h

/-- Entries with different keys are known from what is looked up. -/
theorem entries_eq {m : OrderedMap α β} (h : m.keys.Nodup) :
    m.entries = m.keys.filterMap fun k => (m.get? k).map fun v => (k, v) := by
  have hself : ∀ e ∈ m.entries, ((m.get? e.1).map fun v => (e.1, v)) = some e := fun e he => by
    rw [(mem_entries_iff h).mp he]
    rfl
  unfold keys
  rw [List.filterMap_map]
  conv => lhs; rw [← List.filterMap_some (l := m.entries)]
  exact List.filterMap_congr fun e he => (hself e he).symm

/-- Values of other keys do not matter. -/
theorem get?_insertAll_of_not_mem {m : OrderedMap α β} {es : List (α × β)} {key : α}
    (h : ∀ e ∈ es, e.1 ≠ key) : (m.insertAll es).get? key = m.get? key := by
  induction es generalizing m with
  | nil => rfl
  | cons e es ih =>
    rw [insertAll_cons, ih fun e' he' => h e' (List.mem_cons_of_mem _ he'), get?_insert,
      if_neg (h e (List.mem_cons_self ..))]

/-- If only one value is given to a key, the key has it. -/
theorem get?_insertAll_of_mem {m : OrderedMap α β} {es : List (α × β)} {key : α} {value : β}
    (hmem : (key, value) ∈ es) (hunique : ∀ v, (key, v) ∈ es → v = value) :
    (m.insertAll es).get? key = some value := by
  induction es generalizing m with
  | nil => exact absurd hmem List.not_mem_nil
  | cons e es ih =>
    rw [insertAll_cons]
    by_cases hlater : ∃ v, (key, v) ∈ es
    · obtain ⟨v, hv⟩ := hlater
      have hvalue : v = value := hunique v (List.mem_cons_of_mem _ hv)
      exact ih (hvalue ▸ hv) fun w hw => hunique w (List.mem_cons_of_mem _ hw)
    · have hnone : ∀ e' ∈ es, e'.1 ≠ key := by
        rintro ⟨k, v⟩ hv rfl
        exact hlater ⟨v, hv⟩
      rw [get?_insertAll_of_not_mem hnone, get?_insert]
      rcases List.mem_cons.mp hmem with rfl | h
      · rw [if_pos rfl]
      · exact absurd rfl (hnone _ h)

/-- What a map has that is filled with values, one for each key. -/
theorem get?_ofList_of_mem {es : List (α × β)} {key : α} {value : β} (hmem : (key, value) ∈ es)
    (hunique : ∀ v, (key, v) ∈ es → v = value) : (ofList es).get? key = some value :=
  get?_insertAll_of_mem hmem hunique

theorem get?_ofList_of_not_mem {es : List (α × β)} {key : α} (h : ∀ e ∈ es, e.1 ≠ key) :
    (ofList es).get? key = none :=
  get?_insertAll_of_not_mem h

end SuperForward.OrderedMap
