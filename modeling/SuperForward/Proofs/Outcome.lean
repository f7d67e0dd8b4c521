/-
  What a task comes to.

  `Task.outcome` of a computation is found part by part. `Task.Yields` says of a task that it
  succeeds from every state that satisfies one condition, and that its value and the state it
  leaves satisfy another one. `Task.Leaves` says of a part of the state that a task does not
  change it, whether it succeeds or not.
-/
import SuperForward.Program.Fault

namespace SuperForward.Task

variable {σ α β : Type}

/-! ## Part by part -/

@[simp] theorem outcome_pure (a : α) (s : σ) : outcome (pure a) s = (.ok a, s) := rfl

theorem outcome_bind (t : Task σ α) (f : α → Task σ β) (s : σ) :
    outcome (t >>= f) s = match outcome t s with
      | (.ok a, s') => outcome (f a) s'
      | (.error e, s') => (.error e, s') := by
  have h : outcome (t >>= f) s
      = (ExceptT.bindCont f (ExceptT.run t s).1).run (ExceptT.run t s).2 := rfl
  rw [h]
  show _ = match ExceptT.run t s with
      | (.ok a, s') => outcome (f a) s'
      | (.error e, s') => (.error e, s')
  rcases ExceptT.run t s with ⟨_ | _, _⟩ <;> rfl

/-- A computation goes on from the value and the state that its first part leaves. -/
theorem outcome_bind_ok {t : Task σ α} {f : α → Task σ β} {s s' : σ} {a : α}
    (h : outcome t s = (.ok a, s')) : outcome (t >>= f) s = outcome (f a) s' := by
  rw [outcome_bind, h]

/-- A computation ends with its first part if that fails. -/
theorem outcome_bind_error {t : Task σ α} {f : α → Task σ β} {s s' : σ} {e : Fault}
    (h : outcome t s = (.error e, s')) : outcome (t >>= f) s = (.error e, s') := by
  rw [outcome_bind, h]

/-- A computation that succeeds has a first part that does. -/
theorem outcome_bind_eq_ok {t : Task σ α} {f : α → Task σ β} {s s'' : σ} {b : β}
    (h : outcome (t >>= f) s = (.ok b, s'')) :
    ∃ a s', outcome t s = (.ok a, s') ∧ outcome (f a) s' = (.ok b, s'') := by
  rw [outcome_bind] at h
  split at h
  · next a s' ht => exact ⟨a, s', ht, h⟩
  · cases h

/-- What follows a computation without changing the state leaves what it left. -/
theorem snd_outcome_bind {t : Task σ α} {f : α → Task σ β} (hf : ∀ a s, (outcome (f a) s).2 = s)
    (s : σ) : (outcome (t >>= f) s).2 = (outcome t s).2 := by
  rw [outcome_bind]
  rcases outcome t s with ⟨_ | a, s'⟩
  · rfl
  · exact hf a s'

@[simp] theorem outcome_get_bind (f : σ → Task σ β) (s : σ) :
    outcome (get >>= f) s = outcome (f s) s := rfl

@[simp] theorem outcome_modify (f : σ → σ) (s : σ) :
    outcome (modify f : Task σ Unit) s = (.ok (), f s) := rfl

@[simp] theorem outcome_ofExcept (e : Except Fault α) (s : σ) :
    outcome (ofExcept e) s = (e, s) := rfl

/-- A computation goes on from what needs no state and does not fail. -/
theorem outcome_ofExcept_bind {e : Except Fault α} {a : α} (h : e = .ok a) (f : α → Task σ β)
    (s : σ) : outcome (ofExcept e >>= f) s = outcome (f a) s := by
  subst h
  exact outcome_bind_ok (outcome_ofExcept _ s)

/-! ## Tasks that succeed -/

/-- From every state that satisfies `before` the task succeeds, and leaves what satisfies
`after`. -/
def Yields (before : σ → Prop) (t : Task σ α) (after : α → σ → Prop) : Prop :=
  ∀ s, before s → ∃ a s', t.outcome s = (.ok a, s') ∧ after a s'

variable {before : σ → Prop} {between : α → σ → Prop} {after : β → σ → Prop}

theorem Yields.bind {t : Task σ α} {f : α → Task σ β} (h : Yields before t between)
    (hf : ∀ a, Yields (between a) (f a) after) : Yields before (t >>= f) after := by
  intro s hs
  obtain ⟨a, s₁, hout₁, h₁⟩ := h s hs
  obtain ⟨b, s₂, hout₂, h₂⟩ := hf a s₁ h₁
  exact ⟨b, s₂, by rw [outcome_bind_ok hout₁, hout₂], h₂⟩

theorem yields_pure {b : β} (h : ∀ s, before s → after b s) :
    Yields before (pure b : Task σ β) after :=
  fun s hs => ⟨b, s, rfl, h s hs⟩

theorem Yields.imp {t : Task σ β} {before' : σ → Prop} {after' : β → σ → Prop}
    (h : Yields before t after) (hbefore : ∀ s, before' s → before s)
    (hafter : ∀ b s, after b s → after' b s) : Yields before' t after' := by
  intro s hs
  obtain ⟨b, s', hout, h'⟩ := h s (hbefore s hs)
  exact ⟨b, s', hout, hafter b s' h'⟩

/-- What needs the state only once may look at it first. -/
theorem Yields.get_bind {f : σ → Task σ β}
    (h : ∀ s, before s → Yields (fun s' => s' = s) (f s) after) :
    Yields before (get >>= f) after := by
  intro s hs
  rw [outcome_get_bind]
  exact h s hs s rfl

theorem yields_modify {f : σ → σ} {after : Unit → σ → Prop}
    (h : ∀ s, before s → after () (f s)) : Yields before (modify f : Task σ Unit) after :=
  fun s hs => ⟨(), f s, rfl, h s hs⟩

/-- What every step of a list preserves is preserved by all of them together, and the values
are as each step says. -/
theorem Yields.mapM {I : σ → Prop} {f : α → Task σ β} {R : α → β → Prop} (xs : List α)
    (h : ∀ x ∈ xs, Yields I (f x) fun b s => I s ∧ R x b) :
    Yields I (xs.mapM f) fun bs s => I s ∧ ∀ b ∈ bs, ∃ x ∈ xs, R x b := by
  induction xs with
  | nil => exact yields_pure fun s hs => ⟨hs, by simp⟩
  | cons x xs ih =>
    rw [List.mapM_cons]
    refine (h x (List.mem_cons_self ..)).bind fun b => ?_
    intro s hs
    obtain ⟨bs, s', hout, hs', hbs⟩ := ih (fun y hy => h y (List.mem_cons_of_mem _ hy)) s hs.1
    refine ⟨b :: bs, s', by rw [outcome_bind_ok hout]; rfl, hs', ?_⟩
    intro c hc
    rcases List.mem_cons.mp hc with rfl | hc
    · exact ⟨x, List.mem_cons_self .., hs.2⟩
    · obtain ⟨y, hy, hr⟩ := hbs c hc
      exact ⟨y, List.mem_cons_of_mem _ hy, hr⟩

/-- What every turn of a loop preserves is preserved by the loop. -/
theorem Yields.forIn {I : σ → Prop} {f : α → Unit → Task σ (ForInStep Unit)} (xs : List α)
    (h : ∀ x ∈ xs, Yields I (f x ()) fun step s => step = .yield () ∧ I s) :
    Yields I (ForIn.forIn xs () f) fun _ => I := by
  induction xs with
  | nil => exact yields_pure fun s hs => hs
  | cons x xs ih =>
    rw [List.forIn_cons]
    refine (h x (List.mem_cons_self ..)).bind fun step => ?_
    intro s hs
    obtain ⟨rfl, hs⟩ := hs
    exact ih (fun y hy => h y (List.mem_cons_of_mem _ hy)) s hs

/-! ## Steps that are known -/

section Steps

variable {I : σ → Prop} {step : σ → α → σ}

/-- If each step of a list is known in every state that satisfies a condition, and keeps it, so
are all steps together. -/
theorem outcome_mapM {f : α → Task σ β} {g : α → β} {xs : List α}
    (h : ∀ s, ∀ x ∈ xs, I s → (f x).outcome s = (.ok (g x), step s x) ∧ I (step s x)) {s : σ}
    (hs : I s) :
    (xs.mapM f).outcome s = (.ok (xs.map g), xs.foldl step s) ∧ I (xs.foldl step s) := by
  induction xs generalizing s with
  | nil => exact ⟨rfl, hs⟩
  | cons x xs ih =>
    obtain ⟨hx, hs'⟩ := h s x (List.mem_cons_self ..) hs
    obtain ⟨hxs, hs''⟩ := ih (fun s y hy => h s y (List.mem_cons_of_mem _ hy)) hs'
    refine ⟨?_, hs''⟩
    rw [List.mapM_cons, outcome_bind_ok hx, outcome_bind_ok hxs]
    rfl

/-- If each turn of a loop is known in every state that satisfies a condition, and keeps it, so
is the loop. -/
theorem outcome_forIn {f : α → Task σ Unit} {xs : List α}
    (h : ∀ s, ∀ x ∈ xs, I s → (f x).outcome s = (.ok (), step s x) ∧ I (step s x)) {s : σ}
    (hs : I s) :
    (for x in xs do f x : Task σ Unit).outcome s = (.ok (), xs.foldl step s) ∧
      I (xs.foldl step s) := by
  induction xs generalizing s with
  | nil => exact ⟨rfl, hs⟩
  | cons x xs ih =>
    obtain ⟨hx, hs'⟩ := h s x (List.mem_cons_self ..) hs
    obtain ⟨hxs, hs''⟩ := ih (fun s y hy => h s y (List.mem_cons_of_mem _ hy)) hs'
    refine ⟨?_, hs''⟩
    simp only [List.forIn_cons, bind_assoc, pure_bind, bind_pure_unit] at hxs ⊢
    rw [outcome_bind_ok hx]
    exact hxs

/-- A loop goes on after a turn that succeeds. -/
theorem outcome_forIn_cons {f : α → Task σ Unit} {x : α} {xs : List α} {s s' : σ}
    (h : (f x).outcome s = (.ok (), s')) :
    (for x in x :: xs do f x : Task σ Unit).outcome s
      = (for x in xs do f x : Task σ Unit).outcome s' := by
  simp only [List.forIn_cons, bind_assoc, pure_bind, bind_pure_unit]
  rw [outcome_bind_ok h]

/-- A loop ends with a turn that fails. -/
theorem outcome_forIn_error {f : α → Task σ Unit} {x : α} {xs : List α} {s s' : σ} {e : Fault}
    (h : (f x).outcome s = (.error e, s')) :
    (for x in x :: xs do f x : Task σ Unit).outcome s = (.error e, s') := by
  simp only [List.forIn_cons, bind_assoc, pure_bind, bind_pure_unit]
  exact outcome_bind_error h

end Steps

/-! ## Tasks that leave something as it is -/

/-- Whatever the task comes to, what is seen of the state does not change. -/
def Leaves {γ : Type} (view : σ → γ) (t : Task σ α) : Prop :=
  ∀ s, view (t.outcome s).2 = view s

section Leaves

variable {γ : Type} {view : σ → γ}

theorem leaves_pure (a : α) : Leaves view (pure a : Task σ α) := fun _ => rfl

theorem leaves_ofExcept (e : Except Fault α) : Leaves view (ofExcept e : Task σ α) := fun _ => rfl

theorem leaves_modify {f : σ → σ} (h : ∀ s, view (f s) = view s) :
    Leaves view (modify f : Task σ Unit) := h

theorem Leaves.bind {t : Task σ α} {f : α → Task σ β} (h : Leaves view t)
    (hf : ∀ a, Leaves view (f a)) : Leaves view (t >>= f) := by
  intro s
  have ht := h s
  rw [outcome_bind]
  rcases houtcome : outcome t s with ⟨_ | a, s'⟩
  · rw [houtcome] at ht
    exact ht
  · rw [houtcome] at ht
    exact (hf a s').trans ht

theorem Leaves.get_bind {f : σ → Task σ β} (h : ∀ s, Leaves view (f s)) :
    Leaves view (get >>= f) := fun s => h s s

theorem Leaves.mapM {f : α → Task σ β} (h : ∀ a, Leaves view (f a)) (xs : List α) :
    Leaves view (xs.mapM f) := by
  induction xs with
  | nil => exact leaves_pure []
  | cons x xs ih =>
    rw [List.mapM_cons]
    exact (h x).bind fun _ => ih.bind fun _ => leaves_pure _

theorem Leaves.forIn {f : α → Task σ Unit} (h : ∀ a, Leaves view (f a)) (xs : List α) :
    Leaves view (for x in xs do f x : Task σ Unit) := by
  induction xs with
  | nil => exact leaves_pure ()
  | cons x xs ih =>
    simp only [List.forIn_cons, bind_assoc, pure_bind, bind_pure_unit] at ih ⊢
    exact (h x).bind fun _ => ih

end Leaves

end SuperForward.Task
