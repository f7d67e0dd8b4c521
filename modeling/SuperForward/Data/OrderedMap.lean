/-
  Maps that remember the order in which their keys came.

  A new key goes to the end; a key that is there keeps its place when its value changes.
-/
namespace SuperForward

/-- Values by key, in the order in which the keys came. -/
structure OrderedMap (α β : Type) where
  entries : List (α × β)
  deriving Repr

namespace OrderedMap

variable {α β : Type}

/-- The map without entries. -/
def empty : OrderedMap α β := ⟨[]⟩

instance : Inhabited (OrderedMap α β) := ⟨empty⟩

/-- The keys, in order. -/
def keys (m : OrderedMap α β) : List α := m.entries.map Prod.fst

/-- The values, in the order of their keys. -/
def values (m : OrderedMap α β) : List β := m.entries.map Prod.snd

variable [DecidableEq α]

/-- The value of a key in a list of entries. -/
def lookup (key : α) : List (α × β) → Option β
  | [] => none
  | (k, v) :: rest => if k = key then some v else lookup key rest

/-- Puts a value into a list of entries. -/
def put (key : α) (value : β) : List (α × β) → List (α × β)
  | [] => [(key, value)]
  | (k, v) :: rest => if k = key then (k, value) :: rest else (k, v) :: put key value rest

/-- The value of a key. -/
def get? (m : OrderedMap α β) (key : α) : Option β := lookup key m.entries

/-- The key has a value. -/
def contains (m : OrderedMap α β) (key : α) : Bool := (m.get? key).isSome

/-- Gives a key a value. -/
def insert (m : OrderedMap α β) (key : α) (value : β) : OrderedMap α β :=
  ⟨put key value m.entries⟩

/-- Takes a key out. -/
def erase (m : OrderedMap α β) (key : α) : OrderedMap α β :=
  ⟨m.entries.filter fun e => e.1 ≠ key⟩

/-- Gives several keys their values, one after the other. -/
def insertAll (m : OrderedMap α β) (entries : List (α × β)) : OrderedMap α β :=
  entries.foldl (fun m e => m.insert e.1 e.2) m

/-- Entries one after the other; a later one replaces the value of an earlier one. -/
def ofList (entries : List (α × β)) : OrderedMap α β := empty.insertAll entries

/-! ## What the operations do to a look-up -/

theorem lookup_put (key k : α) (v : β) (es : List (α × β)) :
    lookup k (put key v es) = if key = k then some v else lookup k es := by
  induction es with
  | nil => rfl
  | cons e es ih =>
    obtain ⟨k', v'⟩ := e
    simp only [put]
    split
    · next h =>
      subst h
      simp only [lookup]
      split <;> rfl
    · next h =>
      simp only [lookup, ih]
      split
      · next h' =>
        subst h'
        rw [if_neg (fun e => h e.symm)]
      · rfl

@[simp] theorem get?_insert (m : OrderedMap α β) (key k : α) (v : β) :
    (m.insert key v).get? k = if key = k then some v else m.get? k :=
  lookup_put key k v m.entries

@[simp] theorem get?_empty (k : α) : (empty : OrderedMap α β).get? k = none := rfl

/-- A new key goes to the end. -/
theorem put_of_not_mem {key : α} {value : β} {es : List (α × β)} (h : ∀ e ∈ es, e.1 ≠ key) :
    put key value es = es ++ [(key, value)] := by
  induction es with
  | nil => rfl
  | cons e es ih =>
    have he : e.1 ≠ key := h e (List.mem_cons_self ..)
    rw [put, if_neg he, ih fun e' he' => h e' (List.mem_cons_of_mem _ he')]
    rfl

theorem lookup_filter_ne (key k : α) (es : List (α × β)) :
    lookup k (es.filter fun e => e.1 ≠ key) = if key = k then none else lookup k es := by
  induction es with
  | nil => simp [lookup]
  | cons e es ih =>
    obtain ⟨k', v'⟩ := e
    by_cases h : k' = key
    · subst h
      rw [List.filter_cons_of_neg (by simp), ih]
      simp only [lookup]
      split <;> rfl
    · rw [List.filter_cons_of_pos (by simpa using h)]
      simp only [lookup, ih]
      split
      · next h' =>
        subst h'
        rw [if_neg (fun e => h e.symm)]
      · rfl

@[simp] theorem get?_erase (m : OrderedMap α β) (key k : α) :
    (m.erase key).get? k = if key = k then none else m.get? k :=
  lookup_filter_ne key k m.entries

end OrderedMap

end SuperForward
