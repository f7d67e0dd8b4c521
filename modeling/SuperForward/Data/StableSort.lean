/-
  Sorting by insertion: entries that are alike keep their order.
-/
namespace SuperForward.StableSort

variable {α : Type}

/-- Puts an entry before the first one that it does not exceed. -/
def insertBy (le : α → α → Bool) (a : α) : List α → List α
  | [] => [a]
  | b :: bs => if le a b then a :: b :: bs else b :: insertBy le a bs

/-- The entries in ascending order. -/
def sortBy (le : α → α → Bool) (as : List α) : List α := as.foldr (insertBy le) []

theorem insertBy_perm (le : α → α → Bool) (a : α) (bs : List α) :
    (insertBy le a bs).Perm (a :: bs) := by
  induction bs with
  | nil => exact .refl _
  | cons b bs ih =>
    simp only [insertBy]
    split
    · exact .refl _
    · exact (ih.cons b).trans (.swap a b bs)

theorem sortBy_perm (le : α → α → Bool) (as : List α) : (sortBy le as).Perm as := by
  induction as with
  | nil => exact .refl _
  | cons a as ih => exact (insertBy_perm le a _).trans (ih.cons a)

@[simp] theorem mem_sortBy {le : α → α → Bool} {a : α} {as : List α} :
    a ∈ sortBy le as ↔ a ∈ as := (sortBy_perm le as).mem_iff

/-! ## Orders -/

/-- One text does not come after another: by code points, a shorter text before its
extensions. -/
def textLe (a b : String) : Bool := !(b < a)

/-- One list of texts comes before another, text by text. -/
def textsLt : List String → List String → Bool
  | _, [] => false
  | [], _ :: _ => true
  | a :: as, b :: bs => if a == b then textsLt as bs else decide (a < b)

/-- One list of texts does not come after another. -/
def textsLe (a b : List String) : Bool := !textsLt b a

/-- Texts in ascending order. -/
def sortTexts (texts : List String) : List String := sortBy textLe texts

end SuperForward.StableSort
