/-
  Qualified names, such as `ns.Foo.prototype.bar`.

  A name is a non-empty list of non-empty segments. How a segment is reached follows from its
  position and its text, so `prototype` and `superClass_` are found by segment and never inside
  a longer word. Splitting a name at a marker takes it apart around the one place where the
  marker stands between other segments.
-/
import SuperForward.Text.Pieces
import SuperForward.Text.Quoted

namespace SuperForward

/-- How a segment is reached from the one before it. -/
inductive Access where
  | root | member | prototype | superclass
  deriving DecidableEq, Repr, Inhabited

namespace Access

/-- The word for a way of access. -/
def word : Access → String
  | .root => "root"
  | .member => "member"
  | .prototype => "prototype"
  | .superclass => "superclass"

/-- Every way of access. -/
def all : List Access := [.root, .member, .prototype, .superclass]

end Access

/-- The property that holds the methods of a class. -/
def prototypeMarker : String := "prototype"

/-- The property that holds the methods of the superclass. -/
def superclassMarker : String := "superClass_"

/-- How a segment that is not the first is reached. -/
def Access.ofSegment (name : String) : Access :=
  if name == prototypeMarker then .prototype
  else if name == superclassMarker then .superclass
  else .member

/-- A dotted path: at least one segment, and no segment is empty. -/
structure QualifiedName where
  names : List String
  names_ne_nil : names ≠ []
  nonempty : ∀ name ∈ names, name ≠ ""
  deriving DecidableEq

namespace QualifiedName

/-- The name with these segments, if they are a name. -/
def ofNames? (names : List String) : Option QualifiedName :=
  if h : names ≠ [] ∧ ∀ name ∈ names, name ≠ "" then some ⟨names, h.1, h.2⟩ else none

/-- The segments of a dotted text, empty ones included. -/
def segmentsOf (dotted : String) : List String := Text.piecesAt '.' dotted

/-- The name that is written so, if it is a name. -/
def parse? (dotted : String) : Option QualifiedName := ofNames? (segmentsOf dotted)

/-- How the name is written. -/
protected def toString (q : QualifiedName) : String := ".".intercalate q.names

instance : ToString QualifiedName := ⟨QualifiedName.toString⟩

/-- The number of segments. -/
def length (q : QualifiedName) : Nat := q.names.length

/-- The first segment. -/
def root (q : QualifiedName) : String := q.names.head q.names_ne_nil

/-- The last segment. -/
def last (q : QualifiedName) : String := q.names.getLast q.names_ne_nil

/-- How each segment is reached. -/
def accesses (q : QualifiedName) : List Access :=
  .root :: q.names.tail.map Access.ofSegment

/-- The name with one more segment, unless that is empty. -/
def child? (q : QualifiedName) (name : String) : Option QualifiedName :=
  ofNames? (q.names ++ [name])

/-- The name without its last segment; a single segment has no parent. -/
def parent? (q : QualifiedName) : Option QualifiedName := ofNames? q.names.dropLast

/-- The positions strictly between the first and the last segment that are reached so. -/
def interiorPositions (q : QualifiedName) (access : Access) : List Nat :=
  (List.range q.length).filter fun i =>
    q.accesses[i]? == some access && 0 < i && i + 1 < q.length

/-- The names before and after the only interior segment reached so; none if there is no such
segment or more than one. -/
def splitOn (q : QualifiedName) (access : Access) : Option (QualifiedName × QualifiedName) :=
  match q.interiorPositions access with
  | [i] => do
    let left ← ofNames? (q.names.take i)
    let right ← ofNames? (q.names.drop (i + 1))
    return (left, right)
  | _ => none

/-- The only segment of a name that has just one. -/
def single? (q : QualifiedName) : Option String :=
  match q.names with
  | [name] => some name
  | _ => none

theorem ofNames?_names (q : QualifiedName) : ofNames? q.names = some q := by
  unfold ofNames?
  rw [dif_pos ⟨q.names_ne_nil, q.nonempty⟩]

theorem ofNames?_eq_some_iff {names : List String} {q : QualifiedName} :
    ofNames? names = some q ↔ names = q.names := by
  constructor
  · intro h
    simp only [ofNames?] at h
    split at h
    · cases h; rfl
    · cases h
  · rintro rfl
    exact ofNames?_names q

end QualifiedName

end SuperForward
