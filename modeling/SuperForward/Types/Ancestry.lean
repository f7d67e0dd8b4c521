/-
  The ancestry: which class was linked to which superclass.
-/
import SuperForward.Program.Fault

namespace SuperForward

/-- Known classes, and links from a class to a superclass. -/
structure Ancestry where
  classes : List String
  links : List (String × String)
  deriving Repr, Inhabited, DecidableEq

namespace Ancestry

/-- The ancestry that knows no class. -/
def empty : Ancestry := ⟨[], []⟩

/-- Makes a class known. -/
def addClass (a : Ancestry) (name : String) : Ancestry :=
  if a.classes.contains name then a else { a with classes := a.classes ++ [name] }

/-- Links a class to a superclass. -/
def addLink (a : Ancestry) (child parent : String) : Ancestry :=
  if a.links.contains (child, parent) then a
  else { a with links := a.links ++ [(child, parent)] }

/-- The superclasses that a class is linked to. -/
def parents (a : Ancestry) (name : String) : List String :=
  (a.links.filter (·.1 == name)).map (·.2)

/-- The classes that are reached from those still to do, besides those seen, within some
steps. -/
def reachWithin (a : Ancestry) : (steps : Nat) → (todo seen : List String) → List String
  | 0, _, seen | _, [], seen => seen
  | steps + 1, name :: todo, seen =>
    if seen.contains name then a.reachWithin steps todo seen
    else a.reachWithin steps (a.parents name ++ todo) (name :: seen)

/-- A class and all classes above it. Each link is followed at most once. -/
def upwards (a : Ancestry) (name : String) : List String :=
  a.reachWithin (a.links.length + 2) [name] []

/-- Links lead from a class up to another; both have to be known. -/
def leadsTo (a : Ancestry) (source target : String) : Except Fault Bool :=
  if !a.classes.contains source then .error (.unknownParent source)
  else if !a.classes.contains target then .error (.unknownChild target)
  else .ok ((a.upwards source).contains target)

/-- How many classes are above a class. -/
def depth (a : Ancestry) (name : String) : Nat :=
  if a.classes.contains name then (a.upwards name).length - 1 else 0

end Ancestry

end SuperForward
