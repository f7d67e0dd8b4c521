/-
  Reading tokens as syntax trees.

  A reader takes phrases from the head of a list of tokens. It is done with a value and the
  tokens left, or it is stuck at the first token that nothing it has read can be followed by
  (at the end of the tokens, if more are needed). It never goes back: each decision is made by
  the tokens ahead, and an `else` or the arguments of a `new` are taken as soon as they can be.
-/
import SuperForward.Script.Tree

namespace SuperForward.Script

/-- What a reader ends with, and the tokens that are left. -/
inductive Outcome (α : Type) where
  | done (value : α) (rest : List Token)
  | stuck (rest : List Token)
  deriving Repr

/-- Takes a value from the head of a list of tokens. -/
def Reader (α : Type) : Type := List Token → Outcome α

namespace Reader

/-- Takes nothing. -/
protected def pure {α : Type} (a : α) : Reader α := fun ts => .done a ts

/-- Takes one value and goes on with what depends on it. -/
protected def bind {α β : Type} (r : Reader α) (next : α → Reader β) : Reader β := fun ts =>
  match r ts with
  | .done a rest => next a rest
  | .stuck rest => .stuck rest

instance : Monad Reader where
  pure := Reader.pure
  bind := Reader.bind

/-- Stuck at the next token. -/
def stop {α : Type} : Reader α := fun ts => .stuck ts

/-- The kinds of the next five tokens, which is as far as a prediction looks. -/
def ahead : Reader (List TokenKind) := fun ts => .done ((ts.take 5).map (·.kind)) ts

/-- Decides by the kind of the next token. -/
def nextIs (p : TokenKind → Bool) : Reader Bool := fun ts => .done (ts.head?.any (p ·.kind)) ts

/-- Takes a token of a class. -/
def takeToken (p : TokenKind → Bool) : Reader Tree := fun ts =>
  match ts with
  | t :: rest => if p t.kind then .done (.leaf t) rest else .stuck ts
  | [] => .stuck ts

/-! ## Parts and items -/

section Items

/- `phrase` reads the phrases inside, and `bound` is at least the number of tokens left. -/
variable (phrase : Category → Reader Tree) (bound : Nat)

/-- Takes one part, given how phrases are read. -/
def part : Part → Reader Tree
  | .token kind => takeToken (· == kind)
  | .phrase c => phrase c

/-- Takes parts one after the other. -/
def parts : List Part → Reader (List Tree)
  | [] => pure []
  | p :: ps => do
    let x ← part phrase p
    let xs ← parts ps
    return x :: xs

/-- The next token begins the group. -/
def entersGroup (ps : List Part) : Reader Bool :=
  nextIs fun kind => ps.head?.any (·.startsWith kind)

/-- Takes a group as often as the next token begins it. -/
def repeated (ps : List Part) : (turns : Nat) → Reader (List Tree)
  | 0 => pure []
  | turns + 1 => do
    if ← entersGroup ps then
      let xs ← parts phrase ps
      let ys ← repeated ps turns
      return xs ++ ys
    else return []

/-- Takes the elements of a list after the first, each with the comma before it. -/
def moreElements (c : Category) (shape : ListShape) :
    (turns : Nat) → Reader (List Tree)
  | 0 => pure []
  | turns + 1 => do
    if ← nextIs (· == .mark .comma) then
      let comma ← takeToken (· == .mark .comma)
      let ends ← nextIs fun kind => !c.startsWith kind
      if shape.mayTrail && ends then return [comma]
      let x ← phrase c
      let xs ← moreElements c shape turns
      return comma :: x :: xs
    else return []

/-- Takes a comma-separated list. -/
def elements (c : Category) (shape : ListShape) : Reader (List Tree) := do
  let begins ← nextIs c.startsWith
  if shape.mayBeEmpty && !begins then return []
  let x ← phrase c
  let xs ← moreElements phrase c shape bound
  return x :: xs

/-- Takes an item. -/
def item : Item → Reader (List Tree)
  | .one p => do return [← part phrase p]
  | .optional ps => do if ← entersGroup ps then parts phrase ps else return []
  | .repeated ps => repeated phrase ps bound
  | .list c shape => elements phrase bound c shape

/-- Takes items one after the other. -/
def items : List Item → Reader (List Tree)
  | [] => pure []
  | i :: is => do
    let xs ← item phrase bound i
    let ys ← items is
    return xs ++ ys

/-- Extends a phrase as long as the next token can extend it within its category. -/
def extended (c : Category) : (turns : Nat) → Tree → Reader Tree
  | 0, x => pure x
  | turns + 1, x => do
    match (← ahead).head?.bind (c.extension x.rank) with
    | none => return x
    | some rule =>
      let rest ← items phrase bound rule.items
      extended c turns (.node rule (x :: rest))

/-- Takes a phrase of a category, given how the phrases inside it are read. -/
def phraseOf (c : Category) : Reader Tree := do
  match c.predict (← ahead) with
  | none => stop
  | some .token => takeToken c.acceptsToken
  | some (.through narrower) =>
    let x ← phrase narrower
    extended phrase bound c bound x
  | some (.rule rule) =>
    let xs ← items phrase bound rule.items
    extended phrase bound c bound (.node rule xs)

end Items

/-- Takes a phrase of a category whose phrases nest no deeper than `depth`. -/
def phrase : (depth : Nat) → Category → Reader Tree
  | 0, _ => stop
  | depth + 1, c => phraseOf (phrase depth) depth c

end Reader

/-- A bound on how deep phrases nest: before a token is read, at most four categories pass
through each other. -/
def depthBound (tokens : List Token) : Nat := 4 * tokens.length + 4

/-- Reads all the tokens as statements; stuck at the first that fits in no program. -/
def readStatements (tokens : List Token) : Outcome (List Tree) :=
  let statements := Reader.repeated (Reader.phrase (depthBound tokens)) [.phrase .statement]
  match statements tokens.length tokens with
  | .done xs [] => .done xs []
  | .done _ rest => .stuck rest
  | .stuck rest => .stuck rest

end SuperForward.Script
