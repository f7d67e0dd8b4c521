/-
  Syntax trees of scripts.

  A tree keeps every token of its phrase, marks and words included, so its tokens read from
  left to right are the tokens that were read, and its place in the text is that of its first
  and last token.
-/
import SuperForward.Script.Grammar

namespace SuperForward.Script

/-- A phrase: a token, or the parts that a rule has put together. -/
inductive Tree where
  | leaf (token : Token)
  | node (rule : Rule) (parts : List Tree)
  deriving Repr, Inhabited

/-- The part of a text that a phrase takes up: offsets in characters, and the first line. -/
structure Extent where
  start : Nat
  stop : Nat
  line : Nat
  deriving DecidableEq, Repr, Inhabited

namespace Tree

mutual

/-- The tokens of a tree, from left to right. -/
def tokens : Tree → List Token
  | .leaf t => [t]
  | .node _ parts => tokensOfAll parts

/-- The tokens of several trees, from left to right. -/
def tokensOfAll : List Tree → List Token
  | [] => []
  | x :: xs => x.tokens ++ tokensOfAll xs

end

mutual

/-- The first token of a tree. -/
def firstToken? : Tree → Option Token
  | .leaf t => some t
  | .node _ parts => firstTokenOfAll? parts

/-- The first token of several trees. -/
def firstTokenOfAll? : List Tree → Option Token
  | [] => none
  | x :: xs => x.firstToken?.or (firstTokenOfAll? xs)

end

mutual

/-- The last token of a tree. -/
def lastToken? : Tree → Option Token
  | .leaf t => some t
  | .node _ parts => lastTokenOfAll? parts

/-- The last token of several trees. -/
def lastTokenOfAll? : List Tree → Option Token
  | [] => none
  | x :: xs => (lastTokenOfAll? xs).or x.lastToken?

end

/-- Where a tree stands: from its first token to its last. A tree without tokens stands
nowhere, which is written as zeros. -/
def extent (x : Tree) : Extent :=
  match x.firstToken?, x.lastToken? with
  | some first, some last => ⟨first.start, last.stop, first.place.line⟩
  | _, _ => ⟨0, 0, 0⟩

/-- How tight the expression is. -/
def rank : Tree → Rank
  | .leaf _ => .member
  | .node rule _ => rule.rank

mutual

theorem firstToken?_eq (x : Tree) : x.firstToken? = x.tokens.head? := by
  cases x with
  | leaf t => rfl
  | node r parts => simpa only [firstToken?, tokens] using firstTokenOfAll?_eq parts

theorem firstTokenOfAll?_eq (xs : List Tree) :
    firstTokenOfAll? xs = (tokensOfAll xs).head? := by
  cases xs with
  | nil => rfl
  | cons x xs =>
    simp only [firstTokenOfAll?, tokensOfAll, List.head?_append]
    rw [firstToken?_eq x, firstTokenOfAll?_eq xs]

end

mutual

theorem lastToken?_eq (x : Tree) : x.lastToken? = x.tokens.getLast? := by
  cases x with
  | leaf t => rfl
  | node r parts => simpa only [lastToken?, tokens] using lastTokenOfAll?_eq parts

theorem lastTokenOfAll?_eq (xs : List Tree) :
    lastTokenOfAll? xs = (tokensOfAll xs).getLast? := by
  cases xs with
  | nil => rfl
  | cons x xs =>
    simp only [lastTokenOfAll?, tokensOfAll, List.getLast?_append]
    rw [lastToken?_eq x, lastTokenOfAll?_eq xs]

end

end Tree

end SuperForward.Script
