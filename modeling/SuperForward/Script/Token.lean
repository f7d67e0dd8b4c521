/-
  Tokens of a script.

  A token is a name, a number, a string, a template, a keyword or a mark. It carries its place
  and the comments that stand between it and the token before it, so that what is built from
  tokens can see the comments without the text.
-/
import SuperForward.Text.Position

namespace SuperForward.Script

open SuperForward.Text (Position)

/-- The reserved words. -/
inductive Keyword where
  | breakKw | caseKw | catchKw | constKw | continueKw | defaultKw | deleteKw | doKw | elseKw
  | falseKw | finallyKw | forKw | functionKw | ifKw | inKw | instanceofKw | letKw | newKw
  | nullKw | returnKw | switchKw | thisKw | throwKw | trueKw | tryKw | typeofKw | varKw | voidKw
  | whileKw
  deriving DecidableEq, Repr, Inhabited

namespace Keyword

/-- Every reserved word. -/
def all : List Keyword := [
  .breakKw, .caseKw, .catchKw, .constKw, .continueKw, .defaultKw, .deleteKw, .doKw, .elseKw,
  .falseKw, .finallyKw, .forKw, .functionKw, .ifKw, .inKw, .instanceofKw, .letKw, .newKw,
  .nullKw, .returnKw, .switchKw, .thisKw, .throwKw, .trueKw, .tryKw, .typeofKw, .varKw, .voidKw,
  .whileKw]

/-- How a reserved word is written. -/
def text : Keyword → String
  | .breakKw => "break"
  | .caseKw => "case"
  | .catchKw => "catch"
  | .constKw => "const"
  | .continueKw => "continue"
  | .defaultKw => "default"
  | .deleteKw => "delete"
  | .doKw => "do"
  | .elseKw => "else"
  | .falseKw => "false"
  | .finallyKw => "finally"
  | .forKw => "for"
  | .functionKw => "function"
  | .ifKw => "if"
  | .inKw => "in"
  | .instanceofKw => "instanceof"
  | .letKw => "let"
  | .newKw => "new"
  | .nullKw => "null"
  | .returnKw => "return"
  | .switchKw => "switch"
  | .thisKw => "this"
  | .throwKw => "throw"
  | .trueKw => "true"
  | .tryKw => "try"
  | .typeofKw => "typeof"
  | .varKw => "var"
  | .voidKw => "void"
  | .whileKw => "while"

/-- The reserved word that is written so, if there is one. -/
def ofText? (s : String) : Option Keyword := all.find? (·.text == s)

end Keyword

/-- The punctuation marks and operators that are not words. -/
inductive Mark where
  | shrAssign | ellipsis | strictEq | strictNe | shr | shlAssign | sarAssign | addAssign
  | subAssign | mulAssign | divAssign | modAssign | andAssign | orAssign | xorAssign | orElse
  | andAlso | eq | ne | le | ge | shl | sar | increment | decrement | lbrace | rbrace | lparen
  | rparen | lbracket | rbracket | semicolon | comma | dot | colon | question | assign | lt | gt
  | plus | minus | star | slash | percent | bitAnd | bitOr | bitXor | bang | tilde
  deriving DecidableEq, Repr, Inhabited

namespace Mark

/-- Every mark, longer ones first. -/
def all : List Mark := [
  .shrAssign, .ellipsis, .strictEq, .strictNe, .shr, .shlAssign, .sarAssign, .addAssign,
  .subAssign, .mulAssign, .divAssign, .modAssign, .andAssign, .orAssign, .xorAssign, .orElse,
  .andAlso, .eq, .ne, .le, .ge, .shl, .sar, .increment, .decrement, .lbrace, .rbrace, .lparen,
  .rparen, .lbracket, .rbracket, .semicolon, .comma, .dot, .colon, .question, .assign, .lt, .gt,
  .plus, .minus, .star, .slash, .percent, .bitAnd, .bitOr, .bitXor, .bang, .tilde]

/-- How a mark is written. -/
def text : Mark → String
  | .shrAssign => ">>>="
  | .ellipsis => "..."
  | .strictEq => "==="
  | .strictNe => "!=="
  | .shr => ">>>"
  | .shlAssign => "<<="
  | .sarAssign => ">>="
  | .addAssign => "+="
  | .subAssign => "-="
  | .mulAssign => "*="
  | .divAssign => "/="
  | .modAssign => "%="
  | .andAssign => "&="
  | .orAssign => "|="
  | .xorAssign => "^="
  | .orElse => "||"
  | .andAlso => "&&"
  | .eq => "=="
  | .ne => "!="
  | .le => "<="
  | .ge => ">="
  | .shl => "<<"
  | .sar => ">>"
  | .increment => "++"
  | .decrement => "--"
  | .lbrace => "\x7b"
  | .rbrace => "\x7d"
  | .lparen => "("
  | .rparen => ")"
  | .lbracket => "["
  | .rbracket => "]"
  | .semicolon => ";"
  | .comma => ","
  | .dot => "."
  | .colon => ":"
  | .question => "?"
  | .assign => "="
  | .lt => "<"
  | .gt => ">"
  | .plus => "+"
  | .minus => "-"
  | .star => "*"
  | .slash => "/"
  | .percent => "%"
  | .bitAnd => "&"
  | .bitOr => "|"
  | .bitXor => "^"
  | .bang => "!"
  | .tilde => "~"

/-- The longest mark that a text begins with. -/
def longest? (cs : List Char) : Option Mark := all.find? (·.text.toList.isPrefixOf cs)

end Mark

/-- The sort of a token. -/
inductive TokenKind where
  | name
  | number
  | string
  | template
  | keyword (word : Keyword)
  | mark (mark : Mark)
  deriving DecidableEq, Repr, Inhabited

/-- A comment with its delimiters; `start` and `stop` are offsets in characters. -/
structure Comment where
  text : String
  start : Nat
  stop : Nat
  deriving DecidableEq, Repr, Inhabited

/-- A token, its offsets in characters, its place, and the comments just before it. -/
structure Token where
  kind : TokenKind
  text : String
  start : Nat
  stop : Nat
  place : Position
  comments : List Comment
  deriving DecidableEq, Repr, Inhabited

end SuperForward.Script
