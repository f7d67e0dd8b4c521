/-
  The language of scripts, as a grammar of its own.

  The grammar is written in extended Backus-Naur form, symbol by symbol and alternative by
  alternative: the levels of expressions form a chain of symbols that pass through each other,
  and what extends an expression is an alternative that begins with the symbol itself.
  `Derives` says which phrases the grammar has. It knows nothing of how phrases are read: no
  token ahead decides anything, and some sequences of tokens have several derivations.
-/
import SuperForward.Script.Tree

namespace SuperForward.Script

/-! ## The grammar -/

/-- The symbols of the grammar. Expressions that stand where a statement begins have symbols of
their own. The last three stand for choices between single tokens inside a rule. -/
inductive Symbol where
  | statement
  | block | emptyStatement | varStatement | declarator
  | functionDeclaration | functionExpression | functionBody | params | param
  | expressionStatement | returnStatement | throwStatement | breakStatement | continueStatement
  | ifStatement | whileStatement | doStatement | forStatement | forInit | forInStatement
  | tryStatement | catchClause | finallyClause | switchStatement | switchCase
  | expression (lead : Lead) | assignment (lead : Lead) | assignOp
  | conditional (lead : Lead) | binary (lead : Lead) | binop | unary (lead : Lead) | unaryOp
  | update (lead : Lead) | callMember (lead : Lead) | arguments | argument
  | primary (lead : Lead) | newExpression | newTarget | literal
  | array | object | property | propKey | propName
  | declarationWord | updateOp | propWord
  deriving DecidableEq, Repr

/-- What an alternative consists of: tokens, symbols, groups that may be missing, and groups that
may come any number of times. -/
inductive Ebnf where
  | token (kind : TokenKind)
  | symbol (s : Symbol)
  | maybe (group : List Ebnf)
  | many (group : List Ebnf)

namespace Ebnf

/-- A mark. -/
abbrev mark (m : Mark) : Ebnf := .token (.mark m)

/-- A reserved word. -/
abbrev word (k : Keyword) : Ebnf := .token (.keyword k)

/-- A name. -/
abbrev ident : Ebnf := .token .name

/-- A group that comes at least once. -/
def oneOrMore (group : List Ebnf) : List Ebnf := group ++ [.many group]

end Ebnf

/-- An alternative of a symbol. Its parts become a node of a rule; without a rule it has a single
part, which stands for itself. -/
structure Production where
  rule : Option Rule
  parts : List Ebnf

namespace Production

/-- An alternative that makes a node. -/
abbrev node (r : Rule) (parts : List Ebnf) : Production := ⟨some r, parts⟩

/-- An alternative that passes through to another symbol. -/
abbrev through (s : Symbol) : Production := ⟨none, [.symbol s]⟩

/-- An alternative that is one of some tokens. -/
abbrev ofToken (kind : TokenKind) : Production := ⟨none, [.token kind]⟩

end Production

open Ebnf Production in
/-- The alternatives of each symbol. -/
def Symbol.alternatives : Symbol → List Production
  | .statement => [
    .varStatement, .functionDeclaration, .expressionStatement, .returnStatement, .ifStatement,
    .forStatement, .forInStatement, .whileStatement, .doStatement, .tryStatement,
    .switchStatement, .throwStatement, .breakStatement, .continueStatement, .block,
    .emptyStatement].map Production.through
  | .block => [node .block [mark .lbrace, many [symbol .statement], mark .rbrace]]
  | .emptyStatement => [node .emptyStatement [mark .semicolon]]
  | .varStatement => [node .varStatement
    [symbol .declarationWord, symbol .declarator, many [mark .comma, symbol .declarator],
      mark .semicolon]]
  | .declarator => [node .declarator
    [ident, maybe [mark .assign, symbol (.assignment .anywhere)]]]
  | .functionDeclaration => [node .functionDeclaration
    [word .functionKw, ident, mark .lparen, maybe [symbol .params], mark .rparen,
      symbol .functionBody]]
  | .functionExpression => [node .functionExpression
    [word .functionKw, maybe [ident], mark .lparen, maybe [symbol .params], mark .rparen,
      symbol .functionBody]]
  | .functionBody => [node .functionBody [mark .lbrace, many [symbol .statement], mark .rbrace]]
  | .params => [node .params [symbol .param, many [mark .comma, symbol .param]]]
  | .param => [
    node .simpleParam [ident],
    node .defaultParam [ident, mark .assign, symbol (.assignment .anywhere)],
    node .restParam [mark .ellipsis, ident]]
  | .expressionStatement => [node .expressionStatement
    [symbol (.expression .atStatement), mark .semicolon]]
  | .returnStatement => [node .returnStatement
    [word .returnKw, maybe [symbol (.expression .anywhere)], mark .semicolon]]
  | .throwStatement => [node .throwStatement
    [word .throwKw, symbol (.expression .anywhere), mark .semicolon]]
  | .breakStatement => [node .breakStatement [word .breakKw, maybe [ident], mark .semicolon]]
  | .continueStatement => [node .continueStatement
    [word .continueKw, maybe [ident], mark .semicolon]]
  | .ifStatement => [node .ifStatement
    [word .ifKw, mark .lparen, symbol (.expression .anywhere), mark .rparen, symbol .statement,
      maybe [word .elseKw, symbol .statement]]]
  | .whileStatement => [node .whileStatement
    [word .whileKw, mark .lparen, symbol (.expression .anywhere), mark .rparen,
      symbol .statement]]
  | .doStatement => [node .doStatement
    [word .doKw, symbol .statement, word .whileKw, mark .lparen, symbol (.expression .anywhere),
      mark .rparen, mark .semicolon]]
  | .forStatement => [node .forStatement
    [word .forKw, mark .lparen, maybe [symbol .forInit], mark .semicolon,
      maybe [symbol (.expression .anywhere)], mark .semicolon,
      maybe [symbol (.expression .anywhere)], mark .rparen, symbol .statement]]
  | .forInit => [
    node .forVar [symbol .declarationWord, symbol .declarator,
      many [mark .comma, symbol .declarator]],
    node .forInit [symbol (.expression .anywhere)]]
  | .forInStatement => [node .forInStatement
    [word .forKw, mark .lparen, symbol .declarationWord, ident, word .inKw,
      symbol (.expression .anywhere), mark .rparen, symbol .statement]]
  | .tryStatement => [node .tryStatement
    [word .tryKw, symbol .block, maybe [symbol .catchClause], maybe [symbol .finallyClause]]]
  | .catchClause => [node .catchClause
    [word .catchKw, mark .lparen, ident, mark .rparen, symbol .block]]
  | .finallyClause => [node .finallyClause [word .finallyKw, symbol .block]]
  | .switchStatement => [node .switchStatement
    [word .switchKw, mark .lparen, symbol (.expression .anywhere), mark .rparen, mark .lbrace,
      many [symbol .switchCase], mark .rbrace]]
  | .switchCase => [
    node .caseClause
      [word .caseKw, symbol (.expression .anywhere), mark .colon, many [symbol .statement]],
    node .defaultClause [word .defaultKw, mark .colon, many [symbol .statement]]]
  | .expression lead => [
    through (.assignment lead),
    node .sequence
      (symbol (.assignment lead) :: oneOrMore [mark .comma, symbol (.assignment .anywhere)])]
  | .assignment lead => [
    through (.conditional lead),
    node .assign
      [symbol (.callMember lead), symbol .assignOp, symbol (.assignment .anywhere)]]
  | .assignOp =>
    ([.assign, .addAssign, .subAssign, .mulAssign, .divAssign, .modAssign, .shlAssign, .sarAssign,
      .shrAssign, .andAssign, .orAssign, .xorAssign] : List Mark).map fun m => ofToken (.mark m)
  | .conditional lead => [
    through (.binary lead),
    node .conditional
      [symbol (.binary lead), mark .question, symbol (.assignment .anywhere), mark .colon,
        symbol (.assignment .anywhere)]]
  | .binary lead => [
    through (.unary lead),
    node .binaryExpression
      (symbol (.unary lead) :: oneOrMore [symbol .binop, symbol (.unary .anywhere)])]
  | .binop =>
    (([.orElse, .andAlso, .bitOr, .bitXor, .bitAnd, .eq, .ne, .strictEq, .strictNe, .lt, .gt, .le,
      .ge, .shl, .sar, .shr, .plus, .minus, .star, .slash, .percent] : List Mark).map
        fun m => ofToken (.mark m)) ++
    [ofToken (.keyword .instanceofKw), ofToken (.keyword .inKw)]
  | .unary lead => [
    through (.update lead),
    node .unaryExpression [symbol .unaryOp, symbol (.unary .anywhere)]]
  | .unaryOp =>
    (([.bang, .tilde, .minus, .plus, .increment, .decrement] : List Mark).map
        fun m => ofToken (.mark m)) ++
    ([.typeofKw, .voidKw, .deleteKw] : List Keyword).map fun k => ofToken (.keyword k)
  | .update lead => [
    through (.callMember lead),
    node .updateExpression [symbol (.callMember lead), symbol .updateOp]]
  | .callMember lead => [
    through (.primary lead),
    node .getProp [symbol (.callMember lead), mark .dot, symbol .propName],
    node .getElem
      [symbol (.callMember lead), mark .lbracket, symbol (.expression .anywhere), mark .rbracket],
    node .call [symbol (.callMember lead), symbol .arguments]]
  | .arguments => [node .arguments
    [mark .lparen, maybe [symbol .argument, many [mark .comma, symbol .argument]],
      mark .rparen]]
  | .argument => [
    through (.assignment .anywhere),
    node .spread [mark .ellipsis, symbol (.assignment .anywhere)]]
  | .primary lead =>
    [node .name [ident], node .this [word .thisKw], through .literal, through .array] ++
    (match lead with
      | .anywhere => [through .object, through .functionExpression]
      | .atStatement => []) ++
    [through .newExpression,
      node .parenthesized [mark .lparen, symbol (.expression .anywhere), mark .rparen]]
  | .newExpression => [node .newExpression
    [word .newKw, symbol .newTarget, maybe [symbol .arguments]]]
  | .newTarget => [
    node .name [ident],
    node .getProp [symbol .newTarget, mark .dot, symbol .propName]]
  | .literal => [
    node .number [.token .number],
    node .string [.token .string],
    node .template [.token .template],
    node .trueLiteral [word .trueKw],
    node .falseLiteral [word .falseKw],
    node .nullLiteral [word .nullKw]]
  | .array => [node .array
    [mark .lbracket,
      maybe [symbol (.assignment .anywhere), many [mark .comma, symbol (.assignment .anywhere)],
        maybe [mark .comma]],
      mark .rbracket]]
  | .object => [node .object
    [mark .lbrace,
      maybe [symbol .property, many [mark .comma, symbol .property], maybe [mark .comma]],
      mark .rbrace]]
  | .property => [
    node .pair [symbol .propKey, mark .colon, symbol (.assignment .anywhere)],
    node .shorthand [ident]]
  | .propKey => [through .propName, ofToken .string, ofToken .number]
  | .propName => [node .propertyName [symbol .propWord]]
  | .declarationWord =>
    ([.varKw, .letKw, .constKw] : List Keyword).map fun k => ofToken (.keyword k)
  | .updateOp => [ofToken (.mark .increment), ofToken (.mark .decrement)]
  | .propWord => ofToken .name ::
    ([.varKw, .letKw, .constKw, .defaultKw, .deleteKw, .newKw, .returnKw, .functionKw, .thisKw,
      .typeofKw, .voidKw, .inKw, .instanceofKw, .ifKw, .elseKw, .forKw, .whileKw, .doKw, .throwKw,
      .tryKw, .catchKw, .finallyKw, .switchKw, .caseKw, .breakKw, .continueKw, .trueKw, .falseKw,
      .nullKw] : List Keyword).map fun k => ofToken (.keyword k)

/-- What a whole script consists of. -/
def scriptParts : List Ebnf := [.many [.symbol .statement]]

/-! ## Derivations -/

/-- The phrase that an alternative makes of its parts. -/
def Production.Makes (a : Production) (xs : List Tree) (x : Tree) : Prop :=
  match a.rule with
  | some r => x = .node r xs
  | none => xs = [x]

/-- The phrases can be derived: tokens stand for themselves, each symbol gives one phrase by one
of its alternatives, and groups are derived as often as they may come. -/
inductive Derives : List Ebnf → List Tree → Prop
  | nil : Derives [] []
  | token {t : Token} {es : List Ebnf} {xs : List Tree} (rest : Derives es xs) :
      Derives (.token t.kind :: es) (.leaf t :: xs)
  | symbol {s : Symbol} {a : Production} {es : List Ebnf} {parts xs : List Tree} {x : Tree}
      (alternative : a ∈ s.alternatives) (inside : Derives a.parts parts) (makes : a.Makes parts x)
      (rest : Derives es xs) : Derives (.symbol s :: es) (x :: xs)
  | absent {group es : List Ebnf} {xs : List Tree} (rest : Derives es xs) :
      Derives (.maybe group :: es) xs
  | present {group es : List Ebnf} {ys xs : List Tree} (inside : Derives group ys)
      (rest : Derives es xs) : Derives (.maybe group :: es) (ys ++ xs)
  | stop {group es : List Ebnf} {xs : List Tree} (rest : Derives es xs) :
      Derives (.many group :: es) xs
  | more {group es : List Ebnf} {ys xs : List Tree} (inside : Derives group ys)
      (rest : Derives (.many group :: es) xs) : Derives (.many group :: es) (ys ++ xs)

theorem Derives.append {es fs : List Ebnf} {xs ys : List Tree} (h : Derives es xs)
    (h' : Derives fs ys) : Derives (es ++ fs) (xs ++ ys) := by
  induction h with
  | nil => exact h'
  | token _ ih => exact .token ih
  | symbol alternative inside makes _ _ ih => exact .symbol alternative inside makes ih
  | absent _ ih => exact .absent ih
  | present inside _ _ ih => rw [List.append_assoc]; exact .present inside ih
  | stop _ ih => exact .stop ih
  | more inside _ _ ih => rw [List.append_assoc]; exact .more inside ih

end SuperForward.Script
