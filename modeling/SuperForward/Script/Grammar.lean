/-
  The grammar of scripts, as data.

  A phrase belongs to a category and is formed by a rule. A rule lists its items in order; a
  rule that extends a phrase on its left (a member access, a call, an operator) lists what
  follows that phrase. Expressions are ranked: a rule says how tight its left operand has to
  be and how tight its result is, which is all there is to precedence, since binary operators
  are read flat.

  An expression statement may not begin with a brace or with the word `function`, which begin
  a block and a declaration there; `Lead` says which of the two situations an expression is in.
-/
import SuperForward.Script.Token

namespace SuperForward.Script

/-! ## Categories -/

/-- How tight an expression is, the tightest first. -/
inductive Rank where
  | member | update | unary | binary | conditional | assignment | sequence
  deriving DecidableEq, Repr, Inhabited

namespace Rank

/-- The place in the order of tightness. -/
def toNat : Rank → Nat
  | .member => 0
  | .update => 1
  | .unary => 2
  | .binary => 3
  | .conditional => 4
  | .assignment => 5
  | .sequence => 6

/-- At least as tight. -/
def fits (a b : Rank) : Bool := a.toNat ≤ b.toNat

end Rank

/-- Whether an expression stands where a statement begins. -/
inductive Lead where
  | anywhere
  | atStatement
  deriving DecidableEq, Repr, Inhabited

/-- The sorts of phrases. The last group are single tokens. -/
inductive Category where
  | statement | block | functionBody | declarator | params | param
  | forInit | switchCase | catchClause | finallyClause
  | expression (rank : Rank) (lead : Lead)
  | primary (lead : Lead)
  | newTarget | arguments | argument | property | propertyKey | propertyName
  | declarationWord | propertyWord
  | assignOperator | binaryOperator | unaryOperator | updateOperator
  deriving DecidableEq, Repr, Inhabited

/-- A whole expression. -/
abbrev Category.anyExpression : Category := .expression .sequence .anywhere

/-- An expression without a comma of its own. -/
abbrev Category.oneExpression : Category := .expression .assignment .anywhere

/-- An operand of a binary operator. -/
abbrev Category.operand : Category := .expression .unary .anywhere

/-! ## Rules -/

/-- The rules by which phrases are formed. -/
inductive Rule where
  | varStatement | functionDeclaration | expressionStatement | returnStatement | ifStatement
  | forStatement | forInStatement | whileStatement | doStatement | tryStatement
  | switchStatement | throwStatement | breakStatement | continueStatement | block
  | emptyStatement
  | declarator | functionExpression | functionBody | params | simpleParam | defaultParam
  | restParam | forVar | forInit | catchClause | finallyClause | caseClause | defaultClause
  | name | this | number | string | template | trueLiteral | falseLiteral | nullLiteral
  | array | object | newExpression | parenthesized
  | arguments | spread | pair | shorthand | propertyName
  | unaryExpression
  | getProp | getElem | call | updateExpression | binaryExpression | conditional | assign
  | sequence
  deriving DecidableEq, Repr, Inhabited

/-- One thing that a rule asks for: a token of a kind, or a phrase of a category. -/
inductive Part where
  | token (kind : TokenKind)
  | phrase (category : Category)
  deriving DecidableEq, Repr

/-- Which comma-separated lists are meant. -/
inductive ListShape where
  /-- At least one element. -/
  | nonempty
  /-- Any number of elements. -/
  | any
  /-- Any number of elements, and a comma may follow the last one. -/
  | anyTrailing
  deriving DecidableEq, Repr

namespace ListShape

/-- The list may have no element. -/
def mayBeEmpty : ListShape → Bool
  | .nonempty => false
  | .any | .anyTrailing => true

/-- A comma may follow the last element. -/
def mayTrail : ListShape → Bool
  | .nonempty | .any => false
  | .anyTrailing => true

end ListShape

/-- An item of a rule. The parts of an optional or repeated group stay together. -/
inductive Item where
  | one (part : Part)
  | optional (parts : List Part)
  | repeated (parts : List Part)
  | list (element : Category) (shape : ListShape)
  deriving DecidableEq, Repr

namespace Item

/-- A mark. -/
abbrev mark (m : Mark) : Item := .one (.token (.mark m))

/-- A reserved word. -/
abbrev word (k : Keyword) : Item := .one (.token (.keyword k))

/-- A name. -/
abbrev ident : Item := .one (.token .name)

/-- A phrase. -/
abbrev phrase (c : Category) : Item := .one (.phrase c)

end Item

namespace Rule

/-- What a rule asks for, in order; of a rule that extends a phrase, what follows it. -/
def items : Rule → List Item
  | .varStatement =>
    [.phrase .declarationWord, .list .declarator .nonempty, .mark .semicolon]
  | .functionDeclaration =>
    [.word .functionKw, .ident, .mark .lparen, .optional [.phrase .params], .mark .rparen,
      .phrase .functionBody]
  | .expressionStatement => [.phrase (.expression .sequence .atStatement), .mark .semicolon]
  | .returnStatement =>
    [.word .returnKw, .optional [.phrase .anyExpression], .mark .semicolon]
  | .ifStatement =>
    [.word .ifKw, .mark .lparen, .phrase .anyExpression, .mark .rparen, .phrase .statement,
      .optional [.token (.keyword .elseKw), .phrase .statement]]
  | .forStatement =>
    [.word .forKw, .mark .lparen, .optional [.phrase .forInit], .mark .semicolon,
      .optional [.phrase .anyExpression], .mark .semicolon,
      .optional [.phrase .anyExpression], .mark .rparen, .phrase .statement]
  | .forInStatement =>
    [.word .forKw, .mark .lparen, .phrase .declarationWord, .ident, .word .inKw,
      .phrase .anyExpression, .mark .rparen, .phrase .statement]
  | .whileStatement =>
    [.word .whileKw, .mark .lparen, .phrase .anyExpression, .mark .rparen, .phrase .statement]
  | .doStatement =>
    [.word .doKw, .phrase .statement, .word .whileKw, .mark .lparen, .phrase .anyExpression,
      .mark .rparen, .mark .semicolon]
  | .tryStatement =>
    [.word .tryKw, .phrase .block, .optional [.phrase .catchClause],
      .optional [.phrase .finallyClause]]
  | .switchStatement =>
    [.word .switchKw, .mark .lparen, .phrase .anyExpression, .mark .rparen, .mark .lbrace,
      .repeated [.phrase .switchCase], .mark .rbrace]
  | .throwStatement => [.word .throwKw, .phrase .anyExpression, .mark .semicolon]
  | .breakStatement => [.word .breakKw, .optional [.token .name], .mark .semicolon]
  | .continueStatement => [.word .continueKw, .optional [.token .name], .mark .semicolon]
  | .block => [.mark .lbrace, .repeated [.phrase .statement], .mark .rbrace]
  | .emptyStatement => [.mark .semicolon]
  | .declarator => [.ident, .optional [.token (.mark .assign), .phrase .oneExpression]]
  | .functionExpression =>
    [.word .functionKw, .optional [.token .name], .mark .lparen, .optional [.phrase .params],
      .mark .rparen, .phrase .functionBody]
  | .functionBody => [.mark .lbrace, .repeated [.phrase .statement], .mark .rbrace]
  | .params => [.list .param .nonempty]
  | .simpleParam => [.ident]
  | .defaultParam => [.ident, .mark .assign, .phrase .oneExpression]
  | .restParam => [.mark .ellipsis, .ident]
  | .forVar => [.phrase .declarationWord, .list .declarator .nonempty]
  | .forInit => [.phrase .anyExpression]
  | .catchClause =>
    [.word .catchKw, .mark .lparen, .ident, .mark .rparen, .phrase .block]
  | .finallyClause => [.word .finallyKw, .phrase .block]
  | .caseClause =>
    [.word .caseKw, .phrase .anyExpression, .mark .colon, .repeated [.phrase .statement]]
  | .defaultClause => [.word .defaultKw, .mark .colon, .repeated [.phrase .statement]]
  | .name => [.ident]
  | .this => [.word .thisKw]
  | .number => [.one (.token .number)]
  | .string => [.one (.token .string)]
  | .template => [.one (.token .template)]
  | .trueLiteral => [.word .trueKw]
  | .falseLiteral => [.word .falseKw]
  | .nullLiteral => [.word .nullKw]
  | .array => [.mark .lbracket, .list .oneExpression .anyTrailing, .mark .rbracket]
  | .object => [.mark .lbrace, .list .property .anyTrailing, .mark .rbrace]
  | .newExpression => [.word .newKw, .phrase .newTarget, .optional [.phrase .arguments]]
  | .parenthesized => [.mark .lparen, .phrase .anyExpression, .mark .rparen]
  | .arguments => [.mark .lparen, .list .argument .any, .mark .rparen]
  | .spread => [.mark .ellipsis, .phrase .oneExpression]
  | .pair => [.phrase .propertyKey, .mark .colon, .phrase .oneExpression]
  | .shorthand => [.ident]
  | .propertyName => [.phrase .propertyWord]
  | .unaryExpression => [.phrase .unaryOperator, .phrase .operand]
  | .getProp => [.mark .dot, .phrase .propertyName]
  | .getElem => [.mark .lbracket, .phrase .anyExpression, .mark .rbracket]
  | .call => [.phrase .arguments]
  | .updateExpression => [.phrase .updateOperator]
  | .binaryExpression =>
    [.phrase .binaryOperator, .phrase .operand,
      .repeated [.phrase .binaryOperator, .phrase .operand]]
  | .conditional =>
    [.mark .question, .phrase .oneExpression, .mark .colon, .phrase .oneExpression]
  | .assign => [.phrase .assignOperator, .phrase .oneExpression]
  | .sequence =>
    [.mark .comma, .phrase .oneExpression,
      .repeated [.token (.mark .comma), .phrase .oneExpression]]

/-- How tight the left operand of a rule that extends an expression has to be. -/
def leftRank? : Rule → Option Rank
  | .getProp | .getElem | .call | .updateExpression | .assign => some .member
  | .binaryExpression => some .unary
  | .conditional => some .binary
  | .sequence => some .assignment
  | _ => none

/-- How tight the expressions are that a rule forms. -/
def rank : Rule → Rank
  | .updateExpression => .update
  | .unaryExpression => .unary
  | .binaryExpression => .binary
  | .conditional => .conditional
  | .assign => .assignment
  | .sequence => .sequence
  | _ => .member

end Rule

/-! ## First tokens -/

namespace Mark

/-- The operators of assignments. -/
def isAssignOperator : Mark → Bool
  | .assign | .addAssign | .subAssign | .mulAssign | .divAssign | .modAssign | .shlAssign
  | .sarAssign | .shrAssign | .andAssign | .orAssign | .xorAssign => true
  | _ => false

/-- The operators between two operands that are marks. -/
def isBinaryOperator : Mark → Bool
  | .orElse | .andAlso | .bitOr | .bitXor | .bitAnd | .eq | .ne | .strictEq | .strictNe
  | .lt | .gt | .le | .ge | .shl | .sar | .shr | .plus | .minus | .star | .slash
  | .percent => true
  | _ => false

/-- The operators before an operand that are marks. -/
def isUnaryOperator : Mark → Bool
  | .bang | .tilde | .minus | .plus | .increment | .decrement => true
  | _ => false

end Mark

namespace Category

/-- The tokens that are phrases by themselves. -/
def acceptsToken : Category → TokenKind → Bool
  | .declarationWord, .keyword w => w == .varKw || w == .letKw || w == .constKw
  | .propertyWord, .name | .propertyWord, .keyword _ => true
  | .propertyKey, .string | .propertyKey, .number => true
  | .assignOperator, .mark m => m.isAssignOperator
  | .binaryOperator, .mark m => m.isBinaryOperator
  | .binaryOperator, .keyword w => w == .instanceofKw || w == .inKw
  | .unaryOperator, .mark m => m.isUnaryOperator
  | .unaryOperator, .keyword w => w == .typeofKw || w == .voidKw || w == .deleteKw
  | .updateOperator, .mark m => m == .increment || m == .decrement
  | _, _ => false

/-- The rule by which a primary expression that begins with this token is formed. -/
def primaryRule? (lead : Lead) : TokenKind → Option Rule
  | .name => some .name
  | .number => some .number
  | .string => some .string
  | .template => some .template
  | .keyword .thisKw => some .this
  | .keyword .trueKw => some .trueLiteral
  | .keyword .falseKw => some .falseLiteral
  | .keyword .nullKw => some .nullLiteral
  | .keyword .newKw => some .newExpression
  | .mark .lbracket => some .array
  | .mark .lparen => some .parenthesized
  | .mark .lbrace => if lead = .anywhere then some .object else none
  | .keyword .functionKw => if lead = .anywhere then some .functionExpression else none
  | _ => none

/-- An expression may begin with this token. -/
def startsExpression (rank : Rank) (lead : Lead) (kind : TokenKind) : Bool :=
  (primaryRule? lead kind).isSome || (Rank.unary.fits rank && unaryOperator.acceptsToken kind)

/-- The rule of a statement that begins with this token, a loop over the names of an object
apart. -/
def statementRule? : TokenKind → Option Rule
  | .keyword .varKw | .keyword .letKw | .keyword .constKw => some .varStatement
  | .keyword .functionKw => some .functionDeclaration
  | .keyword .returnKw => some .returnStatement
  | .keyword .ifKw => some .ifStatement
  | .keyword .forKw => some .forStatement
  | .keyword .whileKw => some .whileStatement
  | .keyword .doKw => some .doStatement
  | .keyword .tryKw => some .tryStatement
  | .keyword .switchKw => some .switchStatement
  | .keyword .throwKw => some .throwStatement
  | .keyword .breakKw => some .breakStatement
  | .keyword .continueKw => some .continueStatement
  | .mark .lbrace => some .block
  | .mark .semicolon => some .emptyStatement
  | kind =>
    if startsExpression .sequence .atStatement kind then some .expressionStatement else none

/-- A phrase of the category may begin with this token. -/
def startsWith : Category → TokenKind → Bool
  | .statement, kind => (statementRule? kind).isSome
  | .block, kind | .functionBody, kind => kind == .mark .lbrace
  | .declarator, kind | .newTarget, kind => kind == .name
  | .params, kind | .param, kind => kind == .name || kind == .mark .ellipsis
  | .forInit, kind =>
    declarationWord.acceptsToken kind || startsExpression .sequence .anywhere kind
  | .switchCase, kind => kind == .keyword .caseKw || kind == .keyword .defaultKw
  | .catchClause, kind => kind == .keyword .catchKw
  | .finallyClause, kind => kind == .keyword .finallyKw
  | .expression rank lead, kind => startsExpression rank lead kind
  | .primary lead, kind => (primaryRule? lead kind).isSome
  | .arguments, kind => kind == .mark .lparen
  | .argument, kind =>
    kind == .mark .ellipsis || startsExpression .assignment .anywhere kind
  | .property, kind | .propertyKey, kind =>
    propertyKey.acceptsToken kind || propertyWord.acceptsToken kind
  | .propertyName, kind => propertyWord.acceptsToken kind
  | c, kind => c.acceptsToken kind

end Category

namespace Part

/-- The part may begin with this token. -/
def startsWith : Part → TokenKind → Bool
  | .token kind, k => k == kind
  | .phrase c, k => c.startsWith k

end Part

/-! ## Predictions -/

/-- How a phrase begins: it is a single token, it is formed by a rule, or it begins with a
phrase of a narrower category. -/
inductive Prediction where
  | token
  | rule (r : Rule)
  | through (c : Category)
  deriving DecidableEq, Repr

/-- The tokens ahead begin a loop over the names of an object. -/
def isForIn : List TokenKind → Bool
  | .keyword .forKw :: .mark .lparen :: word :: .name :: .keyword .inKw :: _ =>
    Category.declarationWord.acceptsToken word
  | _ => false

/-- What the tokens ahead say about a phrase of a category; none if it cannot begin so. The
first token decides, except that a loop over names, a parameter with a default, and a pair in
an object literal show only later. -/
def Category.predict (c : Category) (ahead : List TokenKind) : Option Prediction :=
  match ahead with
  | [] => none
  | kind :: rest =>
    match c with
    | .statement =>
      if isForIn ahead then some (.rule .forInStatement)
      else (statementRule? kind).map .rule
    | .block => if kind = .mark .lbrace then some (.rule .block) else none
    | .functionBody => if kind = .mark .lbrace then some (.rule .functionBody) else none
    | .declarator => if kind = .name then some (.rule .declarator) else none
    | .params => if c.startsWith kind then some (.rule .params) else none
    | .param =>
      if kind = .mark .ellipsis then some (.rule .restParam)
      else if kind = .name then
        if rest.head? = some (.mark .assign) then some (.rule .defaultParam)
        else some (.rule .simpleParam)
      else none
    | .forInit =>
      if declarationWord.acceptsToken kind then some (.rule .forVar)
      else if c.startsWith kind then some (.rule .forInit)
      else none
    | .switchCase =>
      if kind = .keyword .caseKw then some (.rule .caseClause)
      else if kind = .keyword .defaultKw then some (.rule .defaultClause)
      else none
    | .catchClause => if kind = .keyword .catchKw then some (.rule .catchClause) else none
    | .finallyClause =>
      if kind = .keyword .finallyKw then some (.rule .finallyClause) else none
    | .expression rank lead =>
      if Rank.unary.fits rank && unaryOperator.acceptsToken kind then
        some (.rule .unaryExpression)
      else if (primaryRule? lead kind).isSome then some (.through (.primary lead))
      else none
    | .primary lead => (primaryRule? lead kind).map .rule
    | .newTarget => if kind = .name then some (.rule .name) else none
    | .arguments => if kind = .mark .lparen then some (.rule .arguments) else none
    | .argument =>
      if kind = .mark .ellipsis then some (.rule .spread)
      else if c.startsWith kind then some (.through .oneExpression)
      else none
    | .property =>
      if kind = .name ∧ rest.head? ≠ some (.mark .colon) then some (.rule .shorthand)
      else if c.startsWith kind then some (.rule .pair)
      else none
    | .propertyKey =>
      if c.acceptsToken kind then some .token
      else if c.startsWith kind then some (.through .propertyName)
      else none
    | .propertyName => if c.startsWith kind then some (.rule .propertyName) else none
    | c => if c.acceptsToken kind then some .token else none

/-- The rule by which a token extends the expression before it. -/
def TokenKind.extendingRule? : TokenKind → Option Rule
  | .mark .dot => some .getProp
  | .mark .lbracket => some .getElem
  | .mark .lparen => some .call
  | .mark .increment | .mark .decrement => some .updateExpression
  | .mark .question => some .conditional
  | .mark .comma => some .sequence
  | kind =>
    if Category.assignOperator.acceptsToken kind then some .assign
    else if Category.binaryOperator.acceptsToken kind then some .binaryExpression
    else none

/-- The rule by which the next token extends a phrase that a rule of rank `rank` has formed,
if the result still belongs to the category. What follows `new` takes member accesses only. -/
def Category.extension (c : Category) (rank : Rank) (kind : TokenKind) : Option Rule :=
  match c with
  | .expression limit _ =>
    kind.extendingRule?.filter fun r =>
      (r.leftRank?.any fun left => rank.fits left) && r.rank.fits limit
  | .newTarget => kind.extendingRule?.filter (· == .getProp)
  | _ => none

end SuperForward.Script
