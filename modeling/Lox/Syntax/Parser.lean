import Lox.Syntax

/-!
Parsing: a token list read as statements or as one expression. The first error ends the parse.

Each rule of the grammar is a function of the rules that it uses after its first token. Every such
use leaves fewer tokens than the rule itself was given, so a parse never nests deeper than it has
tokens, and that number bounds the nesting and every repetition.
-/

namespace Lox

/-- What a parse found wrong at a token. -/
inductive ParseError.Cause where
  | noExpression
  | noEnd
  | noName (role : String)
  | noPropertyName
  | noMark (mark place : String)
  | invalidTarget
  | tooMany (what : String)
  | tooDeep
deriving DecidableEq

structure ParseError where
  token : Token
  cause : ParseError.Cause
deriving DecidableEq

def ParseError.Cause.message : ParseError.Cause → String
  | noExpression => "Expect expression."
  | noEnd => "Expect end of expression."
  | noName role => "Expect " ++ role ++ " name."
  | noPropertyName => "Expect property name after '.'."
  | noMark mark place => "Expect '" ++ mark ++ "' " ++ place ++ "."
  | invalidTarget => "Invalid assignment target."
  | tooMany what => "Can't have more than 255 " ++ what ++ "."
  | tooDeep => "Nesting too deep."

def ParseError.message (e : ParseError) : String :=
  "[line " ++ toString e.token.line ++ "] Error" ++ e.token.location ++ ": " ++ e.cause.message

/-- The tokens still to be read, and the identity that the next reference gets. -/
structure Cursor where
  rest : List Token
  nextNode : NodeId

abbrev Parser := EStateM ParseError Cursor

namespace Parser

/-- A list that has run out reads as the end of the input. -/
def peek : Parser Token := do
  return (← get).rest.headD (.eof 0)

def fail (token : Token) (cause : ParseError.Cause) : Parser α :=
  throw ⟨token, cause⟩

def failHere (cause : ParseError.Cause) : Parser α := do
  fail (← peek) cause

/-- Moves past a token, but never past the end. -/
def advance : Parser Unit :=
  modify fun c => match c.rest with
    | [] => c
    | t :: rest => if t.kind = .eof then c else { c with rest := rest }

def check (kind : Kind) : Parser Bool := do
  return (← peek).kind = kind

/-- Takes the next token if it is of one of the given kinds. -/
def accept? (kinds : List Kind) : Parser (Option Token) := do
  let token ← peek
  if token.kind ∈ kinds then
    advance
    return some token
  else
    return none

def accept (kind : Kind) : Parser Bool := do
  return (← accept? [kind]).isSome

def expect (kind : Kind) (cause : ParseError.Cause) : Parser Token := do
  match ← accept? [kind] with
  | some token => return token
  | none => failHere cause

def expectName (role : String) : Parser Token :=
  expect .identifier (.noName role)

/-- Gives an occurrence of a name an identity that no other has. -/
def refer (name : Token) : Parser Reference :=
  modifyGet fun c => (⟨c.nextNode, name⟩, { c with nextNode := c.nextNode + 1 })

def maxItems : Nat := 255

/-- After `count` items there is room for one more. -/
def roomFor (what : Option String) (count : Nat) : Parser Unit :=
  match what with
  | some what => if maxItems ≤ count then failHere (.tooMany what) else pure ()
  | none => pure ()

/-- One or more items between commas. With `what` there are at most 255 of them. -/
def separated (what : Option String) (item : Parser α) : (limit count : Nat) → Parser (List α)
  | 0, _ => failHere .tooDeep
  | limit + 1, count => do
    roomFor what count
    let first ← item
    if ← accept .comma then
      return first :: (← separated what item limit (count + 1))
    else
      return [first]

/-- Items between commas up to a closing parenthesis, if there are any. -/
def listed (what : String) (item : Parser α) (limit : Nat) : Parser (List α) := do
  if ← check .rightParen then return []
  separated (some what) item limit 0

/-- Items up to a token of one of the given kinds. -/
def itemsUntil (stops : List Kind) (item : Parser α) : (limit : Nat) → Parser (List α)
  | 0 => failHere .tooDeep
  | limit + 1 => do
    if (← peek).kind ∈ stops then return []
    let first ← item
    return first :: (← itemsUntil stops item limit)

/-- Items up to a closing brace or the end of the input. -/
def untilBrace (item : Parser α) (limit : Nat) : Parser (List α) :=
  itemsUntil [.rightBrace, .eof] item limit

/-- Operators of one level, from left to right. -/
def chain (operators : List Kind) (node : Expr → Token → Expr → Expr) (operand : Parser Expr) :
    (limit : Nat) → Expr → Parser Expr
  | 0, _ => failHere .tooDeep
  | limit + 1, left => do
    match ← accept? operators with
    | none => return left
    | some operator => chain operators node operand limit (node left operator (← operand))

def level (limit : Nat) (operators : List Kind) (node : Expr → Token → Expr → Expr)
    (operand : Parser Expr) : Parser Expr := do
  let first ← operand
  chain operators node operand limit first

/-- The rules that stand behind the first token of another rule, and a limit on repetitions: at
least the number of tokens left when that rule starts. -/
structure Rules where
  limit : Nat
  expression : Parser Expr
  ternary : Parser Expr
  unary : Parser Expr
  statement : Parser Stmt
  declaration : Parser Stmt

/-- A parameter list after its opening parenthesis. -/
def parameters (limit : Nat) : Parser (List Token) := do
  let params ← listed "parameters" (expectName "parameter") limit
  let _ ← expect .rightParen (.noMark ")" "after parameters")
  return params

namespace Rules

variable (rules : Rules)

/-- The statements of a block after its opening brace. -/
def block : Parser (List Stmt) := do
  let body ← untilBrace rules.declaration rules.limit
  let _ ← expect .rightBrace (.noMark "\x7d" "after block")
  return body

/-- What follows the name of a function: parameters and a body. -/
def functionRest (name : Option Token) (line : Nat) (role : String) : Parser FunctionDecl := do
  let _ ← expect .leftParen (.noMark "(" ("after " ++ role ++ " name"))
  let params ← parameters rules.limit
  let _ ← expect .leftBrace (.noMark "\x7b" ("before " ++ role ++ " body"))
  return ⟨name, params, ← rules.block, line⟩

def function (role : String) : Parser FunctionDecl := do
  let name ← expectName role
  rules.functionRest (some name) name.line role

def arguments : Parser (List Expr) := listed "arguments" rules.expression rules.limit

def primary : Parser Expr := do
  let token ← peek
  match token.kind with
  | .kwFalse => do advance; return .literal (.bool false)
  | .kwTrue => do advance; return .literal (.bool true)
  | .kwNil => do advance; return .literal .nil
  | .number value => do advance; return .literal (.number value)
  | .string contents => do advance; return .literal (.string contents)
  | .identifier => do advance; return .varRef (← refer token)
  | .kwThis => do advance; return .thisRef (← refer token)
  | .kwSuper => do
    advance
    let _ ← expect .dot (.noMark "." "after 'super'")
    let method ← expectName "superclass method"
    return .superRef (← refer token) method
  | .kwFun => do advance; return .lambda (← rules.functionRest none token.line "lambda")
  | .leftParen => do
    advance
    let inner ← rules.expression
    let _ ← expect .rightParen (.noMark ")" "after expression")
    return .group inner
  | _ => fail token .noExpression

/-- Calls and property accesses that follow an expression. -/
def suffixes : (limit : Nat) → Expr → Parser Expr
  | 0, _ => failHere .tooDeep
  | limit + 1, object => do
    if ← accept .leftParen then
      let args ← rules.arguments
      let paren ← expect .rightParen (.noMark ")" "after arguments")
      suffixes limit (.call object paren args)
    else if ← accept .dot then
      let name ← expect .identifier .noPropertyName
      suffixes limit (.property object name)
    else return object

def call : Parser Expr := do
  let first ← rules.primary
  rules.suffixes rules.limit first

def unaryRule : Parser Expr := do
  match ← accept? [.bang, .minus] with
  | some operator => return .unary operator (← rules.unary)
  | none => rules.call

def factor : Parser Expr := level rules.limit [.star, .slash, .percent] .binary rules.unaryRule

def term : Parser Expr := level rules.limit [.minus, .plus] .binary rules.factor

def comparison : Parser Expr :=
  level rules.limit [.greater, .greaterEqual, .less, .lessEqual] .binary rules.term

def equality : Parser Expr := level rules.limit [.bangEqual, .equalEqual] .binary rules.comparison

def conjunction : Parser Expr := level rules.limit [.kwAnd] .logical rules.equality

def disjunction : Parser Expr := level rules.limit [.kwOr] .logical rules.conjunction

def ternaryRule : Parser Expr := do
  let condition ← rules.disjunction
  if ← accept .question then
    let thenValue ← rules.expression
    let _ ← expect .colon (.noMark ":" "in conditional expression")
    return .ternary condition thenValue (← rules.ternary)
  else return condition

/-- A variable or a property may stand before an equals sign. -/
def assignTo (left : Expr) (equals : Token) (value : Expr) : Parser Expr :=
  match left with
  | .varRef target => return .assign (← refer target.name) value
  | .property object name => return .setProperty object name value
  | _ => fail equals .invalidTarget

def expressionRule : Parser Expr := do
  let left ← rules.ternaryRule
  match ← accept? [.equal] with
  | none => return left
  | some equals => assignTo left equals (← rules.expression)

def expressionStatement : Parser Stmt := do
  let value ← rules.expressionRule
  let _ ← expect .semicolon (.noMark ";" "after expression")
  return .expression value

def initializer : Parser (Option Expr) := do
  if ← accept .equal then return some (← rules.expression)
  return none

/-- A variable declaration after `var`. -/
def varDeclaration : Parser Stmt := do
  let name ← expectName "variable"
  let value ← rules.initializer
  let _ ← expect .semicolon (.noMark ";" "after variable declaration")
  return .varDecl name value

/-- An expression that may be missing before a token. -/
def expressionUnless (stop : Kind) : Parser (Option Expr) := do
  if ← check stop then return none
  return some (← rules.expression)

/-- The first clause of a `for` loop with its semicolon. -/
def forStart : Parser (Option Stmt) := do
  if ← accept .semicolon then return none
  if ← accept .kwVar then return some (← rules.varDeclaration)
  return some (← rules.expressionStatement)

/-- The clauses of a `for` loop are a declaration around a `while` loop; a missing condition
always holds. -/
def forStatement : Parser Stmt := do
  let _ ← expect .leftParen (.noMark "(" "after 'for'")
  let start ← rules.forStart
  let condition ← rules.expressionUnless .semicolon
  let _ ← expect .semicolon (.noMark ";" "after loop condition")
  let increment ← rules.expressionUnless .rightParen
  let _ ← expect .rightParen (.noMark ")" "after for clauses")
  let body ← rules.statement
  let loop := Stmt.loop (condition.getD (.literal (.bool true))) body increment
  match start with
  | some declaration => return .block [declaration, loop]
  | none => return loop

def elseBranch : Parser (Option Stmt) := do
  if ← accept .kwElse then return some (← rules.statement)
  return none

def ifStatement : Parser Stmt := do
  let _ ← expect .leftParen (.noMark "(" "after 'if'")
  let condition ← rules.expression
  let _ ← expect .rightParen (.noMark ")" "after if condition")
  let thenBranch ← rules.statement
  let elseBranch ← rules.elseBranch
  return .ifElse condition thenBranch elseBranch

def whileStatement : Parser Stmt := do
  let _ ← expect .leftParen (.noMark "(" "after 'while'")
  let condition ← rules.expression
  let _ ← expect .rightParen (.noMark ")" "after condition")
  return .loop condition (← rules.statement) none

def returnStatement (keyword : Token) : Parser Stmt := do
  let value ← rules.expressionUnless .semicolon
  let _ ← expect .semicolon (.noMark ";" "after return value")
  return .returns keyword value

def flowStatement (signal : Signal) (keyword : Token) : Parser Stmt := do
  let _ ← expect .semicolon (.noMark ";" ("after '" ++ keyword.lexeme ++ "'"))
  return .flow signal keyword.line

def printStatement : Parser Stmt := do
  let value ← rules.expression
  let _ ← expect .semicolon (.noMark ";" "after value")
  return .print value

def statementRule : Parser Stmt := do
  let token ← peek
  match token.kind with
  | .kwFor => do advance; rules.forStatement
  | .kwIf => do advance; rules.ifStatement
  | .kwWhile => do advance; rules.whileStatement
  | .kwReturn => do advance; rules.returnStatement token
  | .kwBreak => do advance; flowStatement .exitLoop token
  | .kwContinue => do advance; flowStatement .nextTurn token
  | .leftBrace => do advance; return .block (← rules.block)
  | .kwPrint => do advance; rules.printStatement
  | _ => rules.expressionStatement

/-- A member of a class body. -/
inductive Member where
  | method (declaration : MethodDecl)
  | static (declaration : FunctionDecl)

def Member.method? : Member → Option MethodDecl
  | .method declaration => some declaration
  | .static _ => none

def Member.static? : Member → Option FunctionDecl
  | .method _ => none
  | .static declaration => some declaration

/-- A method without a parameter list is a getter; a static method is marked by `class`. -/
def member : Parser Member := do
  if ← accept .kwClass then return .static (← rules.function "static method")
  let name ← expectName "method"
  if ← accept .leftBrace then
    return .method ⟨⟨some name, [], ← rules.block, name.line⟩, true⟩
  else
    return .method ⟨← rules.functionRest (some name) name.line "method", false⟩

def superclass : Parser (Option Reference) := do
  if ← accept .less then return some (← refer (← expectName "superclass"))
  return none

def traitName : Parser Reference := do refer (← expectName "trait")

def mixins : Parser (List Reference) := do
  if ← accept .kwWith then separated none traitName rules.limit 0 else return []

/-- A class declaration after `class`. -/
def classDeclaration : Parser Stmt := do
  let name ← expectName "class"
  let superclass ← superclass
  let traits ← rules.mixins
  let _ ← expect .leftBrace (.noMark "\x7b" "before class body")
  let members ← untilBrace rules.member rules.limit
  let _ ← expect .rightBrace (.noMark "\x7d" "after class body")
  return .classDecl ⟨name, superclass, traits, members.filterMap Member.method?,
    members.filterMap Member.static?⟩

/-- A member of a trait body: a method asked for, or a default method. -/
inductive TraitMember where
  | asked (method : Signature)
  | default (method : FunctionDecl)

def TraitMember.asked? : TraitMember → Option Signature
  | .asked method => some method
  | .default _ => none

def TraitMember.default? : TraitMember → Option FunctionDecl
  | .asked _ => none
  | .default method => some method

def traitMember : Parser TraitMember := do
  let name ← expectName "method"
  let _ ← expect .leftParen (.noMark "(" "after method name")
  let params ← parameters rules.limit
  if ← accept .semicolon then return .asked ⟨name, params.length⟩
  let _ ← expect .leftBrace (.noMark "\x7b" "before method body")
  return .default ⟨some name, params, ← rules.block, name.line⟩

/-- A trait declaration after `trait`. -/
def traitDeclaration : Parser Stmt := do
  let name ← expectName "trait"
  let _ ← expect .leftBrace (.noMark "\x7b" "before trait body")
  let members ← untilBrace rules.traitMember rules.limit
  let _ ← expect .rightBrace (.noMark "\x7d" "after trait body")
  return .traitDecl ⟨name, members.filterMap TraitMember.asked?,
    members.filterMap TraitMember.default?⟩

end Rules

/-- Whether `fun` is followed by a name, which makes it a declaration and not a lambda. -/
def namesFunction : Parser Bool := do
  match (← get).rest with
  | first :: second :: _ => return first.kind = .kwFun ∧ second.kind = .identifier
  | _ => return false

def startsStatement : Kind → Bool
  | .kwClass | .kwTrait | .kwFun | .kwVar | .kwFor | .kwIf | .kwWhile | .kwPrint | .kwReturn =>
    true
  | _ => false

/-- Drops tokens up to the start of a statement: past a semicolon, before a word that starts one,
or at the end. -/
def skipFrom (last : Token) : List Token → List Token
  | [] => []
  | t :: rest =>
    if t.kind = .eof ∨ last.kind = .semicolon ∨ startsStatement t.kind then t :: rest
    else skipFrom t rest

def skipToStatement : List Token → List Token
  | [] => []
  | t :: rest => if t.kind = .eof then t :: rest else skipFrom t rest

/-- After an error the cursor is moved to the next likely start of a statement. -/
def resync (rule : Parser α) : Parser α :=
  tryCatch rule fun e => do
    modify fun c => { c with rest := skipToStatement c.rest }
    throw e

def Rules.declarationRule (rules : Rules) : Parser Stmt := resync do
  if ← namesFunction then
    advance
    return .functionDecl (← rules.function "function")
  let token ← peek
  match token.kind with
  | .kwClass => do advance; rules.classDeclaration
  | .kwTrait => do advance; rules.traitDeclaration
  | .kwVar => do advance; rules.varDeclaration
  | _ => rules.statementRule

/-- The rules, with at most `limit` of them inside one another. -/
def rules : (limit : Nat) → Rules
  | 0 => ⟨0, failHere .tooDeep, failHere .tooDeep, failHere .tooDeep, failHere .tooDeep,
      failHere .tooDeep⟩
  | limit + 1 =>
    let inner := rules limit
    ⟨limit + 1, inner.expressionRule, inner.ternaryRule, inner.unaryRule, inner.statementRule,
      inner.declarationRule⟩

/-- Declarations up to the end of the input. -/
def program : Parser (List Stmt) := do
  let limit := (← get).rest.length + 1
  itemsUntil [.eof] (rules limit).declaration limit

def soleExpression : Parser Expr := do
  let value ← (rules ((← get).rest.length + 1)).expression
  let token ← peek
  if token.kind = .eof then return value else fail token .noEnd

/-- The outcome of a parse and the cursor at its end, also after an error. -/
def outcome (p : Parser α) (tokens : List Token) (nextNode : NodeId) :
    Except ParseError α × Cursor :=
  match p.run ⟨tokens, nextNode⟩ with
  | .ok value cursor => (.ok value, cursor)
  | .error e cursor => (.error e, cursor)

end Parser

/-- The statements of a program whose references are numbered from `nextNode` on. -/
def parse (tokens : List Token) (nextNode : NodeId) : Except ParseError (List Stmt) × Cursor :=
  Parser.program.outcome tokens nextNode

/-- One expression and nothing after it. -/
def parseExpression (tokens : List Token) (nextNode : NodeId) :
    Except ParseError Expr × Cursor :=
  Parser.soleExpression.outcome tokens nextNode

end Lox
