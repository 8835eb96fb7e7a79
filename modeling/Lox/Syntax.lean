import Lox.Token

/-!
Syntax trees of expressions, functions, classes, traits and statements.
-/

namespace Lox

/-- Names an occurrence of a variable, so that an address can be recorded for it. -/
abbrev NodeId := Nat

/-- An occurrence of a name that stands for a variable. -/
structure Reference where
  id : NodeId
  name : Token
deriving DecidableEq, Inhabited

inductive Literal where
  | nil
  | bool (value : Bool)
  | number (value : Float)
  | string (value : String)
deriving DecidableEq, Inhabited

/-- What a loop body can ask of the loop around it. -/
inductive Signal where
  | exitLoop
  | nextTurn
deriving DecidableEq, Inhabited

def Signal.name : Signal → String
  | .exitLoop => "break"
  | .nextTurn => "continue"

/-- A method that a trait asks for. -/
structure Signature where
  name : Token
  arity : Nat
deriving DecidableEq, Inhabited

mutual

inductive Expr where
  | assign (target : Reference) (value : Expr)
  | binary (left : Expr) (operator : Token) (right : Expr)
  | call (callee : Expr) (paren : Token) (arguments : List Expr)
  | property (object : Expr) (name : Token)
  | group (inner : Expr)
  | lambda (function : FunctionDecl)
  | literal (value : Literal)
  | logical (left : Expr) (operator : Token) (right : Expr)
  | setProperty (object : Expr) (name : Token) (value : Expr)
  | superRef (keyword : Reference) (method : Token)
  | ternary (condition thenValue elseValue : Expr)
  | thisRef (keyword : Reference)
  | unary (operator : Token) (right : Expr)
  | varRef (reference : Reference)

/-- A function without a name is a lambda. -/
structure FunctionDecl where
  name : Option Token
  params : List Token
  body : List Stmt
  line : Nat

structure MethodDecl where
  function : FunctionDecl
  isGetter : Bool

structure ClassDecl where
  name : Token
  superclass : Option Reference
  traits : List Reference
  methods : List MethodDecl
  statics : List FunctionDecl

structure TraitDecl where
  name : Token
  signatures : List Signature
  defaults : List FunctionDecl

/-- A loop runs its increment after every turn of its body. -/
inductive Stmt where
  | block (body : List Stmt)
  | classDecl (declaration : ClassDecl)
  | expression (value : Expr)
  | flow (signal : Signal) (line : Nat)
  | functionDecl (declaration : FunctionDecl)
  | ifElse (condition : Expr) (thenBranch : Stmt) (elseBranch : Option Stmt)
  | print (value : Expr)
  | returns (keyword : Token) (value : Option Expr)
  | traitDecl (declaration : TraitDecl)
  | varDecl (name : Token) (value : Option Expr)
  | loop (condition : Expr) (body : Stmt) (increment : Option Expr)

end

instance : Inhabited Expr := ⟨.literal .nil⟩

instance : Inhabited Stmt := ⟨.block []⟩

/-- The line that a message about an expression names; a literal has none. -/
def Expr.line : Expr → Nat
  | .assign target _ => target.name.line
  | .binary _ operator _ | .logical _ operator _ | .unary operator _ => operator.line
  | .call _ paren _ => paren.line
  | .property _ name | .setProperty _ name _ => name.line
  | .group inner => inner.line
  | .lambda function => function.line
  | .literal _ => 0
  | .superRef keyword _ | .thisRef keyword => keyword.name.line
  | .ternary condition _ _ => condition.line
  | .varRef reference => reference.name.line

namespace FunctionDecl

def arity (f : FunctionDecl) : Nat := f.params.length

/-- The name that is shown for a function. -/
def title (f : FunctionDecl) : String := (f.name.map Token.lexeme).getD "lambda"

end FunctionDecl

end Lox
