import Lox.Syntax

/-!
Outlines: a syntax tree written on one line as nested lists, with the line of each node and, where
they are known, the addresses of its references.
-/

namespace Lox.Outline

/-- A list: its head and its parts, one blank apart. -/
def list (head : String) (parts : List String) : String :=
  "(" ++ String.intercalate " " (head :: parts) ++ ")"

def onLine (name : String) (line : Nat) : String := name ++ "@" ++ toString line

def token (t : Token) : String := onLine t.lexeme t.line

def literal : Literal → String
  | .nil => "nil"
  | .bool true => "true"
  | .bool false => "false"
  | .number value => list "num" [Number.display value]
  | .string value => list "str" ["\"" ++ value ++ "\""]

/-- What is written for the address of a reference; nothing if it is not shown. -/
abbrev Addresses := NodeId → Option String

variable (address : Addresses)

def reference (r : Reference) : String :=
  list (onLine "var" r.name.line) (r.name.lexeme :: (address r.id).toList)

def signature (s : Signature) : String := token s.name ++ "/" ++ toString s.arity

mutual

def expr : Expr → String
  | .assign target value =>
    list (onLine "assign" target.name.line)
      (target.name.lexeme :: (address target.id).toList ++ [expr value])
  | .binary left operator right =>
    list (onLine "binary" operator.line) [operator.lexeme, expr left, expr right]
  | .call callee paren arguments =>
    list (onLine "call" paren.line) (expr callee :: exprs arguments)
  | .property object name => list (onLine "get" name.line) [expr object, name.lexeme]
  | .group inner => list (onLine "group" inner.line) [expr inner]
  | .lambda f => list "lambda" (function f)
  | .literal value => literal value
  | .logical left operator right =>
    list (onLine "logical" operator.line) [operator.lexeme, expr left, expr right]
  | .setProperty object name value =>
    list (onLine "set" name.line) [expr object, name.lexeme, expr value]
  | .superRef keyword method =>
    list (onLine "super" keyword.name.line) (method.lexeme :: (address keyword.id).toList)
  | .ternary condition thenValue elseValue =>
    list (onLine "ternary" condition.line) [expr condition, expr thenValue, expr elseValue]
  | .thisRef keyword => list (onLine "this" keyword.name.line) (address keyword.id).toList
  | .unary operator right => list (onLine "unary" operator.line) [operator.lexeme, expr right]
  | .varRef r => reference address r

def exprs : List Expr → List String
  | [] => []
  | e :: es => expr e :: exprs es

/-- A function's name, line and arity, its parameters and the statements of its body. -/
def function : FunctionDecl → List String
  | ⟨name, params, body, line⟩ =>
    let title := (name.map Token.lexeme).getD "lambda"
    (onLine title line ++ "/" ++ toString params.length) ::
      ("(" ++ String.intercalate " " (params.map Token.lexeme) ++ ")") :: stmts body

def functions (head : String) : List FunctionDecl → List String
  | [] => []
  | f :: fs => list head (function f) :: functions head fs

def defaults : List FunctionDecl → List String
  | [] => []
  | f :: fs => ("(" ++ String.intercalate " " (function f) ++ ")") :: defaults fs

def method : MethodDecl → String
  | ⟨f, isGetter⟩ => list (if isGetter then "getter" else "method") (function f)

def methods : List MethodDecl → List String
  | [] => []
  | m :: ms => method m :: methods ms

def classDecl : ClassDecl → String
  | ⟨name, superclass, traits, ms, statics⟩ =>
    let parent := match superclass with
      | some r => ["<", reference address r]
      | none => []
    list "class" (token name :: parent ++
      [list "with" (traits.map (reference address)), list "methods" (methods ms),
       list "statics" (functions "static" statics)])

def traitDecl : TraitDecl → String
  | ⟨name, signatures, ds⟩ =>
    list "trait" [token name, list "needs" (signatures.map signature),
      list "defaults" (defaults ds)]

def stmt : Stmt → String
  | .block body => list "block" (stmts body)
  | .classDecl declaration => classDecl declaration
  | .expression value => list "expr" [expr value]
  | .flow signal line => list (onLine signal.name line) []
  | .functionDecl declaration => list "fun" (function declaration)
  | .ifElse condition thenBranch none => list "if" [expr condition, stmt thenBranch]
  | .ifElse condition thenBranch (some elseBranch) =>
    list "if" [expr condition, stmt thenBranch, stmt elseBranch]
  | .print value => list "print" [expr value]
  | .returns keyword none => list (onLine "return" keyword.line) []
  | .returns keyword (some value) => list (onLine "return" keyword.line) [expr value]
  | .traitDecl declaration => traitDecl declaration
  | .varDecl name none => list "var" [token name]
  | .varDecl name (some value) => list "var" [token name, expr value]
  | .loop condition body none => list "while" [expr condition, stmt body]
  | .loop condition body (some increment) =>
    list "while" [expr condition, stmt body, list "then" [list "expr" [expr increment]]]

def stmts : List Stmt → List String
  | [] => []
  | s :: ss => stmt s :: stmts ss

end

end Lox.Outline
