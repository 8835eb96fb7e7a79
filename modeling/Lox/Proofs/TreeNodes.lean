import Lox.Syntax

/-! The nodes of a syntax tree, each with the blocks and functions around it, in the order in which a
resolution pass comes to them. -/

namespace Lox

/-- A block or a function around a node. -/
inductive Enclosure where
  | block
  /-- A declared function or a lambda. -/
  | function
  /-- A method or a getter of a class, which may have a superclass. -/
  | method (parent : Option Reference) (name : String)
  /-- A static method of a class. -/
  | static
  /-- A default method of a trait. -/
  | default

/-- What lies around a node, innermost first; nothing at top level. -/
abbrev Around := List Enclosure

/-- A node of a syntax tree. A function is a node of its own wherever it has a body. -/
inductive Node where
  | expr (e : Expr)
  | function (f : FunctionDecl)
  | stmt (s : Stmt)

namespace Node

mutual

/-- The nodes of an expression, itself included. -/
def inExpr : Expr → Around → List (Node × Around)
  | .assign target value, around => (.expr (.assign target value), around) :: inExpr value around
  | .binary left operator right, around =>
    (.expr (.binary left operator right), around) :: (inExpr left around ++ inExpr right around)
  | .call callee paren arguments, around =>
    (.expr (.call callee paren arguments), around) ::
      (inExpr callee around ++ inExprs arguments around)
  | .property object name, around =>
    (.expr (.property object name), around) :: inExpr object around
  | .group inner, around => (.expr (.group inner), around) :: inExpr inner around
  | .lambda f, around => (.expr (.lambda f), around) :: inFunction .function f around
  | .literal value, around => [(.expr (.literal value), around)]
  | .logical left operator right, around =>
    (.expr (.logical left operator right), around) :: (inExpr left around ++ inExpr right around)
  | .setProperty object name value, around =>
    (.expr (.setProperty object name value), around) ::
      (inExpr value around ++ inExpr object around)
  | .superRef keyword method, around => [(.expr (.superRef keyword method), around)]
  | .ternary condition thenValue elseValue, around =>
    (.expr (.ternary condition thenValue elseValue), around) ::
      (inExpr condition around ++ (inExpr thenValue around ++ inExpr elseValue around))
  | .thisRef keyword, around => [(.expr (.thisRef keyword), around)]
  | .unary operator right, around => (.expr (.unary operator right), around) :: inExpr right around
  | .varRef reference, around => [(.expr (.varRef reference), around)]

def inExprs : List Expr → Around → List (Node × Around)
  | [], _ => []
  | e :: es, around => inExpr e around ++ inExprs es around

/-- The nodes of a function of the given kind. -/
def inFunction (kind : Enclosure) : FunctionDecl → Around → List (Node × Around)
  | ⟨name, params, body, line⟩, around =>
    (.function ⟨name, params, body, line⟩, around) :: inStmts body (kind :: around)

def inFunctions (kind : Enclosure) : List FunctionDecl → Around → List (Node × Around)
  | [], _ => []
  | f :: fs, around => inFunction kind f around ++ inFunctions kind fs around

def inMethods (parent : Option Reference) : List MethodDecl → Around → List (Node × Around)
  | [], _ => []
  | ⟨f, _⟩ :: ms, around =>
    inFunction (.method parent f.title) f around ++ inMethods parent ms around

/-- The nodes of a statement, itself included. -/
def inStmt : Stmt → Around → List (Node × Around)
  | .block body, around => (.stmt (.block body), around) :: inStmts body (.block :: around)
  | .classDecl ⟨name, parent, traits, ms, statics⟩, around =>
    (.stmt (.classDecl ⟨name, parent, traits, ms, statics⟩), around) ::
      (inMethods parent ms around ++ inFunctions .static statics around)
  | .expression value, around => (.stmt (.expression value), around) :: inExpr value around
  | .flow signal line, around => [(.stmt (.flow signal line), around)]
  | .functionDecl f, around => (.stmt (.functionDecl f), around) :: inFunction .function f around
  | .ifElse condition thenBranch none, around =>
    (.stmt (.ifElse condition thenBranch none), around) ::
      (inExpr condition around ++ inStmt thenBranch around)
  | .ifElse condition thenBranch (some elseBranch), around =>
    (.stmt (.ifElse condition thenBranch (some elseBranch)), around) ::
      (inExpr condition around ++ (inStmt thenBranch around ++ inStmt elseBranch around))
  | .print value, around => (.stmt (.print value), around) :: inExpr value around
  | .returns keyword none, around => [(.stmt (.returns keyword none), around)]
  | .returns keyword (some value), around =>
    (.stmt (.returns keyword (some value)), around) :: inExpr value around
  | .traitDecl ⟨name, signatures, defaults⟩, around =>
    (.stmt (.traitDecl ⟨name, signatures, defaults⟩), around) ::
      inFunctions .default defaults around
  | .varDecl name none, around => [(.stmt (.varDecl name none), around)]
  | .varDecl name (some value), around =>
    (.stmt (.varDecl name (some value)), around) :: inExpr value around
  | .loop condition body none, around =>
    (.stmt (.loop condition body none), around) :: (inExpr condition around ++ inStmt body around)
  | .loop condition body (some increment), around =>
    (.stmt (.loop condition body (some increment)), around) ::
      (inExpr condition around ++ (inStmt body around ++ inExpr increment around))

def inStmts : List Stmt → Around → List (Node × Around)
  | [], _ => []
  | s :: ss, around => inStmt s around ++ inStmts ss around

end

end Node

end Lox
