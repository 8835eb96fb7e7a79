import Lox.Proofs.Sites

/-! All references that are made while a tree is read. They are those in the tree, and one for every
assignment: its target has been read as a variable before it became a target. -/

namespace Lox.Made

mutual

/-- The references made for an expression. The variable that an assignment replaces was numbered
just before everything in the value. -/
def inExpr : Expr → List Reference
  | .assign target value =>
    ⟨target.id - (inExpr value).length - 1, target.name⟩ :: (inExpr value ++ [target])
  | .binary left _ right | .logical left _ right => inExpr left ++ inExpr right
  | .call callee _ arguments => inExpr callee ++ inExprs arguments
  | .property object _ => inExpr object
  | .group inside => inExpr inside
  | .lambda f => inFunction f
  | .literal _ => []
  | .setProperty object _ value => inExpr value ++ inExpr object
  | .superRef keyword _ => [keyword]
  | .ternary condition thenValue elseValue =>
    inExpr condition ++ (inExpr thenValue ++ inExpr elseValue)
  | .thisRef keyword => [keyword]
  | .unary _ right => inExpr right
  | .varRef reference => [reference]

def inExprs : List Expr → List Reference
  | [] => []
  | e :: es => inExpr e ++ inExprs es

def inFunction : FunctionDecl → List Reference
  | ⟨_, _, body, _⟩ => inStmts body

def inFunctions : List FunctionDecl → List Reference
  | [] => []
  | f :: fs => inFunction f ++ inFunctions fs

def inMethods : List MethodDecl → List Reference
  | [] => []
  | ⟨f, _⟩ :: ms => inFunction f ++ inMethods ms

def inClass : ClassDecl → List Reference
  | ⟨_, parent, traits, ms, statics⟩ =>
    parent.toList ++ (traits ++ (inMethods ms ++ inFunctions statics))

def inTrait : TraitDecl → List Reference
  | ⟨_, _, defaults⟩ => inFunctions defaults

def inStmt : Stmt → List Reference
  | .block body => inStmts body
  | .classDecl declaration => inClass declaration
  | .expression value | .print value => inExpr value
  | .flow _ _ => []
  | .functionDecl f => inFunction f
  | .ifElse condition thenBranch none => inExpr condition ++ inStmt thenBranch
  | .ifElse condition thenBranch (some elseBranch) =>
    inExpr condition ++ (inStmt thenBranch ++ inStmt elseBranch)
  | .returns _ none => []
  | .returns _ (some value) => inExpr value
  | .traitDecl declaration => inTrait declaration
  | .varDecl _ none => []
  | .varDecl _ (some value) => inExpr value
  | .loop condition body none => inExpr condition ++ inStmt body
  | .loop condition body (some increment) =>
    inExpr condition ++ (inStmt body ++ inExpr increment)

def inStmts : List Stmt → List Reference
  | [] => []
  | s :: ss => inStmt s ++ inStmts ss

end

mutual

theorem inExpr_sublist : (e : Expr) → (Reference.inExpr true e).Sublist (inExpr e)
  | .assign _ value => ((inExpr_sublist value).append (.refl _)).cons _
  | .binary left _ right | .logical left _ right =>
    (inExpr_sublist left).append (inExpr_sublist right)
  | .call callee _ arguments => (inExpr_sublist callee).append (inExprs_sublist arguments)
  | .property object _ => inExpr_sublist object
  | .group inside => inExpr_sublist inside
  | .lambda f => inFunction_sublist f
  | .literal _ => .refl _
  | .setProperty object _ value => (inExpr_sublist value).append (inExpr_sublist object)
  | .superRef _ _ => .refl _
  | .ternary condition thenValue elseValue =>
    (inExpr_sublist condition).append
      ((inExpr_sublist thenValue).append (inExpr_sublist elseValue))
  | .thisRef _ => .refl _
  | .unary _ right => inExpr_sublist right
  | .varRef _ => .refl _

theorem inExprs_sublist : (es : List Expr) → (Reference.inExprs true es).Sublist (inExprs es)
  | [] => .refl _
  | e :: es => (inExpr_sublist e).append (inExprs_sublist es)

theorem inFunction_sublist :
    (f : FunctionDecl) → (Reference.inFunction true f).Sublist (inFunction f)
  | ⟨_, _, body, _⟩ => inStmts_sublist body

theorem inFunctions_sublist :
    (fs : List FunctionDecl) → (Reference.inFunctions true fs).Sublist (inFunctions fs)
  | [] => .refl _
  | f :: fs => (inFunction_sublist f).append (inFunctions_sublist fs)

theorem inMethods_sublist :
    (ms : List MethodDecl) → (Reference.inMethods true ms).Sublist (inMethods ms)
  | [] => .refl _
  | ⟨f, _⟩ :: ms => (inFunction_sublist f).append (inMethods_sublist ms)

theorem inClass_sublist : (c : ClassDecl) → (Reference.inClass true c).Sublist (inClass c)
  | ⟨_, _, _, ms, statics⟩ =>
    .append (.refl _) (.append (.refl _) ((inMethods_sublist ms).append (inFunctions_sublist statics)))

theorem inTrait_sublist : (t : TraitDecl) → (Reference.inTrait true t).Sublist (inTrait t)
  | ⟨_, _, defaults⟩ => inFunctions_sublist defaults

theorem inStmt_sublist : (s : Stmt) → (Reference.inStmt true s).Sublist (inStmt s)
  | .block body => inStmts_sublist body
  | .classDecl declaration => inClass_sublist declaration
  | .expression value | .print value => inExpr_sublist value
  | .flow _ _ => .refl _
  | .functionDecl f => inFunction_sublist f
  | .ifElse condition thenBranch none =>
    (inExpr_sublist condition).append (inStmt_sublist thenBranch)
  | .ifElse condition thenBranch (some elseBranch) =>
    (inExpr_sublist condition).append
      ((inStmt_sublist thenBranch).append (inStmt_sublist elseBranch))
  | .returns _ none => .refl _
  | .returns _ (some value) => inExpr_sublist value
  | .traitDecl declaration => inTrait_sublist declaration
  | .varDecl _ none => .refl _
  | .varDecl _ (some value) => inExpr_sublist value
  | .loop condition body none => (inExpr_sublist condition).append (inStmt_sublist body)
  | .loop condition body (some increment) =>
    (inExpr_sublist condition).append ((inStmt_sublist body).append (inExpr_sublist increment))

theorem inStmts_sublist : (ss : List Stmt) → (Reference.inStmts true ss).Sublist (inStmts ss)
  | [] => .refl _
  | s :: ss => (inStmt_sublist s).append (inStmts_sublist ss)

end

end Lox.Made

namespace Lox.Part

/-- All references that are made while the part is read. -/
def made : Part → List Reference
  | expr e => Made.inExpr e
  | exprs es => Made.inExprs es
  | function _ f => Made.inFunction f
  | functions _ fs => Made.inFunctions fs
  | methods _ ms _ => Made.inMethods ms
  | stmt s => Made.inStmt s
  | stmts ss => Made.inStmts ss

theorem references_sublist (part : Part) : (part.references true).Sublist part.made := by
  cases part with
  | expr e => exact Made.inExpr_sublist e
  | exprs es => exact Made.inExprs_sublist es
  | function kind f => exact Made.inFunction_sublist f
  | functions kind fs => exact Made.inFunctions_sublist fs
  | methods owner ms required => exact Made.inMethods_sublist ms
  | stmt s => exact Made.inStmt_sublist s
  | stmts ss => exact Made.inStmts_sublist ss

end Lox.Part
