import Lox.Resolution

/-! The traits that a resolution pass registers: those that are declared anywhere in the tree, in
the order in which the pass comes to their ends, and also if the tree is rejected. -/

namespace Lox

namespace TraitDecl

mutual

/-- The traits that are declared in an expression, an inner one before the one around it. -/
def inExpr : Expr → List TraitDecl
  | .assign _ value => inExpr value
  | .binary left _ right | .logical left _ right => inExpr left ++ inExpr right
  | .call callee _ arguments => inExpr callee ++ inExprs arguments
  | .property object _ => inExpr object
  | .group inner => inExpr inner
  | .lambda f => inFunction f
  | .literal _ | .superRef _ _ | .thisRef _ | .varRef _ => []
  | .setProperty object _ value => inExpr value ++ inExpr object
  | .ternary condition thenValue elseValue =>
    inExpr condition ++ (inExpr thenValue ++ inExpr elseValue)
  | .unary _ right => inExpr right

def inExprs : List Expr → List TraitDecl
  | [] => []
  | e :: es => inExpr e ++ inExprs es

def inFunction : FunctionDecl → List TraitDecl
  | ⟨_, _, body, _⟩ => inStmts body

def inFunctions : List FunctionDecl → List TraitDecl
  | [] => []
  | f :: fs => inFunction f ++ inFunctions fs

def inMethods : List MethodDecl → List TraitDecl
  | [] => []
  | ⟨f, _⟩ :: ms => inFunction f ++ inMethods ms

def inStmt : Stmt → List TraitDecl
  | .block body => inStmts body
  | .classDecl ⟨_, _, _, ms, statics⟩ => inMethods ms ++ inFunctions statics
  | .expression value | .print value => inExpr value
  | .flow _ _ => []
  | .functionDecl f => inFunction f
  | .ifElse condition thenBranch none => inExpr condition ++ inStmt thenBranch
  | .ifElse condition thenBranch (some elseBranch) =>
    inExpr condition ++ (inStmt thenBranch ++ inStmt elseBranch)
  | .returns _ none => []
  | .returns _ (some value) => inExpr value
  | .traitDecl ⟨name, signatures, defaults⟩ =>
    inFunctions defaults ++ [⟨name, signatures, defaults⟩]
  | .varDecl _ none => []
  | .varDecl _ (some value) => inExpr value
  | .loop condition body none => inExpr condition ++ inStmt body
  | .loop condition body (some increment) =>
    inExpr condition ++ (inStmt body ++ inExpr increment)

def inStmts : List Stmt → List TraitDecl
  | [] => []
  | s :: ss => inStmt s ++ inStmts ss

end

/-- What is registered for a trait. -/
def wishes (t : TraitDecl) : List Requirement := t.signatures.map fun s => (s.name.lexeme, s.arity)

end TraitDecl

/-- The signatures of the traits are registered one after the other; a later trait of the same name
replaces an earlier one. -/
def registered (ts : List TraitDecl) (traits : Std.TreeMap String (List Requirement)) :
    Std.TreeMap String (List Requirement) :=
  ts.foldl (fun traits t => traits.insert t.name.lexeme t.wishes) traits

namespace Resolver

open TraitDecl

/-- A later state of a pass, in which these traits have been registered. -/
def Registers (ts : List TraitDecl) (r r' : Resolver) : Prop :=
  r'.registry.traits = registered ts r.registry.traits

namespace Registers

variable {r r' r'' : Resolver}

theorem refl (r : Resolver) : Registers [] r r := rfl

theorem trans (first : Registers ts r r') (second : Registers us r' r'') :
    Registers (ts ++ us) r r'' := by
  unfold Registers registered at *
  rw [second, first, List.foldl_append]

theorem quiet_trans (first : Registers [] r r') (second : Registers ts r' r'') :
    Registers ts r r'' := first.trans second

theorem trans_quiet (first : Registers ts r r') (second : Registers [] r' r'') :
    Registers ts r r'' := List.append_nil ts ▸ first.trans second

end Registers

theorem closeScope_registers (r : Resolver) : Registers [] r r.closeScope := by
  unfold closeScope
  split <;> exact .refl _

theorem extend_registers (v : Local) (r : Resolver) : Registers [] r (r.extend v) := by
  unfold extend
  split <;> exact .refl _

theorem declare_registers (name : Token) (r : Resolver) : Registers [] r (r.declare name) := by
  unfold declare
  split
  · exact .refl r
  · split
    · exact .refl _
    · exact extend_registers ..

theorem define_registers (name : Token) (r : Resolver) : Registers [] r (r.define name) := by
  unfold define
  split <;> exact .refl _

theorem introduce_registers (name : Token) (r : Resolver) : Registers [] r (r.introduce name) :=
  (declare_registers name r).trans (define_registers ..)

theorem bind_registers (reference : Reference) (r : Resolver) :
    Registers [] r (r.bind reference) := by
  unfold bind
  split <;> exact .refl _

theorem read_registers (reference : Reference) (r : Resolver) :
    Registers [] r (r.read reference) := by
  unfold read
  extract_lets awaited
  cases awaited with
  | true => exact bind_registers reference (r.error _ _)
  | false => exact bind_registers ..

theorem readThis_registers (keyword : Reference) (r : Resolver) :
    Registers [] r (r.readThis keyword) := by
  unfold readThis
  split
  case h_1 | h_2 => exact .refl _
  case h_3 | h_4 | h_5 => exact bind_registers ..

theorem readSuper_registers (keyword : Reference) (r : Resolver) :
    Registers [] r (r.readSuper keyword) := by
  unfold readSuper
  split
  case h_1 | h_2 | h_3 | h_4 => exact .refl _
  case h_5 => exact bind_registers ..

theorem mixins_registers (traits : List Reference) (required : Required) (r : Resolver) :
    Registers [] r (r.mixins traits required).2 := by
  induction traits generalizing required r with
  | nil => exact .refl r
  | cons t ts ih =>
    unfold mixins
    refine (read_registers t r).trans ?_
    dsimp only
    split
    · exact ih ..
    · exact ih _ ((r.read t).error _ _)

theorem provide_registers (owner : Token) (f : FunctionDecl) (required : Required) (r : Resolver) :
    Registers [] r (r.provide owner f required).2 := by
  unfold provide
  split
  · dsimp only
    split <;> exact .refl _
  · exact .refl _

theorem checkReturn_registers (keyword : Token) (r : Resolver) :
    Registers [] r (r.checkReturn keyword) := by
  unfold checkReturn
  split <;> exact .refl _

theorem enterFunction_registers (kind : FunctionKind) (params : List Token) (r : Resolver) :
    Registers [] r (r.enterFunction kind params) := by
  have all (ps : List Token) (r : Resolver) :
      Registers [] r (ps.foldl (fun r p => r.introduce p) r) := by
    induction ps generalizing r with
    | nil => exact .refl r
    | cons p ps ih => exact (introduce_registers p r).trans (ih _)
  exact all params ({ r with functionKind := kind } : Resolver).openScope

theorem openBound_registers (name : String) (r : Resolver) : Registers [] r (r.openBound name) :=
  extend_registers _ r.openScope

theorem superclass_registers (owner : Token) (parent : Option Reference) (r : Resolver) :
    Registers [] r (r.superclass owner parent) := by
  unfold superclass
  cases parent with
  | none => exact .refl _
  | some parent =>
    dsimp only
    split
    · exact read_registers parent { r.error _ _ with classKind := .subclass }
    · exact read_registers parent { r with classKind := .subclass }

theorem openClass_registers (parent : Option Reference) (r : Resolver) :
    Registers [] r (r.openClass parent) := by
  unfold openClass
  split
  · exact (openBound_registers ..).trans (openBound_registers ..)
  · exact openBound_registers ..

theorem closeClass_registers (parent : Option Reference) (r : Resolver) :
    Registers [] r (r.closeClass parent) := by
  unfold closeClass
  split
  · exact (closeScope_registers r).trans (closeScope_registers _)
  · exact closeScope_registers r

theorem enterClass_registers (name : Token) (parent : Option Reference) (traits : List Reference)
    (r : Resolver) : Registers [] r (r.enterClass name parent traits).2 :=
  (superclass_registers name parent r).trans <| (mixins_registers traits {} _).trans <|
    (introduce_registers ..).trans (openClass_registers ..)

theorem enterStatics_registers (name : Token) (required : Required) (r : Resolver) :
    Registers [] r (r.enterStatics name required) := by
  unfold enterStatics checkProvided
  split <;> exact .refl _

theorem enterTrait_registers (name : Token) (r : Resolver) : Registers [] r (r.enterTrait name) :=
  (introduce_registers name { r with classKind := .trait }).trans (openBound_registers ..)

mutual

theorem expr_registers : (e : Expr) → (r : Resolver) → Registers (inExpr e) r (expr e r)
  | .assign target value, r => (expr_registers value r).trans_quiet (bind_registers target _)
  | .binary left _ right, r | .logical left _ right, r =>
    (expr_registers left r).trans (expr_registers right _)
  | .call callee _ arguments, r => (expr_registers callee r).trans (exprs_registers arguments _)
  | .property object _, r => expr_registers object r
  | .group inner, r => expr_registers inner r
  | .lambda f, r => function_registers .function f r
  | .literal _, r => .refl r
  | .setProperty object _ value, r => (expr_registers value r).trans (expr_registers object _)
  | .superRef keyword _, r => readSuper_registers keyword r
  | .ternary condition thenValue elseValue, r =>
    (expr_registers condition r).trans
      ((expr_registers thenValue _).trans (expr_registers elseValue _))
  | .thisRef keyword, r => readThis_registers keyword r
  | .unary _ right, r => expr_registers right r
  | .varRef reference, r => read_registers reference r

theorem exprs_registers : (es : List Expr) → (r : Resolver) →
    Registers (inExprs es) r (exprs es r)
  | [], r => .refl r
  | e :: es, r => (expr_registers e r).trans (exprs_registers es _)

theorem function_registers (kind : FunctionKind) : (f : FunctionDecl) → (r : Resolver) →
    Registers (inFunction f) r (function kind f r)
  | ⟨_, params, body, _⟩, r =>
    (enterFunction_registers kind params r).quiet_trans <|
      (stmts_registers body _).trans_quiet (closeScope_registers _)

theorem functions_registers (kind : FunctionKind) : (fs : List FunctionDecl) → (r : Resolver) →
    Registers (inFunctions fs) r (functions kind fs r)
  | [], r => .refl r
  | f :: fs, r => (function_registers kind f r).trans (functions_registers kind fs _)

theorem methods_registers (owner : Token) : (ms : List MethodDecl) → (required : Required) →
    (r : Resolver) → Registers (inMethods ms) r (methods owner ms required r).2
  | [], _, r => .refl r
  | ⟨f, _⟩ :: ms, required, r =>
    (provide_registers owner f required r).quiet_trans <|
      (function_registers (methodKind f) f _).trans (methods_registers owner ms _ _)

theorem stmt_registers : (s : Stmt) → (r : Resolver) → Registers (inStmt s) r (stmt s r)
  | .block body, r => (stmts_registers body r.openScope).trans_quiet (closeScope_registers _)
  | .classDecl ⟨name, parent, traits, ms, statics⟩, r =>
    (enterClass_registers name parent traits r).quiet_trans <|
      (methods_registers name ms _ _).trans <| (enterStatics_registers name _ _).quiet_trans <|
        (functions_registers .method statics _).trans_quiet (closeClass_registers parent _)
  | .expression value, r | .print value, r => expr_registers value r
  | .flow _ _, r => .refl r
  | .functionDecl ⟨some name, params, body, line⟩, r =>
    (introduce_registers name r).quiet_trans (function_registers .function _ _)
  | .functionDecl ⟨none, params, body, line⟩, r => function_registers .function _ r
  | .ifElse condition thenBranch none, r =>
    (expr_registers condition r).trans (stmt_registers thenBranch _)
  | .ifElse condition thenBranch (some elseBranch), r =>
    (expr_registers condition r).trans
      ((stmt_registers thenBranch _).trans (stmt_registers elseBranch _))
  | .returns keyword none, r => by
    unfold stmt
    split <;> exact .refl _
  | .returns keyword (some value), r =>
    (checkReturn_registers keyword r).quiet_trans (expr_registers value _)
  | .traitDecl ⟨name, signatures, defaults⟩, r =>
    (enterTrait_registers name r).quiet_trans <| (functions_registers .method defaults _).trans <|
      (closeScope_registers _).quiet_trans rfl
  | .varDecl name none, r => introduce_registers name r
  | .varDecl name (some value), r =>
    (declare_registers name r).quiet_trans
      ((expr_registers value _).trans_quiet (define_registers ..))
  | .loop condition body none, r => (expr_registers condition r).trans (stmt_registers body _)
  | .loop condition body (some increment), r =>
    (expr_registers condition r).trans
      ((stmt_registers body _).trans (expr_registers increment _))

theorem stmts_registers : (ss : List Stmt) → (r : Resolver) →
    Registers (inStmts ss) r (stmts ss r)
  | [], r => .refl r
  | s :: ss, r => (stmt_registers s r).trans (stmts_registers ss _)

end

end Resolver

theorem resolve_registers (program : List Stmt) (registry : Registry) :
    (resolve program registry).2.traits =
      registered (TraitDecl.inStmts program) registry.traits :=
  Resolver.stmts_registers program { registry }

theorem resolveExpression_registers (e : Expr) (registry : Registry) :
    (resolveExpression e registry).2.traits =
      registered (TraitDecl.inExpr e) registry.traits :=
  Resolver.expr_registers e { registry }

end Lox
