import Lox.Proofs.Correspondence

/-! A local variable with another name: the declaration is changed and the references that lead to
it, and nothing else. What is left does the same when it runs. -/

namespace Lox

/-- Where a part of a program lies, seen from one of the scopes: apart from it, around it, or in it
with so many scopes between. A path leads from a part around the scope to it: at every part with
several parts inside, it says whether to go to the first of them or on to the others. -/
inductive Focus where
  | apart
  | toward (path : List Bool)
  | inside (distance : Nat)
deriving DecidableEq

namespace Focus

/-- The first of several parts. -/
def first : Focus → Focus
  | toward (false :: path) => toward path
  | toward _ | apart => apart
  | inside distance => inside distance

/-- The parts behind the first. -/
def others : Focus → Focus
  | toward (true :: path) => toward path
  | toward _ | apart => apart
  | inside distance => inside distance

/-- In a scope that the part opens, with variables of its own. -/
def enter : Focus → Focus
  | toward [] => inside 0
  | toward path => toward path
  | apart => apart
  | inside distance => inside (distance + 1)

/-- In the scope of `this` or `super`. -/
def deeper : Focus → Focus
  | inside distance => inside (distance + 1)
  | focus => focus

/-- Around the members of a class. -/
def members (parent : Option Reference) (f : Focus) : Focus :=
  if parent.isSome then f.deeper.deeper else f.deeper

/-- A part in the scope is nested, as all parts of scopes are. -/
def Nested (f : Focus) (n : Bool) : Prop := ∀ distance, f = inside distance → n = true

theorem first_inside {f : Focus} (inner : f.first = inside distance) : f = inside distance := by
  unfold first at inner
  split at inner
  · cases inner
  · cases inner
  · cases inner
  · exact inner

theorem others_inside {f : Focus} (inner : f.others = inside distance) : f = inside distance := by
  unfold others at inner
  split at inner
  · cases inner
  · cases inner
  · cases inner
  · exact inner

theorem Nested.first {f : Focus} (nested : f.Nested n) : f.first.Nested n :=
  fun distance inner => nested distance (first_inside inner)

theorem Nested.others {f : Focus} (nested : f.Nested n) : f.others.Nested n :=
  fun distance inner => nested distance (others_inside inner)

end Focus

/-- The variables that the statements of a scope declare. -/
def localVariables (ss : List Stmt) : List Token :=
  ss.filterMap fun
    | .varDecl name _ => some name
    | _ => none

namespace Scoped

/-- Follows a path into the first part or into the others. -/
def along (first others : List Bool → List Token) : List Bool → List Token
  | [] => []
  | false :: path => first path
  | true :: path => others path

mutual

/-- The variables of the scope that a path leads to, parameters included. -/
def inExpr (e : Expr) (path : List Bool) : List Token :=
  match e with
  | .assign _ value => inExpr value path
  | .binary left _ right | .logical left _ right => along (inExpr left) (inExpr right) path
  | .call callee _ arguments => along (inExpr callee) (inExprs arguments) path
  | .property object _ => inExpr object path
  | .group inner => inExpr inner path
  | .lambda f => inFunction f path
  | .literal _ | .superRef _ _ | .thisRef _ | .varRef _ => []
  | .setProperty object _ value => along (inExpr value) (inExpr object) path
  | .ternary condition thenValue elseValue =>
    along (inExpr condition) (along (inExpr thenValue) (inExpr elseValue)) path
  | .unary _ right => inExpr right path

def inExprs (es : List Expr) (path : List Bool) : List Token :=
  match es with
  | [] => []
  | e :: es => along (inExpr e) (inExprs es) path

def inFunction (f : FunctionDecl) (path : List Bool) : List Token :=
  match f, path with
  | ⟨_, params, body, _⟩, [] => params ++ localVariables body
  | ⟨_, _, body, _⟩, path => inStmts body path

def inFunctions (fs : List FunctionDecl) (path : List Bool) : List Token :=
  match fs with
  | [] => []
  | f :: fs => along (inFunction f) (inFunctions fs) path

def inMethods (ms : List MethodDecl) (path : List Bool) : List Token :=
  match ms with
  | [] => []
  | ⟨f, _⟩ :: ms => along (inFunction f) (inMethods ms) path

def inStmt (s : Stmt) (path : List Bool) : List Token :=
  match s with
  | .block body =>
    match path with
    | [] => localVariables body
    | path => inStmts body path
  | .classDecl ⟨_, _, _, ms, statics⟩ => along (inMethods ms) (inFunctions statics) path
  | .expression value | .print value => inExpr value path
  | .flow _ _ => []
  | .functionDecl f => inFunction f path
  | .ifElse condition thenBranch none => along (inExpr condition) (inStmt thenBranch) path
  | .ifElse condition thenBranch (some elseBranch) =>
    along (inExpr condition) (along (inStmt thenBranch) (inStmt elseBranch)) path
  | .returns _ none => []
  | .returns _ (some value) => inExpr value path
  | .traitDecl ⟨_, _, defaults⟩ => inFunctions defaults path
  | .varDecl _ none => []
  | .varDecl _ (some value) => inExpr value path
  | .loop condition body none => along (inExpr condition) (inStmt body) path
  | .loop condition body (some increment) =>
    along (inExpr condition) (along (inStmt body) (inExpr increment)) path

def inStmts (ss : List Stmt) (path : List Bool) : List Token :=
  match ss with
  | [] => []
  | s :: ss => along (inStmt s) (inStmts ss) path

end

end Scoped

/-- A name in a program: of a variable that is used, of a trait that is mixed in, or of whatever
is declared. -/
inductive Mention where
  | reference (r : Reference)
  | mixin (r : Reference)
  | declaration (name : Token)

namespace Mention

def token : Mention → Token
  | reference r | mixin r => r.name
  | declaration name => name

mutual

/-- The names in an expression, each with the focus at its place. -/
def inExpr (f : Focus) : Expr → List (Focus × Mention)
  | .assign target value => inExpr f value ++ [(f, reference target)]
  | .binary left _ right | .logical left _ right => inExpr f.first left ++ inExpr f.others right
  | .call callee _ arguments => inExpr f.first callee ++ inExprs f.others arguments
  | .property object _ => inExpr f object
  | .group inner => inExpr f inner
  | .lambda function => inFunction f function
  | .literal _ | .superRef _ _ | .thisRef _ => []
  | .setProperty object _ value => inExpr f.first value ++ inExpr f.others object
  | .ternary condition thenValue elseValue =>
    inExpr f.first condition ++
      (inExpr f.others.first thenValue ++ inExpr f.others.others elseValue)
  | .unary _ right => inExpr f right
  | .varRef r => [(f, reference r)]

def inExprs (f : Focus) : List Expr → List (Focus × Mention)
  | [] => []
  | e :: es => inExpr f.first e ++ inExprs f.others es

def inFunction (f : Focus) : FunctionDecl → List (Focus × Mention)
  | ⟨_, params, body, _⟩ => (params.map fun p => (f.enter, declaration p)) ++ inStmts f.enter body

def inFunctions (f : Focus) : List FunctionDecl → List (Focus × Mention)
  | [] => []
  | function :: fs => inFunction f.first function ++ inFunctions f.others fs

def inMethods (f : Focus) : List MethodDecl → List (Focus × Mention)
  | [] => []
  | ⟨function, _⟩ :: ms => inFunction f.first function ++ inMethods f.others ms

def inStmt (f : Focus) : Stmt → List (Focus × Mention)
  | .block body => inStmts f.enter body
  | .classDecl ⟨name, parent, traits, ms, statics⟩ =>
    ((parent.toList.map fun r => (f, reference r)) ++ (traits.map fun r => (f, mixin r)) ++
      [(f, declaration name)]) ++
      (inMethods (f.members parent).first ms ++ inFunctions (f.members parent).others statics)
  | .expression value | .print value => inExpr f value
  | .flow _ _ => []
  | .functionDecl ⟨name, params, body, line⟩ =>
    (name.toList.map fun n => (f, declaration n)) ++ inFunction f ⟨name, params, body, line⟩
  | .ifElse condition thenBranch none => inExpr f.first condition ++ inStmt f.others thenBranch
  | .ifElse condition thenBranch (some elseBranch) =>
    inExpr f.first condition ++
      (inStmt f.others.first thenBranch ++ inStmt f.others.others elseBranch)
  | .returns _ none => []
  | .returns _ (some value) => inExpr f value
  | .traitDecl ⟨name, _, defaults⟩ => (f, declaration name) :: inFunctions f.deeper defaults
  | .varDecl name none => [(f, declaration name)]
  | .varDecl name (some value) => (f, declaration name) :: inExpr f value
  | .loop condition body none => inExpr f.first condition ++ inStmt f.others body
  | .loop condition body (some increment) =>
    inExpr f.first condition ++ (inStmt f.others.first body ++ inExpr f.others.others increment)

def inStmts (f : Focus) : List Stmt → List (Focus × Mention)
  | [] => []
  | s :: ss => inStmt f.first s ++ inStmts f.others ss

end

end Mention

/-- The declaration of a variable and the name it gets, with the addresses of all references. -/
structure Renaming where
  name : Token
  new : String
  addresses : Std.TreeMap NodeId Address

namespace Renaming

variable (R : Renaming)

/-- Whether a reference leads to the variable: it has the name, and its address is in the scope in
focus. -/
def targets (f : Focus) (r : Reference) : Bool :=
  match f, R.addresses[r.id]? with
  | .inside distance, some address =>
    r.name.lexeme == R.name.lexeme && address.distance == distance
  | _, _ => false

def reference (f : Focus) (r : Reference) : Reference :=
  if R.targets f r then { r with name := { r.name with lexeme := R.new } } else r

/-- A variable or a parameter is renamed if it is declared in the scope in focus. -/
def binder (f : Focus) (name : Token) : Token :=
  if f = .inside 0 ∧ name.lexeme = R.name.lexeme then { name with lexeme := R.new } else name

mutual

def expr (f : Focus) : Expr → Expr
  | .assign target value => .assign (R.reference f target) (expr f value)
  | .binary left operator right => .binary (expr f.first left) operator (expr f.others right)
  | .call callee paren arguments => .call (expr f.first callee) paren (exprs f.others arguments)
  | .property object name => .property (expr f object) name
  | .group inner => .group (expr f inner)
  | .lambda g => .lambda (function f g)
  | .literal value => .literal value
  | .logical left operator right => .logical (expr f.first left) operator (expr f.others right)
  | .setProperty object name value =>
    .setProperty (expr f.others object) name (expr f.first value)
  | .superRef keyword method => .superRef keyword method
  | .ternary condition thenValue elseValue =>
    .ternary (expr f.first condition) (expr f.others.first thenValue)
      (expr f.others.others elseValue)
  | .thisRef keyword => .thisRef keyword
  | .unary operator right => .unary operator (expr f right)
  | .varRef r => .varRef (R.reference f r)

def exprs (f : Focus) : List Expr → List Expr
  | [] => []
  | e :: es => expr f.first e :: exprs f.others es

def function (f : Focus) : FunctionDecl → FunctionDecl
  | ⟨name, params, body, line⟩ =>
    ⟨name, params.map (R.binder f.enter), stmts f.enter body, line⟩

def functions (f : Focus) : List FunctionDecl → List FunctionDecl
  | [] => []
  | g :: gs => function f.first g :: functions f.others gs

def methods (f : Focus) : List MethodDecl → List MethodDecl
  | [] => []
  | ⟨g, isGetter⟩ :: ms => ⟨function f.first g, isGetter⟩ :: methods f.others ms

def stmt (f : Focus) : Stmt → Stmt
  | .block body => .block (stmts f.enter body)
  | .classDecl ⟨name, parent, traits, ms, statics⟩ =>
    .classDecl ⟨name, parent.map (R.reference f), traits.map (R.reference f),
      methods (f.members parent).first ms, functions (f.members parent).others statics⟩
  | .expression value => .expression (expr f value)
  | .flow signal line => .flow signal line
  | .functionDecl g => .functionDecl (function f g)
  | .ifElse condition thenBranch none =>
    .ifElse (expr f.first condition) (stmt f.others thenBranch) none
  | .ifElse condition thenBranch (some elseBranch) =>
    .ifElse (expr f.first condition) (stmt f.others.first thenBranch)
      (some (stmt f.others.others elseBranch))
  | .print value => .print (expr f value)
  | .returns keyword none => .returns keyword none
  | .returns keyword (some value) => .returns keyword (some (expr f value))
  | .traitDecl ⟨name, signatures, defaults⟩ =>
    .traitDecl ⟨name, signatures, functions f.deeper defaults⟩
  | .varDecl name none => .varDecl (R.binder f name) none
  | .varDecl name (some value) => .varDecl (R.binder f name) (some (expr f value))
  | .loop condition body none => .loop (expr f.first condition) (stmt f.others body) none
  | .loop condition body (some increment) =>
    .loop (expr f.first condition) (stmt f.others.first body)
      (some (expr f.others.others increment))

def stmts (f : Focus) : List Stmt → List Stmt
  | [] => []
  | s :: ss => stmt f.first s :: stmts f.others ss

end

/-- The machine that runs the renamed program has the same numbers for its references. -/
def correspondence : Correspondence where
  node := id
  injective := Function.injective_id
  renamed number := R.addresses[number]?.isSome
  old := R.name.lexeme
  new := R.new

theorem refers_reference (f : Focus) (r : Reference) :
    R.correspondence.Refers r (R.reference f r) := by
  unfold reference
  split
  case isFalse => exact .refl rfl
  case isTrue targeted =>
    unfold targets at targeted
    split at targeted
    · rename_i distance address located
      have named := (Bool.and_eq_true_iff.mp targeted).1
      have resolved : R.correspondence.renamed r.id := Option.isSome_of_eq_some located
      exact ⟨rfl, rfl, .inr ⟨resolved, eq_of_beq named, rfl⟩⟩
    · cases targeted

theorem binds_binder (nested : f.Nested n) (name : Token) :
    R.correspondence.likeness.binds n name (R.binder f name) := by
  unfold binder
  split
  case isFalse => exact .inr rfl
  case isTrue renamed => exact .inl (nested 0 renamed.1)

theorem binds_binders (f : Focus) (names : List Token) :
    List.Forall₂ (R.correspondence.likeness.binds true) names (names.map (R.binder f)) := by
  rw [List.forall₂_map_right_iff]
  exact List.forall₂_same.mpr fun name _ => R.binds_binder (fun _ _ => rfl) name

mutual

theorem expr_alike (nested : f.Nested n) : (e : Expr) →
    R.correspondence.likeness.Alike n (.expr e) (.expr (R.expr f e))
  | .assign t v => .assign (R.refers_reference f t) (expr_alike nested v)
  | .binary l _ r => .binary (expr_alike nested.first l) (expr_alike nested.others r)
  | .call c _ es => .call (expr_alike nested.first c) (exprs_alike nested.others es)
  | .property o _ => .property (expr_alike nested o)
  | .group e => .group (expr_alike nested e)
  | .lambda g => .lambda (function_alike f n g)
  | .literal _ => .literal
  | .logical l _ r => .logical (expr_alike nested.first l) (expr_alike nested.others r)
  | .setProperty o _ v => .setProperty (expr_alike nested.others o) (expr_alike nested.first v)
  | .superRef _ _ => .superRef (.refl rfl)
  | .ternary c t e =>
    .ternary (expr_alike nested.first c) (expr_alike nested.others.first t)
      (expr_alike nested.others.others e)
  | .thisRef _ => .thisRef (.refl rfl)
  | .unary _ e => .unary (expr_alike nested e)
  | .varRef r => .varRef (R.refers_reference f r)

theorem exprs_alike (nested : f.Nested n) : (es : List Expr) →
    R.correspondence.likeness.Alike n (.exprs es) (.exprs (R.exprs f es))
  | [] => .noExprs
  | e :: es => .moreExprs (expr_alike nested.first e) (exprs_alike nested.others es)

theorem function_alike (f : Focus) (n : Bool) : (g : FunctionDecl) →
    R.correspondence.likeness.Alike n (.function g) (.function (R.function f g))
  | ⟨_, ps, ss, _⟩ => .function (R.binds_binders f.enter ps) (stmts_alike (fun _ _ => rfl) ss)

theorem functions_alike (f : Focus) (n : Bool) : (gs : List FunctionDecl) →
    R.correspondence.likeness.Alike n (.functions gs) (.functions (R.functions f gs))
  | [] => .noFunctions
  | g :: gs => .moreFunctions (function_alike f.first n g) (functions_alike f.others n gs)

theorem methods_alike (f : Focus) (n : Bool) : (ms : List MethodDecl) →
    R.correspondence.likeness.Alike n (.methods ms) (.methods (R.methods f ms))
  | [] => .noMethods
  | ⟨g, _⟩ :: ms => .moreMethods (function_alike f.first n g) (methods_alike f.others n ms)

theorem stmt_alike (nested : f.Nested n) : (s : Stmt) →
    R.correspondence.likeness.Alike n (.stmt s) (.stmt (R.stmt f s))
  | .block ss => .block (stmts_alike (fun _ _ => rfl) ss)
  | .classDecl ⟨_, p, ts, ms, gs⟩ => by
    refine .classDecl ?_ ?_ (methods_alike (f.members p).first n ms)
      (functions_alike (f.members p).others n gs)
    · cases p with
      | none => exact .none
      | some p => exact .some (R.refers_reference f p)
    · rw [List.forall₂_map_right_iff]
      exact List.forall₂_same.mpr fun t _ => R.refers_reference f t
  | .expression e => .expression (expr_alike nested e)
  | .flow _ _ => .flow
  | .functionDecl g => .functionDecl (function_alike f n g)
  | .ifElse c t none => .ifThen (expr_alike nested.first c) (stmt_alike nested.others t)
  | .ifElse c t (some e) =>
    .ifElse (expr_alike nested.first c) (stmt_alike nested.others.first t)
      (stmt_alike nested.others.others e)
  | .print e => .print (expr_alike nested e)
  | .returns _ none => .returnsNothing
  | .returns _ (some e) => .returns (expr_alike nested e)
  | .traitDecl ⟨_, _, gs⟩ => .traitDecl (functions_alike f.deeper n gs)
  | .varDecl x none => .bareVar (R.binds_binder nested x)
  | .varDecl x (some e) => .varDecl (R.binds_binder nested x) (expr_alike nested e)
  | .loop c s none => .bareLoop (expr_alike nested.first c) (stmt_alike nested.others s)
  | .loop c s (some i) =>
    .loop (expr_alike nested.first c) (stmt_alike nested.others.first s)
      (expr_alike nested.others.others i)

theorem stmts_alike (nested : f.Nested n) : (ss : List Stmt) →
    R.correspondence.likeness.Alike n (.stmts ss) (.stmts (R.stmts f ss))
  | [] => .noStmts
  | s :: ss => .moreStmts (stmt_alike nested.first s) (stmts_alike nested.others ss)

end

end Renaming

end Lox
