import Lox.Proofs.Sites

/-! Trees with other labels: the numbers of their references and the lines of their tokens. Apart
from these a relabelled tree is the same tree. -/

namespace Lox

namespace Lines

mutual

/-- The lines of the tokens in an expression. -/
def inExpr : Expr → List Nat
  | .assign target value => target.name.line :: inExpr value
  | .binary left operator right | .logical left operator right =>
    operator.line :: (inExpr left ++ inExpr right)
  | .call callee paren arguments => paren.line :: (inExpr callee ++ inExprs arguments)
  | .property object name => name.line :: inExpr object
  | .group inner => inExpr inner
  | .lambda f => inFunction f
  | .literal _ => []
  | .setProperty object name value => name.line :: (inExpr object ++ inExpr value)
  | .superRef keyword method => [keyword.name.line, method.line]
  | .ternary condition thenValue elseValue =>
    inExpr condition ++ (inExpr thenValue ++ inExpr elseValue)
  | .thisRef keyword => [keyword.name.line]
  | .unary operator right => operator.line :: inExpr right
  | .varRef reference => [reference.name.line]

def inExprs : List Expr → List Nat
  | [] => []
  | e :: es => inExpr e ++ inExprs es

def inFunction : FunctionDecl → List Nat
  | ⟨name, params, body, line⟩ =>
    line :: (name.toList.map Token.line ++ (params.map Token.line ++ inStmts body))

def inFunctions : List FunctionDecl → List Nat
  | [] => []
  | f :: fs => inFunction f ++ inFunctions fs

def inMethods : List MethodDecl → List Nat
  | [] => []
  | ⟨f, _⟩ :: ms => inFunction f ++ inMethods ms

def inStmt : Stmt → List Nat
  | .block body => inStmts body
  | .classDecl ⟨name, parent, traits, ms, statics⟩ =>
    name.line :: (parent.toList.map (·.name.line) ++
      (traits.map (·.name.line) ++ (inMethods ms ++ inFunctions statics)))
  | .expression value | .print value => inExpr value
  | .flow _ line => [line]
  | .functionDecl f => inFunction f
  | .ifElse condition thenBranch none => inExpr condition ++ inStmt thenBranch
  | .ifElse condition thenBranch (some elseBranch) =>
    inExpr condition ++ (inStmt thenBranch ++ inStmt elseBranch)
  | .returns keyword none => [keyword.line]
  | .returns keyword (some value) => keyword.line :: inExpr value
  | .traitDecl ⟨name, signatures, defaults⟩ =>
    name.line :: (signatures.map (·.name.line) ++ inFunctions defaults)
  | .varDecl name none => [name.line]
  | .varDecl name (some value) => name.line :: inExpr value
  | .loop condition body none => inExpr condition ++ inStmt body
  | .loop condition body (some increment) =>
    inExpr condition ++ (inStmt body ++ inExpr increment)

def inStmts : List Stmt → List Nat
  | [] => []
  | s :: ss => inStmt s ++ inStmts ss

end

end Lines

/-- New numbers for references and new lines for tokens. -/
structure Relabelling where
  node : NodeId → NodeId
  line : Nat → Nat

namespace Relabelling

variable (φ : Relabelling)

def token (t : Token) : Token := { t with line := φ.line t.line }

def reference (r : Reference) : Reference := ⟨φ.node r.id, φ.token r.name⟩

def signature (s : Signature) : Signature := { s with name := φ.token s.name }

mutual

def expr : Expr → Expr
  | .assign target value => .assign (φ.reference target) (expr value)
  | .binary left operator right => .binary (expr left) (φ.token operator) (expr right)
  | .call callee paren arguments => .call (expr callee) (φ.token paren) (exprs arguments)
  | .property object name => .property (expr object) (φ.token name)
  | .group inner => .group (expr inner)
  | .lambda f => .lambda (function f)
  | .literal value => .literal value
  | .logical left operator right => .logical (expr left) (φ.token operator) (expr right)
  | .setProperty object name value => .setProperty (expr object) (φ.token name) (expr value)
  | .superRef keyword method => .superRef (φ.reference keyword) (φ.token method)
  | .ternary condition thenValue elseValue =>
    .ternary (expr condition) (expr thenValue) (expr elseValue)
  | .thisRef keyword => .thisRef (φ.reference keyword)
  | .unary operator right => .unary (φ.token operator) (expr right)
  | .varRef reference => .varRef (φ.reference reference)

def exprs : List Expr → List Expr
  | [] => []
  | e :: es => expr e :: exprs es

def function : FunctionDecl → FunctionDecl
  | ⟨name, params, body, line⟩ =>
    ⟨name.map φ.token, params.map φ.token, stmts body, φ.line line⟩

def functions : List FunctionDecl → List FunctionDecl
  | [] => []
  | f :: fs => function f :: functions fs

def methods : List MethodDecl → List MethodDecl
  | [] => []
  | ⟨f, isGetter⟩ :: ms => ⟨function f, isGetter⟩ :: methods ms

def stmt : Stmt → Stmt
  | .block body => .block (stmts body)
  | .classDecl ⟨name, parent, traits, ms, statics⟩ =>
    .classDecl ⟨φ.token name, parent.map φ.reference, traits.map φ.reference, methods ms,
      functions statics⟩
  | .expression value => .expression (expr value)
  | .flow signal line => .flow signal (φ.line line)
  | .functionDecl f => .functionDecl (function f)
  | .ifElse condition thenBranch none => .ifElse (expr condition) (stmt thenBranch) none
  | .ifElse condition thenBranch (some elseBranch) =>
    .ifElse (expr condition) (stmt thenBranch) (some (stmt elseBranch))
  | .print value => .print (expr value)
  | .returns keyword none => .returns (φ.token keyword) none
  | .returns keyword (some value) => .returns (φ.token keyword) (some (expr value))
  | .traitDecl ⟨name, signatures, defaults⟩ =>
    .traitDecl ⟨φ.token name, signatures.map φ.signature, functions defaults⟩
  | .varDecl name none => .varDecl (φ.token name) none
  | .varDecl name (some value) => .varDecl (φ.token name) (some (expr value))
  | .loop condition body none => .loop (expr condition) (stmt body) none
  | .loop condition body (some increment) =>
    .loop (expr condition) (stmt body) (some (expr increment))

def stmts : List Stmt → List Stmt
  | [] => []
  | s :: ss => stmt s :: stmts ss

end

variable {φ}

theorem lexeme_token (t : Token) : (φ.token t).lexeme = t.lexeme := rfl

theorem title_function (f : FunctionDecl) : (φ.function f).title = f.title := by
  obtain ⟨name, params, body, line⟩ := f
  cases name <;> rfl

theorem arity_function (f : FunctionDecl) : (φ.function f).arity = f.arity := by
  obtain ⟨name, params, body, line⟩ := f
  exact List.length_map _

theorem stmt_returns (keyword : Token) (value : Option Expr) :
    φ.stmt (.returns keyword value) = .returns (φ.token keyword) (value.map φ.expr) := by
  cases value <;> rfl

theorem stmt_varDecl (name : Token) (value : Option Expr) :
    φ.stmt (.varDecl name value) = .varDecl (φ.token name) (value.map φ.expr) := by
  cases value <;> rfl

theorem stmt_loop (condition : Expr) (body : Stmt) (increment : Option Expr) :
    φ.stmt (.loop condition body increment) =
      .loop (φ.expr condition) (φ.stmt body) (increment.map φ.expr) := by
  cases increment <;> rfl

theorem stmt_ifElse (condition : Expr) (thenBranch : Stmt) (elseBranch : Option Stmt) :
    φ.stmt (.ifElse condition thenBranch elseBranch) =
      .ifElse (φ.expr condition) (φ.stmt thenBranch) (elseBranch.map φ.stmt) := by
  cases elseBranch <;> rfl

theorem exprs_eq_map (es : List Expr) : φ.exprs es = es.map φ.expr := by
  induction es with
  | nil => rfl
  | cons e es ih => exact congrArg (φ.expr e :: ·) ih

theorem stmts_eq_map (ss : List Stmt) : φ.stmts ss = ss.map φ.stmt := by
  induction ss with
  | nil => rfl
  | cons s ss ih => exact congrArg (φ.stmt s :: ·) ih

/-- The line of an expression moves with its tokens, if no line stays none. -/
theorem line_expr (zero : φ.line 0 = 0) : (e : Expr) → (φ.expr e).line = φ.line e.line
  | .group e => line_expr zero e
  | .ternary c _ _ => line_expr zero c
  | .literal _ => zero.symm
  | .lambda ⟨_, _, _, _⟩ => rfl
  | .assign _ _ | .binary _ _ _ | .logical _ _ _ | .unary _ _ | .call _ _ _ | .property _ _
  | .setProperty _ _ _ | .superRef _ _ | .thisRef _ | .varRef _ => rfl

/-- Code on other lines. -/
def onLines (line : Nat → Nat) : Relabelling := ⟨fun id => id, line⟩

/-- Code whose references have other numbers. -/
def onNodes (node : NodeId → NodeId) : Relabelling := ⟨node, fun line => line⟩

theorem function_onNodes (node : NodeId → NodeId) (name : Option Token) (params : List Token)
    (body : List Stmt) (line : Nat) : (onNodes node).function ⟨name, params, body, line⟩ =
      ⟨name, params, (onNodes node).stmts body, line⟩ := by
  have named : name.map (onNodes node).token = name := Option.map_id'
  have bound : params.map (onNodes node).token = params := List.map_id' params
  simp only [function, named, bound]
  rfl

theorem signatures_onNodes (node : NodeId → NodeId) (signatures : List Signature) :
    signatures.map (onNodes node).signature = signatures := List.map_id' signatures

/-- Code that stands a number of lines further down. -/
abbrev down (lines : Nat) : Relabelling := onLines (· + lines)

/-- Code that stands further down, if it stands on a line at all: 0 is none. -/
def below (lines : Nat) : Relabelling := onLines fun line => if line = 0 then 0 else line + lines

/-- A relabelling that leaves all labels as they are. -/
def identity : Relabelling := onNodes fun id => id

@[simp] theorem identity_token (t : Token) : identity.token t = t := rfl

@[simp] theorem identity_reference (r : Reference) : identity.reference r = r := rfl

mutual

theorem identity_expr : (e : Expr) → identity.expr e = e
  | .assign _ v => by simp [expr, identity_expr v]
  | .binary l _ r | .logical l _ r => by simp [expr, identity_expr l, identity_expr r]
  | .call c _ es => by simp [expr, identity_expr c, identity_exprs es]
  | .property o _ | .group o | .unary _ o => by simp [expr, identity_expr o]
  | .lambda f => by simp [expr, identity_function f]
  | .literal _ | .superRef _ _ | .thisRef _ | .varRef _ => rfl
  | .setProperty o _ v => by simp [expr, identity_expr o, identity_expr v]
  | .ternary c t e => by simp [expr, identity_expr c, identity_expr t, identity_expr e]

theorem identity_exprs : (es : List Expr) → identity.exprs es = es
  | [] => rfl
  | e :: es => by simp [exprs, identity_expr e, identity_exprs es]

theorem identity_function : (f : FunctionDecl) → identity.function f = f
  | ⟨name, params, body, line⟩ => by
    have named : name.map identity.token = name := Option.map_id'
    have bound : params.map identity.token = params := List.map_id' params
    simp only [function, named, bound, identity_stmts body]
    rfl

theorem identity_functions : (fs : List FunctionDecl) → identity.functions fs = fs
  | [] => rfl
  | f :: fs => by simp [functions, identity_function f, identity_functions fs]

theorem identity_methods : (ms : List MethodDecl) → identity.methods ms = ms
  | [] => rfl
  | ⟨f, _⟩ :: ms => by simp [methods, identity_function f, identity_methods ms]

theorem identity_stmt : (s : Stmt) → identity.stmt s = s
  | .block ss => by simp [stmt, identity_stmts ss]
  | .classDecl ⟨name, parent, traits, ms, fs⟩ => by
    have inherits : parent.map identity.reference = parent := Option.map_id'
    have mixes : traits.map identity.reference = traits := List.map_id' traits
    simp [stmt, inherits, mixes, identity_methods ms, identity_functions fs]
  | .expression e | .print e => by simp [stmt, identity_expr e]
  | .flow _ _ => rfl
  | .functionDecl f => by simp [stmt, identity_function f]
  | .ifElse c t none => by simp [stmt, identity_expr c, identity_stmt t]
  | .ifElse c t (some e) => by simp [stmt, identity_expr c, identity_stmt t, identity_stmt e]
  | .returns _ none | .varDecl _ none => rfl
  | .returns _ (some e) | .varDecl _ (some e) => by simp [stmt, identity_expr e]
  | .traitDecl ⟨name, signatures, fs⟩ => by
    have asks : signatures.map identity.signature = signatures := List.map_id' signatures
    simp [stmt, asks, identity_functions fs]
  | .loop c s none => by simp [stmt, identity_expr c, identity_stmt s]
  | .loop c s (some i) => by simp [stmt, identity_expr c, identity_stmt s, identity_expr i]

theorem identity_stmts : (ss : List Stmt) → identity.stmts ss = ss
  | [] => rfl
  | s :: ss => by simp [stmts, identity_stmt s, identity_stmts ss]

end

section

variable {χ : Relabelling}

/-- Only the labels that occur in a token, or in a tree, matter for its relabelling. -/
theorem token_congr (t : Token) (lines : φ.line t.line = χ.line t.line) :
    φ.token t = χ.token t := by
  simp [token, lines]

theorem reference_congr (r : Reference) (nodes : φ.node r.id = χ.node r.id)
    (lines : φ.line r.name.line = χ.line r.name.line) :
    φ.reference r = χ.reference r := by
  simp [reference, nodes, token_congr r.name lines]

theorem tokens_congr (ts : List Token)
    (lines : ∀ line ∈ ts.map Token.line, φ.line line = χ.line line) :
    ts.map φ.token = ts.map χ.token := by
  refine List.map_congr_left fun t member => token_congr t ?_
  exact lines _ (List.mem_map_of_mem member)

theorem references_congr (rs : List Reference)
    (nodes : ∀ r ∈ rs, φ.node r.id = χ.node r.id)
    (lines : ∀ line ∈ rs.map (·.name.line), φ.line line = χ.line line) :
    rs.map φ.reference = rs.map χ.reference := by
  refine List.map_congr_left fun r member => reference_congr r (nodes r member) ?_
  exact lines _ (List.mem_map_of_mem member)

theorem signatures_congr (ss : List Signature)
    (lines : ∀ line ∈ ss.map (·.name.line), φ.line line = χ.line line) :
    ss.map φ.signature = ss.map χ.signature := by
  refine List.map_congr_left fun s member => ?_
  have named := token_congr s.name (lines _ (List.mem_map_of_mem member))
  simp [signature, named]

mutual

theorem expr_congr : (e : Expr) →
    (∀ r ∈ Reference.inExpr true e, φ.node r.id = χ.node r.id) →
    (∀ line ∈ Lines.inExpr e, φ.line line = χ.line line) → φ.expr e = χ.expr e
  | .assign t v, nodes, lines => by
    obtain ⟨values, target⟩ := List.forall_mem_append.mp nodes
    obtain ⟨line, lines⟩ := List.forall_mem_cons.mp lines
    have first := reference_congr t (target t (List.mem_singleton_self t)) line
    simp only [expr, first, expr_congr v values lines]
  | .binary l o r, nodes, lines | .logical l o r, nodes, lines => by
    obtain ⟨left, right⟩ := List.forall_mem_append.mp nodes
    obtain ⟨line, lines⟩ := List.forall_mem_cons.mp lines
    obtain ⟨left', right'⟩ := List.forall_mem_append.mp lines
    simp only [expr, token_congr o line, expr_congr l left left', expr_congr r right right']
  | .call c p es, nodes, lines => by
    obtain ⟨callee, given⟩ := List.forall_mem_append.mp nodes
    obtain ⟨line, lines⟩ := List.forall_mem_cons.mp lines
    obtain ⟨callee', given'⟩ := List.forall_mem_append.mp lines
    simp only [expr, token_congr p line, expr_congr c callee callee',
      exprs_congr es given given']
  | .property o x, nodes, lines | .unary x o, nodes, lines => by
    obtain ⟨line, lines⟩ := List.forall_mem_cons.mp lines
    simp only [expr, token_congr x line, expr_congr o nodes lines]
  | .group e, nodes, lines => by simp only [expr, expr_congr e nodes lines]
  | .lambda f, nodes, lines => by simp only [expr, function_congr f nodes lines]
  | .literal _, _, _ => rfl
  | .setProperty o x v, nodes, lines => by
    obtain ⟨value, object⟩ := List.forall_mem_append.mp nodes
    obtain ⟨line, lines⟩ := List.forall_mem_cons.mp lines
    obtain ⟨object', value'⟩ := List.forall_mem_append.mp lines
    simp only [expr, token_congr x line, expr_congr o object object',
      expr_congr v value value']
  | .superRef k x, nodes, lines => by
    obtain ⟨line, lines⟩ := List.forall_mem_cons.mp lines
    have keyword := reference_congr k (nodes k (List.mem_singleton_self k)) line
    simp only [expr, keyword, token_congr x (lines _ (List.mem_singleton_self _))]
  | .ternary c t e, nodes, lines => by
    obtain ⟨condition, branches⟩ := List.forall_mem_append.mp nodes
    obtain ⟨thenValue, elseValue⟩ := List.forall_mem_append.mp branches
    obtain ⟨condition', branches'⟩ := List.forall_mem_append.mp lines
    obtain ⟨thenValue', elseValue'⟩ := List.forall_mem_append.mp branches'
    simp only [expr, expr_congr c condition condition', expr_congr t thenValue thenValue',
      expr_congr e elseValue elseValue']
  | .thisRef r, nodes, lines | .varRef r, nodes, lines => by
    have named := reference_congr r (nodes r (List.mem_singleton_self r))
      (lines _ (List.mem_singleton_self _))
    simp only [expr, named]

theorem exprs_congr : (es : List Expr) →
    (∀ r ∈ Reference.inExprs true es, φ.node r.id = χ.node r.id) →
    (∀ line ∈ Lines.inExprs es, φ.line line = χ.line line) →
    φ.exprs es = χ.exprs es
  | [], _, _ => rfl
  | e :: es, nodes, lines => by
    obtain ⟨first, others⟩ := List.forall_mem_append.mp nodes
    obtain ⟨first', others'⟩ := List.forall_mem_append.mp lines
    simp only [exprs, expr_congr e first first', exprs_congr es others others']

theorem function_congr : (f : FunctionDecl) →
    (∀ r ∈ Reference.inFunction true f, φ.node r.id = χ.node r.id) →
    (∀ line ∈ Lines.inFunction f, φ.line line = χ.line line) →
    φ.function f = χ.function f
  | ⟨name, params, body, own⟩, nodes, lines => by
    obtain ⟨line, lines⟩ := List.forall_mem_cons.mp lines
    obtain ⟨named, lines⟩ := List.forall_mem_append.mp lines
    obtain ⟨bound, inside⟩ := List.forall_mem_append.mp lines
    have title : name.map φ.token = name.map χ.token := by
      cases name with
      | none => rfl
      | some t => exact congrArg some (token_congr t (named _ (List.mem_singleton_self _)))
    simp only [function, line, title, tokens_congr params bound, stmts_congr body nodes inside]

theorem functions_congr : (fs : List FunctionDecl) →
    (∀ r ∈ Reference.inFunctions true fs, φ.node r.id = χ.node r.id) →
    (∀ line ∈ Lines.inFunctions fs, φ.line line = χ.line line) →
    φ.functions fs = χ.functions fs
  | [], _, _ => rfl
  | f :: fs, nodes, lines => by
    obtain ⟨first, others⟩ := List.forall_mem_append.mp nodes
    obtain ⟨first', others'⟩ := List.forall_mem_append.mp lines
    simp only [functions, function_congr f first first', functions_congr fs others others']

theorem methods_congr : (ms : List MethodDecl) →
    (∀ r ∈ Reference.inMethods true ms, φ.node r.id = χ.node r.id) →
    (∀ line ∈ Lines.inMethods ms, φ.line line = χ.line line) →
    φ.methods ms = χ.methods ms
  | [], _, _ => rfl
  | ⟨f, _⟩ :: ms, nodes, lines => by
    obtain ⟨first, others⟩ := List.forall_mem_append.mp nodes
    obtain ⟨first', others'⟩ := List.forall_mem_append.mp lines
    simp only [methods, function_congr f first first', methods_congr ms others others']

theorem stmt_congr : (s : Stmt) →
    (∀ r ∈ Reference.inStmt true s, φ.node r.id = χ.node r.id) →
    (∀ line ∈ Lines.inStmt s, φ.line line = χ.line line) → φ.stmt s = χ.stmt s
  | .block ss, nodes, lines => by simp only [stmt, stmts_congr ss nodes lines]
  | .classDecl ⟨name, parent, ts, ms, fs⟩, nodes, lines => by
    obtain ⟨parents, nodes⟩ := List.forall_mem_append.mp nodes
    obtain ⟨traits, nodes⟩ := List.forall_mem_append.mp nodes
    obtain ⟨members, statics⟩ := List.forall_mem_append.mp nodes
    obtain ⟨line, lines⟩ := List.forall_mem_cons.mp lines
    obtain ⟨parents', lines⟩ := List.forall_mem_append.mp lines
    obtain ⟨traits', lines⟩ := List.forall_mem_append.mp lines
    obtain ⟨members', statics'⟩ := List.forall_mem_append.mp lines
    have inherits : parent.map φ.reference = parent.map χ.reference := by
      cases parent with
      | none => rfl
      | some r =>
        exact congrArg some (reference_congr r (parents r (List.mem_singleton_self r))
          (parents' _ (List.mem_singleton_self _)))
    simp only [stmt, token_congr name line, inherits, references_congr ts traits traits',
      methods_congr ms members members', functions_congr fs statics statics']
  | .expression e, nodes, lines | .print e, nodes, lines => by
    simp only [stmt, expr_congr e nodes lines]
  | .flow _ line, _, lines => by simp only [stmt, lines line (List.mem_singleton_self line)]
  | .functionDecl f, nodes, lines => by simp only [stmt, function_congr f nodes lines]
  | .ifElse c t none, nodes, lines => by
    obtain ⟨condition, branch⟩ := List.forall_mem_append.mp nodes
    obtain ⟨condition', branch'⟩ := List.forall_mem_append.mp lines
    simp only [stmt, expr_congr c condition condition', stmt_congr t branch branch']
  | .ifElse c t (some e), nodes, lines => by
    obtain ⟨condition, branches⟩ := List.forall_mem_append.mp nodes
    obtain ⟨thenBranch, elseBranch⟩ := List.forall_mem_append.mp branches
    obtain ⟨condition', branches'⟩ := List.forall_mem_append.mp lines
    obtain ⟨thenBranch', elseBranch'⟩ := List.forall_mem_append.mp branches'
    simp only [stmt, expr_congr c condition condition', stmt_congr t thenBranch thenBranch',
      stmt_congr e elseBranch elseBranch']
  | .returns x none, _, lines | .varDecl x none, _, lines => by
    simp only [stmt, token_congr x (lines _ (List.mem_singleton_self _))]
  | .returns x (some e), nodes, lines | .varDecl x (some e), nodes, lines => by
    obtain ⟨line, lines⟩ := List.forall_mem_cons.mp lines
    simp only [stmt, token_congr x line, expr_congr e nodes lines]
  | .traitDecl ⟨name, signatures, fs⟩, nodes, lines => by
    obtain ⟨line, lines⟩ := List.forall_mem_cons.mp lines
    obtain ⟨asks, defaults⟩ := List.forall_mem_append.mp lines
    simp only [stmt, token_congr name line, signatures_congr signatures asks,
      functions_congr fs nodes defaults]
  | .loop c s none, nodes, lines => by
    obtain ⟨condition, body⟩ := List.forall_mem_append.mp nodes
    obtain ⟨condition', body'⟩ := List.forall_mem_append.mp lines
    simp only [stmt, expr_congr c condition condition', stmt_congr s body body']
  | .loop c s (some i), nodes, lines => by
    obtain ⟨condition, rest⟩ := List.forall_mem_append.mp nodes
    obtain ⟨body, increment⟩ := List.forall_mem_append.mp rest
    obtain ⟨condition', rest'⟩ := List.forall_mem_append.mp lines
    obtain ⟨body', increment'⟩ := List.forall_mem_append.mp rest'
    simp only [stmt, expr_congr c condition condition', stmt_congr s body body',
      expr_congr i increment increment']

theorem stmts_congr : (ss : List Stmt) →
    (∀ r ∈ Reference.inStmts true ss, φ.node r.id = χ.node r.id) →
    (∀ line ∈ Lines.inStmts ss, φ.line line = χ.line line) →
    φ.stmts ss = χ.stmts ss
  | [], _, _ => rfl
  | s :: ss, nodes, lines => by
    obtain ⟨first, others⟩ := List.forall_mem_append.mp nodes
    obtain ⟨first', others'⟩ := List.forall_mem_append.mp lines
    simp only [stmts, stmt_congr s first first', stmts_congr ss others others']

end

end

/-- Code whose labels all stay is left as it is. -/
theorem function_fixed {f : FunctionDecl}
    (nodes : ∀ r ∈ Reference.inFunction true f, φ.node r.id = r.id)
    (lines : ∀ line ∈ Lines.inFunction f, φ.line line = line) : φ.function f = f :=
  calc φ.function f = identity.function f := function_congr f nodes lines
    _ = f := identity_function f

theorem stmts_fixed {ss : List Stmt} (nodes : ∀ r ∈ Reference.inStmts true ss, φ.node r.id = r.id)
    (lines : ∀ line ∈ Lines.inStmts ss, φ.line line = line) : φ.stmts ss = ss :=
  calc φ.stmts ss = identity.stmts ss := stmts_congr ss nodes lines
    _ = ss := identity_stmts ss

end Relabelling

end Lox
