import Lox.Proofs.Relabelling
import Mathlib.Data.List.Forall2

/-! Trees that are alike: the same but for their references and for the names that declarations
bind, which only have to correspond. -/

namespace Lox

/-- A tree of any sort, or several of them. -/
inductive Tree where
  | expr (e : Expr)
  | exprs (es : List Expr)
  | function (f : FunctionDecl)
  | functions (fs : List FunctionDecl)
  | methods (ms : List MethodDecl)
  | stmt (s : Stmt)
  | stmts (ss : List Stmt)

/-- Which references correspond, and which names may be declared in place of one another: in a
scope if `nested`, at top level otherwise. -/
structure Likeness where
  refers : Reference → Reference → Prop
  binds : (nested : Bool) → Token → Token → Prop

/-- Trees of one shape whose references and declared variables correspond. Whatever is declared by
a function, a class or a trait has one name in both. -/
inductive Likeness.Alike (L : Likeness) : (nested : Bool) → Tree → Tree → Prop where
  | assign (target : L.refers t t') (value : L.Alike n (.expr v) (.expr v')) :
    L.Alike n (.expr (.assign t v)) (.expr (.assign t' v'))
  | binary (left : L.Alike n (.expr l) (.expr l')) (right : L.Alike n (.expr r) (.expr r')) :
    L.Alike n (.expr (.binary l operator r)) (.expr (.binary l' operator r'))
  | call (callee : L.Alike n (.expr c) (.expr c'))
    (arguments : L.Alike n (.exprs es) (.exprs es')) :
    L.Alike n (.expr (.call c paren es)) (.expr (.call c' paren es'))
  | property (object : L.Alike n (.expr o) (.expr o')) :
    L.Alike n (.expr (.property o name)) (.expr (.property o' name))
  | group (inside : L.Alike n (.expr e) (.expr e')) :
    L.Alike n (.expr (.group e)) (.expr (.group e'))
  | lambda (function : L.Alike n (.function f) (.function f')) :
    L.Alike n (.expr (.lambda f)) (.expr (.lambda f'))
  | literal : L.Alike n (.expr (.literal value)) (.expr (.literal value))
  | logical (left : L.Alike n (.expr l) (.expr l')) (right : L.Alike n (.expr r) (.expr r')) :
    L.Alike n (.expr (.logical l operator r)) (.expr (.logical l' operator r'))
  | setProperty (object : L.Alike n (.expr o) (.expr o')) (value : L.Alike n (.expr v) (.expr v')) :
    L.Alike n (.expr (.setProperty o name v)) (.expr (.setProperty o' name v'))
  | superRef (keyword : L.refers k k') :
    L.Alike n (.expr (.superRef k method)) (.expr (.superRef k' method))
  | ternary (condition : L.Alike n (.expr c) (.expr c'))
      (thenValue : L.Alike n (.expr t) (.expr t'))
    (elseValue : L.Alike n (.expr e) (.expr e')) :
    L.Alike n (.expr (.ternary c t e)) (.expr (.ternary c' t' e'))
  | thisRef (keyword : L.refers k k') : L.Alike n (.expr (.thisRef k)) (.expr (.thisRef k'))
  | unary (right : L.Alike n (.expr e) (.expr e')) :
    L.Alike n (.expr (.unary operator e)) (.expr (.unary operator e'))
  | varRef (reference : L.refers r r') : L.Alike n (.expr (.varRef r)) (.expr (.varRef r'))
  | noExprs : L.Alike n (.exprs []) (.exprs [])
  | moreExprs (first : L.Alike n (.expr e) (.expr e')) (rest : L.Alike n (.exprs es) (.exprs es')) :
    L.Alike n (.exprs (e :: es)) (.exprs (e' :: es'))
  | function (params : List.Forall₂ (L.binds true) ps ps')
    (body : L.Alike true (.stmts ss) (.stmts ss')) :
    L.Alike n (.function ⟨name, ps, ss, line⟩) (.function ⟨name, ps', ss', line⟩)
  | noFunctions : L.Alike n (.functions []) (.functions [])
  | moreFunctions (first : L.Alike n (.function f) (.function f'))
    (rest : L.Alike n (.functions fs) (.functions fs')) :
    L.Alike n (.functions (f :: fs)) (.functions (f' :: fs'))
  | noMethods : L.Alike n (.methods []) (.methods [])
  | moreMethods (first : L.Alike n (.function f) (.function f'))
    (rest : L.Alike n (.methods ms) (.methods ms')) :
    L.Alike n (.methods (⟨f, isGetter⟩ :: ms)) (.methods (⟨f', isGetter⟩ :: ms'))
  | block (body : L.Alike true (.stmts ss) (.stmts ss')) :
    L.Alike n (.stmt (.block ss)) (.stmt (.block ss'))
  | classDecl (parent : Option.Rel L.refers p p') (traits : List.Forall₂ L.refers ts ts')
    (methods : L.Alike n (.methods ms) (.methods ms'))
    (statics : L.Alike n (.functions fs) (.functions fs')) :
    L.Alike n (.stmt (.classDecl ⟨name, p, ts, ms, fs⟩))
      (.stmt (.classDecl ⟨name, p', ts', ms', fs'⟩))
  | expression (value : L.Alike n (.expr e) (.expr e')) :
    L.Alike n (.stmt (.expression e)) (.stmt (.expression e'))
  | flow : L.Alike n (.stmt (.flow signal line)) (.stmt (.flow signal line))
  | functionDecl (function : L.Alike n (.function f) (.function f')) :
    L.Alike n (.stmt (.functionDecl f)) (.stmt (.functionDecl f'))
  | ifThen (condition : L.Alike n (.expr c) (.expr c'))
      (thenBranch : L.Alike n (.stmt t) (.stmt t')) :
    L.Alike n (.stmt (.ifElse c t none)) (.stmt (.ifElse c' t' none))
  | ifElse (condition : L.Alike n (.expr c) (.expr c'))
      (thenBranch : L.Alike n (.stmt t) (.stmt t'))
    (elseBranch : L.Alike n (.stmt e) (.stmt e')) :
    L.Alike n (.stmt (.ifElse c t (some e))) (.stmt (.ifElse c' t' (some e')))
  | print (value : L.Alike n (.expr e) (.expr e')) :
    L.Alike n (.stmt (.print e)) (.stmt (.print e'))
  | returnsNothing : L.Alike n (.stmt (.returns keyword none)) (.stmt (.returns keyword none))
  | returns (value : L.Alike n (.expr e) (.expr e')) :
    L.Alike n (.stmt (.returns keyword (some e))) (.stmt (.returns keyword (some e')))
  | traitDecl (defaults : L.Alike n (.functions fs) (.functions fs')) :
    L.Alike n (.stmt (.traitDecl ⟨name, signatures, fs⟩))
      (.stmt (.traitDecl ⟨name, signatures, fs'⟩))
  | bareVar (name : L.binds n x x') : L.Alike n (.stmt (.varDecl x none)) (.stmt (.varDecl x' none))
  | varDecl (name : L.binds n x x') (value : L.Alike n (.expr e) (.expr e')) :
    L.Alike n (.stmt (.varDecl x (some e))) (.stmt (.varDecl x' (some e')))
  | bareLoop (condition : L.Alike n (.expr c) (.expr c')) (body : L.Alike n (.stmt s) (.stmt s')) :
    L.Alike n (.stmt (.loop c s none)) (.stmt (.loop c' s' none))
  | loop (condition : L.Alike n (.expr c) (.expr c')) (body : L.Alike n (.stmt s) (.stmt s'))
    (increment : L.Alike n (.expr i) (.expr i')) :
    L.Alike n (.stmt (.loop c s (some i))) (.stmt (.loop c' s' (some i')))
  | noStmts : L.Alike n (.stmts []) (.stmts [])
  | moreStmts (first : L.Alike n (.stmt s) (.stmt s')) (rest : L.Alike n (.stmts ss) (.stmts ss')) :
    L.Alike n (.stmts (s :: ss)) (.stmts (s' :: ss'))

namespace Likeness

open Reference Relabelling

variable {node : NodeId → NodeId}

/-- Every name may be declared in its own place. -/
def Tolerant (L : Likeness) : Prop := ∀ n t, L.binds n t t

mutual

/-- A tree with other numbers is like the old one if each of its references corresponds to the one
with the other number. -/
theorem alike_expr {L : Likeness} (binds : L.Tolerant) (n : Bool) :
    (e : Expr) → (∀ r ∈ inExpr true e, L.refers r ((onNodes node).reference r)) →
    L.Alike n (.expr e) (.expr ((onNodes node).expr e))
  | .assign t v, refers => by
    obtain ⟨value, target⟩ := List.forall_mem_append.mp refers
    exact .assign (target t (List.mem_singleton_self t)) (alike_expr binds n v value)
  | .binary l _ r, refers => by
    obtain ⟨left, right⟩ := List.forall_mem_append.mp refers
    exact .binary (alike_expr binds n l left) (alike_expr binds n r right)
  | .call c _ es, refers => by
    obtain ⟨callee, arguments⟩ := List.forall_mem_append.mp refers
    exact .call (alike_expr binds n c callee) (alike_exprs binds n es arguments)
  | .property o _, refers => .property (alike_expr binds n o refers)
  | .group e, refers => .group (alike_expr binds n e refers)
  | .lambda f, refers => .lambda (alike_function binds n f refers)
  | .literal _, _ => .literal
  | .logical l _ r, refers => by
    obtain ⟨left, right⟩ := List.forall_mem_append.mp refers
    exact .logical (alike_expr binds n l left) (alike_expr binds n r right)
  | .setProperty o _ v, refers => by
    obtain ⟨value, object⟩ := List.forall_mem_append.mp refers
    exact .setProperty (alike_expr binds n o object) (alike_expr binds n v value)
  | .superRef k _, refers => .superRef (refers k (List.mem_singleton_self k))
  | .ternary c t e, refers => by
    obtain ⟨condition, branches⟩ := List.forall_mem_append.mp refers
    obtain ⟨thenValue, elseValue⟩ := List.forall_mem_append.mp branches
    exact .ternary (alike_expr binds n c condition) (alike_expr binds n t thenValue)
      (alike_expr binds n e elseValue)
  | .thisRef k, refers => .thisRef (refers k (List.mem_singleton_self k))
  | .unary _ e, refers => .unary (alike_expr binds n e refers)
  | .varRef r, refers => .varRef (refers r (List.mem_singleton_self r))

theorem alike_exprs {L : Likeness} (binds : L.Tolerant) (n : Bool) :
    (es : List Expr) → (∀ r ∈ inExprs true es, L.refers r ((onNodes node).reference r)) →
    L.Alike n (.exprs es) (.exprs ((onNodes node).exprs es))
  | [], _ => .noExprs
  | e :: es, refers => by
    obtain ⟨first, rest⟩ := List.forall_mem_append.mp refers
    exact .moreExprs (alike_expr binds n e first) (alike_exprs binds n es rest)

theorem alike_function {L : Likeness} (binds : L.Tolerant) (n : Bool) : (f : FunctionDecl) →
    (∀ r ∈ inFunction true f, L.refers r ((onNodes node).reference r)) →
    L.Alike n (.function f) (.function ((onNodes node).function f))
  | ⟨_, _, ss, _⟩, refers => by
    rw [function_onNodes]
    exact .function (List.forall₂_same.mpr fun p _ => binds true p)
      (alike_stmts binds true ss refers)

theorem alike_functions {L : Likeness} (binds : L.Tolerant) (n : Bool) : (fs : List FunctionDecl) →
    (∀ r ∈ inFunctions true fs, L.refers r ((onNodes node).reference r)) →
    L.Alike n (.functions fs) (.functions ((onNodes node).functions fs))
  | [], _ => .noFunctions
  | f :: fs, refers => by
    obtain ⟨first, rest⟩ := List.forall_mem_append.mp refers
    exact .moreFunctions (alike_function binds n f first) (alike_functions binds n fs rest)

theorem alike_methods {L : Likeness} (binds : L.Tolerant) (n : Bool) : (ms : List MethodDecl) →
    (∀ r ∈ inMethods true ms, L.refers r ((onNodes node).reference r)) →
    L.Alike n (.methods ms) (.methods ((onNodes node).methods ms))
  | [], _ => .noMethods
  | ⟨f, _⟩ :: ms, refers => by
    obtain ⟨first, rest⟩ := List.forall_mem_append.mp refers
    exact .moreMethods (alike_function binds n f first) (alike_methods binds n ms rest)

theorem alike_stmt {L : Likeness} (binds : L.Tolerant) (n : Bool) :
    (s : Stmt) → (∀ r ∈ inStmt true s, L.refers r ((onNodes node).reference r)) →
    L.Alike n (.stmt s) (.stmt ((onNodes node).stmt s))
  | .block ss, refers => .block (alike_stmts binds true ss refers)
  | .classDecl ⟨_, parent, ts, ms, fs⟩, refers => by
    obtain ⟨parents, rest⟩ := List.forall_mem_append.mp refers
    obtain ⟨traits, members⟩ := List.forall_mem_append.mp rest
    obtain ⟨methods, statics⟩ := List.forall_mem_append.mp members
    refine .classDecl ?_ ?_ (alike_methods binds n ms methods) (alike_functions binds n fs statics)
    · cases parent with
      | none => exact .none
      | some p => exact .some (parents p (List.mem_singleton_self p))
    · exact List.forall₂_map_right_iff.mpr (List.forall₂_same.mpr traits)
  | .expression e, refers => .expression (alike_expr binds n e refers)
  | .flow _ _, _ => .flow
  | .functionDecl f, refers => .functionDecl (alike_function binds n f refers)
  | .ifElse c t none, refers => by
    obtain ⟨condition, thenBranch⟩ := List.forall_mem_append.mp refers
    exact .ifThen (alike_expr binds n c condition) (alike_stmt binds n t thenBranch)
  | .ifElse c t (some e), refers => by
    obtain ⟨condition, branches⟩ := List.forall_mem_append.mp refers
    obtain ⟨thenBranch, elseBranch⟩ := List.forall_mem_append.mp branches
    exact .ifElse (alike_expr binds n c condition) (alike_stmt binds n t thenBranch)
      (alike_stmt binds n e elseBranch)
  | .print e, refers => .print (alike_expr binds n e refers)
  | .returns _ none, _ => .returnsNothing
  | .returns _ (some e), refers => .returns (alike_expr binds n e refers)
  | .traitDecl ⟨_, _, fs⟩, refers => by
    rw [stmt, signatures_onNodes]
    exact .traitDecl (alike_functions binds n fs refers)
  | .varDecl x none, _ => .bareVar (binds n x)
  | .varDecl x (some e), refers => .varDecl (binds n x) (alike_expr binds n e refers)
  | .loop c s none, refers => by
    obtain ⟨condition, body⟩ := List.forall_mem_append.mp refers
    exact .bareLoop (alike_expr binds n c condition) (alike_stmt binds n s body)
  | .loop c s (some i), refers => by
    obtain ⟨condition, rest⟩ := List.forall_mem_append.mp refers
    obtain ⟨body, increment⟩ := List.forall_mem_append.mp rest
    exact .loop (alike_expr binds n c condition) (alike_stmt binds n s body)
      (alike_expr binds n i increment)

theorem alike_stmts {L : Likeness} (binds : L.Tolerant) (n : Bool) :
    (ss : List Stmt) → (∀ r ∈ inStmts true ss, L.refers r ((onNodes node).reference r)) →
    L.Alike n (.stmts ss) (.stmts ((onNodes node).stmts ss))
  | [], _ => .noStmts
  | s :: ss, refers => by
    obtain ⟨first, rest⟩ := List.forall_mem_append.mp refers
    exact .moreStmts (alike_stmt binds n s first) (alike_stmts binds n ss rest)

end

/-- Lines that messages name are the same if those of references are. -/
theorem Alike.line_eq {L : Likeness} (lines : ∀ ⦃r r'⦄, L.refers r r' → r'.name.line = r.name.line)
    (alike : L.Alike n t t') : ∀ ⦃e e'⦄, t = .expr e → t' = .expr e' → e'.line = e.line := by
  induction alike with
  | assign target => rintro _ _ ⟨⟩ ⟨⟩; exact lines target
  | superRef keyword => rintro _ _ ⟨⟩ ⟨⟩; exact lines keyword
  | thisRef keyword => rintro _ _ ⟨⟩ ⟨⟩; exact lines keyword
  | varRef reference => rintro _ _ ⟨⟩ ⟨⟩; exact lines reference
  | group _ same =>
    rintro _ _ ⟨⟩ ⟨⟩
    have inside := same rfl rfl
    exact inside
  | ternary _ _ _ same =>
    rintro _ _ ⟨⟩ ⟨⟩
    have condition := same rfl rfl
    exact condition
  | lambda function =>
    rintro _ _ ⟨⟩ ⟨⟩
    cases function with
    | function => rfl
  | _ => rintro _ _ ⟨⟩ ⟨⟩ <;> rfl

end Likeness

end Lox
