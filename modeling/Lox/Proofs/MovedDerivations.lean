import Lox.Proofs.Grammar
import Lox.Proofs.Relabelling

/-! Tokens that stand on other lines are derived as before, and the tree that they build stands on
these lines too. Programs that follow each other are derived one after the other. -/

namespace Lox.Grammar

open Lox.Parser.Rules Lox.Relabelling

variable {line : Nat → Nat}

def Terminal.moved (line : Nat → Nat) (token : Terminal kind) : Terminal kind :=
  ⟨(onLines line).token token.1, token.2⟩

def movedMember (line : Nat → Nat) : Member → Member
  | .method ⟨f, isGetter⟩ => .method ⟨(onLines line).function f, isGetter⟩
  | .static f => .static ((onLines line).function f)

def movedTraitMember (line : Nat → Nat) : TraitMember → TraitMember
  | .asked signature => .asked ((onLines line).signature signature)
  | .default f => .default ((onLines line).function f)

/-- The tree of a derivation, on other lines. -/
def Nonterminal.moved (line : Nat → Nat) : (N : Nonterminal) → N.Tree → N.Tree
  | declarations, ss | block, ss => (onLines line).stmts ss
  | declaration, s | varDecl, s | statement _, s | expressionStatement, s => (onLines line).stmt s
  | forStart, s => s.map (onLines line).stmt
  | superclass, parent => parent.map (onLines line).reference
  | mixins, traits | traitNames, traits => traits.map (onLines line).reference
  | members, ms => ms.map (movedMember line)
  | member, m => movedMember line m
  | traitMembers, ms => ms.map (movedTraitMember line)
  | traitMember, m => movedTraitMember line m
  | function, f => (onLines line).function f
  | functionRest, (params, body) => (params.map (onLines line).token, (onLines line).stmts body)
  | initializer, e | maybeExpression, e => e.map (onLines line).expr
  | expression, e | ternary, e | level _, e | operand _, e | unary, e | call, e | primary, e =>
    (onLines line).expr e
  | maybeArguments, es | arguments, es => (onLines line).exprs es

theorem methods_moved (ms : List Member) :
    (ms.map (movedMember line)).filterMap Member.method? =
      (onLines line).methods (ms.filterMap Member.method?) := by
  induction ms with
  | nil => rfl
  | cons m ms ih =>
    cases m with
    | method m =>
      obtain ⟨f, isGetter⟩ := m
      exact congrArg (⟨(onLines line).function f, isGetter⟩ :: ·) ih
    | static f => exact ih

theorem statics_moved (ms : List Member) :
    (ms.map (movedMember line)).filterMap Member.static? =
      (onLines line).functions (ms.filterMap Member.static?) := by
  induction ms with
  | nil => rfl
  | cons m ms ih =>
    cases m with
    | method m =>
      obtain ⟨f, isGetter⟩ := m
      exact ih
    | static f => exact congrArg ((onLines line).function f :: ·) ih

theorem asked_moved (ms : List TraitMember) :
    (ms.map (movedTraitMember line)).filterMap TraitMember.asked? =
      (ms.filterMap TraitMember.asked?).map (onLines line).signature := by
  induction ms with
  | nil => rfl
  | cons m ms ih =>
    cases m with
    | asked signature => exact congrArg ((onLines line).signature signature :: ·) ih
    | default f => exact ih

theorem defaults_moved (ms : List TraitMember) :
    (ms.map (movedTraitMember line)).filterMap TraitMember.default? =
      (onLines line).functions (ms.filterMap TraitMember.default?) := by
  induction ms with
  | nil => rfl
  | cons m ms ih =>
    cases m with
    | asked signature => exact ih
    | default f => exact congrArg ((onLines line).function f :: ·) ih

theorem forLoop_moved (start : Option Stmt) (condition increment : Option Expr) (body : Stmt) :
    forLoop (start.map (onLines line).stmt) (condition.map (onLines line).expr)
      (increment.map (onLines line).expr) ((onLines line).stmt body) =
      (onLines line).stmt (forLoop start condition increment body) := by
  have loop : forLoop none (condition.map (onLines line).expr) (increment.map (onLines line).expr)
      ((onLines line).stmt body) = (onLines line).stmt (forLoop none condition increment body) := by
    simp only [forLoop, stmt_loop]
    cases condition <;> rfl
  cases start with
  | none => exact loop
  | some first => exact congrArg (fun s => Stmt.block [(onLines line).stmt first, s]) loop

theorem node_moved (l : Level) (a b : Expr) (operator : Token) :
    (onLines line).expr (l.node a operator b) =
      l.node ((onLines line).expr a) ((onLines line).token operator) ((onLines line).expr b) := by
  cases l <;> rfl

theorem length_exprs (es : List Expr) : ((onLines line).exprs es).length = es.length := by
  induction es with
  | nil => rfl
  | cons e es ih => exact congrArg (· + 1) ih

theorem Names.moved (derived : Names word names) :
    Names (word.map (onLines line).token) (names.map (onLines line).token) := by
  induction derived with
  | one name => exact .one (name.moved line)
  | more name comma _ ih => exact .more (name.moved line) (comma.moved line) ih

theorem Parameters.moved (derived : Parameters word params) :
    Parameters (word.map (onLines line).token) (params.map (onLines line).token) := by
  cases derived with
  | none => exact .none
  | some names few => exact .some names.moved (by rwa [List.length_map])

theorem Derives.moved (line : Nat → Nat) (d : Derives N n word tree n') :
    Derives N n (word.map (onLines line).token) (N.moved line tree) n' := by
  induction d with
  | nil => exact .nil
  | noSuperclass => exact .noSuperclass
  | noMixins => exact .noMixins
  | noMembers => exact .noMembers
  | noTraitMembers => exact .noTraitMembers
  | noInitializer => exact .noInitializer
  | noExpression => exact .noExpression
  | noArguments => exact .noArguments
  -- Declarations
  | cons _ _ first rest =>
    rw [List.map_append]
    exact .cons first rest
  | classDecl keyword name _ _ left _ right parent traits body =>
    simp only [List.map_cons, List.map_append, List.map_nil, Nonterminal.moved, stmt]
    rw [← methods_moved, ← statics_moved]
    exact .classDecl (keyword.moved line) (name.moved line) parent traits (left.moved line) body
      (right.moved line)
  | superclass less name => exact .superclass (less.moved line) (name.moved line)
  | mixins keyword _ names => exact .mixins (keyword.moved line) names
  | traitName name => exact .traitName (name.moved line)
  | moreTraitNames name comma _ rest =>
    exact .moreTraitNames (name.moved line) (comma.moved line) rest
  | moreMembers _ _ first rest =>
    rw [List.map_append]
    exact .moreMembers first rest
  | static keyword _ method => exact .static (keyword.moved line) method
  | getter name _ body => exact .getter (name.moved line) body
  | method _ method => exact .method method
  | traitDecl keyword name left _ right body =>
    simp only [List.map_cons, List.map_append, List.map_nil, Nonterminal.moved, stmt]
    rw [← asked_moved, ← defaults_moved]
    exact .traitDecl (keyword.moved line) (name.moved line) (left.moved line) body
      (right.moved line)
  | moreTraitMembers _ _ first rest =>
    rw [List.map_append]
    exact .moreTraitMembers first rest
  | @asked _ params _ name left names right stop =>
    simp only [List.map_cons, List.map_append, List.map_nil]
    have count : (params.map (onLines line).token).length = params.length := List.length_map _
    rw [Nonterminal.moved, movedTraitMember, signature, ← count]
    exact .asked (name.moved line) (left.moved line) names.moved (right.moved line)
      (stop.moved line)
  | default _ method => exact .default method
  | functionDecl keyword _ method => exact .functionDecl (keyword.moved line) method
  | function name _ rest => exact .function (name.moved line) rest
  | functionRest left names right _ body =>
    simp only [List.map_cons, List.map_append]
    exact .functionRest (left.moved line) names.moved (right.moved line) body
  | block left _ right body =>
    simp only [List.map_cons, List.map_append, List.map_nil]
    exact .block (left.moved line) body (right.moved line)
  | varDeclaration _ declared => exact .varDeclaration declared
  | varDecl keyword name _ stop value =>
    simp only [List.map_cons, List.map_append, List.map_nil]
    rw [Nonterminal.moved, stmt_varDecl]
    exact .varDecl (keyword.moved line) (name.moved line) value (stop.moved line)
  | initializer equal _ value => exact .initializer (equal.moved line) value
  | statement _ executed => exact .statement executed
  -- Statements
  | evaluate _ value => exact .evaluate value
  | expressionStatement _ stop value =>
    simp only [List.map_append, List.map_cons, List.map_nil]
    exact .expressionStatement value (stop.moved line)
  | forLoop keyword left _ _ stop _ right _ start condition increment body =>
    simp only [List.map_cons, List.map_append]
    rw [Nonterminal.moved, ← forLoop_moved]
    exact .forLoop (keyword.moved line) (left.moved line) start condition (stop.moved line)
      increment (right.moved line) body
  | noStart stop => exact .noStart (stop.moved line)
  | startVar _ declared => exact .startVar declared
  | startExpression _ value => exact .startExpression value
  | ifThen keyword left _ right _ condition branch =>
    simp only [List.map_cons, List.map_append]
    exact .ifThen (keyword.moved line) (left.moved line) condition (right.moved line) branch
  | ifThenElse keyword left _ right _ otherwise _ condition branch other =>
    simp only [List.map_cons, List.map_append]
    exact .ifThenElse (keyword.moved line) (left.moved line) condition (right.moved line) branch
      (otherwise.moved line) other
  | whileLoop keyword left _ right _ condition body =>
    simp only [List.map_cons, List.map_append]
    exact .whileLoop (keyword.moved line) (left.moved line) condition (right.moved line) body
  | print keyword _ stop value =>
    simp only [List.map_cons, List.map_append, List.map_nil]
    exact .print (keyword.moved line) value (stop.moved line)
  | returns keyword _ stop value =>
    simp only [List.map_cons, List.map_append, List.map_nil]
    rw [Nonterminal.moved, stmt_returns]
    exact .returns (keyword.moved line) value (stop.moved line)
  | flow signal word stop => exact .flow signal (word.moved line) (stop.moved line)
  | inner _ body => exact .inner body
  -- Expressions
  | someExpression _ value => exact .someExpression value
  | assign name equal _ value => exact .assign (name.moved line) (equal.moved line) value
  | setProperty _ dot name equal _ object value =>
    simp only [List.map_append, List.map_cons]
    exact .setProperty object (dot.moved line) (name.moved line) (equal.moved line) value
  | unassigned _ value => exact .unassigned value
  | ternary _ question _ colon _ condition thenValue elseValue =>
    simp only [List.map_append, List.map_cons]
    exact .ternary condition (question.moved line) thenValue (colon.moved line) elseValue
  | unconditional _ value => exact .unconditional value
  | operation _ operator member _ left right =>
    simp only [List.map_append, List.map_cons]
    rw [Nonterminal.moved, node_moved]
    exact .operation left ((onLines line).token operator) member right
  | first _ value => exact .first value
  | tighter next _ value => exact .tighter next value
  | tightest next _ value => exact .tightest next value
  | unary operator member _ right => exact .unary ((onLines line).token operator) member right
  | positive _ value => exact .positive value
  | call _ left _ right callee given =>
    simp only [List.map_append, List.map_cons, List.map_nil]
    exact .call callee (left.moved line) given (right.moved line)
  | property _ dot name object =>
    simp only [List.map_append, List.map_cons, List.map_nil]
    exact .property object (dot.moved line) (name.moved line)
  | primary _ value => exact .primary value
  | someArguments _ few given =>
    exact .someArguments given (Nat.le_trans (Nat.le_of_eq (length_exprs _)) few)
  | argument _ value => exact .argument value
  | moreArguments _ comma _ value rest =>
    simp only [List.map_append, List.map_cons]
    exact .moreArguments value (comma.moved line) rest
  | no token => exact .no (token.moved line)
  | yes token => exact .yes (token.moved line)
  | nothing token => exact .nothing (token.moved line)
  | number token => exact .number (token.moved line)
  | string token => exact .string (token.moved line)
  | name token => exact .name (token.moved line)
  | this token => exact .this (token.moved line)
  | super token dot method => exact .super (token.moved line) (dot.moved line) (method.moved line)
  | lambda token _ rest => exact .lambda (token.moved line) rest
  | group left _ right value =>
    simp only [List.map_cons, List.map_append, List.map_nil]
    exact .group (left.moved line) value (right.moved line)

theorem Derives.append {ss : List Stmt} (first : Derives .declarations n w ss n')
    (second : Derives .declarations n' w' ss' n'') :
    Derives .declarations n (w ++ w') (ss ++ ss') n'' := by
  induction ss generalizing n w with
  | nil =>
    cases first
    exact second
  | cons s ss ih =>
    cases first with
    | cons one rest =>
      rw [List.append_assoc]
      exact .cons one (ih rest)

end Lox.Grammar
