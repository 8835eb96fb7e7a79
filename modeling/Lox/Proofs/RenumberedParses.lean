import Lox.Proofs.Lockstep
import Lox.Proofs.Relabelling
import Lox.Syntax.Parser

/-! The same tokens, read with other numbers for their references, give trees that differ in these
numbers only. An error is the same too, and so is how far the numbers have been counted, so that a
parse never takes a number back: also after an error, the next reference gets a number that no
reference of the parse has. -/

namespace Lox

open Relabelling

/-- References that are still to be numbered will correspond in the order of their numbers. -/
def Relabelling.Continues (φ : Relabelling) (n n' : NodeId) : Prop := ∀ k, φ.node (n + k) = n' + k

namespace Parser

/-- Cursors before the same tokens, whose numbers go on alike. -/
def cursors (node : NodeId → NodeId) : Lockstep ParseError Cursor ParseError Cursor where
  states c c' := c'.rest = c.rest ∧ (onNodes node).Continues c.nextNode c'.nextNode
  errors := Eq

/-- From the same tokens the second parser reads what the function makes of what the first reads. -/
def Reads (node : NodeId → NodeId) (f : α → β) (p : Parser α) (q : Parser β) : Prop :=
  (cursors node).Runs (fun a b => f a = b) p q

variable {node : NodeId → NodeId}

namespace Reads

variable {f : α → β} {p : Parser α} {q : Parser β}

theorem pure {a : α} {b : β} (same : f a = b) : Reads node f (Pure.pure a) (Pure.pure b) :=
  Lockstep.Runs.pure same

theorem bind {g : α → Parser γ} {g' : β → Parser δ} {h : γ → δ} (first : Reads node f p q)
    (later : ∀ a, Reads node h (g a) (g' (f a))) : Reads node h (p >>= g) (q >>= g') :=
  Lockstep.Runs.bind first fun a _ same => same ▸ later a

/-- Sequencing after a result that numbers do not matter to. -/
theorem next {p q : Parser α} {g : α → Parser γ} {g' : α → Parser δ} {h : γ → δ}
    (first : Reads node id p q) (later : ∀ a, Reads node h (g a) (g' a)) :
    Reads node h (p >>= g) (q >>= g') := first.bind later

theorem ite {condition : Prop} [Decidable condition] {p' : Parser α} {q' : Parser β}
    (yes : Reads node f p q) (no : Reads node f p' q') :
    Reads node f (if condition then p else p') (if condition then q else q') :=
  Lockstep.Runs.ite yes no

theorem peek : Reads node id peek peek :=
  Lockstep.Runs.bind .get fun _ _ states => .pure (by rw [states.1]; rfl)

theorem fail (token : Token) (cause : ParseError.Cause) :
    Reads node f (fail token cause) (Parser.fail token cause) := Lockstep.Runs.throw rfl

theorem failHere (cause : ParseError.Cause) :
    Reads node f (failHere cause) (Parser.failHere cause) := peek.next fun token => fail token cause

theorem advance : Reads node id advance advance := by
  refine Lockstep.Runs.modify ?_
  rintro ⟨_, n⟩ ⟨rest, n'⟩ ⟨rfl, numbers⟩
  dsimp only
  cases rest with
  | nil => exact ⟨rfl, numbers⟩
  | cons t rest =>
    dsimp only
    split <;> exact ⟨rfl, numbers⟩

theorem check (kind : Kind) : Reads node id (check kind) (Parser.check kind) :=
  peek.next fun _ => pure rfl

theorem accept? (kinds : List Kind) : Reads node id (accept? kinds) (Parser.accept? kinds) :=
  peek.next fun _ => ite (advance.next fun _ => pure rfl) (pure rfl)

theorem accept (kind : Kind) : Reads node id (accept kind) (Parser.accept kind) :=
  (accept? [kind]).next fun _ => pure rfl

theorem expect (kind : Kind) (cause : ParseError.Cause) :
    Reads node id (expect kind cause) (Parser.expect kind cause) := by
  refine (accept? [kind]).next fun token => ?_
  cases token with
  | none => exact failHere cause
  | some token => exact pure rfl

theorem expectName (role : String) : Reads node id (expectName role) (Parser.expectName role) :=
  expect ..

/-- The next reference gets the number that corresponds. -/
theorem refer (name : Token) :
    Reads node (onNodes node).reference (refer name) (Parser.refer name) := by
  rintro ⟨_, n⟩ ⟨rest, n'⟩ ⟨rfl, numbers⟩
  refine .ok ?_ ⟨rfl, fun k => ?_⟩
  · exact congrArg (Reference.mk · name) (numbers 0)
  · have later := numbers (k + 1)
    rwa [Nat.add_comm k, ← Nat.add_assoc, ← Nat.add_assoc] at later

section

variable {f : α → α} {item : Parser α}

theorem roomFor (what : Option String) (count : Nat) :
    Reads node id (roomFor what count) (Parser.roomFor what count) := by
  cases what with
  | none => exact pure rfl
  | some what => exact ite (failHere _) (pure rfl)

theorem separated (what : Option String) (one : Reads node f item item) (limit count : Nat) :
    Reads node (List.map f) (separated what item limit count)
      (Parser.separated what item limit count) := by
  induction limit generalizing count with
  | zero => exact failHere _
  | succ limit ih =>
    refine (roomFor what count).next fun _ => one.bind fun _ => (accept .comma).next fun _ => ?_
    exact ite ((ih _).bind fun _ => pure rfl) (pure rfl)

theorem listed (what : String) (one : Reads node f item item) (limit : Nat) :
    Reads node (List.map f) (listed what item limit) (Parser.listed what item limit) :=
  (check .rightParen).next fun _ => ite (pure rfl) (separated (some what) one limit 0)

theorem itemsUntil (stops : List Kind) (one : Reads node f item item) (limit : Nat) :
    Reads node (List.map f) (itemsUntil stops item limit) (Parser.itemsUntil stops item limit) := by
  induction limit with
  | zero => exact failHere _
  | succ limit ih =>
    exact peek.next fun _ => ite (pure rfl) (one.bind fun _ => ih.bind fun _ => pure rfl)

theorem resync (one : Reads node f item item) :
    Reads node f (resync item) (Parser.resync item) := by
  intro c c' states
  have ended := one states
  change (cursors node).Ends _ (EStateM.tryCatch item _ c) (EStateM.tryCatch item _ c')
  unfold EStateM.tryCatch
  generalize item c = result, item c' = result' at ended
  cases ended with
  | ok values states => exact .ok values states
  | error errors states =>
    exact .error errors ⟨congrArg skipToStatement states.1, states.2⟩

end

theorem chain {operand : Parser Expr} (operators : List Kind) {build : Expr → Token → Expr → Expr}
    (builds : ∀ l t r, (onNodes node).expr (build l t r) =
      build ((onNodes node).expr l) t ((onNodes node).expr r))
    (one : Reads node (onNodes node).expr operand operand) (limit : Nat) (left : Expr) :
    Reads node (onNodes node).expr (chain operators build operand limit left)
      (Parser.chain operators build operand limit ((onNodes node).expr left)) := by
  induction limit generalizing left with
  | zero => exact failHere _
  | succ limit ih =>
    refine (accept? operators).next fun operator => ?_
    cases operator with
    | none => exact pure rfl
    | some operator =>
      refine one.bind fun right => ?_
      rw [← builds]
      exact ih _

theorem level {operand : Parser Expr} (limit : Nat) (operators : List Kind)
    {build : Expr → Token → Expr → Expr}
    (builds : ∀ l t r, (onNodes node).expr (build l t r) =
      build ((onNodes node).expr l) t ((onNodes node).expr r))
    (one : Reads node (onNodes node).expr operand operand) :
    Reads node (onNodes node).expr (level limit operators build operand)
      (Parser.level limit operators build operand) :=
  one.bind fun _ => chain operators builds one limit _

theorem parameters (limit : Nat) :
    Reads node id (parameters limit) (Parser.parameters limit) :=
  (listed _ (expectName _) limit).bind fun params => (expect ..).next fun _ =>
    pure (List.map_id params).symm

end Reads

/-- Rules whose parts read renumbered trees. -/
structure Reads.Parts (node : NodeId → NodeId) (rules : Rules) : Prop where
  expression : Reads node (onNodes node).expr rules.expression rules.expression
  ternary : Reads node (onNodes node).expr rules.ternary rules.ternary
  unary : Reads node (onNodes node).expr rules.unary rules.unary
  statement : Reads node (onNodes node).stmt rules.statement rules.statement
  declaration : Reads node (onNodes node).stmt rules.declaration rules.declaration

namespace Reads.Parts

variable {rules : Rules} (parts : Parts node rules)
include parts

theorem block : Reads node (onNodes node).stmts rules.block rules.block :=
  (itemsUntil _ parts.declaration _).bind fun body => (expect ..).next fun _ =>
    .pure (stmts_eq_map body)

theorem functionRest (name : Option Token) (line : Nat) (role : String) :
    Reads node (onNodes node).function (rules.functionRest name line role)
      (rules.functionRest name line role) :=
  (expect ..).next fun _ => (parameters _).next fun _ => (expect ..).next fun _ =>
    parts.block.bind fun _ => .pure (function_onNodes ..)

theorem function (role : String) :
    Reads node (onNodes node).function (rules.function role) (rules.function role) :=
  (expectName role).next fun _ => parts.functionRest ..

theorem primary : Reads node (onNodes node).expr rules.primary rules.primary := by
  refine peek.next fun token => ?_
  split
  case h_1 | h_2 | h_3 | h_4 | h_5 => exact advance.next fun _ => .pure rfl
  case h_6 | h_7 => exact advance.next fun _ => (refer token).bind fun _ => .pure rfl
  case h_8 =>
    exact advance.next fun _ => (expect ..).next fun _ => (expectName _).next fun _ =>
      (refer token).bind fun _ => .pure rfl
  case h_9 => exact advance.next fun _ => (parts.functionRest ..).bind fun _ => .pure rfl
  case h_10 =>
    exact advance.next fun _ => parts.expression.bind fun _ => (expect ..).next fun _ => .pure rfl
  case h_11 => exact fail ..

theorem suffixes (limit : Nat) (object : Expr) :
    Reads node (onNodes node).expr (rules.suffixes limit object)
      (rules.suffixes limit ((onNodes node).expr object)) := by
  induction limit generalizing object with
  | zero => exact failHere _
  | succ limit ih =>
    refine (accept .leftParen).next fun _ => .ite ?_ ?_
    · refine (listed _ parts.expression _).bind fun arguments => (expect ..).next fun paren => ?_
      rw [← exprs_eq_map]
      exact ih (.call object paren arguments)
    · exact (accept .dot).next fun _ =>
        .ite ((expect ..).next fun name => ih (.property object name)) (.pure rfl)

theorem unaryRule : Reads node (onNodes node).expr rules.unaryRule rules.unaryRule := by
  refine (accept? _).next fun operator => ?_
  cases operator with
  | none => exact parts.primary.bind fun _ => parts.suffixes ..
  | some operator => exact parts.unary.bind fun _ => .pure rfl

theorem disjunction : Reads node (onNodes node).expr rules.disjunction rules.disjunction :=
  level _ _ (fun _ _ _ => rfl) <| level _ _ (fun _ _ _ => rfl) <| level _ _ (fun _ _ _ => rfl) <|
    level _ _ (fun _ _ _ => rfl) <| level _ _ (fun _ _ _ => rfl) <|
      level _ _ (fun _ _ _ => rfl) parts.unaryRule

theorem ternaryRule : Reads node (onNodes node).expr rules.ternaryRule rules.ternaryRule :=
  parts.disjunction.bind fun _ => (accept .question).next fun _ =>
    .ite (parts.expression.bind fun _ => (expect ..).next fun _ => parts.ternary.bind fun _ =>
      .pure rfl) (.pure rfl)

omit parts in
/-- Whether an expression can be assigned to does not depend on numbers. -/
theorem assignTo (left : Expr) (equals : Token) (value : Expr) :
    Reads node (onNodes node).expr (Rules.assignTo left equals value)
      (Rules.assignTo ((onNodes node).expr left) equals ((onNodes node).expr value)) := by
  cases left with
  | varRef target => exact (refer target.name).bind fun _ => .pure rfl
  | property object name => exact .pure rfl
  | _ => exact fail ..

theorem expressionRule :
    Reads node (onNodes node).expr rules.expressionRule rules.expressionRule := by
  refine parts.ternaryRule.bind fun left => (accept? _).next fun equals => ?_
  cases equals with
  | none => exact .pure rfl
  | some equals => exact parts.expression.bind fun value => assignTo left equals value

theorem expressionStatement :
    Reads node (onNodes node).stmt rules.expressionStatement rules.expressionStatement :=
  parts.expressionRule.bind fun _ => (expect ..).next fun _ => .pure rfl

theorem varDeclaration :
    Reads node (onNodes node).stmt rules.varDeclaration rules.varDeclaration := by
  have initializer : Reads node (Option.map (onNodes node).expr) rules.initializer
      rules.initializer :=
    (accept .equal).next fun _ => .ite (parts.expression.bind fun _ => .pure rfl) (.pure rfl)
  exact (expectName _).next fun name => initializer.bind fun value => (expect ..).next fun _ =>
    .pure (stmt_varDecl name value)

theorem expressionUnless (stop : Kind) :
    Reads node (Option.map (onNodes node).expr) (rules.expressionUnless stop)
      (rules.expressionUnless stop) :=
  (check stop).next fun _ => .ite (.pure rfl) (parts.expression.bind fun _ => .pure rfl)

theorem forStatement : Reads node (onNodes node).stmt rules.forStatement rules.forStatement := by
  have start : Reads node (Option.map (onNodes node).stmt) rules.forStart rules.forStart :=
    (accept .semicolon).next fun _ => .ite (.pure rfl) <| (accept .kwVar).next fun _ =>
      .ite (parts.varDeclaration.bind fun _ => .pure rfl)
        (parts.expressionStatement.bind fun _ => .pure rfl)
  refine (expect ..).next fun _ => start.bind fun first =>
    (parts.expressionUnless _).bind fun condition => (expect ..).next fun _ =>
      (parts.expressionUnless _).bind fun increment => (expect ..).next fun _ =>
        parts.statement.bind fun body => ?_
  have loops : (onNodes node).stmt (.loop (condition.getD (.literal (.bool true))) body increment) =
      .loop ((condition.map (onNodes node).expr).getD (.literal (.bool true)))
        ((onNodes node).stmt body) (increment.map (onNodes node).expr) := by
    rw [stmt_loop]
    cases condition <;> rfl
  cases first with
  | none => exact .pure loops
  | some first => exact .pure (congrArg (fun s => Stmt.block [(onNodes node).stmt first, s]) loops)

theorem ifStatement : Reads node (onNodes node).stmt rules.ifStatement rules.ifStatement := by
  have otherwise : Reads node (Option.map (onNodes node).stmt) rules.elseBranch rules.elseBranch :=
    (accept .kwElse).next fun _ => .ite (parts.statement.bind fun _ => .pure rfl) (.pure rfl)
  exact (expect ..).next fun _ => parts.expression.bind fun _ => (expect ..).next fun _ =>
    parts.statement.bind fun _ => otherwise.bind fun _ => .pure (stmt_ifElse ..)

theorem statementRule : Reads node (onNodes node).stmt rules.statementRule rules.statementRule := by
  refine peek.next fun token => ?_
  split
  case h_1 => exact advance.next fun _ => parts.forStatement
  case h_2 => exact advance.next fun _ => parts.ifStatement
  case h_3 =>
    exact advance.next fun _ => (expect ..).next fun _ => parts.expression.bind fun _ =>
      (expect ..).next fun _ => parts.statement.bind fun _ => .pure rfl
  case h_4 =>
    exact advance.next fun _ => (parts.expressionUnless _).bind fun _ => (expect ..).next fun _ =>
      .pure (stmt_returns ..)
  case h_5 | h_6 => exact advance.next fun _ => (expect ..).next fun _ => .pure rfl
  case h_7 => exact advance.next fun _ => parts.block.bind fun _ => .pure rfl
  case h_8 =>
    exact advance.next fun _ => parts.expression.bind fun _ => (expect ..).next fun _ => .pure rfl
  case h_9 => exact parts.expressionStatement

end Reads.Parts

/-- A member of a class whose references have other numbers. -/
def Rules.Member.renumbered (node : NodeId → NodeId) : Member → Member
  | .method ⟨f, isGetter⟩ => .method ⟨(onNodes node).function f, isGetter⟩
  | .static f => .static ((onNodes node).function f)

/-- A member of a trait whose references have other numbers. -/
def Rules.TraitMember.renumbered (node : NodeId → NodeId) : TraitMember → TraitMember
  | .asked method => .asked method
  | .default f => .default ((onNodes node).function f)

theorem Rules.Member.methods_renumbered (members : List Member) :
    (members.map (renumbered node)).filterMap method? =
      (onNodes node).methods (members.filterMap method?) := by
  induction members with
  | nil => rfl
  | cons first members ih =>
    cases first with
    | method m =>
      cases m
      exact congrArg (_ :: ·) ih
    | static f => exact ih

theorem Rules.Member.statics_renumbered (members : List Member) :
    (members.map (renumbered node)).filterMap static? =
      (onNodes node).functions (members.filterMap static?) := by
  induction members with
  | nil => rfl
  | cons first members ih =>
    cases first with
    | method m =>
      cases m
      exact ih
    | static f => exact congrArg (_ :: ·) ih

theorem Rules.TraitMember.asked_renumbered (members : List TraitMember) :
    (members.map (renumbered node)).filterMap asked? = members.filterMap asked? := by
  induction members with
  | nil => rfl
  | cons first members ih =>
    cases first with
    | asked method => exact congrArg (_ :: ·) ih
    | default f => exact ih

theorem Rules.TraitMember.defaults_renumbered (members : List TraitMember) :
    (members.map (renumbered node)).filterMap default? =
      (onNodes node).functions (members.filterMap default?) := by
  induction members with
  | nil => rfl
  | cons first members ih =>
    cases first with
    | asked method => exact ih
    | default f => exact congrArg (_ :: ·) ih

namespace Reads.Parts

open Rules

variable {rules : Rules} (parts : Parts node rules)
include parts

theorem classDeclaration :
    Reads node (onNodes node).stmt rules.classDeclaration rules.classDeclaration := by
  have superclass : Reads node (Option.map (onNodes node).reference) Rules.superclass
      Rules.superclass :=
    (accept .less).next fun _ => .ite ((expectName _).next fun name => (refer name).bind fun _ =>
      .pure rfl) (.pure rfl)
  have traitName : Reads node (onNodes node).reference Rules.traitName Rules.traitName :=
    (expectName _).next fun name => refer name
  have mixins : Reads node (List.map (onNodes node).reference) rules.mixins rules.mixins :=
    (accept .kwWith).next fun _ => .ite (separated none traitName _ 0) (.pure rfl)
  have member : Reads node (Member.renumbered node) rules.member rules.member := by
    refine (accept .kwClass).next fun _ =>
      .ite ((parts.function _).bind fun _ => .pure rfl) <| (expectName _).next fun _ =>
        (accept .leftBrace).next fun _ => .ite ?_ ((parts.functionRest ..).bind fun _ => .pure rfl)
    refine parts.block.bind fun body => .pure ?_
    rw [Member.renumbered, function_onNodes]
  refine (expectName _).next fun _ => superclass.bind fun _ => mixins.bind fun _ =>
    (expect ..).next fun _ => (itemsUntil _ member _).bind fun _ => (expect ..).next fun _ =>
      .pure ?_
  rw [Member.methods_renumbered, Member.statics_renumbered]
  rfl

theorem traitDeclaration :
    Reads node (onNodes node).stmt rules.traitDeclaration rules.traitDeclaration := by
  have member : Reads node (TraitMember.renumbered node) rules.traitMember rules.traitMember := by
    refine (expectName _).next fun _ => (expect ..).next fun _ => (parameters _).next fun _ =>
      (accept .semicolon).next fun _ => .ite (.pure rfl) <| (expect ..).next fun _ =>
        parts.block.bind fun body => .pure ?_
    rw [TraitMember.renumbered, function_onNodes]
  refine (expectName _).next fun _ => (expect ..).next fun _ =>
    (itemsUntil _ member _).bind fun members => (expect ..).next fun _ => .pure ?_
  rw [TraitMember.asked_renumbered, TraitMember.defaults_renumbered, Relabelling.stmt,
    signatures_onNodes]
  rfl

theorem declarationRule :
    Reads node (onNodes node).stmt rules.declarationRule rules.declarationRule := by
  have named : Reads node id namesFunction namesFunction := by
    refine Lockstep.Runs.bind .get fun c c' states => ?_
    rw [states.1]
    split <;> exact .pure rfl
  refine resync (named.next fun _ => .ite ?_ (peek.next fun token => ?_))
  · exact advance.next fun _ => (parts.function _).bind fun _ => .pure rfl
  · split
    case h_1 => exact advance.next fun _ => parts.classDeclaration
    case h_2 => exact advance.next fun _ => parts.traitDeclaration
    case h_3 => exact advance.next fun _ => parts.varDeclaration
    case h_4 => exact parts.statementRule

end Reads.Parts

theorem rules_parts (limit : Nat) : Reads.Parts node (rules limit) := by
  induction limit with
  | zero => exact ⟨.failHere _, .failHere _, .failHere _, .failHere _, .failHere _⟩
  | succ limit ih =>
    exact ⟨ih.expressionRule, ih.ternaryRule, ih.unaryRule, ih.statementRule, ih.declarationRule⟩

end Parser

open Lox.Parser

/-- A parser of whole sources. With other numbers it reads what the function makes of a tree, and it
counts alike. -/
structure Renumbers (node : NodeId → NodeId) (f : α → α)
    (parser : List Token → NodeId → Except ParseError α × Cursor) : Prop where
  results : ∀ tokens ⦃n n'⦄, (onNodes node).Continues n n' →
    Results Eq (fun t t' => f t = t') (parser tokens n).1 (parser tokens n').1
  numbers : ∀ tokens ⦃n n'⦄, (onNodes node).Continues n n' →
    (onNodes node).Continues (parser tokens n).2.nextNode (parser tokens n').2.nextNode

variable {node : NodeId → NodeId}

theorem Parser.Reads.renumbers {f : α → α} {p : Parser α} (reads : Reads node f p p) :
    Renumbers node f p.outcome := by
  have both (tokens : List Token) ⦃n n' : NodeId⦄ (numbers : (onNodes node).Continues n n') :
      Results Eq (fun t t' => f t = t') (p.outcome tokens n).1 (p.outcome tokens n').1 ∧
        (onNodes node).Continues (p.outcome tokens n).2.nextNode
          (p.outcome tokens n').2.nextNode := by
    have ended := @reads ⟨tokens, n⟩ ⟨tokens, n'⟩ ⟨rfl, numbers⟩
    unfold outcome EStateM.run
    generalize p ⟨tokens, n⟩ = result, p ⟨tokens, n'⟩ = result' at ended
    cases ended with
    | ok values states => exact ⟨.ok values, states.2⟩
    | error errors states => exact ⟨.error errors, states.2⟩
  exact ⟨fun tokens _ _ numbers => (both tokens numbers).1,
    fun tokens _ _ numbers => (both tokens numbers).2⟩

theorem parse_renumbers : Renumbers node (onNodes node).stmts parse := by
  refine Reads.renumbers (Lockstep.Runs.bind .get fun c c' states => ?_)
  rw [states.1]
  refine Lockstep.Runs.weaken (Reads.itemsUntil _ (rules_parts _).declaration _) fun ss _ same => ?_
  exact (stmts_eq_map ss).trans same

theorem parseExpression_renumbers : Renumbers node (onNodes node).expr parseExpression := by
  refine Reads.renumbers (Lockstep.Runs.bind .get fun c c' states => ?_)
  rw [states.1]
  exact (rules_parts _).expression.bind fun _ => Reads.peek.next fun _ =>
    .ite (.pure rfl) (.fail ..)

/-- A parse that starts with another number ends with one that is as much greater. -/
theorem Renumbers.counts {f : NodeId → α → α}
    {parser : List Token → NodeId → Except ParseError α × Cursor}
    (renumbers : ∀ n, Renumbers (· + n) (f n) parser) (tokens : List Token) (n : NodeId) :
    n ≤ (parser tokens n).2.nextNode := by
  have fromZero : (onNodes (· + n)).Continues 0 n := fun k => by
    change 0 + k + n = n + k
    rw [Nat.zero_add, Nat.add_comm]
  have ended := (renumbers n).numbers tokens fromZero 0
  calc n ≤ (parser tokens 0).2.nextNode + n := Nat.le_add_left ..
    _ = (parser tokens n).2.nextNode := ended

theorem parse_counts (tokens : List Token) (n : NodeId) : n ≤ (parse tokens n).2.nextNode :=
  Renumbers.counts (fun _ => parse_renumbers) tokens n

theorem parseExpression_counts (tokens : List Token) (n : NodeId) :
    n ≤ (parseExpression tokens n).2.nextNode :=
  Renumbers.counts (fun _ => parseExpression_renumbers) tokens n

end Lox
