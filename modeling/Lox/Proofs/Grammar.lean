import Lox.Syntax.Parser

/-! The grammar of programs, independent of any parser. A derivation covers a word of tokens and
builds a tree; the references of the tree are numbered in the order in which they are read. -/

namespace Lox.Grammar

open Lox.Parser Lox.Parser.Rules

/-- A token of a given kind. -/
abbrev Terminal (kind : Kind) := { token : Token // token.kind = kind }

@[simp] theorem Terminal.kind_eq (token : Terminal kind) : token.1.kind = kind := token.2

/-- Levels of operators that associate to the left, from the loosest to the tightest. -/
inductive Level where
  | disjunction
  | conjunction
  | equality
  | comparison
  | term
  | factor

namespace Level

def operators : Level → List Kind
  | disjunction => [.kwOr]
  | conjunction => [.kwAnd]
  | equality => [.bangEqual, .equalEqual]
  | comparison => [.greater, .greaterEqual, .less, .lessEqual]
  | term => [.minus, .plus]
  | factor => [.star, .slash, .percent]

def node : Level → Expr → Token → Expr → Expr
  | disjunction | conjunction => .logical
  | equality | comparison | term | factor => .binary

/-- The next tighter level; the operands of the tightest one are unary expressions. -/
def next : Level → Option Level
  | disjunction => some conjunction
  | conjunction => some equality
  | equality => some comparison
  | comparison => some term
  | term => some factor
  | factor => none

end Level

/-- A statement is dangling if it ends in an `if` without an `else`. -/
inductive Nonterminal where
  | declarations
  | declaration
  | superclass
  | mixins
  | traitNames
  | members
  | member
  | traitMembers
  | traitMember
  | function
  | functionRest
  | block
  | varDecl
  | initializer
  | statement (dangling : Bool)
  | forStart
  | expressionStatement
  | maybeExpression
  | expression
  | ternary
  | level (level : Level)
  | operand (level : Level)
  | unary
  | call
  | maybeArguments
  | arguments
  | primary

/-- What a derivation builds. -/
@[reducible] def Nonterminal.Tree : Nonterminal → Type
  | declarations | block => List Stmt
  | declaration | varDecl | statement _ | expressionStatement => Stmt
  | forStart => Option Stmt
  | superclass => Option Reference
  | mixins | traitNames => List Reference
  | members => List Member
  | member => Member
  | traitMembers => List TraitMember
  | traitMember => TraitMember
  | function => FunctionDecl
  | functionRest => List Token × List Stmt
  | initializer | maybeExpression => Option Expr
  | expression | ternary | level _ | operand _ | unary | call | primary => Expr
  | maybeArguments | arguments => List Expr

/-- Names between commas. -/
inductive Names : List Token → List Token → Prop where
  | one (name : Terminal .identifier) : Names [name.1] [name.1]
  | more (name : Terminal .identifier) (comma : Terminal .comma) (rest : Names word names) :
      Names (name.1 :: comma.1 :: word) (name.1 :: names)

/-- A parameter list may be empty and has at most 255 names. -/
inductive Parameters : List Token → List Token → Prop where
  | none : Parameters [] []
  | some (names : Names word params) (few : params.length ≤ maxItems) : Parameters word params

/-- The keyword that asks a loop for something. -/
def keyword : Signal → Kind
  | .exitLoop => .kwBreak
  | .nextTurn => .kwContinue

/-- A `for` loop is a `while` loop, inside a block with its first clause if it has one. -/
def forLoop (start : Option Stmt) (condition : Option Expr) (increment : Option Expr)
    (body : Stmt) : Stmt :=
  let loop := Stmt.loop (condition.getD (.literal (.bool true))) body increment
  match start with
  | some first => .block [first, loop]
  | none => loop

/-- `Derives N n word tree n'` says that `word` is derived from `N`, and that `tree` is the tree
of the derivation if its references are numbered from `n` on, up to but not including `n'`. A
variable that turns out to be assigned to is numbered a second time, after the assigned value. -/
inductive Derives : (N : Nonterminal) → NodeId → List Token → N.Tree → NodeId → Prop where
  -- Declarations
  | nil : Derives .declarations n [] [] n
  | cons (first : Derives .declaration n w₁ s n₁) (rest : Derives .declarations n₁ w₂ ss n₂) :
      Derives .declarations n (w₁ ++ w₂) (s :: ss) n₂
  | classDecl (keyword : Terminal .kwClass) (name : Terminal .identifier)
      (parent : Derives .superclass n w₁ c n₁) (traits : Derives .mixins n₁ w₂ ts n₂)
      (left : Terminal .leftBrace) (body : Derives .members n₂ w₃ ms n₃)
      (right : Terminal .rightBrace) :
      Derives .declaration n (keyword.1 :: name.1 :: (w₁ ++ w₂ ++ left.1 :: w₃ ++ [right.1]))
        (.classDecl ⟨name.1, c, ts, ms.filterMap Member.method?, ms.filterMap Member.static?⟩) n₃
  | noSuperclass : Derives .superclass n [] none n
  | superclass (less : Terminal .less) (name : Terminal .identifier) :
      Derives .superclass n [less.1, name.1] (some ⟨n, name.1⟩) (n + 1)
  | noMixins : Derives .mixins n [] [] n
  | mixins (keyword : Terminal .kwWith) (names : Derives .traitNames n w ts n') :
      Derives .mixins n (keyword.1 :: w) ts n'
  | traitName (name : Terminal .identifier) :
      Derives .traitNames n [name.1] [⟨n, name.1⟩] (n + 1)
  | moreTraitNames (name : Terminal .identifier) (comma : Terminal .comma)
      (rest : Derives .traitNames (n + 1) w ts n') :
      Derives .traitNames n (name.1 :: comma.1 :: w) (⟨n, name.1⟩ :: ts) n'
  | noMembers : Derives .members n [] [] n
  | moreMembers (first : Derives .member n w₁ m n₁) (rest : Derives .members n₁ w₂ ms n₂) :
      Derives .members n (w₁ ++ w₂) (m :: ms) n₂
  | static (keyword : Terminal .kwClass) (method : Derives .function n w f n') :
      Derives .member n (keyword.1 :: w) (.static f) n'
  | getter (name : Terminal .identifier) (body : Derives .block n w ss n') :
      Derives .member n (name.1 :: w) (.method ⟨⟨some name.1, [], ss, name.1.line⟩, true⟩) n'
  | method (method : Derives .function n w f n') :
      Derives .member n w (.method ⟨f, false⟩) n'
  | traitDecl (keyword : Terminal .kwTrait) (name : Terminal .identifier)
      (left : Terminal .leftBrace) (body : Derives .traitMembers n w ms n')
      (right : Terminal .rightBrace) :
      Derives .declaration n (keyword.1 :: name.1 :: left.1 :: (w ++ [right.1]))
        (.traitDecl ⟨name.1, ms.filterMap TraitMember.asked?, ms.filterMap TraitMember.default?⟩) n'
  | noTraitMembers : Derives .traitMembers n [] [] n
  | moreTraitMembers (first : Derives .traitMember n w₁ m n₁)
      (rest : Derives .traitMembers n₁ w₂ ms n₂) :
      Derives .traitMembers n (w₁ ++ w₂) (m :: ms) n₂
  | asked (name : Terminal .identifier) (left : Terminal .leftParen) (names : Parameters w params)
      (right : Terminal .rightParen) (stop : Terminal .semicolon) :
      Derives .traitMember n (name.1 :: left.1 :: (w ++ [right.1, stop.1]))
        (.asked ⟨name.1, params.length⟩) n
  | default (method : Derives .function n w f n') : Derives .traitMember n w (.default f) n'
  | functionDecl (keyword : Terminal .kwFun) (method : Derives .function n w f n') :
      Derives .declaration n (keyword.1 :: w) (.functionDecl f) n'
  | function (name : Terminal .identifier) (rest : Derives .functionRest n w (params, body) n') :
      Derives .function n (name.1 :: w) ⟨some name.1, params, body, name.1.line⟩ n'
  | functionRest (left : Terminal .leftParen) (names : Parameters w₁ params)
      (right : Terminal .rightParen) (body : Derives .block n w₂ ss n') :
      Derives .functionRest n (left.1 :: (w₁ ++ right.1 :: w₂)) (params, ss) n'
  | block (left : Terminal .leftBrace) (body : Derives .declarations n w ss n')
      (right : Terminal .rightBrace) : Derives .block n (left.1 :: (w ++ [right.1])) ss n'
  | varDeclaration (declared : Derives .varDecl n w s n') : Derives .declaration n w s n'
  | varDecl (keyword : Terminal .kwVar) (name : Terminal .identifier)
      (value : Derives .initializer n w e n') (stop : Terminal .semicolon) :
      Derives .varDecl n (keyword.1 :: name.1 :: (w ++ [stop.1])) (.varDecl name.1 e) n'
  | noInitializer : Derives .initializer n [] none n
  | initializer (equal : Terminal .equal) (value : Derives .expression n w e n') :
      Derives .initializer n (equal.1 :: w) (some e) n'
  | statement (executed : Derives (.statement dangling) n w s n') : Derives .declaration n w s n'
  -- Statements
  | evaluate (value : Derives .expressionStatement n w s n') : Derives (.statement false) n w s n'
  | expressionStatement (value : Derives .expression n w e n') (stop : Terminal .semicolon) :
      Derives .expressionStatement n (w ++ [stop.1]) (.expression e) n'
  | forLoop (keyword : Terminal .kwFor) (left : Terminal .leftParen)
      (start : Derives .forStart n w₁ first n₁) (condition : Derives .maybeExpression n₁ w₂ c n₂)
      (stop : Terminal .semicolon) (increment : Derives .maybeExpression n₂ w₃ i n₃)
      (right : Terminal .rightParen) (body : Derives (.statement dangling) n₃ w₄ s n₄) :
      Derives (.statement dangling) n
        (keyword.1 :: left.1 :: (w₁ ++ w₂ ++ stop.1 :: w₃ ++ right.1 :: w₄))
        (forLoop first c i s) n₄
  | noStart (stop : Terminal .semicolon) : Derives .forStart n [stop.1] none n
  | startVar (declared : Derives .varDecl n w s n') : Derives .forStart n w (some s) n'
  | startExpression (value : Derives .expressionStatement n w s n') :
      Derives .forStart n w (some s) n'
  | ifThen (keyword : Terminal .kwIf) (left : Terminal .leftParen)
      (condition : Derives .expression n w₁ e n₁) (right : Terminal .rightParen)
      (branch : Derives (.statement dangling) n₁ w₂ s n₂) :
      Derives (.statement true) n (keyword.1 :: left.1 :: (w₁ ++ right.1 :: w₂))
        (.ifElse e s none) n₂
  | ifThenElse (keyword : Terminal .kwIf) (left : Terminal .leftParen)
      (condition : Derives .expression n w₁ e n₁) (right : Terminal .rightParen)
      (branch : Derives (.statement false) n₁ w₂ s n₂) (otherwise : Terminal .kwElse)
      (other : Derives (.statement dangling) n₂ w₃ s' n₃) :
      Derives (.statement dangling) n
        (keyword.1 :: left.1 :: (w₁ ++ right.1 :: w₂ ++ otherwise.1 :: w₃))
        (.ifElse e s (some s')) n₃
  | whileLoop (keyword : Terminal .kwWhile) (left : Terminal .leftParen)
      (condition : Derives .expression n w₁ e n₁) (right : Terminal .rightParen)
      (body : Derives (.statement dangling) n₁ w₂ s n₂) :
      Derives (.statement dangling) n (keyword.1 :: left.1 :: (w₁ ++ right.1 :: w₂))
        (.loop e s none) n₂
  | print (keyword : Terminal .kwPrint) (value : Derives .expression n w e n')
      (stop : Terminal .semicolon) :
      Derives (.statement false) n (keyword.1 :: (w ++ [stop.1])) (.print e) n'
  | returns (keyword : Terminal .kwReturn) (value : Derives .maybeExpression n w e n')
      (stop : Terminal .semicolon) :
      Derives (.statement false) n (keyword.1 :: (w ++ [stop.1])) (.returns keyword.1 e) n'
  | flow (signal : Signal) (word : Terminal (keyword signal)) (stop : Terminal .semicolon) :
      Derives (.statement false) n [word.1, stop.1] (.flow signal word.1.line) n
  | inner (body : Derives .block n w ss n') : Derives (.statement false) n w (.block ss) n'
  -- Expressions
  | noExpression : Derives .maybeExpression n [] none n
  | someExpression (value : Derives .expression n w e n') :
      Derives .maybeExpression n w (some e) n'
  | assign (name : Terminal .identifier) (equal : Terminal .equal)
      (value : Derives .expression (n + 1) w e n') :
      Derives .expression n (name.1 :: equal.1 :: w) (.assign ⟨n', name.1⟩ e) (n' + 1)
  | setProperty (object : Derives .call n w₁ o n₁) (dot : Terminal .dot)
      (name : Terminal .identifier) (equal : Terminal .equal)
      (value : Derives .expression n₁ w₂ e n₂) :
      Derives .expression n (w₁ ++ dot.1 :: name.1 :: equal.1 :: w₂) (.setProperty o name.1 e) n₂
  | unassigned (value : Derives .ternary n w e n') : Derives .expression n w e n'
  | ternary (condition : Derives (.level .disjunction) n w₁ c n₁) (question : Terminal .question)
      (thenValue : Derives .expression n₁ w₂ a n₂) (colon : Terminal .colon)
      (elseValue : Derives .ternary n₂ w₃ b n₃) :
      Derives .ternary n (w₁ ++ question.1 :: w₂ ++ colon.1 :: w₃) (.ternary c a b) n₃
  | unconditional (value : Derives (.level .disjunction) n w e n') : Derives .ternary n w e n'
  | operation (left : Derives (.level l) n w₁ a n₁) (operator : Token)
      (member : operator.kind ∈ l.operators) (right : Derives (.operand l) n₁ w₂ b n₂) :
      Derives (.level l) n (w₁ ++ operator :: w₂) (l.node a operator b) n₂
  | first (value : Derives (.operand l) n w e n') : Derives (.level l) n w e n'
  | tighter (next : l.next = some l') (value : Derives (.level l') n w e n') :
      Derives (.operand l) n w e n'
  | tightest (next : l.next = none) (value : Derives .unary n w e n') :
      Derives (.operand l) n w e n'
  | unary (operator : Token) (member : operator.kind ∈ [Kind.bang, Kind.minus])
      (right : Derives .unary n w e n') :
      Derives .unary n (operator :: w) (.unary operator e) n'
  | positive (value : Derives .call n w e n') : Derives .unary n w e n'
  | call (callee : Derives .call n w₁ f n₁) (left : Terminal .leftParen)
      (given : Derives .maybeArguments n₁ w₂ es n₂) (right : Terminal .rightParen) :
      Derives .call n (w₁ ++ left.1 :: w₂ ++ [right.1]) (.call f right.1 es) n₂
  | property (object : Derives .call n w o n') (dot : Terminal .dot)
      (name : Terminal .identifier) :
      Derives .call n (w ++ [dot.1, name.1]) (.property o name.1) n'
  | primary (value : Derives .primary n w e n') : Derives .call n w e n'
  | noArguments : Derives .maybeArguments n [] [] n
  | someArguments (given : Derives .arguments n w es n') (few : es.length ≤ maxItems) :
      Derives .maybeArguments n w es n'
  | argument (value : Derives .expression n w e n') : Derives .arguments n w [e] n'
  | moreArguments (value : Derives .expression n w₁ e n₁) (comma : Terminal .comma)
      (rest : Derives .arguments n₁ w₂ es n₂) :
      Derives .arguments n (w₁ ++ comma.1 :: w₂) (e :: es) n₂
  | no (token : Terminal .kwFalse) : Derives .primary n [token.1] (.literal (.bool false)) n
  | yes (token : Terminal .kwTrue) : Derives .primary n [token.1] (.literal (.bool true)) n
  | nothing (token : Terminal .kwNil) : Derives .primary n [token.1] (.literal .nil) n
  | number (token : Terminal (.number value)) :
      Derives .primary n [token.1] (.literal (.number value)) n
  | string (token : Terminal (.string contents)) :
      Derives .primary n [token.1] (.literal (.string contents)) n
  | name (token : Terminal .identifier) :
      Derives .primary n [token.1] (.varRef ⟨n, token.1⟩) (n + 1)
  | this (token : Terminal .kwThis) :
      Derives .primary n [token.1] (.thisRef ⟨n, token.1⟩) (n + 1)
  | super (token : Terminal .kwSuper) (dot : Terminal .dot) (method : Terminal .identifier) :
      Derives .primary n [token.1, dot.1, method.1] (.superRef ⟨n, token.1⟩ method.1) (n + 1)
  | lambda (token : Terminal .kwFun) (rest : Derives .functionRest n w (params, body) n') :
      Derives .primary n (token.1 :: w) (.lambda ⟨none, params, body, token.1.line⟩) n'
  | group (left : Terminal .leftParen) (value : Derives .expression n w e n')
      (right : Terminal .rightParen) :
      Derives .primary n (left.1 :: (w ++ [right.1])) (.group e) n'

end Lox.Grammar
