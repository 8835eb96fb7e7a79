import Lox.Proofs.Grammar
import Lox.Proofs.ParserSteps

/-! What a parser can tell about a derived word from its first tokens, and where a parser that
reads an expression stops. -/

namespace Lox.Grammar

open Lox.Parser

def opensPrimary : Kind → Bool
  | .kwFalse | .kwTrue | .kwNil | .number _ | .string _ | .identifier | .kwThis | .kwSuper
  | .kwFun | .leftParen => true
  | _ => false

def opensExpression (kind : Kind) : Bool :=
  opensPrimary kind || kind ∈ [Kind.bang, .minus]

def opensStatement (kind : Kind) : Bool :=
  opensExpression kind || kind ∈ [Kind.kwFor, .kwIf, .kwWhile, .kwReturn, .kwBreak, .kwContinue,
    .leftBrace, .kwPrint]

def opensDeclaration (kind : Kind) : Bool :=
  opensStatement kind || kind ∈ [Kind.kwClass, .kwTrait, .kwVar]

/-- The kinds that a word derived from a nonterminal may begin with. -/
def Nonterminal.opens : Nonterminal → Kind → Bool
  | declarations | declaration => opensDeclaration
  | superclass => (· ∈ [Kind.less])
  | mixins => (· ∈ [Kind.kwWith])
  | members | member => (· ∈ [Kind.kwClass, .identifier])
  | traitNames | traitMembers | traitMember | function => (· ∈ [Kind.identifier])
  | functionRest => (· ∈ [Kind.leftParen])
  | block => (· ∈ [Kind.leftBrace])
  | varDecl => (· ∈ [Kind.kwVar])
  | initializer => (· ∈ [Kind.equal])
  | statement _ => opensStatement
  | forStart => fun kind => opensExpression kind || kind ∈ [Kind.semicolon, .kwVar]
  | expressionStatement | maybeExpression | expression | ternary | level _ | operand _ | unary
  | maybeArguments | arguments => opensExpression
  | call | primary => opensPrimary

/-- Whether the empty word is derived. -/
def Nonterminal.nullable : Nonterminal → Bool
  | declarations | superclass | mixins | members | traitMembers | initializer | maybeExpression
  | maybeArguments => true
  | _ => false

def Begins (N : Nonterminal) : List Token → Prop
  | [] => N.nullable
  | first :: _ => N.opens first.kind

theorem Begins.append (h : Begins N w) (full : N.nullable = false)
    (wider : ∀ kind, N.opens kind → M.opens kind) : Begins M (w ++ w') := by
  cases w with
  | nil => simp [Begins, full] at h
  | cons first rest => exact wider _ h

theorem Begins.widen (h : Begins N w) (full : N.nullable = false)
    (wider : ∀ kind, N.opens kind → M.opens kind) : Begins M w := by
  rw [← List.append_nil w]
  exact h.append full wider

theorem Begins.nonempty (h : Begins N w) (full : N.nullable = false) : 0 < w.length := by
  cases w with
  | nil => simp [Begins, full] at h
  | cons first rest => simp

theorem begins_terminal (first : Terminal kind) (h : N.opens kind) : Begins N (first.1 :: w) := by
  rw [← first.2] at h
  exact h

theorem primary_opens_expression (kind : Kind) (h : opensPrimary kind) : opensExpression kind := by
  simp [opensExpression, h]

theorem expression_opens_statement (kind : Kind) (h : opensExpression kind) :
    opensStatement kind := by
  simp [opensStatement, h]

theorem statement_opens_declaration (kind : Kind) (h : opensStatement kind) :
    opensDeclaration kind := by
  simp [opensDeclaration, h]

theorem Derives.begins (d : Derives N n w tree n') : Begins N w := by
  induction d with
  | nil | noSuperclass | noMixins | noMembers | noTraitMembers | noInitializer | noExpression
  | noArguments => rfl
  | classDecl keyword | mixins keyword | static keyword | traitDecl keyword | functionDecl keyword
  | varDecl keyword | forLoop keyword | ifThen keyword | ifThenElse keyword | whileLoop keyword
  | print keyword | returns keyword => exact begins_terminal keyword rfl
  | superclass first | traitName first | moreTraitNames first | getter first | asked first
  | function first | functionRest first | block first | initializer first | noStart first
  | assign first | no first | yes first | nothing first | number first | string first | name first
  | this first | super first | lambda first | group first => exact begins_terminal first rfl
  | flow signal word => cases signal <;> exact begins_terminal word rfl
  | unary operator member =>
    simp only [Begins, Nonterminal.opens, opensExpression, member, decide_true, Bool.or_true]
  -- The other words begin with the word of their first part.
  | cons _ _ ih | moreMembers _ _ ih | moreTraitMembers _ _ ih | expressionStatement _ _ ih
  | operation _ _ _ _ ih | property _ _ _ ih | moreArguments _ _ _ ih =>
    exact ih.append rfl fun _ h => h
  | call _ _ _ _ ih | ternary _ _ _ _ _ ih =>
    rw [List.append_assoc]
    exact ih.append rfl fun _ h => h
  | setProperty _ _ _ _ _ ih => exact ih.append rfl primary_opens_expression
  | method _ ih => exact ih.widen rfl (by simp [Nonterminal.opens])
  | default _ ih | argument _ ih | someArguments _ _ ih | primary _ ih | unassigned _ ih
  | unconditional _ ih | first _ ih | tighter _ _ ih | tightest _ _ ih | someExpression _ ih =>
    exact ih.widen rfl fun _ h => h
  | positive _ ih => exact ih.widen rfl primary_opens_expression
  | evaluate _ ih => exact ih.widen rfl expression_opens_statement
  | inner _ ih => exact ih.widen rfl (by simp [Nonterminal.opens, opensStatement])
  | startVar _ ih => exact ih.widen rfl (by simp [Nonterminal.opens])
  | startExpression _ ih => exact ih.widen rfl (by simp +contextual [Nonterminal.opens])
  | varDeclaration _ ih => exact ih.widen rfl (by simp [Nonterminal.opens, opensDeclaration])
  | statement _ ih => exact ih.widen rfl statement_opens_declaration

/-- No token of the word is the end of the input. -/
def NoEnd (w : List Token) : Prop := ∀ token ∈ w, token.kind ≠ .eof

@[simp] theorem noEnd_nil : NoEnd [] := by simp [NoEnd]

@[simp] theorem noEnd_cons : NoEnd (token :: w) ↔ token.kind ≠ .eof ∧ NoEnd w := by simp [NoEnd]

@[simp] theorem noEnd_append : NoEnd (w ++ w') ↔ NoEnd w ∧ NoEnd w' := by
  simp only [NoEnd, List.forall_mem_append]

theorem Names.noEnd (h : Names w names) : NoEnd w := by
  induction h with
  | one name => simp
  | more name comma rest ih => simpa using ih

theorem Parameters.noEnd (h : Parameters w names) : NoEnd w := by
  cases h with
  | none => simp
  | some names => exact names.noEnd

theorem Derives.noEnd (d : Derives N n w tree n') : NoEnd w := by
  induction d with
  | flow signal => cases signal <;> simp [keyword]
  | @operation l _ _ _ _ _ _ _ _ operator member _ ih₁ ih₂ =>
    have notEnd : operator.kind ≠ .eof := by
      intro h
      cases l <;> simp [h, Level.operators] at member
    simp [notEnd, ih₁, ih₂]
  | unary operator member _ ih =>
    have notEnd : operator.kind ≠ .eof := by
      intro h
      simp [h] at member
    simp [notEnd, ih]
  | asked _ _ names => simp [names.noEnd]
  | functionRest _ names _ _ ih => simp [names.noEnd, ih]
  | _ => simp_all

/-- A word that begins with `fun` goes on with a parenthesis. -/
def LambdaFirst : List Token → Prop
  | keyword :: next :: _ => keyword.kind = .kwFun → next.kind = .leftParen
  | [token] => token.kind ≠ .kwFun
  | [] => False

theorem LambdaFirst.append (h : LambdaFirst w) : LambdaFirst (w ++ w') := by
  match w, w' with
  | [_], [] => exact h
  | [_], _ :: _ => exact fun isFun => absurd isFun h
  | _ :: _ :: _, _ => exact h

theorem LambdaFirst.not_named (h : LambdaFirst w) : ¬ NamesFunction ⟨w ++ rest, n⟩ := by
  rintro ⟨keyword, name, tail, same, isFun, isName⟩
  match w with
  | [_] =>
    obtain ⟨rfl, -⟩ := List.cons.inj same
    exact h isFun
  | _ :: _ :: _ =>
    obtain ⟨rfl, tails⟩ := List.cons.inj same
    obtain ⟨rfl, -⟩ := List.cons.inj tails
    simp [h isFun] at isName

theorem lambdaFirst_cons {first : Token} (h : first.kind ≠ .kwFun) : LambdaFirst (first :: w) := by
  cases w with
  | nil => exact h
  | cons => exact fun isFun => absurd isFun h

/-- What a statement may begin with. -/
def Nonterminal.executed : Nonterminal → Bool
  | statement _ | expressionStatement | expression | ternary | level _ | operand _ | unary | call
  | primary => true
  | _ => false

theorem Derives.lambdaFirst (d : Derives N n w tree n') (executed : N.executed) :
    LambdaFirst w := by
  induction d with
  | lambda _ rest =>
    cases rest with
    | functionRest left => exact fun _ => left.2
  | forLoop first | ifThen first | ifThenElse first | whileLoop first | print first
  | returns first | assign first | no first | yes first | nothing first | number first
  | string first | name first | this first | super first | group first =>
    exact lambdaFirst_cons (by simp)
  | flow signal first => exact lambdaFirst_cons (by cases signal <;> simp [keyword])
  | unary operator member =>
    refine lambdaFirst_cons ?_
    intro isFun
    simp [isFun] at member
  | inner body =>
    cases body with
    | block first => exact lambdaFirst_cons (by simp)
  | call _ _ _ _ ih | ternary _ _ _ _ _ ih =>
    rw [List.append_assoc]
    exact (ih rfl).append
  | expressionStatement _ _ ih | setProperty _ _ _ _ _ ih | operation _ _ _ _ ih
  | property _ _ _ ih => exact (ih rfl).append
  | evaluate _ ih | unassigned _ ih | unconditional _ ih | first _ ih | tighter _ _ ih
  | tightest _ _ ih | positive _ ih | primary _ ih => exact ih rfl
  | _ => cases executed

/-- How many parts a list has. -/
def Nonterminal.parts : (N : Nonterminal) → N.Tree → Nat
  | declarations, ss => ss.length
  | members, ms => ms.length
  | traitMembers, ms => ms.length
  | traitNames, ts => ts.length
  | arguments, es => es.length
  | _, _ => 0

theorem Derives.parts_le (d : Derives N n w tree n') : N.parts tree ≤ w.length := by
  induction d with
  | cons first _ _ ih | moreMembers first _ _ ih | moreTraitMembers first _ _ ih
  | moreArguments first _ _ _ ih =>
    have := first.begins.nonempty rfl
    simp only [Nonterminal.parts, List.length_cons, List.length_append] at ih ⊢
    omega
  | argument value => exact value.begins.nonempty rfl
  | moreTraitNames _ _ _ ih =>
    simp only [Nonterminal.parts, List.length_cons] at ih ⊢
    omega
  | _ => simp [Nonterminal.parts]

theorem Names.length_le (h : Names w names) : names.length ≤ w.length := by
  induction h with
  | one => simp
  | more _ _ _ ih =>
    simp only [List.length_cons]
    omega

/-- How loosely a token holds on to an expression before it. A token that continues no expression
is the loosest. -/
def looseness : Kind → Nat
  | .leftParen | .dot => 0
  | .star | .slash | .percent => 1
  | .minus | .plus => 2
  | .greater | .greaterEqual | .less | .lessEqual => 3
  | .bangEqual | .equalEqual => 4
  | .kwAnd => 5
  | .kwOr => 6
  | .question => 7
  | .equal => 8
  | _ => 9

namespace Level

def looseness : Level → Nat
  | factor => 1
  | term => 2
  | comparison => 3
  | equality => 4
  | conjunction => 5
  | disjunction => 6

theorem looseness_of_mem {l : Level} (member : kind ∈ l.operators) :
    Grammar.looseness kind = l.looseness := by
  cases l <;> simp only [operators, List.mem_cons, List.not_mem_nil, or_false] at member <;>
    rcases member with rfl | rfl | rfl | rfl <;> rfl

theorem looseness_of_next {l l' : Level} (next : l.next = some l') :
    l.looseness = l'.looseness + 1 := by
  cases l <;> cases next <;> rfl

end Level

end Lox.Grammar
