import Lox.Proofs.Grammar
import Lox.Proofs.ParserSteps

/-! Whatever the parser accepts is derived by the grammar, and its result is the tree of the
derivation. Each rule is sound if the rules behind its first token are. -/

namespace Lox.Grammar

open Lox.Parser

/-- A result is the tree of a derivation of the tokens that were taken for it. -/
def Sound (N : Nonterminal) (p : Parser N.Tree) : Prop :=
  ∀ ⦃c tree c'⦄, p c = .ok tree c' →
    ∃ word n, c = ⟨word ++ c'.rest, n⟩ ∧ Derives N n word tree c'.nextNode

/-- The same of a rule that is entered after its first token. -/
def SoundAfter (kind : Kind) (N : Nonterminal) (p : Parser N.Tree) : Prop :=
  ∀ ⦃c tree c'⦄, p c = .ok tree c' →
    ∃ word n, c = ⟨word ++ c'.rest, n⟩ ∧
      ∀ first : Terminal kind, Derives N n (first.1 :: word) tree c'.nextNode

/-- A statement that could go on with an `else` is not followed by one. -/
def SoundStatement (p : Parser Stmt) : Prop :=
  ∀ ⦃c tree c'⦄, p c = .ok tree c' →
    ∃ word n dangling, c = ⟨word ++ c'.rest, n⟩ ∧
      Derives (.statement dangling) n word tree c'.nextNode ∧
      (dangling = true → Cursor.kind c' ≠ .kwElse)

def SoundStatementAfter (kind : Kind) (p : Parser Stmt) : Prop :=
  ∀ ⦃c tree c'⦄, p c = .ok tree c' →
    ∃ word n dangling, c = ⟨word ++ c'.rest, n⟩ ∧
      (∀ first : Terminal kind,
        Derives (.statement dangling) n (first.1 :: word) tree c'.nextNode) ∧
      (dangling = true → Cursor.kind c' ≠ .kwElse)

structure SoundRules (rules : Rules) : Prop where
  expression : Sound .expression rules.expression
  ternary : Sound .ternary rules.ternary
  unary : Sound .unary rules.unary
  statement : SoundStatement rules.statement
  declaration : Sound .declaration rules.declaration

/-- Items one after the other cover the words of the items one after the other. -/
theorem repeated_derives {Item : NodeId → List Token → α → NodeId → Prop}
    {Items : NodeId → List Token → List α → NodeId → Prop} {item : Parser α}
    (nil : ∀ n, Items n [] [] n)
    (cons : ∀ {n w₁ x n₁ w₂ xs n₂}, Item n w₁ x n₁ → Items n₁ w₂ xs n₂ →
      Items n (w₁ ++ w₂) (x :: xs) n₂)
    (sound : ∀ ⦃c x c'⦄, item c = .ok x c' →
      ∃ word n, c = ⟨word ++ c'.rest, n⟩ ∧ Item n word x c'.nextNode)
    (h : Repeated stops item c xs c') :
    ∃ word n, c = ⟨word ++ c'.rest, n⟩ ∧ Items n word xs c'.nextNode := by
  induction h with
  | nil => exact ⟨[], _, rfl, nil _⟩
  | cons more first others ih =>
    obtain ⟨w₁, n, rfl, d₁⟩ := sound first
    obtain ⟨w₂, n₁, rfl, d₂⟩ := ih
    exact ⟨w₁ ++ w₂, n, by rw [List.append_assoc], cons d₁ d₂⟩

theorem listed_names (h : Listed (expectName role) c ns c') :
    ∃ word, c = ⟨word ++ c'.rest, c'.nextNode⟩ ∧ Names word ns := by
  induction h with
  | one first last =>
    obtain ⟨isName, rfl⟩ := expectName_ok_iff.mp first
    exact ⟨[_], rfl, .one ⟨_, isName⟩⟩
  | more first separator others ih =>
    obtain ⟨isName, rfl⟩ := expectName_ok_iff.mp first
    obtain ⟨word, same, names⟩ := ih
    cases same
    exact ⟨_ :: _ :: word, rfl, .more ⟨_, isName⟩ ⟨_, separator⟩ names⟩

theorem listed_arguments {item : Parser Expr} (sound : Sound .expression item)
    (h : Listed item c es c') :
    ∃ word n, c = ⟨word ++ c'.rest, n⟩ ∧ Derives .arguments n word es c'.nextNode := by
  induction h with
  | one first last =>
    obtain ⟨w, n, rfl, d⟩ := sound first
    exact ⟨w, n, rfl, .argument d⟩
  | more first separator others ih =>
    obtain ⟨w₁, n, rfl, d₁⟩ := sound first
    obtain ⟨w₂, n₁, same, d₂⟩ := ih
    cases same
    exact ⟨_, n, by simp, .moreArguments d₁ ⟨_, separator⟩ d₂⟩

theorem traitName_ok (h : Rules.traitName c = .ok t c') :
    ∃ name : Terminal .identifier, ∃ n, c = ⟨name.1 :: c'.rest, n⟩ ∧ t = ⟨n, name.1⟩ ∧
      c'.nextNode = n + 1 := by
  simp only [Rules.traitName, bind_ok_iff, refer_eq] at h
  obtain ⟨name, c₁, taken, same⟩ := h
  obtain ⟨isName, rfl⟩ := expectName_ok_iff.mp taken
  cases same
  exact ⟨⟨name, isName⟩, _, rfl, rfl, rfl⟩

theorem listed_traitNames (h : Listed Rules.traitName c ts c') :
    ∃ word n, c = ⟨word ++ c'.rest, n⟩ ∧ Derives .traitNames n word ts c'.nextNode := by
  induction h with
  | one first last =>
    obtain ⟨name, n, rfl, rfl, next⟩ := traitName_ok first
    exact ⟨[name.1], n, rfl, by rw [next]; exact .traitName name⟩
  | more first separator others ih =>
    obtain ⟨name, n, rfl, rfl, next⟩ := traitName_ok first
    obtain ⟨w, n₁, same, d⟩ := ih
    cases same
    subst next
    exact ⟨name.1 :: _ :: w, n, rfl, .moreTraitNames name ⟨_, separator⟩ d⟩

/-- A rule that has looked at a token and then moves past it. -/
theorem advance_bind_ok {p : Parser α} {kind : Kind} (same : Cursor.kind c = kind)
    (notEnd : kind ≠ .eof) (h : (advance >>= fun _ => p) c = .ok a c') :
    ∃ token : Terminal kind, ∃ rest n, c = ⟨token.1 :: rest, n⟩ ∧
      c.rest.headD (.eof 0) = token.1 ∧ p ⟨rest, n⟩ = .ok a c' := by
  obtain ⟨t, rest, ht, shape, first⟩ := rest_of_kind same notEnd
  obtain ⟨_, n⟩ := c
  simp only at shape
  subst shape
  rw [bind_of_ok (advance_cons (ht ▸ notEnd))] at h
  exact ⟨⟨t, ht⟩, rest, n, rfl, rfl, h⟩

theorem parameters_ok (h : parameters limit c = .ok params c') :
    ∃ word, ∃ right : Terminal .rightParen,
      c = ⟨word ++ right.1 :: c'.rest, c'.nextNode⟩ ∧ Parameters word params := by
  simp only [parameters, bind_ok_iff, pure_ok_iff] at h
  obtain ⟨names, c₁, read, right, _, closed, rfl, rfl⟩ := h
  obtain ⟨isRight, rfl⟩ := (expect_ok_iff (by decide)).mp closed
  obtain ⟨-, rfl, rfl⟩ | ⟨-, listed, few, -⟩ := listed_ok_iff.mp read
  · exact ⟨[], ⟨right, isRight⟩, rfl, .none⟩
  · obtain ⟨word, rfl, names⟩ := listed_names listed
    exact ⟨word, ⟨right, isRight⟩, rfl, .some names few⟩

section

variable {rules : Rules} (sound : SoundRules rules)
include sound

theorem block_sound : SoundAfter .leftBrace .block rules.block := by
  intro c tree c' h
  simp only [Rules.block, bind_ok_iff, pure_ok_iff] at h
  obtain ⟨body, c₁, read, right, _, closed, rfl, rfl⟩ := h
  obtain ⟨isRight, rfl⟩ := (expect_ok_iff (by decide)).mp closed
  obtain ⟨w, n, rfl, d⟩ := repeated_derives (fun _ => Derives.nil) Derives.cons sound.declaration
    (itemsUntil_ok_iff.mp read).1
  exact ⟨w ++ [right], n, by simp, fun left => .block left d ⟨right, isRight⟩⟩

theorem functionRest_sound {name : Option Token} {line : Nat} {role : String}
    (h : rules.functionRest name line role c = .ok f c') :
    ∃ word n params body, c = ⟨word ++ c'.rest, n⟩ ∧ f = ⟨name, params, body, line⟩ ∧
      Derives .functionRest n word (params, body) c'.nextNode := by
  simp only [Rules.functionRest, bind_ok_iff, pure_ok_iff] at h
  obtain ⟨left, c₁, opened, params, c₂, named, brace, c₃, entered, body, _, read, rfl, rfl⟩ := h
  obtain ⟨isLeft, rfl⟩ := (expect_ok_iff (by decide)).mp opened
  obtain ⟨isBrace, rfl⟩ := (expect_ok_iff (by decide)).mp entered
  obtain ⟨w₁, right, rfl, names⟩ := parameters_ok named
  obtain ⟨w₂, n, rfl, d⟩ := block_sound sound read
  exact ⟨left :: (w₁ ++ right.1 :: brace :: w₂), n, params, body, by simp, rfl,
    .functionRest ⟨left, isLeft⟩ names right (d ⟨brace, isBrace⟩)⟩

theorem function_sound {role : String} : Sound .function (rules.function role) := by
  intro c tree c' h
  simp only [Rules.function, bind_ok_iff] at h
  obtain ⟨name, c₁, named, rest⟩ := h
  obtain ⟨isName, rfl⟩ := expectName_ok_iff.mp named
  obtain ⟨w, n, params, body, rfl, rfl, d⟩ := functionRest_sound sound rest
  exact ⟨name :: w, n, rfl, .function ⟨name, isName⟩ d⟩

theorem arguments_sound : Sound .maybeArguments rules.arguments := by
  intro c tree c' h
  obtain ⟨-, rfl, rfl⟩ | ⟨-, listed, few, -⟩ := listed_ok_iff.mp h
  · exact ⟨[], _, rfl, .noArguments⟩
  · obtain ⟨w, n, rfl, d⟩ := listed_arguments sound.expression listed
    exact ⟨w, n, rfl, .someArguments d few⟩

theorem primary_sound : Sound .primary rules.primary := by
  intro c tree c' h
  simp only [Rules.primary, peek_bind] at h
  generalize same : (c.rest.headD (.eof 0)).kind = kind at h
  cases kind with
  | kwFalse =>
    obtain ⟨token, rest, n, rfl, -, h⟩ := advance_bind_ok same (by decide) h
    obtain ⟨rfl, rfl⟩ := pure_ok_iff.mp h
    exact ⟨[token.1], n, rfl, .no token⟩
  | kwTrue =>
    obtain ⟨token, rest, n, rfl, -, h⟩ := advance_bind_ok same (by decide) h
    obtain ⟨rfl, rfl⟩ := pure_ok_iff.mp h
    exact ⟨[token.1], n, rfl, .yes token⟩
  | kwNil =>
    obtain ⟨token, rest, n, rfl, -, h⟩ := advance_bind_ok same (by decide) h
    obtain ⟨rfl, rfl⟩ := pure_ok_iff.mp h
    exact ⟨[token.1], n, rfl, .nothing token⟩
  | number value =>
    obtain ⟨token, rest, n, rfl, -, h⟩ := advance_bind_ok same (by simp) h
    obtain ⟨rfl, rfl⟩ := pure_ok_iff.mp h
    exact ⟨[token.1], n, rfl, .number token⟩
  | string contents =>
    obtain ⟨token, rest, n, rfl, -, h⟩ := advance_bind_ok same (by simp) h
    obtain ⟨rfl, rfl⟩ := pure_ok_iff.mp h
    exact ⟨[token.1], n, rfl, .string token⟩
  | identifier =>
    obtain ⟨token, rest, n, rfl, first, h⟩ := advance_bind_ok same (by decide) h
    cases h
    exact ⟨[token.1], n, rfl, .name token⟩
  | kwThis =>
    obtain ⟨token, rest, n, rfl, first, h⟩ := advance_bind_ok same (by decide) h
    cases h
    exact ⟨[token.1], n, rfl, .this token⟩
  | kwSuper =>
    obtain ⟨token, rest, n, rfl, first, h⟩ := advance_bind_ok same (by decide) h
    simp only [bind_ok_iff, refer_eq] at h
    obtain ⟨dot, c₁, dotted, method, c₂, named, _, _, referred, h⟩ := h
    obtain ⟨isDot, same⟩ := (expect_ok_iff (by decide)).mp dotted
    obtain ⟨isName, rfl⟩ := expectName_ok_iff.mp named
    cases same
    cases referred
    cases h
    exact ⟨[token.1, dot, method], _, rfl, .super token ⟨dot, isDot⟩ ⟨method, isName⟩⟩
  | kwFun =>
    obtain ⟨token, rest, n, rfl, first, h⟩ := advance_bind_ok same (by decide) h
    simp only [bind_ok_iff, pure_ok_iff] at h
    obtain ⟨f, _, read, rfl, rfl⟩ := h
    obtain ⟨w, n, params, body, same, rfl, d⟩ := functionRest_sound sound read
    cases same
    exact ⟨token.1 :: w, n, rfl, .lambda token d⟩
  | leftParen =>
    obtain ⟨token, rest, n, rfl, first, h⟩ := advance_bind_ok same (by decide) h
    simp only [bind_ok_iff, pure_ok_iff] at h
    obtain ⟨e, c₁, read, right, _, closed, rfl, rfl⟩ := h
    obtain ⟨isRight, rfl⟩ := (expect_ok_iff (by decide)).mp closed
    obtain ⟨w, n, same, d⟩ := sound.expression read
    cases same
    exact ⟨token.1 :: (w ++ [right]), n, by simp, .group token d ⟨right, isRight⟩⟩
  | _ => exact absurd h fail_not_ok

/-- Suffixes extend a call that has been read already. -/
theorem suffixes_sound (h : rules.suffixes limit object c = .ok tree c')
    (read : Derives .call n w object c.nextNode) :
    ∃ word, c.rest = word ++ c'.rest ∧ Derives .call n (w ++ word) tree c'.nextNode := by
  induction limit generalizing object c w with
  | zero => exact absurd h failHere_not_ok
  | succ limit ih =>
    simp only [Rules.suffixes, bind_ok_iff] at h
    obtain ⟨opened, c₁, left, h⟩ := h
    cases opened with
    | true =>
      obtain ⟨paren, isLeft, rfl⟩ := (accept_true_iff (by decide)).mp left
      simp only [if_true, bind_ok_iff] at h
      obtain ⟨args, c₂, given, right, c₃, closed, h⟩ := h
      obtain ⟨isRight, rfl⟩ := (expect_ok_iff (by decide)).mp closed
      obtain ⟨w₁, n₁, rfl, d₁⟩ := arguments_sound sound given
      obtain ⟨w₂, rest, d₂⟩ := ih h (.call read ⟨paren, isLeft⟩ d₁ ⟨right, isRight⟩)
      exact ⟨paren :: w₁ ++ right :: w₂, by simp [rest], by simpa using d₂⟩
    | false =>
      obtain ⟨-, rfl⟩ := (accept_false_iff (by decide)).mp left
      simp only [Bool.false_eq_true, if_false, bind_ok_iff] at h
      obtain ⟨dotted, c₁, point, h⟩ := h
      cases dotted with
      | true =>
        obtain ⟨dot, isDot, rfl⟩ := (accept_true_iff (by decide)).mp point
        simp only [if_true, bind_ok_iff] at h
        obtain ⟨name, c₂, named, h⟩ := h
        obtain ⟨isName, rfl⟩ := (expect_ok_iff (by decide)).mp named
        obtain ⟨w₂, rest, d₂⟩ := ih h (.property read ⟨dot, isDot⟩ ⟨name, isName⟩)
        exact ⟨dot :: name :: w₂, by simp [rest], by simpa using d₂⟩
      | false =>
        obtain ⟨-, rfl⟩ := (accept_false_iff (by decide)).mp point
        obtain ⟨rfl, rfl⟩ := pure_ok_iff.mp h
        exact ⟨[], rfl, by simpa using read⟩

theorem call_sound : Sound .call rules.call := by
  intro c tree c' h
  simp only [Rules.call, bind_ok_iff] at h
  obtain ⟨first, c₁, read, h⟩ := h
  obtain ⟨w₁, n, rfl, d⟩ := primary_sound sound read
  obtain ⟨w₂, rest, d₂⟩ := suffixes_sound sound h (.primary d)
  exact ⟨w₁ ++ w₂, n, by simp [rest], d₂⟩

theorem unary_sound : Sound .unary rules.unaryRule := by
  intro c tree c' h
  simp only [Rules.unaryRule, bind_ok_iff] at h
  obtain ⟨operator, c₁, taken, h⟩ := h
  cases operator with
  | some operator =>
    obtain ⟨member, rfl⟩ := (accept?_some_iff (by decide)).mp taken
    simp only [bind_ok_iff, pure_ok_iff] at h
    obtain ⟨e, _, read, rfl, rfl⟩ := h
    obtain ⟨w, n, rfl, d⟩ := sound.unary read
    exact ⟨operator :: w, n, rfl, .unary operator member d⟩
  | none =>
    obtain ⟨-, rfl⟩ := (accept?_none_iff (by decide)).mp taken
    obtain ⟨w, n, rfl, d⟩ := call_sound sound h
    exact ⟨w, n, rfl, .positive d⟩

omit sound in
/-- Operators extend an expression of their level that has been read already. -/
theorem chain_sound {l : Level} {operand : Parser Expr} (operands : Sound (.operand l) operand)
    (h : chain l.operators l.node operand limit left c = .ok tree c')
    (read : Derives (.level l) n w left c.nextNode) :
    ∃ word, c.rest = word ++ c'.rest ∧ Derives (.level l) n (w ++ word) tree c'.nextNode := by
  have notEnd : Kind.eof ∉ l.operators := by cases l <;> decide
  induction limit generalizing left c w with
  | zero => exact absurd h failHere_not_ok
  | succ limit ih =>
    simp only [chain, bind_ok_iff] at h
    obtain ⟨operator, c₁, taken, h⟩ := h
    cases operator with
    | none =>
      obtain ⟨-, rfl⟩ := (accept?_none_iff notEnd).mp taken
      obtain ⟨rfl, rfl⟩ := pure_ok_iff.mp h
      exact ⟨[], rfl, by simpa using read⟩
    | some operator =>
      obtain ⟨member, rfl⟩ := (accept?_some_iff notEnd).mp taken
      simp only [bind_ok_iff] at h
      obtain ⟨right, c₂, operand, h⟩ := h
      obtain ⟨w₁, n₁, rfl, d₁⟩ := operands operand
      obtain ⟨w₂, rest, d₂⟩ := ih h (.operation read operator member d₁)
      exact ⟨operator :: w₁ ++ w₂, by simp [rest], by simpa using d₂⟩

omit sound in
theorem level_sound {l : Level} {operand : Parser Expr} (operands : Sound (.operand l) operand) :
    Sound (.level l) (level limit l.operators l.node operand) := by
  intro c tree c' h
  simp only [level, bind_ok_iff] at h
  obtain ⟨first, c₁, read, h⟩ := h
  obtain ⟨w₁, n, rfl, d₁⟩ := operands read
  obtain ⟨w₂, rest, d₂⟩ := chain_sound operands h (.first d₁)
  exact ⟨w₁ ++ w₂, n, by simp [rest], d₂⟩

omit sound in
theorem operand_sound {l l' : Level} (next : l.next = some l') {p : Parser Expr}
    (tighter : Sound (.level l') p) : Sound (.operand l) p := by
  intro c tree c' h
  obtain ⟨w, n, rfl, d⟩ := tighter h
  exact ⟨w, n, rfl, .tighter next d⟩

theorem disjunction_sound : Sound (.level .disjunction) rules.disjunction := by
  have factor : Sound (.level .factor) rules.factor := by
    refine level_sound (l := .factor) ?_
    intro c tree c' h
    obtain ⟨w, n, rfl, d⟩ := unary_sound sound h
    exact ⟨w, n, rfl, .tightest rfl d⟩
  have term : Sound (.level .term) rules.term :=
    level_sound (l := .term) (operand_sound rfl factor)
  have comparison : Sound (.level .comparison) rules.comparison :=
    level_sound (l := .comparison) (operand_sound rfl term)
  have equality : Sound (.level .equality) rules.equality :=
    level_sound (l := .equality) (operand_sound rfl comparison)
  have conjunction : Sound (.level .conjunction) rules.conjunction :=
    level_sound (l := .conjunction) (operand_sound rfl equality)
  exact level_sound (l := .disjunction) (operand_sound rfl conjunction)

theorem ternary_sound : Sound .ternary rules.ternaryRule := by
  intro c tree c' h
  simp only [Rules.ternaryRule, bind_ok_iff] at h
  obtain ⟨condition, c₁, read, asked, c₂, taken, h⟩ := h
  obtain ⟨w₁, n, rfl, d₁⟩ := disjunction_sound sound read
  cases asked with
  | true =>
    obtain ⟨question, isQuestion, rfl⟩ := (accept_true_iff (by decide)).mp taken
    simp only [if_true, bind_ok_iff, pure_ok_iff] at h
    obtain ⟨a, c₃, first, colon, c₄, between, b, _, second, rfl, rfl⟩ := h
    obtain ⟨isColon, rfl⟩ := (expect_ok_iff (by decide)).mp between
    obtain ⟨w₂, n₂, rfl, d₂⟩ := sound.expression first
    obtain ⟨w₃, n₃, rfl, d₃⟩ := sound.ternary second
    exact ⟨w₁ ++ question :: w₂ ++ colon :: w₃, n, by simp,
      .ternary d₁ ⟨question, isQuestion⟩ d₂ ⟨colon, isColon⟩ d₃⟩
  | false =>
    obtain ⟨-, rfl⟩ := (accept_false_iff (by decide)).mp taken
    obtain ⟨rfl, rfl⟩ := pure_ok_iff.mp h
    exact ⟨w₁, n, rfl, .unconditional d₁⟩

/-- What may stand before an equals sign. -/
def IsTarget (e : Expr) : Prop := (∃ r, e = .varRef r) ∨ ∃ object name, e = .property object name

/-- An operator never builds a target, so a target without operators is a call. -/
def TargetsAreCalls : (N : Nonterminal) → NodeId → List Token → N.Tree → NodeId → Prop
  | .ternary, n, w, e, n' | .level _, n, w, e, n' | .operand _, n, w, e, n' | .unary, n, w, e, n' =>
    IsTarget e → Derives .call n w e n'
  | _, _, _, _, _ => True

omit sound in
theorem Derives.targetsAreCalls (h : Derives N n w tree n') : TargetsAreCalls N n w tree n' := by
  induction h with
  | ternary => simp [TargetsAreCalls, IsTarget]
  | unconditional _ ih => exact ih
  | @operation l => cases l <;> simp [TargetsAreCalls, IsTarget, Level.node]
  | first _ ih => exact ih
  | tighter _ _ ih => exact ih
  | tightest _ _ ih => exact ih
  | unary => simp [TargetsAreCalls, IsTarget]
  | positive value => exact fun _ => value
  | _ => trivial

theorem expression_sound : Sound .expression rules.expressionRule := by
  intro c tree c' h
  simp only [Rules.expressionRule, bind_ok_iff] at h
  obtain ⟨left, c₁, read, equals, c₂, taken, h⟩ := h
  obtain ⟨w₁, n, rfl, d₁⟩ := ternary_sound sound read
  cases equals with
  | none =>
    obtain ⟨-, rfl⟩ := (accept?_none_iff (by decide)).mp taken
    obtain ⟨rfl, rfl⟩ := pure_ok_iff.mp h
    exact ⟨w₁, n, rfl, .unassigned d₁⟩
  | some equal =>
    obtain ⟨isEqual, rfl⟩ := (accept?_some_iff (by decide)).mp taken
    simp only [bind_ok_iff] at h
    obtain ⟨value, c₃, assigned, h⟩ := h
    obtain ⟨w₂, n₂, same, d₂⟩ := sound.expression assigned
    obtain rfl : c₂ = ⟨w₂ ++ c₃.rest, n₂⟩ := same
    have isEqual : equal.kind = .equal := by simpa using isEqual
    cases left with
    | varRef target =>
      cases d₁.targetsAreCalls (.inl ⟨_, rfl⟩) with
      | primary value =>
        cases value with
        | name token =>
          cases h
          exact ⟨token.1 :: equal :: w₂, n, by simp, .assign token ⟨equal, isEqual⟩ d₂⟩
    | property object name =>
      cases d₁.targetsAreCalls (.inr ⟨_, _, rfl⟩) with
      | property called dot name =>
        cases h
        exact ⟨_ ++ dot.1 :: name.1 :: equal :: w₂, n, by simp,
          .setProperty called dot name ⟨equal, isEqual⟩ d₂⟩
      | primary value => cases value
    | _ => exact absurd h fail_not_ok

theorem expressionStatement_sound : Sound .expressionStatement rules.expressionStatement := by
  intro c tree c' h
  simp only [Rules.expressionStatement, bind_ok_iff, pure_ok_iff] at h
  obtain ⟨e, c₁, read, stop, _, ended, rfl, rfl⟩ := h
  obtain ⟨isStop, rfl⟩ := (expect_ok_iff (by decide)).mp ended
  obtain ⟨w, n, rfl, d⟩ := expression_sound sound read
  exact ⟨w ++ [stop], n, by simp, .expressionStatement d ⟨stop, isStop⟩⟩

theorem initializer_sound : Sound .initializer rules.initializer := by
  intro c tree c' h
  simp only [Rules.initializer, bind_ok_iff] at h
  obtain ⟨given, c₁, taken, h⟩ := h
  cases given with
  | true =>
    obtain ⟨equal, isEqual, rfl⟩ := (accept_true_iff (by decide)).mp taken
    simp only [if_true, bind_ok_iff, pure_ok_iff] at h
    obtain ⟨e, _, read, rfl, rfl⟩ := h
    obtain ⟨w, n, rfl, d⟩ := sound.expression read
    exact ⟨equal :: w, n, rfl, .initializer ⟨equal, isEqual⟩ d⟩
  | false =>
    obtain ⟨-, rfl⟩ := (accept_false_iff (by decide)).mp taken
    obtain ⟨rfl, rfl⟩ := pure_ok_iff.mp h
    exact ⟨[], _, rfl, .noInitializer⟩

theorem varDeclaration_sound : SoundAfter .kwVar .varDecl rules.varDeclaration := by
  intro c tree c' h
  simp only [Rules.varDeclaration, bind_ok_iff, pure_ok_iff] at h
  obtain ⟨name, c₁, named, e, c₂, read, stop, _, ended, rfl, rfl⟩ := h
  obtain ⟨isName, rfl⟩ := expectName_ok_iff.mp named
  obtain ⟨isStop, rfl⟩ := (expect_ok_iff (by decide)).mp ended
  obtain ⟨w, n, rfl, d⟩ := initializer_sound sound read
  exact ⟨name :: (w ++ [stop]), n, by simp,
    fun keyword => .varDecl keyword ⟨name, isName⟩ d ⟨stop, isStop⟩⟩

theorem expressionUnless_sound {stop : Kind} :
    Sound .maybeExpression (rules.expressionUnless stop) := by
  intro c tree c' h
  simp only [Rules.expressionUnless, bind_ok_iff, check_eq] at h
  obtain ⟨atStop, _, same, h⟩ := h
  cases same
  split at h
  · obtain ⟨rfl, rfl⟩ := pure_ok_iff.mp h
    exact ⟨[], _, rfl, .noExpression⟩
  · simp only [bind_ok_iff, pure_ok_iff] at h
    obtain ⟨e, _, read, rfl, rfl⟩ := h
    obtain ⟨w, n, rfl, d⟩ := sound.expression read
    exact ⟨w, n, rfl, .someExpression d⟩

theorem forStart_sound : Sound .forStart rules.forStart := by
  intro c tree c' h
  simp only [Rules.forStart, bind_ok_iff] at h
  obtain ⟨missing, c₁, taken, h⟩ := h
  cases missing with
  | true =>
    obtain ⟨stop, isStop, rfl⟩ := (accept_true_iff (by decide)).mp taken
    obtain ⟨rfl, rfl⟩ := pure_ok_iff.mp h
    exact ⟨[stop], _, rfl, .noStart ⟨stop, isStop⟩⟩
  | false =>
    obtain ⟨-, rfl⟩ := (accept_false_iff (by decide)).mp taken
    simp only [Bool.false_eq_true, if_false, bind_ok_iff] at h
    obtain ⟨declares, c₁, word, h⟩ := h
    cases declares with
    | true =>
      obtain ⟨keyword, isKeyword, rfl⟩ := (accept_true_iff (by decide)).mp word
      simp only [if_true, bind_ok_iff, pure_ok_iff] at h
      obtain ⟨s, _, read, rfl, rfl⟩ := h
      obtain ⟨w, n, rfl, d⟩ := varDeclaration_sound sound read
      exact ⟨keyword :: w, n, rfl, .startVar (d ⟨keyword, isKeyword⟩)⟩
    | false =>
      obtain ⟨-, rfl⟩ := (accept_false_iff (by decide)).mp word
      simp only [Bool.false_eq_true, if_false, bind_ok_iff, pure_ok_iff] at h
      obtain ⟨s, _, read, rfl, rfl⟩ := h
      obtain ⟨w, n, rfl, d⟩ := expressionStatement_sound sound read
      exact ⟨w, n, rfl, .startExpression d⟩

theorem forStatement_sound : SoundStatementAfter .kwFor rules.forStatement := by
  intro c tree c' h
  simp only [Rules.forStatement, bind_ok_iff] at h
  obtain ⟨left, c₁, opened, start, c₂, started, condition, c₃, asked, stop, c₄, ended, increment,
    c₅, counted, right, c₆, closed, body, c₇, read, h⟩ := h
  obtain ⟨isLeft, rfl⟩ := (expect_ok_iff (by decide)).mp opened
  obtain ⟨isStop, rfl⟩ := (expect_ok_iff (by decide)).mp ended
  obtain ⟨isRight, rfl⟩ := (expect_ok_iff (by decide)).mp closed
  obtain ⟨w₄, n₄, dangling, rfl, d₄, free⟩ := sound.statement read
  obtain ⟨w₃, n₃, rfl, d₃⟩ := expressionUnless_sound sound counted
  obtain ⟨w₂, n₂, rfl, d₂⟩ := expressionUnless_sound sound asked
  obtain ⟨w₁, n₁, rfl, d₁⟩ := forStart_sound sound started
  have result : forLoop start condition increment body = tree ∧ c₇ = c' := by
    cases start <;> exact pure_ok_iff.mp h
  obtain ⟨rfl, rfl⟩ := result
  exact ⟨left :: (w₁ ++ w₂ ++ stop :: w₃ ++ right :: w₄), n₁, dangling, by simp,
    fun keyword => .forLoop keyword ⟨left, isLeft⟩ d₁ d₂ ⟨stop, isStop⟩ d₃ ⟨right, isRight⟩ d₄,
    free⟩

theorem ifStatement_sound : SoundStatementAfter .kwIf rules.ifStatement := by
  intro c tree c' h
  simp only [Rules.ifStatement, Rules.elseBranch, bind_ok_iff, pure_ok_iff] at h
  obtain ⟨left, c₁, opened, condition, c₂, asked, right, c₃, closed, branch, c₄, read, other, c₅,
    ⟨more, c₆, taken, h⟩, rfl, rfl⟩ := h
  obtain ⟨isLeft, rfl⟩ := (expect_ok_iff (by decide)).mp opened
  obtain ⟨isRight, rfl⟩ := (expect_ok_iff (by decide)).mp closed
  obtain ⟨w₂, n₂, dangling, rfl, d₂, free⟩ := sound.statement read
  obtain ⟨w₁, n₁, rfl, d₁⟩ := sound.expression asked
  cases more with
  | true =>
    obtain ⟨otherwise, isElse, rfl⟩ := (accept_true_iff (by decide)).mp taken
    simp only [if_true, bind_ok_iff, pure_ok_iff] at h
    obtain ⟨s, _, last, rfl, rfl⟩ := h
    -- An `else` follows, so the branch is not one that could take it.
    obtain rfl : dangling = false := by
      cases dangling with
      | false => rfl
      | true => exact absurd isElse (free rfl)
    obtain ⟨w₃, n₃, dangling, rfl, d₃, free⟩ := sound.statement last
    exact ⟨left :: (w₁ ++ right :: w₂ ++ otherwise :: w₃), n₁, dangling, by simp,
      fun keyword => .ifThenElse keyword ⟨left, isLeft⟩ d₁ ⟨right, isRight⟩ d₂
        ⟨otherwise, isElse⟩ d₃, free⟩
  | false =>
    obtain ⟨notElse, rfl⟩ := (accept_false_iff (by decide)).mp taken
    obtain ⟨rfl, rfl⟩ := pure_ok_iff.mp h
    exact ⟨left :: (w₁ ++ right :: w₂), n₁, true, by simp,
      fun keyword => .ifThen keyword ⟨left, isLeft⟩ d₁ ⟨right, isRight⟩ d₂, fun _ => notElse⟩

theorem whileStatement_sound : SoundStatementAfter .kwWhile rules.whileStatement := by
  intro c tree c' h
  simp only [Rules.whileStatement, bind_ok_iff, pure_ok_iff] at h
  obtain ⟨left, c₁, opened, condition, c₂, asked, right, c₃, closed, body, _, read, rfl, rfl⟩ := h
  obtain ⟨isLeft, rfl⟩ := (expect_ok_iff (by decide)).mp opened
  obtain ⟨isRight, rfl⟩ := (expect_ok_iff (by decide)).mp closed
  obtain ⟨w₂, n₂, dangling, rfl, d₂, free⟩ := sound.statement read
  obtain ⟨w₁, n₁, rfl, d₁⟩ := sound.expression asked
  exact ⟨left :: (w₁ ++ right :: w₂), n₁, dangling, by simp,
    fun keyword => .whileLoop keyword ⟨left, isLeft⟩ d₁ ⟨right, isRight⟩ d₂, free⟩

theorem returnStatement_sound (keyword : Terminal .kwReturn)
    (h : rules.returnStatement keyword.1 c = .ok tree c') :
    ∃ word n, c = ⟨word ++ c'.rest, n⟩ ∧
      Derives (.statement false) n (keyword.1 :: word) tree c'.nextNode := by
  simp only [Rules.returnStatement, bind_ok_iff, pure_ok_iff] at h
  obtain ⟨e, c₁, read, stop, _, ended, rfl, rfl⟩ := h
  obtain ⟨isStop, rfl⟩ := (expect_ok_iff (by decide)).mp ended
  obtain ⟨w, n, rfl, d⟩ := expressionUnless_sound sound read
  exact ⟨w ++ [stop], n, by simp, .returns keyword d ⟨stop, isStop⟩⟩

omit sound in
theorem flowStatement_sound (signal : Signal) (word : Terminal (keyword signal))
    (h : Rules.flowStatement signal word.1 c = .ok tree c') :
    ∃ stop n, c = ⟨stop :: c'.rest, n⟩ ∧
      Derives (.statement false) n [word.1, stop] tree c'.nextNode := by
  simp only [Rules.flowStatement, bind_ok_iff, pure_ok_iff] at h
  obtain ⟨stop, _, ended, rfl, rfl⟩ := h
  obtain ⟨isStop, rfl⟩ := (expect_ok_iff (by decide)).mp ended
  exact ⟨stop, _, rfl, .flow signal word ⟨stop, isStop⟩⟩

theorem printStatement_sound : SoundAfter .kwPrint (.statement false) rules.printStatement := by
  intro c tree c' h
  simp only [Rules.printStatement, bind_ok_iff, pure_ok_iff] at h
  obtain ⟨e, c₁, read, stop, _, ended, rfl, rfl⟩ := h
  obtain ⟨isStop, rfl⟩ := (expect_ok_iff (by decide)).mp ended
  obtain ⟨w, n, rfl, d⟩ := sound.expression read
  exact ⟨w ++ [stop], n, by simp, fun keyword => .print keyword d ⟨stop, isStop⟩⟩

theorem statement_sound : SoundStatement rules.statementRule := by
  intro c tree c' h
  simp only [Rules.statementRule, peek_bind] at h
  generalize same : (c.rest.headD (.eof 0)).kind = kind at h
  cases kind with
  | kwFor =>
    obtain ⟨token, rest, n, rfl, -, h⟩ := advance_bind_ok same (by decide) h
    obtain ⟨w, _, dangling, same, d, free⟩ := forStatement_sound sound h
    cases same
    exact ⟨token.1 :: w, n, dangling, rfl, d token, free⟩
  | kwIf =>
    obtain ⟨token, rest, n, rfl, -, h⟩ := advance_bind_ok same (by decide) h
    obtain ⟨w, _, dangling, same, d, free⟩ := ifStatement_sound sound h
    cases same
    exact ⟨token.1 :: w, n, dangling, rfl, d token, free⟩
  | kwWhile =>
    obtain ⟨token, rest, n, rfl, -, h⟩ := advance_bind_ok same (by decide) h
    obtain ⟨w, _, dangling, same, d, free⟩ := whileStatement_sound sound h
    cases same
    exact ⟨token.1 :: w, n, dangling, rfl, d token, free⟩
  | kwReturn =>
    obtain ⟨token, rest, n, rfl, first, h⟩ := advance_bind_ok same (by decide) h
    obtain ⟨w, _, same, d⟩ := returnStatement_sound sound token h
    cases same
    exact ⟨token.1 :: w, n, false, rfl, d, nofun⟩
  | kwBreak =>
    obtain ⟨token, rest, n, rfl, first, h⟩ := advance_bind_ok same (by decide) h
    obtain ⟨stop, _, same, d⟩ := flowStatement_sound .exitLoop token h
    cases same
    exact ⟨[token.1, stop], n, false, rfl, d, nofun⟩
  | kwContinue =>
    obtain ⟨token, rest, n, rfl, first, h⟩ := advance_bind_ok same (by decide) h
    obtain ⟨stop, _, same, d⟩ := flowStatement_sound .nextTurn token h
    cases same
    exact ⟨[token.1, stop], n, false, rfl, d, nofun⟩
  | leftBrace =>
    obtain ⟨token, rest, n, rfl, -, h⟩ := advance_bind_ok same (by decide) h
    simp only [bind_ok_iff, pure_ok_iff] at h
    obtain ⟨body, _, read, rfl, rfl⟩ := h
    obtain ⟨w, _, same, d⟩ := block_sound sound read
    cases same
    exact ⟨token.1 :: w, n, false, rfl, .inner (d token), nofun⟩
  | kwPrint =>
    obtain ⟨token, rest, n, rfl, -, h⟩ := advance_bind_ok same (by decide) h
    obtain ⟨w, _, same, d⟩ := printStatement_sound sound h
    cases same
    exact ⟨token.1 :: w, n, false, rfl, d token, nofun⟩
  | _ =>
    obtain ⟨w, n, rfl, d⟩ := expressionStatement_sound sound h
    exact ⟨w, n, false, rfl, .evaluate d, nofun⟩

theorem member_sound : Sound .member rules.member := by
  intro c tree c' h
  simp only [Rules.member, bind_ok_iff] at h
  obtain ⟨isStatic, c₁, taken, h⟩ := h
  cases isStatic with
  | true =>
    obtain ⟨keyword, isClass, rfl⟩ := (accept_true_iff (by decide)).mp taken
    simp only [if_true, bind_ok_iff, pure_ok_iff] at h
    obtain ⟨f, _, read, rfl, rfl⟩ := h
    obtain ⟨w, n, rfl, d⟩ := function_sound sound read
    exact ⟨keyword :: w, n, rfl, .static ⟨keyword, isClass⟩ d⟩
  | false =>
    obtain ⟨-, rfl⟩ := (accept_false_iff (by decide)).mp taken
    simp only [Bool.false_eq_true, if_false, bind_ok_iff] at h
    obtain ⟨name, c₁, named, isGetter, c₂, brace, h⟩ := h
    obtain ⟨isName, rfl⟩ := expectName_ok_iff.mp named
    cases isGetter with
    | true =>
      obtain ⟨left, isLeft, rfl⟩ := (accept_true_iff (by decide)).mp brace
      simp only [if_true, bind_ok_iff, pure_ok_iff] at h
      obtain ⟨body, _, read, rfl, rfl⟩ := h
      obtain ⟨w, n, rfl, d⟩ := block_sound sound read
      exact ⟨name :: left :: w, n, rfl, .getter ⟨name, isName⟩ (d ⟨left, isLeft⟩)⟩
    | false =>
      obtain ⟨-, rfl⟩ := (accept_false_iff (by decide)).mp brace
      simp only [Bool.false_eq_true, if_false, bind_ok_iff, pure_ok_iff] at h
      obtain ⟨f, _, read, rfl, rfl⟩ := h
      obtain ⟨w, n, params, body, rfl, rfl, d⟩ := functionRest_sound sound read
      exact ⟨name :: w, n, rfl, .method (.function ⟨name, isName⟩ d)⟩

omit sound in
theorem superclass_sound : Sound .superclass Rules.superclass := by
  intro c tree c' h
  simp only [Rules.superclass, bind_ok_iff] at h
  obtain ⟨given, c₁, taken, h⟩ := h
  cases given with
  | true =>
    obtain ⟨less, isLess, rfl⟩ := (accept_true_iff (by decide)).mp taken
    simp only [if_true, bind_ok_iff, refer_eq] at h
    obtain ⟨name, c₂, named, _, _, referred, h⟩ := h
    obtain ⟨isName, rfl⟩ := expectName_ok_iff.mp named
    cases referred
    cases h
    exact ⟨[less, name], _, rfl, .superclass ⟨less, isLess⟩ ⟨name, isName⟩⟩
  | false =>
    obtain ⟨-, rfl⟩ := (accept_false_iff (by decide)).mp taken
    obtain ⟨rfl, rfl⟩ := pure_ok_iff.mp h
    exact ⟨[], _, rfl, .noSuperclass⟩

omit sound in
theorem mixins_sound : Sound .mixins rules.mixins := by
  intro c tree c' h
  simp only [Rules.mixins, bind_ok_iff] at h
  obtain ⟨mixes, c₁, taken, h⟩ := h
  cases mixes with
  | true =>
    obtain ⟨keyword, isWith, rfl⟩ := (accept_true_iff (by decide)).mp taken
    obtain ⟨w, n, rfl, d⟩ := listed_traitNames (separated_ok_iff.mp h).1
    exact ⟨keyword :: w, n, rfl, .mixins ⟨keyword, isWith⟩ d⟩
  | false =>
    obtain ⟨-, rfl⟩ := (accept_false_iff (by decide)).mp taken
    obtain ⟨rfl, rfl⟩ := pure_ok_iff.mp h
    exact ⟨[], _, rfl, .noMixins⟩

theorem classDeclaration_sound : SoundAfter .kwClass .declaration rules.classDeclaration := by
  intro c tree c' h
  simp only [Rules.classDeclaration, bind_ok_iff, pure_ok_iff] at h
  obtain ⟨name, c₁, named, parent, c₂, extended, traits, c₃, mixed, left, c₄, opened, members, c₅,
    read, right, _, closed, rfl, rfl⟩ := h
  obtain ⟨isName, rfl⟩ := expectName_ok_iff.mp named
  obtain ⟨isLeft, rfl⟩ := (expect_ok_iff (by decide)).mp opened
  obtain ⟨isRight, rfl⟩ := (expect_ok_iff (by decide)).mp closed
  obtain ⟨w₃, n₃, rfl, d₃⟩ := repeated_derives (fun _ => Derives.noMembers) Derives.moreMembers
    (member_sound sound) (itemsUntil_ok_iff.mp read).1
  obtain ⟨w₂, n₂, rfl, d₂⟩ := mixins_sound mixed
  obtain ⟨w₁, n₁, rfl, d₁⟩ := superclass_sound extended
  exact ⟨name :: (w₁ ++ w₂ ++ left :: w₃ ++ [right]), n₁, by simp,
    fun keyword => .classDecl keyword ⟨name, isName⟩ d₁ d₂ ⟨left, isLeft⟩ d₃ ⟨right, isRight⟩⟩

theorem traitMember_sound : Sound .traitMember rules.traitMember := by
  intro c tree c' h
  simp only [Rules.traitMember, bind_ok_iff] at h
  obtain ⟨name, c₁, named, left, c₂, opened, params, c₃, listed, asked, c₄, taken, h⟩ := h
  obtain ⟨isName, rfl⟩ := expectName_ok_iff.mp named
  obtain ⟨isLeft, rfl⟩ := (expect_ok_iff (by decide)).mp opened
  obtain ⟨w₁, right, rfl, names⟩ := parameters_ok listed
  cases asked with
  | true =>
    obtain ⟨stop, isStop, rfl⟩ := (accept_true_iff (by decide)).mp taken
    obtain ⟨rfl, rfl⟩ := pure_ok_iff.mp h
    exact ⟨name :: left :: (w₁ ++ [right.1, stop]), _, by simp,
      .asked ⟨name, isName⟩ ⟨left, isLeft⟩ names right ⟨stop, isStop⟩⟩
  | false =>
    obtain ⟨-, rfl⟩ := (accept_false_iff (by decide)).mp taken
    simp only [Bool.false_eq_true, if_false, bind_ok_iff, pure_ok_iff] at h
    obtain ⟨brace, c₅, entered, body, _, read, rfl, rfl⟩ := h
    obtain ⟨isBrace, rfl⟩ := (expect_ok_iff (by decide)).mp entered
    obtain ⟨w₂, n, rfl, d⟩ := block_sound sound read
    exact ⟨name :: left :: (w₁ ++ right.1 :: brace :: w₂), n, by simp,
      .default (.function ⟨name, isName⟩
        (.functionRest ⟨left, isLeft⟩ names right (d ⟨brace, isBrace⟩)))⟩

theorem traitDeclaration_sound : SoundAfter .kwTrait .declaration rules.traitDeclaration := by
  intro c tree c' h
  simp only [Rules.traitDeclaration, bind_ok_iff, pure_ok_iff] at h
  obtain ⟨name, c₁, named, left, c₂, opened, members, c₃, read, right, _, closed, rfl, rfl⟩ := h
  obtain ⟨isName, rfl⟩ := expectName_ok_iff.mp named
  obtain ⟨isLeft, rfl⟩ := (expect_ok_iff (by decide)).mp opened
  obtain ⟨isRight, rfl⟩ := (expect_ok_iff (by decide)).mp closed
  obtain ⟨w, n, rfl, d⟩ := repeated_derives (fun _ => Derives.noTraitMembers)
    Derives.moreTraitMembers (traitMember_sound sound) (itemsUntil_ok_iff.mp read).1
  exact ⟨name :: left :: (w ++ [right]), n, by simp,
    fun keyword => .traitDecl keyword ⟨name, isName⟩ ⟨left, isLeft⟩ d ⟨right, isRight⟩⟩

theorem declaration_sound : Sound .declaration rules.declarationRule := by
  intro c tree c' h
  simp only [Rules.declarationRule, resync_ok_iff, bind_ok_iff] at h
  obtain ⟨names, c₁, looked, h⟩ := h
  cases names with
  | true =>
    obtain ⟨⟨keyword, name, rest, same, isFun, -⟩, rfl⟩ := namesFunction_true_iff.mp looked
    obtain ⟨_, n⟩ := c₁
    subst same
    simp only [if_true, bind_of_ok (advance_cons (t := keyword) (by simp [isFun])), bind_ok_iff,
      pure_ok_iff] at h
    obtain ⟨f, _, read, rfl, rfl⟩ := h
    obtain ⟨w, _, same, d⟩ := function_sound sound read
    obtain ⟨tail, rfl⟩ := Cursor.mk.inj same
    exact ⟨keyword :: w, n, by simp [tail], .functionDecl ⟨keyword, isFun⟩ d⟩
  | false =>
    obtain ⟨-, rfl⟩ := namesFunction_false_iff.mp looked
    simp only [Bool.false_eq_true, if_false, peek_bind] at h
    generalize same : (c₁.rest.headD (.eof 0)).kind = kind at h
    cases kind with
    | kwClass =>
      obtain ⟨token, rest, n, rfl, -, h⟩ := advance_bind_ok same (by decide) h
      obtain ⟨w, _, same, d⟩ := classDeclaration_sound sound h
      cases same
      exact ⟨token.1 :: w, n, rfl, d token⟩
    | kwTrait =>
      obtain ⟨token, rest, n, rfl, -, h⟩ := advance_bind_ok same (by decide) h
      obtain ⟨w, _, same, d⟩ := traitDeclaration_sound sound h
      cases same
      exact ⟨token.1 :: w, n, rfl, d token⟩
    | kwVar =>
      obtain ⟨token, rest, n, rfl, -, h⟩ := advance_bind_ok same (by decide) h
      obtain ⟨w, _, same, d⟩ := varDeclaration_sound sound h
      cases same
      exact ⟨token.1 :: w, n, rfl, .varDeclaration (d token)⟩
    | _ =>
      obtain ⟨w, n, dangling, rfl, d, -⟩ := statement_sound sound h
      exact ⟨w, n, rfl, .statement d⟩

end

theorem rules_sound (limit : Nat) : SoundRules (rules limit) := by
  induction limit with
  | zero => constructor <;> exact fun _ _ _ h => absurd h failHere_not_ok
  | succ limit ih =>
    exact ⟨expression_sound ih, ternary_sound ih, unary_sound ih, statement_sound ih,
      declaration_sound ih⟩

/-- A program is read up to the end of the input. -/
theorem program_sound (h : program c = .ok ss c') :
    ∃ word n, c = ⟨word ++ c'.rest, n⟩ ∧ Derives .declarations n word ss c'.nextNode ∧
      Cursor.kind c' = .eof := by
  obtain ⟨repeated, -⟩ := itemsUntil_ok_iff.mp (show itemsUntil [.eof]
    (rules (c.rest.length + 1)).declaration (c.rest.length + 1) c = .ok ss c' from h)
  obtain ⟨w, n, same, d⟩ := repeated_derives (fun _ => Derives.nil) Derives.cons
    (rules_sound _).declaration repeated
  exact ⟨w, n, same, d, by simpa using repeated.stopped⟩

theorem soleExpression_sound (h : soleExpression c = .ok e c') :
    ∃ word n, c = ⟨word ++ c'.rest, n⟩ ∧ Derives .expression n word e c'.nextNode ∧
      Cursor.kind c' = .eof := by
  have read : ((rules (c.rest.length + 1)).expression >>= fun value => peek >>= fun token =>
      if token.kind = .eof then pure value else fail token .noEnd) c = .ok e c' := h
  simp only [bind_ok_iff, peek_eq] at read
  obtain ⟨value, c₁, evaluated, token, c₂, looked, result⟩ := read
  cases looked
  split at result
  · rename_i atEnd
    obtain ⟨rfl, rfl⟩ := pure_ok_iff.mp result
    obtain ⟨w, n, same, d⟩ := (rules_sound _).expression evaluated
    exact ⟨w, n, same, d, atEnd⟩
  · exact absurd result fail_not_ok

end Lox.Grammar
