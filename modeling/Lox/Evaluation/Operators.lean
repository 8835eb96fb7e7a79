import Lox.Machine

/-!
Operators applied to values.
-/

namespace Lox.Eval

def numbers (operator : Token) (left right : Value) : Eval (Float × Float) :=
  match left, right with
  | .number a, .number b => pure (a, b)
  | _, _ => fail operator.line .operandsNotNumbers

def arithmetic (operator : Token) (left right : Value) (f : Float → Float → Float) :
    Eval Value := do
  let (a, b) ← numbers operator left right
  return .number (f a b)

def comparison (operator : Token) (left right : Value) (f : Float → Float → Bool) :
    Eval Value := do
  let (a, b) ← numbers operator left right
  return .bool (f a b)

/-- Two numbers are added; of any other two values the printed forms are joined. -/
def add (left right : Value) : Eval Value := do
  match left, right with
  | .number a, .number b => return .number (a + b)
  | left, right => return .string ((← display left) ++ (← display right))

/-- Neither the divisor nor the dividend may be zero. -/
def divide (operator : Token) (left right : Value) : Eval Value := do
  let (a, b) ← numbers operator left right
  if a == 0 || b == 0 then fail operator.line .divisionByZero
  else return .number (a / b)

def binary (operator : Token) (left right : Value) : Eval Value :=
  match operator.kind with
  | .plus => add left right
  | .minus => arithmetic operator left right (· - ·)
  | .star => arithmetic operator left right (· * ·)
  | .slash => divide operator left right
  | .percent => arithmetic operator left right Number.remainder
  | .greater => comparison operator left right fun a b => b < a
  | .greaterEqual => comparison operator left right fun a b => b ≤ a
  | .less => comparison operator left right fun a b => a < b
  | .lessEqual => comparison operator left right fun a b => a ≤ b
  | .equalEqual => pure (.bool (left.equals right))
  | .bangEqual => pure (.bool (!left.equals right))
  | _ => fail operator.line (.invalidBinary operator.lexeme)

def unary (operator : Token) (right : Value) : Eval Value :=
  match operator.kind, right with
  | .minus, .number value => pure (.number (-value))
  | .minus, _ => fail operator.line .operandNotNumber
  | .bang, right => pure (.bool (!right.isTruthy))
  | _, _ => fail operator.line (.invalidUnary operator.lexeme)

/-- Whether the left operand decides: for `or` one that is true, else one that is false. -/
def decides (operator : Token) (left : Value) : Bool :=
  if operator.kind = .kwOr then left.isTruthy else !left.isTruthy

end Lox.Eval
