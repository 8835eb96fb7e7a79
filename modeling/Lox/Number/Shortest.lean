import Lox.Number.Binary

/-!
Shortest decimals: the fewest digits that read back as the same double, and of the decimals with
that many digits the one nearest to it.
-/

namespace Lox.Number

/-- The number `digits * 10 ^ exponent`. -/
structure Decimal where
  digits : Nat
  exponent : Int
deriving DecidableEq

/-- Which of two equally near decimals is taken. -/
inductive Tie where
  | up
  | toEven
deriving DecidableEq

def Tie.roundsUp : Tie → Nat → Bool
  | .up, _ => true
  | .toEven, below => below % 2 == 1

/-- The reals that round to one double: those between `low / scale` and `high / scale`, with the
ends if `closed`. The double itself is `value / scale`. -/
structure Interval where
  low : Nat
  value : Nat
  high : Nat
  scale : Nat
  closed : Bool

/-- The gap below a power of two is half the gap above it, except at the smallest exponent. -/
def Interval.around (mantissa : Nat) (exponent : Int) : Interval :=
  let narrow := mantissa = Nat.pow 2 52 ∧ minExponent < exponent
  let up := Nat.pow 2 (exponent - 2).toNat
  { low := (4 * mantissa - if narrow then 1 else 2) * up
    value := 4 * mantissa * up
    high := (4 * mantissa + 2) * up
    scale := Nat.pow 2 (2 - exponent).toNat
    closed := mantissa % 2 == 0 }

namespace Interval

/-- Whether `x / (scale * unit)` lies in the interval when its ends are counted in that unit. -/
def contains (i : Interval) (unit inverse x : Nat) : Bool :=
  let x := x * (i.scale * unit)
  if i.closed then i.low * inverse ≤ x && x ≤ i.high * inverse
  else i.low * inverse < x && x < i.high * inverse

/-- The nearest multiple of `10 ^ exponent` among the interval's own two neighbours, if one of
them lies in the interval. -/
def onGrid (i : Interval) (tie : Tie) (exponent : Int) : Option Decimal :=
  let unit := Nat.pow 10 exponent.toNat
  let inverse := Nat.pow 10 (-exponent).toNat
  let step := i.scale * unit
  let below := i.value * inverse / step
  let rest := i.value * inverse % step
  match i.contains unit inverse below, i.contains unit inverse (below + 1) with
  | false, false => none
  | true, false => some ⟨below, exponent⟩
  | false, true => some ⟨below + 1, exponent⟩
  | true, true =>
    if 2 * rest < step ∨ (2 * rest = step ∧ !tie.roundsUp below) then some ⟨below, exponent⟩
    else some ⟨below + 1, exponent⟩

/-- The least power of ten above the value, searched near a guess that is off by at most two. -/
def magnitude (i : Interval) (guess : Int) : Int :=
  let below (e : Int) : Bool := i.value * Nat.pow 10 (-e).toNat < i.scale * Nat.pow 10 e.toNat
  if below (guess - 1) then guess - 1
  else if below guess then guess
  else if below (guess + 1) then guess + 1
  else guess + 2

end Interval

/-- Grids are tried from coarse to fine; seventeen digits always suffice. -/
def shortest (tie : Tie) (mantissa : Nat) (exponent : Int) : Decimal :=
  let i := Interval.around mantissa exponent
  let guess := (mantissa.log2 + exponent) * 30103 / 100000 + 1
  let top := i.magnitude guess
  ((List.range 18).findSome? fun (places : Nat) => i.onGrid tie (top - places)).getD ⟨0, 0⟩

end Lox.Number
