/-!
Binary numbers: a double taken apart into sign, mantissa and exponent, and the remainder computed
exactly on those parts.
-/

namespace Lox.Number

/-- A finite number stands for `mantissa * 2 ^ exponent`, with the sign kept apart so that zero
has one too. -/
inductive Parts where
  | nan
  | infinite (negative : Bool)
  | finite (negative : Bool) (mantissa : Nat) (exponent : Int)
deriving DecidableEq

/-- The exponent of the smallest subnormal number. -/
def minExponent : Int := -1074

def Parts.ofBits (bits : Nat) : Parts :=
  let negative := bits / Nat.pow 2 63 % 2 == 1
  let field : Nat := bits / Nat.pow 2 52 % Nat.pow 2 11
  let fraction := bits % Nat.pow 2 52
  if field = 2047 then
    if fraction = 0 then .infinite negative else .nan
  else if field = 0 then
    .finite negative fraction minExponent
  else
    .finite negative (fraction + Nat.pow 2 52) (minExponent + field - 1)

def Parts.ofFloat (x : Float) : Parts :=
  .ofBits x.toBits.toNat

/-- The bits of `mantissa * 2 ^ exponent`, for a mantissa below `2 ^ 53` and an exponent that is
not below the smallest one. The mantissa is shifted up as far as its width and the exponent
allow. -/
def magnitudeBits (mantissa : Nat) (exponent : Int) : Nat :=
  if mantissa = 0 then 0
  else
    let shift := min (52 - mantissa.log2) (exponent - minExponent).toNat
    let full := mantissa * Nat.pow 2 shift
    if full < Nat.pow 2 52 then full
    else ((exponent - shift - minExponent).toNat + 1) * Nat.pow 2 52 + (full - Nat.pow 2 52)

def signBit (negative : Bool) : Nat := if negative then Nat.pow 2 63 else 0

def notANumber : Float := Float.ofBits 0x7ff8000000000000

def Parts.toFloat : Parts → Float
  | .nan => notANumber
  | .infinite negative => Float.ofBits (signBit negative + 0x7ff0000000000000).toUInt64
  | .finite negative mantissa exponent =>
    Float.ofBits (signBit negative + magnitudeBits mantissa exponent).toUInt64

/-- The remainder of the division truncated toward zero. It has the sign of the dividend and is
always exact, because on the finer of the two grids it is a remainder of integers. -/
def Parts.remainder : Parts → Parts → Parts
  | .finite negative m q, .finite _ n p =>
    if n = 0 then .nan
    else
      let grid := min q p
      .finite negative ((m * Nat.pow 2 (q - grid).toNat) % (n * Nat.pow 2 (p - grid).toNat)) grid
  | .finite negative m q, .infinite _ => .finite negative m q
  | _, _ => .nan

def remainder (x y : Float) : Float :=
  (Parts.remainder (.ofFloat x) (.ofFloat y)).toFloat

end Lox.Number
