import Lox.Number.Shortest

/-!
Number layouts: how a number is written by the program, in a token listing and in a token record.
-/

namespace Lox.Number

def zeros (count : Nat) : String := String.ofList (List.replicate count '0')

/-- Digits without an exponent mark; a point stands only before a fractional part. -/
def Decimal.positional (d : Decimal) : String :=
  let digits := toString d.digits
  if 0 ≤ d.exponent then digits ++ zeros d.exponent.toNat
  else
    let places := (-d.exponent).toNat
    let padded := (zeros (places + 1 - digits.length) ++ digits).toList
    let whole := padded.length - places
    String.ofList (padded.take whole) ++ "." ++ String.ofList (padded.drop whole)

/-- The exponent when one digit stands before the point. -/
def Decimal.leading (d : Decimal) : Int :=
  (toString d.digits).length + d.exponent - 1

/-- One digit before the point, the others after it, and a signed exponent. -/
def Decimal.scientific (d : Decimal) : String :=
  let digits := (toString d.digits).toList
  let fraction := match digits.drop 1 with
    | [] => ""
    | rest => "." ++ String.ofList rest
  let sign := if d.leading < 0 then "-" else "+"
  String.ofList (digits.take 1) ++ fraction ++ "e" ++ sign ++ toString d.leading.natAbs

def sign (negative : Bool) : String := if negative then "-" else ""

/-- The integer that the magnitude is, if it is one. -/
def wholeMagnitude? (mantissa : Nat) (exponent : Int) : Option Nat :=
  let divisor := Nat.pow 2 (-exponent).toNat
  if mantissa % divisor = 0 then some (mantissa / divisor * Nat.pow 2 exponent.toNat) else none

/-- The text of a number in a running program: every digit of an integer, otherwise the shortest
decimal that reads back. There is never an exponent. -/
def Parts.display : Parts → String
  | .nan => "NaN"
  | .infinite negative => sign negative ++ "Infinity"
  | .finite negative mantissa exponent =>
    sign negative ++ match wholeMagnitude? mantissa exponent with
      | some whole => toString whole
      | none => (shortest .up mantissa exponent).positional

def display (x : Float) : String := (Parts.ofFloat x).display

/-- The text of a number in a token listing: an integer below `2 ^ 63` keeps one decimal, every
other number is its shortest decimal. -/
def Parts.listing : Parts → String
  | .nan => "NaN"
  | .infinite negative => sign negative ++ "inf"
  | .finite negative mantissa exponent =>
    let rounded := sign negative ++ (shortest .up mantissa exponent).positional
    match wholeMagnitude? mantissa exponent with
    | some whole =>
      if whole = 0 then "0.0"
      else if whole < Nat.pow 2 63 then sign negative ++ toString whole ++ ".0"
      else rounded
    | none => rounded

def listing (x : Float) : String := (Parts.ofFloat x).listing

/-- The text of a number in a token record: the shortest decimal, positional with at least one
decimal from `10 ^ -5` up to `10 ^ 16`, otherwise with an exponent. -/
def Parts.record : Parts → String
  | .nan | .infinite _ => "null"
  | .finite negative mantissa exponent =>
    if mantissa = 0 then sign negative ++ "0.0"
    else
      let d := shortest .toEven mantissa exponent
      sign negative ++
        if d.leading < -5 ∨ 16 ≤ d.leading then d.scientific
        else if 0 ≤ d.exponent then d.positional ++ ".0"
        else d.positional

def record (x : Float) : String := (Parts.ofFloat x).record

end Lox.Number
