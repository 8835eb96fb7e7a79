/-!
UTF-8 bytes read as characters, with the place and length of what cannot be read.
-/

namespace Lox.Text.Utf8

/-- A character, a run of `length` bytes that no character can start with, or the beginning of a
character at which the bytes end. -/
inductive Piece where
  | char (c : Char)
  | invalid (length : Nat)
  | incomplete
deriving DecidableEq

/-- How many bytes follow a first byte, and the range of the next one. -/
structure Follow where
  count : Nat
  low : Nat
  high : Nat

def follow? (b : Nat) : Option Follow :=
  if 0xC2 ≤ b ∧ b ≤ 0xDF then some ⟨1, 0x80, 0xBF⟩
  else if b = 0xE0 then some ⟨2, 0xA0, 0xBF⟩
  else if b = 0xED then some ⟨2, 0x80, 0x9F⟩
  else if 0xE1 ≤ b ∧ b ≤ 0xEF then some ⟨2, 0x80, 0xBF⟩
  else if b = 0xF0 then some ⟨3, 0x90, 0xBF⟩
  else if 0xF1 ≤ b ∧ b ≤ 0xF3 then some ⟨3, 0x80, 0xBF⟩
  else if b = 0xF4 then some ⟨3, 0x80, 0x8F⟩
  else none

/-- The bits that a first byte gives to its character. -/
def leadBits (b : Nat) : Nat :=
  if b < 0xE0 then b % 32 else if b < 0xF0 then b % 16 else b % 8

/-- Reads the bytes that follow a first byte. `seen` bytes have been read before them. -/
def tail (seen value : Nat) : Follow → List UInt8 → Piece × List UInt8
  | ⟨0, _, _⟩, rest => (.char (Char.ofNat value), rest)
  | ⟨_ + 1, _, _⟩, [] => (.incomplete, [])
  | ⟨count + 1, low, high⟩, b :: rest =>
    if low ≤ b.toNat ∧ b.toNat ≤ high then
      tail (seen + 1) (value * 64 + b.toNat % 64) ⟨count, 0x80, 0xBF⟩ rest
    else (.invalid seen, b :: rest)

def head (b : UInt8) (rest : List UInt8) : Piece × List UInt8 :=
  if b.toNat < 0x80 then (.char (Char.ofNat b.toNat), rest)
  else match follow? b.toNat with
    | none => (.invalid 1, rest)
    | some f => tail 1 (leadBits b.toNat) f rest

theorem tail_rest_length (seen value : Nat) (f : Follow) (bytes : List UInt8) :
    (tail seen value f bytes).2.length ≤ bytes.length := by
  fun_induction tail seen value f bytes <;> simp_all
  omega

theorem head_rest_length (b : UInt8) (rest : List UInt8) :
    (head b rest).2.length ≤ rest.length := by
  unfold head
  split
  · simp
  · split
    · simp
    · exact tail_rest_length ..

def pieces : List UInt8 → List Piece
  | [] => []
  | b :: rest => (head b rest).1 :: pieces (head b rest).2
termination_by bytes => bytes.length
decreasing_by
  have := head_rest_length b rest
  simp only [List.length_cons]
  omega

/-- The text of the pieces, if every piece is a character. -/
def text? (ps : List Piece) : Option (List Char) :=
  ps.mapM fun
    | .char c => some c
    | _ => none

def decode? (bytes : List UInt8) : Option String :=
  (text? (pieces bytes)).map String.ofList

/-- Each unreadable piece becomes one replacement character. -/
def decodeLossy (bytes : List UInt8) : String :=
  String.ofList <| (pieces bytes).map fun
    | .char c => c
    | _ => '�'

/-- Where and why bytes stop being readable. -/
inductive Fault where
  | invalid (length index : Nat)
  | incomplete (index : Nat)
deriving DecidableEq

def Fault.message : Fault → String
  | .invalid length index =>
    "invalid utf-8 sequence of " ++ toString length ++ " bytes from index " ++ toString index
  | .incomplete index => "incomplete utf-8 byte sequence from index " ++ toString index

/-- The first unreadable piece, the bytes before it counted from `index`. -/
def faultFrom (index : Nat) : List Piece → Option Fault
  | [] => none
  | .char c :: ps => faultFrom (index + c.utf8Size) ps
  | .invalid length :: _ => some (.invalid length index)
  | .incomplete :: _ => some (.incomplete index)

def fault? (bytes : List UInt8) : Option Fault :=
  faultFrom 0 (pieces bytes)

end Lox.Text.Utf8
