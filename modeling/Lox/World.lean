import Lox.World.Disk

/-!
What surrounds a running program: where its output goes, the input it reads, the files it can
load and the time of day.
-/

namespace Lox

namespace Sink

/-- What becomes of a text that is sent: all of it is taken, or only so many of its first bytes. -/
inductive Answer where
  | taken
  | cut (count : Nat) (fault : String)

/-- How a place for output answers, given the texts that it was sent before, the latest first: to
the next text, and to the request to flush what it has taken. -/
structure Host where
  write : List String → String → Answer
  flush : List String → Option String

/-- A host that takes a limited number of bytes, or any number of them. -/
def Host.bounded (room : Option Nat) : Host where
  write sent text :=
    match room with
    | none => .taken
    | some room =>
      let left := room - sent.foldl (fun size text => size + text.utf8ByteSize) 0
      if text.utf8ByteSize ≤ left then .taken else .cut left "sink full"
  flush _ := none

end Sink

/-- A place for output: what it has taken, what it was sent, and how it answers. -/
structure Sink where
  bytes : ByteArray := .empty
  sent : List String := []
  room : Option Nat := none
  host : Sink.Host := .bounded room

namespace Sink

/-- Why a text cannot be written and flushed. It is not flushed if not all of it is taken. -/
def fault? (text : String) (sink : Sink) : Option String :=
  match sink.host.write sink.sent text with
  | .taken => sink.host.flush (text :: sink.sent)
  | .cut _ fault => some fault

/-- Writes a text, or as much of it as is taken. -/
def write (text : String) (sink : Sink) : Sink :=
  let bytes := match sink.host.write sink.sent text with
    | .taken => text.toUTF8
    | .cut count _ => text.toUTF8.extract 0 count
  { sink with bytes := sink.bytes ++ bytes, sent := text :: sink.sent }

/-- The text written after the first `start` bytes; a character that was cut is replaced. -/
def since (start : Nat) (sink : Sink) : String :=
  Text.Utf8.decodeLossy ((sink.bytes.extract start sink.bytes.size).data.toList)

end Sink

/-- The clock shows a number of milliseconds since the start of 1970 at each moment. -/
structure World where
  out : Sink := {}
  err : Sink := {}
  input : List UInt8 := []
  disk : Disk := {}
  clock : Nat → Nat := id
  time : Nat := 0

namespace World

/-- Each reading of the clock takes place at a moment of its own. -/
def tick (w : World) : World := { w with time := w.time + 1 }

/-- What the clock shows now. -/
def reading (w : World) : Nat := w.clock w.time

def newline : UInt8 := 10

/-- The bytes of the next line without its newline, and the input after it. -/
def splitLine (input : List UInt8) : List UInt8 × List UInt8 :=
  (input.takeWhile (· ≠ newline), (input.dropWhile (· ≠ newline)).drop 1)

/-- The lines of an input; what follows the last newline is a line if it is not empty. -/
def lines : List UInt8 → List (List UInt8)
  | [] => []
  | b :: rest =>
    if b = newline then [] :: lines rest
    else match lines rest with
      | [] => [[b]]
      | line :: more => (b :: line) :: more

end World

end Lox
