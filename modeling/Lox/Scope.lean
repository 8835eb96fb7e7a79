import Lox.Resolution.Scope
import Lox.Value

/-!
Scopes of a running program. A scope is a growing list of slots with a link to the scope around
it. Slots are reached by address: so many links outwards, then by position.
-/

namespace Lox

structure Slot where
  name : String
  value : Value
deriving DecidableEq, Inhabited

structure Scope where
  slots : Array Slot := #[]
  parent : Option ScopeId := none
deriving Inhabited

/-- What cannot happen while addresses fit the scopes they are used in. -/
inductive Violation where
  | pastOutermost
  | noScope
deriving DecidableEq

def Violation.message : Violation → String
  | pastOutermost => "resolved scope distance walks past the outermost scope"
  | noScope => "resolved local access outside of any scope"

/-- All scopes of a program, in the order of their creation. -/
structure Scopes where
  entries : Array Scope := #[]
deriving Inhabited

namespace Scopes

def get? (s : Scopes) (id : ScopeId) : Option Scope := s.entries[id.index]?

def parent? (s : Scopes) (id : ScopeId) : Option ScopeId :=
  (s.get? id).bind Scope.parent

def nextId (s : Scopes) : ScopeId := ⟨s.entries.size⟩

/-- A new empty scope inside `parent`; without one it lies directly under the globals. -/
def create (parent : Option ScopeId) (s : Scopes) : Scopes :=
  ⟨s.entries.push { parent }⟩

/-- The position of the next slot that is defined in a scope. -/
def nextSlot (id : ScopeId) (s : Scopes) : Nat :=
  match s.get? id with
  | some scope => scope.slots.size
  | none => 0

def define (id : ScopeId) (name : String) (value : Value) (s : Scopes) : Scopes :=
  ⟨s.entries.modify id.index fun scope =>
    { scope with slots := scope.slots.push ⟨name, value⟩ }⟩

/-- The scope that lies `distance` links outwards. -/
def ancestor? (s : Scopes) : (distance : Nat) → ScopeId → Option ScopeId
  | 0, id => some id
  | distance + 1, id => (s.parent? id).bind (s.ancestor? distance)

def reach (s : Scopes) (distance : Nat) (id : ScopeId) : Except Violation ScopeId :=
  match s.ancestor? distance id with
  | some target => .ok target
  | none => .error .pastOutermost

def slot? (s : Scopes) (id : ScopeId) (index : Nat) : Option Slot :=
  (s.get? id).bind (·.slots[index]?)

/-- Reads a slot; there is none while its variable is not yet defined. -/
def read (s : Scopes) (id : ScopeId) (address : Address) : Except Violation (Option Value) := do
  let target ← s.reach address.distance id
  return (s.slot? target address.index).map Slot.value

def put (id : ScopeId) (index : Nat) (value : Value) (s : Scopes) : Scopes :=
  ⟨s.entries.modify id.index fun scope =>
    { scope with slots := scope.slots.modify index ({ · with value }) }⟩

/-- Overwrites a slot. There is no result if the slot does not exist. -/
def assign (s : Scopes) (id : ScopeId) (address : Address) (value : Value) :
    Except Violation (Option Scopes) := do
  let target ← s.reach address.distance id
  match s.slot? target address.index with
  | some _ => return some (s.put target address.index value)
  | none => return none

end Scopes

end Lox
