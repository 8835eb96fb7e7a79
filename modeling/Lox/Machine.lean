import Lox.Error
import Lox.Resolution
import Lox.Store
import Lox.World

/-!
The machine that runs programs: its state, and the steps that change it without running any code
of the program.
-/

namespace Lox

/-- Top-level code has no active scope. References are numbered across all sources that one
machine runs. -/
structure Machine where
  active : Option ScopeId := none
  globals : Std.TreeMap String Value := {}
  store : Store := {}
  registry : Registry := {}
  nextNode : NodeId := 0
  loaded : List Path := []
  world : World := {}

namespace Machine

/-- A machine that has not run anything yet. -/
def fresh (world : World) : Machine :=
  { globals := Native.all.foldl (fun g n => g.insert n.name (.native n)) {}, world }

end Machine

/-- Why an evaluation has no result. Only the first is an outcome of the program. -/
inductive Halt where
  | error (e : RuntimeError)
  | violation (v : Violation)
  | exhausted
deriving DecidableEq

abbrev Eval := EStateM Halt Machine

namespace Eval

def fail (line : Nat) (cause : RuntimeError.Cause) : Eval α :=
  throw (.error ⟨line, cause⟩)

def exhausted : Eval α := throw .exhausted

/-- Runs with another active scope. The previous one is active again afterwards, whatever
happens. -/
def within (scope : Option ScopeId) (body : Eval α) : Eval α := fun m =>
  let outer := m.active
  match body { m with active := scope } with
  | .ok value m => .ok value { m with active := outer }
  | .error halt m => .error halt { m with active := outer }

/-- Makes a program's error the result. -/
def attempt (body : Eval α) : Eval (Except RuntimeError α) := fun m =>
  match body m with
  | .ok value m => .ok (.ok value) m
  | .error (.error e) m => .ok (.error e) m
  | .error halt m => .error halt m

/-- Makes a program's error the failure of a source. -/
def settle (body : Eval α) : Eval (Except Failure α) := do
  match ← attempt body with
  | .ok value => return .ok value
  | .error e => return .error (.runtime e)

def modifyStore (f : Store → Store) : Eval Unit :=
  modify fun m => { m with store := f m.store }

def modifyScopes (f : Scopes → Scopes) : Eval Unit :=
  modifyStore fun s => { s with scopes := f s.scopes }

def activeScope : Eval ScopeId := do
  match (← get).active with
  | some id => return id
  | none => throw (.violation .noScope)

def lift (result : Except Violation α) : Eval α :=
  match result with
  | .ok value => pure value
  | .error v => throw (.violation v)

def address? (reference : Reference) : Eval (Option Address) := do
  return (← get).registry.addresses[reference.id]?

/-- The slot at an address, seen from the active scope. -/
def slotValue (address : Address) : Eval (Option Value) := do
  let id ← activeScope
  lift ((← get).store.scopes.read id address)

def orUndefined (name : Token) (value : Option α) : Eval α :=
  match value with
  | some value => pure value
  | none => fail name.line (.undefinedVariable name.lexeme)

/-- A reference with an address reads a slot, any other a global. The slot is missing while a
variable's own initializer runs. -/
def readVariable (reference : Reference) : Eval Value := do
  match ← address? reference with
  | some address => orUndefined reference.name (← slotValue address)
  | none => orUndefined reference.name ((← get).globals[reference.name.lexeme]?)

/-- Overwrites a variable that exists. -/
def writeVariable (reference : Reference) (value : Value) : Eval Unit := do
  match ← address? reference with
  | some address =>
    let id ← activeScope
    let target ← lift ((← get).store.scopes.reach address.distance id)
    let _ ← orUndefined reference.name ((← get).store.scopes.slot? target address.index)
    modifyScopes (·.put target address.index value)
  | none =>
    if (← get).globals.contains reference.name.lexeme then
      modify fun m => { m with globals := m.globals.insert reference.name.lexeme value }
    else fail reference.name.line (.undefinedVariable reference.name.lexeme)

/-- Where a declaration has put its variable: in a slot of the active scope, or among the
globals. -/
inductive Binding where
  | slot (index : Nat)
  | global
deriving DecidableEq

/-- Declares a variable: a new slot of the active scope, or a global. -/
def declare (name : String) (value : Value) : Eval Binding := do
  match (← get).active with
  | some id =>
    modifyScopes (·.define id name value)
    return .slot ((← get).store.scopes.nextSlot id - 1)
  | none =>
    modify fun m => { m with globals := m.globals.insert name value }
    return .global

/-- Gives a variable that has just been declared its final value. -/
def rebind (binding : Binding) (name : String) (value : Value) : Eval Unit :=
  match binding with
  | .slot index => do
    let id ← activeScope
    modifyScopes (·.put id index value)
  | .global => modify fun m => { m with globals := m.globals.insert name value }

/-- A new scope with the given slots. -/
def newScope (parent : Option ScopeId) (slots : List (String × Value)) : Eval ScopeId := do
  let id := (← get).store.scopes.nextId
  modifyScopes fun s =>
    slots.foldl (fun s slot => s.define id slot.1 slot.2) (s.create parent)
  return id

def newFunction (closure : Closure) : Eval Value := do
  modifyStore fun s => { s with functions := s.functions.push closure }
  return .functionRef ⟨(← get).store.functions.size - 1⟩

def newClass (c : Class) : Eval Value := do
  modifyStore fun s => { s with classes := s.classes.push c }
  return .classRef ⟨(← get).store.classes.size - 1⟩

def newTrait (t : Trait) : Eval Value := do
  modifyStore fun s => { s with traits := s.traits.push t }
  return .traitRef ⟨(← get).store.traits.size - 1⟩

def newInstance (descriptor : Descriptor) : Eval Value := do
  modifyStore fun s => { s with instances := s.instances.push { descriptor } }
  return .instanceRef ⟨(← get).store.instances.size - 1⟩

/-- A copy of a method whose scope, a new one, holds its receiver. -/
def bindThis (f : Closure) (this : Value) : Eval Closure := do
  let id ← newScope f.parent [("this", this)]
  return { f with parent := some id }

/-- A new scope for a call of a function, with its parameters and the arguments in their places. -/
def enterFunction (f : Closure) (arguments : List Value) : Eval ScopeId :=
  newScope f.parent ((f.declaration.params.map Token.lexeme).zip arguments)

def display (value : Value) : Eval String := do
  return (← get).store.display value

/-- Prints a text. That it cannot be written is an error, after what is taken is written. -/
def print (line : Nat) (text : String) : Eval Unit := do
  let fault := (← get).world.out.fault? text
  modify fun m => { m with world := { m.world with out := m.world.out.write text } }
  match fault with
  | some fault => fail line (.output fault)
  | none => pure ()

/-- Writes a line to the diagnostic sink; whether it is taken does not matter. -/
def report (text : String) : Eval Unit :=
  modify fun m => { m with world := { m.world with err := m.world.err.write (text ++ "\n") } }

def reportWarnings : List Diagnostic → Eval Unit
  | [] => pure ()
  | d :: ds => do
    report d.message
    reportWarnings ds

def readClock : Eval Value := do
  modify fun m => { m with world := m.world.tick }
  return .number ((← get).world.reading.toFloat / 1000)

/-- Drops the line ends that a line ends with. -/
def trimLine (line : List Char) : List Char :=
  (line.reverse.dropWhile fun c => c == '\r' || c == '\n').reverse

/-- The next line of the input, or `nil` at its end. A line that is not text is skipped. -/
def readLine (line : Nat) : Eval Value := do
  let input := (← get).world.input
  if input.isEmpty then return .nil
  let (bytes, rest) := World.splitLine input
  modify fun m => { m with world := { m.world with input := rest } }
  match Text.Utf8.decode? bytes with
  | some text => return .string (String.ofList (trimLine text.toList))
  | none => fail line .inputNotText

/-- Remembers a loaded file, unless its path is among those remembered. -/
def remember (path : Path) : Eval Unit :=
  modify fun m =>
    if m.loaded.any (Path.same path) then m else { m with loaded := m.loaded ++ [path] }

end Eval

end Lox
