import Lox.Diagnostic
import Lox.Syntax
import Std.Data.TreeMap

/-!
The state of a resolution pass: the local scopes around the current point, what kind of function
and class it lies in, and what has been found so far.
-/

namespace Lox

/-- Where a variable lives: in the scope `distance` links outwards, in slot `index`. -/
structure Address where
  distance : Nat
  index : Nat
deriving DecidableEq, Inhabited

/-- A method that a trait asks for, by name and number of parameters. -/
abbrev Requirement := String × Nat

/-- What resolution passes leave behind for later: the addresses of references, and the methods
that each declared trait asks for. -/
structure Registry where
  addresses : Std.TreeMap NodeId Address := {}
  traits : Std.TreeMap String (List Requirement) := {}

/-- A declared variable. Its slot is its position among the variables of its scope. -/
structure Local where
  name : String
  line : Nat
  defined : Bool
  used : Bool
deriving DecidableEq

/-- The variables of one scope, in the order of their declaration. -/
abbrev Frame := List Local

namespace Frame

def declares (frame : Frame) (name : String) : Bool :=
  frame.any (·.name == name)

def slot? (frame : Frame) (name : String) : Option Nat :=
  frame.findIdx? (·.name == name)

def update (name : String) (f : Local → Local) (frame : Frame) : Frame :=
  frame.map fun v => if v.name = name then f v else v

/-- Whether the name stands for a variable of this scope whose initializer is being resolved. -/
def awaits (frame : Frame) (name : String) : Bool :=
  frame.any fun v => v.name == name && !v.defined

/-- The warnings about a scope that is left, in the order of declaration. -/
def warnings (frame : Frame) : List Diagnostic :=
  (frame.filter (!·.used)).map fun v => .unused v.name v.line

end Frame

/-- The innermost scope that declares the name, and the slot it has there. -/
def locate (name : String) : List Frame → Option Address
  | [] => none
  | frame :: outer =>
    match frame.slot? name with
    | some index => some ⟨0, index⟩
    | none => (locate name outer).map fun a => ⟨a.distance + 1, a.index⟩

/-- Marks the variable that `locate` finds as used. -/
def markUsed (name : String) : List Frame → List Frame
  | [] => []
  | frame :: outer =>
    if frame.declares name then frame.update name ({ · with used := true }) :: outer
    else frame :: markUsed name outer

inductive FunctionKind where
  | none
  | function
  | initializer
  | method
deriving DecidableEq

inductive ClassKind where
  | none
  | plain
  | subclass
  | static
  | trait
deriving DecidableEq

/-- The scopes stand innermost first; top-level code has none. -/
structure Resolver where
  frames : List Frame := []
  functionKind : FunctionKind := .none
  classKind : ClassKind := .none
  diagnostics : List Diagnostic := []
  registry : Registry

namespace Resolver

def error (token : Token) (cause : Diagnostic.Cause) (r : Resolver) : Resolver :=
  { r with diagnostics := r.diagnostics ++ [.error token cause] }

def openScope (r : Resolver) : Resolver :=
  { r with frames := [] :: r.frames }

/-- Leaves the innermost scope and warns about its unused variables. -/
def closeScope (r : Resolver) : Resolver :=
  match r.frames with
  | [] => r
  | frame :: outer =>
    { r with frames := outer, diagnostics := r.diagnostics ++ frame.warnings }

def extend (v : Local) (r : Resolver) : Resolver :=
  match r.frames with
  | [] => r
  | frame :: outer => { r with frames := (frame ++ [v]) :: outer }

/-- Opens the scope of `this` or `super`, which nobody declares and nobody has to use. -/
def openBound (name : String) (r : Resolver) : Resolver :=
  r.openScope.extend ⟨name, 0, true, true⟩

/-- Top-level declarations have no slot. A second declaration of a name in one scope is an error
and leaves the first in place. -/
def declare (name : Token) (r : Resolver) : Resolver :=
  match r.frames with
  | [] => r
  | frame :: _ =>
    if frame.declares name.lexeme then r.error name .redeclared
    else r.extend ⟨name.lexeme, name.line, false, false⟩

def define (name : Token) (r : Resolver) : Resolver :=
  match r.frames with
  | [] => r
  | frame :: outer =>
    { r with frames := frame.update name.lexeme ({ · with defined := true }) :: outer }

def introduce (name : Token) (r : Resolver) : Resolver :=
  (r.declare name).define name

/-- Records the address of a reference. One that no scope declares stays global. -/
def bind (reference : Reference) (r : Resolver) : Resolver :=
  match locate reference.name.lexeme r.frames with
  | none => r
  | some address =>
    { r with
      frames := markUsed reference.name.lexeme r.frames
      registry := { r.registry with
        addresses := r.registry.addresses.insert reference.id address } }

/-- A variable may not be read in its own initializer; its address is recorded all the same. -/
def read (reference : Reference) (r : Resolver) : Resolver :=
  let awaited := match r.frames with
    | [] => false
    | frame :: _ => frame.awaits reference.name.lexeme
  (if awaited then r.error reference.name .ownInitializer else r).bind reference

end Resolver

end Lox
