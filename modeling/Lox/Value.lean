import Lox.Syntax

/-!
Values of a running program. Scopes, functions, classes, traits and instances are shared, so a
value only names them.
-/

namespace Lox

structure ScopeId where
  index : Nat
deriving DecidableEq, Inhabited

structure FunctionId where
  index : Nat
deriving DecidableEq, Inhabited

structure ClassId where
  index : Nat
deriving DecidableEq, Inhabited

structure TraitId where
  index : Nat
deriving DecidableEq, Inhabited

structure InstanceId where
  index : Nat
deriving DecidableEq, Inhabited

/-- The functions that every program finds among its globals. -/
inductive Native where
  | clock
  | readLine
  | printw
  | loadFile
  | reload
deriving DecidableEq, Inhabited

namespace Native

def all : List Native := [clock, readLine, printw, loadFile, reload]

def name : Native → String
  | clock => "clock"
  | readLine => "readLine"
  | printw => "printw"
  | loadFile => "loadFile"
  | reload => "reload"

def arity : Native → Nat
  | clock | readLine | reload => 0
  | printw | loadFile => 1

end Native

inductive Value where
  | nil
  | bool (value : Bool)
  | number (value : Float)
  | string (value : String)
  | functionRef (id : FunctionId)
  | native (function : Native)
  | classRef (id : ClassId)
  | instanceRef (id : InstanceId)
  | traitRef (id : TraitId)
deriving DecidableEq, Inhabited

namespace Value

def ofLiteral : Literal → Value
  | .nil => .nil
  | .bool value => .bool value
  | .number value => .number value
  | .string value => .string value

/-- Everything counts as true but `nil` and `false`. -/
def isTruthy : Value → Bool
  | .nil => false
  | .bool value => value
  | _ => true

/-- The equality of the language: numbers compare as numbers, so that not-a-number differs from
itself and the two zeros are equal; objects are equal if they are the same object. -/
def equals : Value → Value → Bool
  | .number a, .number b => a == b
  | a, b => a = b

/-- The name of a value's type. -/
def typeName : Value → String
  | .nil => "nil"
  | .bool _ => "bool"
  | .number _ => "number"
  | .string _ => "string"
  | .functionRef _ => "function"
  | .native _ => "native"
  | .classRef _ => "class"
  | .instanceRef _ => "instance"
  | .traitRef _ => "trait"

end Value

end Lox
