import Lox.Resolution.Scope
import Lox.Syntax.Parser
import Lox.Token.Scanner
import Lox.World.Disk

/-!
Errors: why a program stops while it runs, and why a source cannot be run to its end.
-/

namespace Lox

inductive RuntimeError.Cause where
  | undefinedVariable (name : String)
  | undefinedProperty (name : String)
  | noFields
  | noProperties
  | notCallable
  | argumentCount (expected actual : Nat)
  | operandNotNumber
  | operandsNotNumbers
  | divisionByZero
  | invalidUnary (operator : String)
  | invalidBinary (operator : String)
  | superclassNotClass
  | notTrait
  | superUnbound
  | superNotClass (text : String)
  | output (fault : String)
  | inputNotText
  | pathNotString
  | unreadable (path : Path) (fault : ReadFault)
  | escaped (signal : Signal)
deriving DecidableEq

/-- A signal that leaves a function or a program is an error too, until a loop takes it. -/
structure RuntimeError where
  line : Nat
  cause : RuntimeError.Cause
deriving DecidableEq

namespace RuntimeError

def Cause.message : Cause → String
  | undefinedVariable name => "Undefined variable '" ++ name ++ "'."
  | undefinedProperty name => "Undefined property '" ++ name ++ "'."
  | noFields => "Only instances have fields."
  | noProperties => "Only instances have properties."
  | notCallable => "Can only call functions and classes."
  | argumentCount expected actual =>
    "Expected " ++ toString expected ++ " arguments but got " ++ toString actual ++ "."
  | operandNotNumber => "Operand must be a number."
  | operandsNotNumbers => "Operands must be numbers."
  | divisionByZero => "Division by zero."
  | invalidUnary operator => "Invalid unary operator '" ++ operator ++ "'."
  | invalidBinary operator => "Invalid binary operator '" ++ operator ++ "'."
  | superclassNotClass => "Superclass must be a class."
  | notTrait => "Can only mix in traits."
  | superUnbound => "Can't use 'super' here."
  | superNotClass text => "'super' is bound to '" ++ text ++ "', not a class."
  | output fault => "Output error: " ++ fault
  | inputNotText => "Could not read input: stream did not contain valid UTF-8"
  | pathNotString => "loadFile expects a path string."
  | unreadable path fault => "Could not read file '" ++ path ++ "': " ++ fault.message
  | escaped _ => "Flow statement outside of loop."

def message (e : RuntimeError) : String :=
  e.cause.message ++ "\n[line " ++ toString e.line ++ "]"

/-- The signal that the error stands for, if it does. -/
def signal? (e : RuntimeError) : Option Signal :=
  match e.cause with
  | .escaped signal => some signal
  | _ => none

end RuntimeError

/-- Why a source was not run to its end. -/
inductive Failure where
  | lex (error : LexError)
  | parse (error : ParseError)
  | resolve (diagnostics : List Diagnostic)
  | runtime (error : RuntimeError)
  | unreadable (fault : ReadFault)
deriving DecidableEq

namespace Failure

def message : Failure → String
  | lex error => error.message
  | parse error => error.message
  | resolve diagnostics => String.intercalate "\n" (diagnostics.map Diagnostic.message)
  | runtime error => error.message
  | unreadable fault => fault.message

def exitCode : Failure → Nat
  | lex _ | parse _ | resolve _ => 65
  | runtime _ => 70
  | unreadable _ => 74

end Failure

end Lox
