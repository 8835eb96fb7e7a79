import Lox.Token

/-!
Diagnostics: what a resolution pass has to say about a program, and the wording of it.
-/

namespace Lox

/-- Why a program is rejected before it runs. -/
inductive Diagnostic.Cause where
  | redeclared
  | ownInitializer
  | returnOutside
  | returnFromInitializer
  | thisOutside
  | thisInStatic
  | superOutside
  | superInStatic
  | superWithoutSuperclass
  | selfInheritance
  | undefinedTrait (name : String)
  | wrongArity (method : String) (expected actual : Nat)
  | missingMethods (names : List String)
deriving DecidableEq

/-- An error is reported at a token, an unused variable at the line of its declaration. -/
inductive Diagnostic where
  | error (token : Token) (cause : Diagnostic.Cause)
  | unused (name : String) (line : Nat)
deriving DecidableEq

namespace Diagnostic

def Cause.message : Cause → String
  | redeclared => "Already a variable with this name in this scope."
  | ownInitializer => "Can't read local variable in its own initializer."
  | returnOutside => "Can't return from top-level code."
  | returnFromInitializer => "Can't return a value from an initializer."
  | thisOutside => "Can't use 'this' outside of a class."
  | thisInStatic => "Can't use 'this' within a static method."
  | superOutside => "Can't use 'super' outside of a class."
  | superInStatic => "Can't use 'super' within a static method."
  | superWithoutSuperclass => "Can't use 'super' in a class with no superclass."
  | selfInheritance => "A class can't inherit from itself."
  | undefinedTrait name => "Undefined trait '" ++ name ++ "'."
  | wrongArity method expected actual =>
    "Trait method '" ++ method ++ "' isn't implemented with correct arity. (Expected: " ++
      toString expected ++ "; Actual: " ++ toString actual ++ ")"
  | missingMethods names =>
    "Trait methods " ++ String.intercalate ", " (names.map fun n => "'" ++ n ++ "'") ++
      " not all properly implemented."

def isError : Diagnostic → Bool
  | error _ _ => true
  | unused _ _ => false

def message : Diagnostic → String
  | error token cause =>
    "[line " ++ toString token.line ++ "] Error" ++ token.location ++ ": " ++ cause.message
  | unused name line =>
    "[line " ++ toString line ++ "] Warning: Unused variable '" ++ name ++ "'."

end Diagnostic

end Lox
