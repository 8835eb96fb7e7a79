import Lox.Evaluation

/-!
Sessions: what a host can ask of a machine besides running sources. Here calls need not pass the
right number of arguments, and syntax trees may be run without having been resolved.
-/

namespace Lox

namespace Machine

/-- Runs a step to its end and gives what it left behind. -/
def perform (m : Machine) (body : Eval α) : Except Halt α × Machine :=
  match body m with
  | .ok value m => (.ok value, m)
  | .error halt m => (.error halt, m)

def global? (m : Machine) (name : String) : Option Value := m.globals[name]?

/-- The methods that a trait of this name asks for, as last resolved. -/
def requirements? (m : Machine) (name : String) : Option (List Requirement) :=
  m.registry.traits[name]?

end Machine

namespace Eval

/-- Runs a program; a failure is also written to the diagnostic sink. -/
def runReporting (source : String) : Eval (Except Failure (List Diagnostic)) := do
  let result ← run source
  if let .error failure := result then report failure.message
  return result

/-- An instance of the class of a class. -/
def callMetaclass (id : ClassId) : Eval Value := newInstance (.ofMetaclass id)

/-- The values of several expressions, or the first failure. -/
def evaluateSources : List String → Eval (Except Failure (List Value))
  | [] => return .ok []
  | source :: rest => do
    match ← evaluateSource source with
    | .error failure => return .error failure
    | .ok value =>
      match ← evaluateSources rest with
      | .error failure => return .error failure
      | .ok values => return .ok (value :: values)

/-- Calls a value with as many arguments as given. A value that cannot be called has no result. -/
def callWith (callee : String) (arguments : List String) (line : Nat) :
    Eval (Except Failure (Option Value)) := do
  match ← evaluateSource callee with
  | .error failure => return .error failure
  | .ok callee =>
    match ← evaluateSources arguments with
    | .error failure => return .error failure
    | .ok values =>
      match (← get).store.callable? callee with
      | none => return .ok none
      | some callable => settle (some <$> (engine ampleDepth).invoke callable line values)

/-- Runs a program whose names are all global. -/
def runUnresolved (source : String) : Eval (Except Failure Unit) := do
  match ← parseWith parse source with
  | .error failure => return .error failure
  | .ok program => settle ((engine ampleDepth).interpret program)

/-- The reference that an expression starts from. -/
def baseReference? : Expr → Option Reference
  | .assign target _ => some target
  | .superRef keyword _ => some keyword
  | .thisRef keyword => some keyword
  | .varRef reference => some reference
  | .call callee _ _ => baseReference? callee
  | .property object _ => baseReference? object
  | .group inner => baseReference? inner
  | _ => none

def recordAddress (reference : Reference) (address : Address) : Eval Unit :=
  modify fun m => { m with registry := { m.registry with
    addresses := m.registry.addresses.insert reference.id address } }

/-- Scopes inside one another, the outermost first; the result is the innermost. -/
def nestScopes : Option ScopeId → List (List Value) → Eval (Option ScopeId)
  | parent, [] => pure parent
  | parent, values :: rest => do
    let scope ← newScope parent (values.map fun v => ("", v))
    nestScopes (some scope) rest

/-- Evaluates an expression as it stands, with an address for its base and with new scopes around
it. -/
def evaluateUnresolved (source : String) (address : Option Address)
    (scopes : List (List Value)) : Eval (Except Failure Value) := do
  match ← parseWith parseExpression source with
  | .error failure => return .error failure
  | .ok e =>
    if let (some reference, some address) := (baseReference? e, address) then
      recordAddress reference address
    let scope ← nestScopes none scopes
    settle (within scope (evaluate ampleDepth e))

/-- Which operator node an operator is put into. -/
inductive Arity where
  | unary
  | binary (left : String)
  | logical (left : String)

/-- Applies any token as an operator. The operator is read first, then the right operand, then
the left one. -/
def operate (operator : String) (arity : Arity) (right : String) :
    Eval (Except Failure Value) := do
  match scan operator with
  | .error e => return .error (.lex e)
  | .ok tokens =>
    let token := tokens.headD (.eof 1)
    match ← parseWith parseExpression right with
    | .error failure => return .error failure
    | .ok right =>
      match arity with
      | .unary => settle (evaluate ampleDepth (.unary token right))
      | .binary left =>
        match ← parseWith parseExpression left with
        | .error failure => return .error failure
        | .ok left => settle (evaluate ampleDepth (.binary left token right))
      | .logical left =>
        match ← parseWith parseExpression left with
        | .error failure => return .error failure
        | .ok left => settle (evaluate ampleDepth (.logical left token right))

end Eval

end Lox
