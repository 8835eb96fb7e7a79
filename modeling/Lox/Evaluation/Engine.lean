import Lox.Evaluation.Operators
import Lox.Evaluation.Source

/-!
The rules of evaluation. Each rule says what one expression, statement or call does, in terms of
an engine that runs the expressions and statements inside it.
-/

namespace Lox

/-- How a statement ended. -/
inductive Completion where
  | normal
  | returned (value : Value)
  | flow (signal : Signal) (line : Nat)
deriving DecidableEq

/-- What the rules leave to others: to run what lies inside an expression or a statement, to reach
variables, to bind methods to receivers, and to enter functions. Loops may turn `turns` times. -/
structure Engine where
  evaluate : Expr → Eval Value
  execute : Stmt → Eval Completion
  read : Reference → Eval Value
  write : Reference → Value → Eval Unit
  bind : Closure → Value → Eval Closure
  enter : Closure → List Value → Eval ScopeId
  turns : Nat

namespace Engine

open Eval

variable (engine : Engine)

def evaluateAll : List Expr → Eval (List Value)
  | [] => pure []
  | e :: es => do
    let value ← engine.evaluate e
    return value :: (← evaluateAll es)

/-- Statements run one after the other until one does not end normally. -/
def executeAll : List Stmt → Eval Completion
  | [] => pure .normal
  | s :: ss => do
    match ← engine.execute s with
    | .normal => executeAll ss
    | completion => return completion

/-- Top-level statements. A signal that reaches the top is an error, a return is passed over. -/
def interpret : List Stmt → Eval Unit
  | [] => pure ()
  | s :: ss => do
    match ← engine.execute s with
    | .flow signal line => fail line (.escaped signal)
    | .normal | .returned _ => interpret ss

/-- Runs a source at top level, also when it is loaded from inside a function. The result are the
warnings, which are reported before the program starts. -/
def runSource (source : String) : Eval (Except Failure (List Diagnostic)) := do
  match ← prepare parse resolve source with
  | .error failure => return .error failure
  | .ok (program, warnings) =>
    reportWarnings warnings
    match ← settle (within none (engine.interpret program)) with
    | .error failure => return .error failure
    | .ok () => return .ok warnings

/-- The value of one expression at top level. -/
def evaluateSource (source : String) : Eval (Except Failure Value) := do
  match ← prepare parseExpression resolveExpression source with
  | .error failure => return .error failure
  | .ok (e, warnings) =>
    reportWarnings warnings
    settle (within none (engine.evaluate e))

/-- Runs a file and remembers it as soon as it has been read. -/
def runFile (path : Path) : Eval (Except Failure (List Diagnostic)) := do
  match (← get).world.disk.readText path with
  | .error fault => return .error (.unreadable fault)
  | .ok source =>
    remember path
    engine.runSource source

/-- Runs a file on behalf of a program, which sees only that the file cannot be read. Whatever
else goes wrong is reported. -/
def load (line : Nat) (path : Path) : Eval Unit := do
  match ← engine.runFile path with
  | .ok _ => return ()
  | .error (.unreadable fault) => fail line (.unreadable path fault)
  | .error failure => report failure.message

def loadAll (line : Nat) : List Path → Eval Unit
  | [] => pure ()
  | path :: paths => do
    engine.load line path
    loadAll line paths

def callNative (function : Native) (line : Nat) (arguments : List Value) : Eval Value := do
  match function, arguments with
  | .clock, _ => readClock
  | .readLine, _ => readLine line
  | .printw, [] => return .nil
  | .printw, value :: _ =>
    print line (← display value)
    return .nil
  | .loadFile, .string path :: _ =>
    engine.load line path
    return .nil
  | .loadFile, _ => fail line .pathNotString
  | .reload, _ =>
    engine.loadAll line (← get).loaded
    return .nil

/-- The receiver of a bound function: the first slot of its scope. -/
def receiver (f : Closure) : Eval Value := do
  let store := (← get).store
  return ((f.parent.bind (store.scopes.slot? · 0)).map Slot.value).getD .nil

/-- Runs the body of a function in a new scope with its parameters. An initializer gives back its
receiver, whatever it returns. -/
def callClosure (f : Closure) (arguments : List Value) : Eval Value := do
  let scope ← engine.enter f arguments
  match ← within (some scope) (engine.executeAll f.declaration.body) with
  | .flow signal line => fail line (.escaped signal)
  | .normal => if f.isInitializer then receiver f else return .nil
  | .returned value => if f.isInitializer then receiver f else return value

/-- A new instance, after its initializer has run. -/
def instantiate (id : ClassId) (arguments : List Value) : Eval Value := do
  let object ← newInstance (.ofClass id)
  match (← get).store.initializer? id with
  | none => return object
  | some f =>
    let _ ← engine.callClosure (← engine.bind f object) arguments
    return object

/-- A call with any number of arguments. -/
def invoke (callee : Store.Callable) (line : Nat) (arguments : List Value) : Eval Value :=
  match callee with
  | .function f => engine.callClosure f arguments
  | .native function => engine.callNative function line arguments
  | .classRef id => engine.instantiate id arguments

/-- A call in a program, which has to pass as many arguments as are asked for. -/
def call (callee : Value) (line : Nat) (arguments : List Value) : Eval Value := do
  let store := (← get).store
  match store.callable? callee with
  | none => fail line .notCallable
  | some callable =>
    let arity := store.arity callable
    if arguments.length = arity then engine.invoke callable line arguments
    else fail line (.argumentCount arity arguments.length)

/-- A method read from a receiver: a getter is run, any other method is bound. -/
def readMethod (m : Method) (this : Value) : Eval Value := do
  let f ← engine.bind m.closure this
  if m.isGetter then engine.callClosure f [] else newFunction f

/-- Fields come before methods. -/
def getProperty (object : Value) (name : Token) : Eval Value := do
  let store := (← get).store
  match store.descriptor? object with
  | none => fail name.line .noProperties
  | some descriptor =>
    match store.field? object name.lexeme with
    | some value => return value
    | none =>
      match store.methodOf? name.lexeme descriptor with
      | some m => engine.readMethod m object
      | none => fail name.line (.undefinedProperty name.lexeme)

def setProperty (object : Value) (name : Token) (value : Expr) : Eval Value := do
  match (← get).store.descriptor? object with
  | none => fail name.line .noFields
  | some _ =>
    let value ← engine.evaluate value
    modifyStore (·.setField object name.lexeme value)
    return value

/-- The class at the address of `super`, and the receiver in the scope just inside of it. -/
def superAndThis (line : Nat) (distance : Nat) : Eval (ClassId × Value) := do
  match (← slotValue ⟨distance, 0⟩).getD .nil with
  | .classRef id =>
    match distance with
    | 0 => throw (.violation .pastOutermost)
    | inner + 1 => return (id, (← slotValue ⟨inner, 0⟩).getD .nil)
  | other => fail line (.superNotClass (← display other))

/-- A method of the superclass, looked up from the class that `super` is bound to. -/
def superMethod (keyword : Reference) (method : Token) : Eval Value := do
  match ← address? keyword with
  | none => fail keyword.name.line .superUnbound
  | some address =>
    let (id, this) ← superAndThis keyword.name.line address.distance
    match (← get).store.method? method.lexeme id with
    | some m => engine.readMethod m this
    | none => fail method.line (.undefinedProperty method.lexeme)

def evaluateRule : Expr → Eval Value
  | .assign target value => do
    let value ← engine.evaluate value
    engine.write target value
    return value
  | .binary left operator right => do
    let left ← engine.evaluate left
    let right ← engine.evaluate right
    binary operator left right
  | .call callee paren arguments => do
    let callee ← engine.evaluate callee
    let arguments ← engine.evaluateAll arguments
    engine.call callee paren.line arguments
  | .property object name => do
    let object ← engine.evaluate object
    engine.getProperty object name
  | .group inner => engine.evaluate inner
  | .lambda f => do newFunction ⟨f, (← get).active, false⟩
  | .literal value => pure (.ofLiteral value)
  | .logical left operator right => do
    let left ← engine.evaluate left
    if decides operator left then return left else engine.evaluate right
  | .setProperty object name value => do
    let object ← engine.evaluate object
    engine.setProperty object name value
  | .superRef keyword method => engine.superMethod keyword method
  | .ternary condition thenValue elseValue => do
    if (← engine.evaluate condition).isTruthy then engine.evaluate thenValue
    else engine.evaluate elseValue
  | .thisRef keyword => engine.read keyword
  | .unary operator right => do
    let right ← engine.evaluate right
    unary operator right
  | .varRef reference => engine.read reference

def superclassOf : Option Reference → Eval (Option ClassId)
  | none => pure none
  | some reference => do
    match ← engine.read reference with
    | .classRef id => return some id
    | _ => fail reference.name.line .superclassNotClass

def traitsOf : List Reference → Eval (List TraitId)
  | [] => pure []
  | reference :: rest => do
    match ← engine.read reference with
    | .traitRef id => return id :: (← traitsOf rest)
    | _ => fail reference.name.line .notTrait

/-- Methods named `init` are initializers, static ones included. -/
def methodEntry (parent : Option ScopeId) (f : FunctionDecl) (isGetter : Bool) :
    String × Method :=
  (f.title, ⟨⟨f, parent, f.title = "init"⟩, isGetter⟩)

/-- The class that a declaration makes. Its methods close over the given scope. -/
def classOf (c : ClassDecl) (superclass : Option ClassId) (traits : List TraitId)
    (scope : Option ScopeId) : Class :=
  { name := c.name.lexeme, superclass, traits
    methods := .ofList (c.methods.map fun m => methodEntry scope m.function m.isGetter)
    statics := .ofList (c.statics.map fun f => methodEntry scope f false) }

/-- Enters a scope that holds the superclass, if there is one. -/
def enterSuper : Option ClassId → Eval Unit
  | none => pure ()
  | some id => do
    let scope ← newScope (← get).active [("super", .classRef id)]
    modify fun m => { m with active := some scope }

/-- A class is made in the scope that its methods close over, and bound to its name, when it is
complete, back in the scope of its declaration. -/
def declareClass (c : ClassDecl) : Eval Unit := do
  let superclass ← engine.superclassOf c.superclass
  let traits ← engine.traitsOf c.traits
  let binding ← declare c.name.lexeme .nil
  let enclosing := (← get).active
  enterSuper superclass
  let value ← newClass (classOf c superclass traits (← get).active)
  modify fun m => { m with active := enclosing }
  rebind binding c.name.lexeme value

/-- The default methods of a trait are neither getters nor initializers. -/
def declareTrait (t : TraitDecl) : Eval Unit := do
  let scope := (← get).active
  let methods := Methods.ofList
    (t.defaults.map fun f => (f.title, ⟨⟨f, scope, false⟩, false⟩))
  let value ← newTrait ⟨t.name.lexeme, methods⟩
  let _ ← declare t.name.lexeme value

def declareFunction (f : FunctionDecl) : Eval Unit := do
  let value ← newFunction ⟨f, (← get).active, false⟩
  let _ ← declare f.title value

/-- A signal raised inside a call reaches the loop as an error. -/
def catchSignal (body : Eval Completion) : Eval Completion := do
  match ← attempt body with
  | .ok completion => return completion
  | .error e =>
    match e.signal? with
    | some signal => return .flow signal e.line
    | none => throw (.error e)

/-- What a loop does between two turns. -/
def betweenTurns : Option Expr → Eval Unit
  | none => pure ()
  | some increment => do let _ ← engine.evaluate increment

/-- One turn of a loop; a result ends the loop. Only signals of the body concern this loop, those
of its condition and its increment belong to the loop around it. -/
def turn (condition : Expr) (body : Stmt) (increment : Option Expr) :
    Eval (Option Completion) := do
  if !(← engine.evaluate condition).isTruthy then return some .normal
  match ← catchSignal (engine.execute body) with
  | .returned value => return some (.returned value)
  | .flow .exitLoop _ => return some .normal
  | .flow .nextTurn _ | .normal =>
    engine.betweenTurns increment
    return none

/-- Repeats a step until it has a result. -/
def repeatUntil (step : Eval (Option α)) : (turns : Nat) → Eval α
  | 0 => exhausted
  | turns + 1 => do
    match ← step with
    | some result => return result
    | none => repeatUntil step turns

def executeRule : Stmt → Eval Completion
  | .block body => do
    let scope ← newScope (← get).active []
    within (some scope) (engine.executeAll body)
  | .classDecl declaration => do
    engine.declareClass declaration
    return .normal
  | .expression value => do
    let _ ← engine.evaluate value
    return .normal
  | .flow signal line => pure (.flow signal line)
  | .functionDecl declaration => do
    declareFunction declaration
    return .normal
  | .ifElse condition thenBranch elseBranch => do
    if (← engine.evaluate condition).isTruthy then engine.execute thenBranch
    else match elseBranch with
      | some branch => engine.execute branch
      | none => return .normal
  | .print value => do
    let result ← engine.evaluate value
    print value.line ((← display result) ++ "\n")
    return .normal
  | .returns _ none => pure (.returned .nil)
  | .returns _ (some value) => do return .returned (← engine.evaluate value)
  | .traitDecl declaration => do
    declareTrait declaration
    return .normal
  | .varDecl name value => do
    let value ← match value with
      | some value => engine.evaluate value
      | none => pure .nil
    let _ ← declare name.lexeme value
    return .normal
  | .loop condition body increment =>
    repeatUntil (engine.turn condition body increment) engine.turns

end Engine

end Lox
