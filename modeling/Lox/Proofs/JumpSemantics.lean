import Lox.Evaluation

/-! A second semantics of `break` and `continue`. Here a signal is no way for a statement to end and
no error: it is a jump. When it is raised, it looks through all that is going on at that moment for
the innermost loop whose body is running, and everything inside that loop is left at once. -/

namespace Lox.Jump

/-- What is going on around the code that runs. -/
inductive Activity where
  | block
  | branch
  | call
  | getter
  | constructor
  | condition
  | increment
  | body
deriving DecidableEq

/-- The innermost loop whose body is running, given by how much goes on outside of it. -/
def target? : List Activity → Option Nat
  | [] => none
  | .body :: outer => some outer.length
  | _ :: outer => target? outer

/-- Why a run does not come to its end: what stops every evaluation, a jump to a loop, or a signal
that is raised while no body of a loop is running. -/
inductive Stop where
  | halt (halt : Halt)
  | jump (loop : Nat) (signal : Signal) (line : Nat)
  | stray (signal : Signal) (line : Nat)
deriving DecidableEq

/-- A computation that knows what is going on around it, innermost first. -/
abbrev Run := ReaderT (List Activity) (EStateM Stop Machine)

/-- How a statement ends, if it does. -/
inductive Ending where
  | normal
  | returned (value : Value)
deriving DecidableEq

/-- A step that raises no signal. -/
def lift (step : Eval α) : Run α := fun _ m =>
  match step m with
  | .ok value m => .ok value m
  | .error halt m => .error (.halt halt) m

def during (activity : Activity) (run : Run α) : Run α := fun stack => run (activity :: stack)

/-- Where a signal leads to that is raised while all this is going on. -/
def raised (stack : List Activity) (signal : Signal) (line : Nat) : Stop :=
  match target? stack with
  | some loop => .jump loop signal line
  | none => .stray signal line

def raise (signal : Signal) (line : Nat) : Run α := fun stack => throw (raised stack signal line)

def within (scope : Option ScopeId) (body : Run α) : Run α := fun stack m =>
  let outer := m.active
  match body stack { m with active := scope } with
  | .ok value m => .ok value { m with active := outer }
  | .error stop m => .error stop { m with active := outer }

/-- Runs the body of a loop. Of all jumps only those to this loop end here. -/
def bodyOfLoop (run : Run Ending) : Run (Except Signal Ending) := fun stack m =>
  match run (.body :: stack) m with
  | .ok ending m => .ok (.ok ending) m
  | .error (.jump loop signal line) m =>
    if loop = stack.length then .ok (.error signal) m else .error (.jump loop signal line) m
  | .error stop m => .error stop m

/-- A source is run on its own: no loop outside of it is known. A signal that finds no loop is a
runtime error, as any other. -/
def settle (run : Run α) : Run (Except Failure α) := fun _ m =>
  match run [] m with
  | .ok value m => .ok (.ok value) m
  | .error (.halt (.error e)) m => .ok (.error (.runtime e)) m
  | .error (.stray signal line) m => .ok (.error (.runtime ⟨line, .escaped signal⟩)) m
  | .error stop m => .error stop m

/-- What the rules leave to others, as in the evaluation with signals. -/
structure Interpreter where
  evaluate : Expr → Run Value
  execute : Stmt → Run Ending
  turns : Nat

namespace Interpreter

open Eval

variable (I : Interpreter)

def evaluateAll : List Expr → Run (List Value)
  | [] => pure []
  | e :: es => do
    let value ← I.evaluate e
    return value :: (← evaluateAll es)

def executeAll : List Stmt → Run Ending
  | [] => pure .normal
  | s :: ss => do
    match ← I.execute s with
    | .normal => executeAll ss
    | .returned value => return .returned value

def interpret : List Stmt → Run Unit
  | [] => pure ()
  | s :: ss => do
    let _ ← I.execute s
    interpret ss

def runSource (source : String) : Run (Except Failure (List Diagnostic)) := do
  match ← lift (prepare parse resolve source) with
  | .error failure => return .error failure
  | .ok (program, warnings) =>
    lift (reportWarnings warnings)
    match ← settle (within none (I.interpret program)) with
    | .error failure => return .error failure
    | .ok () => return .ok warnings

def evaluateSource (source : String) : Run (Except Failure Value) := do
  match ← lift (prepare parseExpression resolveExpression source) with
  | .error failure => return .error failure
  | .ok (e, warnings) =>
    lift (reportWarnings warnings)
    settle (within none (I.evaluate e))

def runFile (path : Path) : Run (Except Failure (List Diagnostic)) := do
  match (← lift get).world.disk.readText path with
  | .error fault => return .error (.unreadable fault)
  | .ok source =>
    lift (remember path)
    I.runSource source

def load (line : Nat) (path : Path) : Run Unit := do
  match ← I.runFile path with
  | .ok _ => return ()
  | .error (.unreadable fault) => lift (fail line (.unreadable path fault))
  | .error failure => lift (report failure.message)

def loadAll (line : Nat) : List Path → Run Unit
  | [] => pure ()
  | path :: paths => do
    I.load line path
    loadAll line paths

/-- Only the functions that load files run code of a program. -/
def callNative (function : Native) (line : Nat) (arguments : List Value) : Run Value := do
  match function, arguments with
  | .loadFile, .string path :: _ =>
    I.load line path
    return .nil
  | .reload, _ =>
    I.loadAll line (← lift get).loaded
    return .nil
  | function, arguments => lift ((engine 0).callNative function line arguments)

def callClosure (f : Closure) (arguments : List Value) : Run Value := do
  let scope ← lift (newScope f.parent ((f.declaration.params.map Token.lexeme).zip arguments))
  match ← within (some scope) (I.executeAll f.declaration.body) with
  | .normal => if f.isInitializer then lift (Engine.receiver f) else return .nil
  | .returned value => if f.isInitializer then lift (Engine.receiver f) else return value

def instantiate (id : ClassId) (arguments : List Value) : Run Value := do
  let object ← lift (newInstance (.ofClass id))
  match (← lift get).store.initializer? id with
  | none => return object
  | some f =>
    let _ ← I.callClosure (← lift (bindThis f object)) arguments
    return object

def invoke (callee : Store.Callable) (line : Nat) (arguments : List Value) : Run Value :=
  match callee with
  | .function f => during .call (I.callClosure f arguments)
  | .native function => during .call (I.callNative function line arguments)
  | .classRef id => during .constructor (I.instantiate id arguments)

def call (callee : Value) (line : Nat) (arguments : List Value) : Run Value := do
  let store := (← lift get).store
  match store.callable? callee with
  | none => lift (fail line .notCallable)
  | some callable =>
    let arity := store.arity callable
    if arguments.length = arity then I.invoke callable line arguments
    else lift (fail line (.argumentCount arity arguments.length))

def readMethod (m : Method) (this : Value) : Run Value := do
  let f ← lift (bindThis m.closure this)
  if m.isGetter then during .getter (I.callClosure f []) else lift (newFunction f)

def getProperty (object : Value) (name : Token) : Run Value := do
  let store := (← lift get).store
  match store.descriptor? object with
  | none => lift (fail name.line .noProperties)
  | some descriptor =>
    match store.field? object name.lexeme with
    | some value => return value
    | none =>
      match store.methodOf? name.lexeme descriptor with
      | some m => I.readMethod m object
      | none => lift (fail name.line (.undefinedProperty name.lexeme))

def setProperty (object : Value) (name : Token) (value : Expr) : Run Value := do
  match (← lift get).store.descriptor? object with
  | none => lift (fail name.line .noFields)
  | some _ =>
    let value ← I.evaluate value
    lift (modifyStore (·.setField object name.lexeme value))
    return value

def superMethod (keyword : Reference) (method : Token) : Run Value := do
  match ← lift (address? keyword) with
  | none => lift (fail keyword.name.line .superUnbound)
  | some address =>
    let (id, this) ← lift (Engine.superAndThis keyword.name.line address.distance)
    match (← lift get).store.method? method.lexeme id with
    | some m => I.readMethod m this
    | none => lift (fail method.line (.undefinedProperty method.lexeme))

def evaluateRule : Expr → Run Value
  | .assign target value => do
    let value ← I.evaluate value
    lift (writeVariable target value)
    return value
  | .binary left operator right => do
    let left ← I.evaluate left
    let right ← I.evaluate right
    lift (binary operator left right)
  | .call callee paren arguments => do
    let callee ← I.evaluate callee
    let arguments ← I.evaluateAll arguments
    I.call callee paren.line arguments
  | .property object name => do
    let object ← I.evaluate object
    I.getProperty object name
  | .group inner => I.evaluate inner
  | .lambda f => do lift (newFunction ⟨f, (← lift get).active, false⟩)
  | .literal value => pure (.ofLiteral value)
  | .logical left operator right => do
    let left ← I.evaluate left
    if decides operator left then return left else I.evaluate right
  | .setProperty object name value => do
    let object ← I.evaluate object
    I.setProperty object name value
  | .superRef keyword method => I.superMethod keyword method
  | .ternary condition thenValue elseValue => do
    if (← I.evaluate condition).isTruthy then I.evaluate thenValue else I.evaluate elseValue
  | .thisRef keyword => lift (readVariable keyword)
  | .unary operator right => do
    let right ← I.evaluate right
    lift (unary operator right)
  | .varRef reference => lift (readVariable reference)

def betweenTurns : Option Expr → Run Unit
  | none => pure ()
  | some increment => do let _ ← during .increment (I.evaluate increment)

/-- One turn of a loop. `break` ends the loop, `continue` only this turn. -/
def turn (condition : Expr) (body : Stmt) (increment : Option Expr) : Run (Option Ending) := do
  if !(← during .condition (I.evaluate condition)).isTruthy then return some .normal
  match ← bodyOfLoop (I.execute body) with
  | .ok (.returned value) => return some (.returned value)
  | .error .exitLoop => return some .normal
  | .error .nextTurn | .ok .normal =>
    I.betweenTurns increment
    return none

def repeatUntil (step : Run (Option α)) : (turns : Nat) → Run α
  | 0 => lift exhausted
  | turns + 1 => do
    match ← step with
    | some result => return result
    | none => repeatUntil step turns

/-- Declarations of classes, traits and functions run no code of the program. -/
def executeRule : Stmt → Run Ending
  | .block body => do
    let scope ← lift (newScope (← lift get).active [])
    during .block (within (some scope) (I.executeAll body))
  | .classDecl declaration => do
    lift ((engine 0).declareClass declaration)
    return .normal
  | .expression value => do
    let _ ← I.evaluate value
    return .normal
  | .flow signal line => raise signal line
  | .functionDecl declaration => do
    lift (Engine.declareFunction declaration)
    return .normal
  | .ifElse condition thenBranch elseBranch => do
    if (← I.evaluate condition).isTruthy then during .branch (I.execute thenBranch)
    else match elseBranch with
      | some branch => during .branch (I.execute branch)
      | none => return .normal
  | .print value => do
    let result ← I.evaluate value
    lift (print value.line ((← lift (display result)) ++ "\n"))
    return .normal
  | .returns _ none => pure (.returned .nil)
  | .returns _ (some value) => do return .returned (← I.evaluate value)
  | .traitDecl declaration => do
    lift (Engine.declareTrait declaration)
    return .normal
  | .varDecl name value => do
    let value ← match value with
      | some value => I.evaluate value
      | none => pure .nil
    let _ ← lift (declare name.lexeme value)
    return .normal
  | .loop condition body increment => repeatUntil (I.turn condition body increment) I.turns

end Interpreter

/-- The rules tied together, up to the given depth. -/
def interpreter : (depth : Nat) → Interpreter
  | 0 => ⟨fun _ => lift Eval.exhausted, fun _ => lift Eval.exhausted, 0⟩
  | depth + 1 =>
    ⟨(interpreter depth).evaluateRule, (interpreter depth).executeRule, depth + 1⟩

end Lox.Jump
