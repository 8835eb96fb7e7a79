import Lox.Evaluation

/-! Engines that come by their sources in another way. What an engine does to make a source ready, to
remember a file and to recall the files that it remembers is taken out of the rules; with the steps
of the machine itself in their place nothing has changed. -/

namespace Lox

/-- How sources are made ready, and how files are remembered and recalled. -/
structure Supply where
  program : String → Eval (Except Failure (List Stmt × List Diagnostic))
  expression : String → Eval (Except Failure (Expr × List Diagnostic))
  remember : Path → Eval Unit
  remembered : Eval (List Path)

/-- The steps of the machine itself. -/
def Supply.plain : Supply where
  program := Eval.prepare parse resolve
  expression := Eval.prepare parseExpression resolveExpression
  remember := Eval.remember
  remembered := do return (← get).loaded

namespace Engine

open Eval

variable (engine : Engine) (supply : Supply)

def runSourceFrom (source : String) : Eval (Except Failure (List Diagnostic)) := do
  match ← supply.program source with
  | .error failure => return .error failure
  | .ok (program, warnings) =>
    reportWarnings warnings
    match ← settle (within none (engine.interpret program)) with
    | .error failure => return .error failure
    | .ok () => return .ok warnings

def evaluateSourceFrom (source : String) : Eval (Except Failure Value) := do
  match ← supply.expression source with
  | .error failure => return .error failure
  | .ok (e, warnings) =>
    reportWarnings warnings
    settle (within none (engine.evaluate e))

def runFileFrom (path : Path) : Eval (Except Failure (List Diagnostic)) := do
  match (← get).world.disk.readText path with
  | .error fault => return .error (.unreadable fault)
  | .ok source =>
    supply.remember path
    engine.runSourceFrom supply source

def loadFrom (line : Nat) (path : Path) : Eval Unit := do
  match ← engine.runFileFrom supply path with
  | .ok _ => return ()
  | .error (.unreadable fault) => fail line (.unreadable path fault)
  | .error failure => report failure.message

def loadAllFrom (line : Nat) : List Path → Eval Unit
  | [] => pure ()
  | path :: paths => do
    engine.loadFrom supply line path
    loadAllFrom line paths

/-- Only the functions that run other sources depend on the supply. -/
def callNativeFrom (function : Native) (line : Nat) (arguments : List Value) : Eval Value := do
  match function, arguments with
  | .loadFile, .string path :: _ =>
    engine.loadFrom supply line path
    return .nil
  | .reload, _ =>
    engine.loadAllFrom supply line (← supply.remembered)
    return .nil
  | _, _ => engine.callNative function line arguments

def callFrom (callee : Value) (line : Nat) (arguments : List Value) : Eval Value :=
  match callee with
  | .native function =>
    if arguments.length = function.arity then engine.callNativeFrom supply function line arguments
    else engine.call callee line arguments
  | _ => engine.call callee line arguments

def evaluateRuleFrom : Expr → Eval Value
  | .call callee paren arguments => do
    let callee ← engine.evaluate callee
    let arguments ← engine.evaluateAll arguments
    engine.callFrom supply callee paren.line arguments
  | e => engine.evaluateRule e

end Engine

/-- The engine of a given depth with this supply. -/
def engineFrom (supply : Supply) : (depth : Nat) → Engine
  | 0 => .over (fun _ => Eval.exhausted) (fun _ => Eval.exhausted) 0
  | depth + 1 =>
    .over ((engineFrom supply depth).evaluateRuleFrom supply) (engineFrom supply depth).executeRule
      (depth + 1)

namespace Engine

variable (engine : Engine)

theorem call_native {function : Native} (fits : arguments.length = function.arity) :
    engine.call (.native function) line arguments = engine.callNative function line arguments := by
  funext m
  exact congrFun (if_pos fits) m

theorem loadAllFrom_plain (line : Nat) (paths : List Path) :
    engine.loadAllFrom .plain line paths = engine.loadAll line paths := by
  induction paths with
  | nil => rfl
  | cons path paths ih => exact congrArg (engine.load line path >>= fun _ => ·) ih

theorem callNativeFrom_plain (function : Native) (line : Nat) (arguments : List Value) :
    engine.callNativeFrom .plain function line arguments =
      engine.callNative function line arguments := by
  cases function with
  | clock | readLine | printw => rfl
  | loadFile =>
    cases arguments with
    | nil => rfl
    | cons value values => cases value <;> rfl
  | reload =>
    funext m
    change (engine.loadAllFrom .plain line m.loaded >>= fun _ => pure Value.nil) m = _
    rw [loadAllFrom_plain]
    rfl

theorem callFrom_plain (callee : Value) (line : Nat) (arguments : List Value) :
    engine.callFrom .plain callee line arguments = engine.call callee line arguments := by
  cases callee with
  | native function =>
    by_cases fits : arguments.length = function.arity
    · rw [engine.call_native fits, ← callNativeFrom_plain]
      exact if_pos fits
    · exact if_neg fits
  | _ => rfl

theorem evaluateRuleFrom_plain (e : Expr) :
    engine.evaluateRuleFrom .plain e = engine.evaluateRule e := by
  cases e with
  | call callee paren arguments =>
    unfold evaluateRuleFrom evaluateRule
    simp only [callFrom_plain]
  | _ => rfl

end Engine

theorem engineFrom_plain (depth : Nat) : engineFrom .plain depth = engine depth := by
  induction depth with
  | zero => rfl
  | succ depth ih =>
    unfold engineFrom
    rw [ih, funext (engine depth).evaluateRuleFrom_plain]
    rfl

end Lox
