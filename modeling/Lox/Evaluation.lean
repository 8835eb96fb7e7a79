import Lox.Evaluation.Engine

/-!
Evaluation: the rules tied together. The depth bounds both how far evaluations nest and how often
one loop turns; a run that stays below the bound does not depend on it.
-/

namespace Lox

/-- The engine that runs parts as given and reaches variables in the machine. -/
def Engine.over (evaluate : Expr → Eval Value) (execute : Stmt → Eval Completion)
    (turns : Nat) : Engine :=
  ⟨evaluate, execute, Eval.readVariable, Eval.writeVariable, Eval.bindThis, Eval.enterFunction,
    turns⟩

mutual

def evaluate : (depth : Nat) → Expr → Eval Value
  | 0, _ => Eval.exhausted
  | depth + 1, e => Engine.evaluateRule (.over (evaluate depth) (execute depth) depth) e

def execute : (depth : Nat) → Stmt → Eval Completion
  | 0, _ => Eval.exhausted
  | depth + 1, s => Engine.executeRule (.over (evaluate depth) (execute depth) depth) s

end

/-- The engine of a given depth. -/
def engine (depth : Nat) : Engine := .over (evaluate depth) (execute depth) depth

/-- A depth that no run reaches. -/
def ampleDepth : Nat := Nat.pow 2 60

namespace Eval

/-- Runs a program at top level. -/
def run (source : String) : Eval (Except Failure (List Diagnostic)) :=
  (engine ampleDepth).runSource source

/-- Runs a file and remembers its path. -/
def runFile (path : Path) : Eval (Except Failure (List Diagnostic)) :=
  (engine ampleDepth).runFile path

/-- The value of one expression at top level. -/
def evaluateSource (source : String) : Eval (Except Failure Value) :=
  (engine ampleDepth).evaluateSource source

end Eval

end Lox
