import Lox.Machine

/-!
Sources made ready to run: scanned, parsed and resolved, without running any of them.
-/

namespace Lox.Eval

/-- Scans and parses a source. Its references are numbered on from those of earlier sources. -/
def parseWith (parser : List Token → NodeId → Except ParseError α × Cursor) (source : String) :
    Eval (Except Failure α) := do
  match scan source with
  | .error e => return .error (.lex e)
  | .ok tokens =>
    let (parsed, cursor) := parser tokens (← get).nextNode
    modify fun m => { m with nextNode := cursor.nextNode }
    return parsed.mapError .parse

/-- A resolution pass over a tree. -/
abbrev Pass (α : Type) :=
  α → Registry → Except (List Diagnostic) (List Diagnostic) × Registry

/-- Resolves a tree. What the pass registers stays, even if the tree is rejected. -/
def resolveWith (pass : Pass α) (tree : α) : Eval (Except Failure (List Diagnostic)) := do
  let (verdict, registry) := pass tree (← get).registry
  modify fun m => { m with registry }
  return verdict.mapError .resolve

/-- The tree of a source and the warnings about it. -/
def prepare (parser : List Token → NodeId → Except ParseError α × Cursor) (pass : Pass α)
    (source : String) : Eval (Except Failure (α × List Diagnostic)) := do
  match ← parseWith parser source with
  | .error failure => return .error failure
  | .ok tree =>
    match ← resolveWith pass tree with
    | .error failure => return .error failure
    | .ok warnings => return .ok (tree, warnings)

end Lox.Eval
