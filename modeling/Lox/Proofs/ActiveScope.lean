import Lox.Proofs.CorrespondingRuns

/-! Whatever is run, and however it ends, the scope that was active before is active again. -/

namespace Lox

/-- However the evaluation ends, the active scope is the one that it started in. -/
def RestoresScope (p : Eval α) : Prop :=
  ∀ m, match p m with
    | .ok _ m' | .error _ m' => m'.active = m.active

/-- The correspondence of a machine with itself. -/
def Correspondence.identity : Correspondence where
  node := id
  injective := Function.injective_id
  renamed _ := False
  old := ""
  new := ""

namespace Correspondence.identity

theorem refers (r : Reference) : identity.likeness.refers r r := .refl rfl

/-- Lockstep fixes the active scope, and every machine is in lockstep with itself. -/
theorem restoresScope {V : α → α → Prop} {p : Eval α} (runs : ∀ scope, identity.Runs scope V p p) :
    RestoresScope p := by
  intro m
  have ended := runs m.active ⟨rfl, Machines.refl (fun _ => rfl) m fun _ renamed => renamed.elim⟩
  generalize p m = result at ended
  cases ended with
  | ok _ states => exact states.1
  | error _ states => exact states.1

end Correspondence.identity

open Correspondence Correspondence.identity

/-- A statement or an expression need not be resolved, and the machine may be in any state. -/
theorem active_scope_is_restored (depth : Nat) :
    (∀ s, RestoresScope (execute depth s)) ∧
    (∀ e, RestoresScope (evaluate depth e)) ∧
    (∀ scope body, RestoresScope (Eval.within (some scope) ((engine depth).executeAll body))) ∧
    (∀ callee line arguments, RestoresScope ((engine depth).call callee line arguments)) ∧
    (∀ program, RestoresScope ((engine depth).interpret program)) ∧
    (∀ source, RestoresScope ((engine depth).runSource source)) ∧
    (∀ path, RestoresScope ((engine depth).runFile path)) ∧
    (∀ source, RestoresScope ((engine depth).evaluateSource source)) := by
  have engines := identity.engines depth
  have outside {scope : Option ScopeId} : false = true → scope.isSome :=
    (absurd · Bool.false_ne_true)
  -- A tree in which no number changes is the same tree.
  have body (ss : List Stmt) : identity.likeness.Alike false (.stmts ss)
      (.stmts (Relabelling.identity.stmts ss)) :=
    Likeness.alike_stmts likeness_tolerant false ss fun r _ => refers r
  have stmt (s : Stmt) : identity.likeness.Alike false (.stmt s)
      (.stmt (Relabelling.identity.stmt s)) :=
    Likeness.alike_stmt likeness_tolerant false s fun r _ => refers r
  have expr (e : Expr) : identity.likeness.Alike false (.expr e)
      (.expr (Relabelling.identity.expr e)) :=
    Likeness.alike_expr likeness_tolerant false e fun r _ => refers r
  simp only [Relabelling.identity_stmts, Relabelling.identity_stmt,
    Relabelling.identity_expr] at body stmt expr
  refine ⟨fun s => ?_, fun e => ?_, fun scope ss => ?_, fun callee line arguments => ?_,
    fun program => ?_, fun source => ?_, fun path => ?_, fun source => ?_⟩
  · exact restoresScope fun _ => engines.execute outside (stmt s)
  · exact restoresScope fun _ => engines.evaluate (expr e)
  · exact restoresScope fun _ => runs_within (some scope) (engines.executeAll outside (body ss))
  · exact restoresScope fun _ => engines.call callee line arguments
  · exact restoresScope fun _ => engines.interpret outside (body program)
  · exact restoresScope fun _ => engines.runSource source
  · exact restoresScope fun _ => engines.runFile path
  · exact restoresScope fun _ => engines.evaluateSource source

end Lox
