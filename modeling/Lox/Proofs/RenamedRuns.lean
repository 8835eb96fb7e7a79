import Lox.Proofs.CorrespondingRuns
import Lox.Proofs.NumberedMachines
import Lox.Proofs.RenamedPrograms

/-! A local variable may have any name that its program does not use: under another name the
program is accepted as before, and does the same when it runs. Only the messages about the variable
itself tell the difference, and a class cannot mix in a trait under a name that no trait has. -/

namespace Lox

/-- Resolves a program that has been parsed and runs it at top level. -/
def Engine.runProgram (engine : Engine) (program : List Stmt) :
    Eval (Except Failure (List Diagnostic)) := do
  match ← Eval.resolveWith resolve program with
  | .error failure => return .error failure
  | .ok warnings =>
    Eval.reportWarnings warnings
    match ← Eval.settle (Eval.within none (engine.interpret program)) with
    | .error failure => return .error failure
    | .ok () => return .ok warnings

/-- To run a source is to parse it and to run the program. -/
theorem runSource_eq {E : Engine} {m : Machine} (scanned : scan source = .ok tokens)
    (parsed : parse tokens m.nextNode = (.ok program, cursor)) :
    E.runSource source m = E.runProgram program { m with nextNode := cursor.nextNode } := by
  refine (Eval.bind_of_ok (prepare_parsed scanned parsed)).trans ?_
  refine Eq.trans ?_ (Eval.bind_of_ok (resolveWith_eq resolve program)).symm
  dsimp only
  cases (resolve program m.registry).1 <;> rfl

namespace Renaming

variable {R : Renaming}

theorem runs_reportWarnings (rewords : R.Rewords k warnings warnings') :
    R.correspondence.Runs a Eq (Eval.reportWarnings warnings) (Eval.reportWarnings warnings') := by
  induction rewords with
  | nil => exact .pure rfl
  | keep d _ ih => exact .next (Correspondence.runs_report (.same _)) fun _ => ih
  | change _ ih => exact .next (Correspondence.runs_report (.unused _)) fun _ => ih

/-- The pass over the renamed program, if all that is asked of the program holds. -/
theorem resolve_renamed {program : List Stmt} (proper : Proper.stmts program)
    (numbered : Grammar.Numbered n (Reference.inStmts true program) n')
    (unused : ∀ id, n ≤ id → registry.addresses[id]? = none)
    (accepted : resolve program registry = (.ok warnings, ⟨R.addresses, traits⟩))
    (plain : Plain R.new) (fits : R.Fits (.toward path) (Mention.inStmts (.toward path) program)
      (Scoped.inStmts program)) :
    ∃ warnings', resolve (R.stmts (.toward path) program) registry =
        (.ok warnings', ⟨R.addresses, traits⟩) ∧ R.Rewords 1 warnings warnings' := by
  obtain ⟨clean, registered⟩ := Resolver.clean_of_verdict accepted
  let root := Site.top (.stmts program) registry
  have top : Accepted root root := ⟨proper, clean, numbered.distinct,
    fun r member => unused r.id (numbered.within r member).1, fun _ _ => rfl⟩
  have concerns : R.Concerns root := ⟨congrArg Registry.addresses registered, plain⟩
  have walked := stmts_carries concerns program top fits (fun inner => by cases inner) 0
    ⟨rfl, rfl, rfl, rfl, .refl 0 [], trivial⟩
  obtain ⟨faultless, rfl, known⟩ := Resolver.verdict_eq_ok.mp accepted
  exact ⟨_, Resolver.verdict_eq_ok.mpr ⟨walked.diagnostics.errors.trans faultless, rfl,
    walked.registry.trans known⟩, walked.diagnostics⟩

/-- Runs of a program and of the renamed one, once both have been resolved. -/
theorem runs_renamed (depth : Nat) {m : Machine} {program : List Stmt}
    (accepted : resolve program m.registry = (.ok warnings, registry))
    (accepted' : resolve (R.stmts (.toward path) program) m.registry = (.ok warnings', registry))
    (known : R.addresses = registry.addresses) (rewords : R.Rewords 1 warnings warnings') :
    (R.correspondence.lockstep m.active).Ends (Results R.correspondence.Failures (R.Rewords 1))
      ((engine depth).runProgram program m)
      ((engine depth).runProgram (R.stmts (.toward path) program) m) := by
  have resolved : Eval.resolveWith resolve program m = .ok (.ok warnings) { m with registry } := by
    rw [resolveWith_eq, accepted]
    rfl
  have resolved' : Eval.resolveWith resolve (R.stmts (.toward path) program) m =
      .ok (.ok warnings') { m with registry } := by
    rw [resolveWith_eq, accepted']
    rfl
  have machines : R.correspondence.Machines { m with registry } { m with registry } :=
    .refl (fun _ => rfl) _ fun id renamed => known ▸ renamed
  unfold Engine.runProgram
  rw [Eval.bind_of_ok resolved, Eval.bind_of_ok resolved']
  have alike :=
    R.stmts_alike (f := .toward path) (n := false) (fun _ inner => by cases inner) program
  refine Lockstep.Runs.next (runs_reportWarnings rewords) (fun _ =>
    .bind (Correspondence.runs_settle (Correspondence.runs_within none
      ((R.correspondence.engines depth).interpret (absurd · Bool.false_ne_true) alike)))
    fun result result' results => ?_) ⟨rfl, machines⟩
  cases results with
  | ok _ => exact .pure (.ok rewords)
  | error failures => exact .pure (.error failures)

end Renaming

/-- A variable or a parameter of the scope at the path, and the references that lead to it, are
renamed. The new name occurs nowhere in the program, and no class mixes the variable in. -/
theorem renamed_local_runs_alike (depth : Nat) {m : Machine}
    (scanned : scan source = .ok tokens)
    (parsed : parse tokens m.nextNode = (.ok program, cursor))
    (accepted : resolve program m.registry = (.ok warnings, registry))
    (numbered : m.Numbered) (declared : name ∈ Scoped.inStmts program path) (plain : Plain new)
    (fresh : ∀ mention ∈ Mention.inStmts (.toward path) program, mention.2.token.lexeme ≠ new)
    (unmixed : ∀ mention ∈ Mention.inStmts (.toward path) program,
      Renaming.mixes ⟨name, new, registry.addresses⟩ mention = false) :
    let R : Renaming := ⟨name, new, registry.addresses⟩
    ∃ warnings',
      resolve (R.stmts (.toward path) program) m.registry = (.ok warnings', registry) ∧
      R.Rewords 1 warnings warnings' ∧
      (R.correspondence.lockstep m.active).Ends (Results R.correspondence.Failures (R.Rewords 1))
        ((engine depth).runSource source m)
        ((engine depth).runProgram (R.stmts (.toward path) program)
          { m with nextNode := cursor.nextNode }) := by
  intro R
  obtain ⟨proper, counted⟩ := parse_proper scanned parsed
  have fits : R.Fits (.toward path) (Mention.inStmts (.toward path) program)
      (Scoped.inStmts program) :=
    ⟨fresh, unmixed, fun _ same => by cases same; exact declared, fun inner => by cases inner⟩
  obtain ⟨warnings', accepted', rewords⟩ :=
    Renaming.resolve_renamed proper counted numbered.unused accepted plain fits
  rw [runSource_eq scanned parsed]
  exact ⟨warnings', accepted', rewords, Renaming.runs_renamed depth
    (m := { m with nextNode := cursor.nextNode }) accepted accepted' rfl rewords⟩

/-- A parameter that a lambda captures, and a variable of the same name in a block. -/
def capturedParameter : String :=
  "fun f(a) \x7b var g = fun () \x7b return a; \x7d; \x7b var a = g(); print a; \x7d a = 2; " ++
    "return g(); \x7d print f(1);"

theorem renamed_capturedParameter : ∃ tokens cursor warnings registry,
    scan capturedParameter = .ok tokens ∧
    parse tokens 0 = (.ok (programOf capturedParameter), cursor) ∧
    resolve (programOf capturedParameter) {} = (.ok warnings, registry) ∧
    let R : Renaming := ⟨⟨.identifier, "a", 1⟩, "b", registry.addresses⟩
    ∃ warnings', resolve (R.stmts (.toward [false]) (programOf capturedParameter)) {} =
        (.ok warnings', registry) ∧
      R.Rewords 1 warnings warnings' ∧
      (R.correspondence.lockstep none).Ends (Results R.correspondence.Failures (R.Rewords 1))
        ((engine 20).runSource capturedParameter (.fresh {}))
        ((engine 20).runProgram (R.stmts (.toward [false]) (programOf capturedParameter))
          { Machine.fresh {} with nextNode := cursor.nextNode }) := by
  obtain ⟨tokens, cursor, scanned, parsed⟩ :=
    parsed_of_nonempty (show (programOf capturedParameter).isEmpty = false by decide +kernel)
  have accepted : (resolve (programOf capturedParameter) {}).1.isOk = true := by decide +kernel
  cases verdict : (resolve (programOf capturedParameter) {}).1 with
  | error diagnostics =>
    rw [verdict] at accepted
    cases accepted
  | ok warnings =>
    refine ⟨tokens, cursor, warnings, _, scanned, parsed, Prod.ext verdict rfl, ?_⟩
    have started : (engine 0).session [] (.fresh {}) = .ok () (.fresh {}) := rfl
    exact renamed_local_runs_alike 20 scanned parsed (Prod.ext verdict rfl)
      (session_numbered started) (by decide +kernel) ⟨by decide, by decide⟩ (by decide +kernel)
      (by decide +kernel)

/-- A class that mixes in a parameter. It is accepted as the parameter has the name of a trait. -/
def mixedInParameter : String :=
  "trait T \x7b m(); \x7d fun f(T) \x7b class A with T \x7b m() \x7b\x7d \x7d \x7d"

/-- What a pass says, and whether it accepts the program. -/
def remarks : Except (List Diagnostic) (List Diagnostic) → Bool × List String
  | .ok warnings => (true, warnings.map Diagnostic.message)
  | .error diagnostics => (false, diagnostics.map Diagnostic.message)

/-- The signatures of a trait are found by its name, so a parameter that is mixed in cannot be
renamed: the program is accepted, the renamed one is not. -/
theorem renamed_mixin_is_rejected :
    let program := programOf mixedInParameter
    let R : Renaming := ⟨⟨.identifier, "T", 1⟩, "y", (resolve program {}).2.addresses⟩
    R.name ∈ Scoped.inStmts program [true, false] ∧
    (∀ mention ∈ Mention.inStmts (.toward [true, false]) program,
      mention.2.token.lexeme ≠ R.new) ∧
    remarks (resolve program {}).1 = (true, ["[line 1] Warning: Unused variable 'A'."]) ∧
    remarks (resolve (R.stmts (.toward [true, false]) program) {}).1 =
      (false, ["[line 1] Error at 'y': Undefined trait 'y'.",
        "[line 1] Warning: Unused variable 'A'."]) := by
  decide +kernel

end Lox
