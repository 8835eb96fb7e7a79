import Lox.Proofs.RejectedSources

/-! Sources that are not rejected. What such a source gives is what its program does at top level,
from a state in which its references have their addresses and its warnings have been reported. -/

namespace Lox

theorem Eval.within_eq_ok {body : Eval α} {m m' : Machine} :
    Eval.within scope body m = .ok a m' ↔ ∃ n,
      body { m with active := scope } = .ok a n ∧ m' = { n with active := m.active } := by
  unfold Eval.within
  cases body { m with active := scope } <;> simp [eq_comm]

theorem Eval.within_eq_error {body : Eval α} {m m' : Machine} :
    Eval.within scope body m = .error halt m' ↔ ∃ n,
      body { m with active := scope } = .error halt n ∧ m' = { n with active := m.active } := by
  unfold Eval.within
  cases body { m with active := scope } <;> simp [eq_comm]

theorem Eval.attempt_eq_ok {body : Eval α} {m n : Machine} :
    Eval.attempt body m = .ok (.ok a) n ↔ body m = .ok a n := by
  unfold Eval.attempt
  cases body m with
  | ok a n => simp
  | error halt n => cases halt <;> simp

theorem Eval.attempt_eq_error {body : Eval α} {m n : Machine} :
    Eval.attempt body m = .ok (.error e) n ↔ body m = .error (.error e) n := by
  unfold Eval.attempt
  cases body m with
  | ok a n => simp
  | error halt n => cases halt <;> simp

/-- An evaluation that ends in a value or in an error of the program. -/
inductive Eval.Settles (body : Eval α) (m : Machine) : Except Failure α → Machine → Prop where
  | ok (ran : body m = .ok a n) : Settles body m (.ok a) n
  | error (failed : body m = .error (.error e) n) : Settles body m (.error (.runtime e)) n

theorem Eval.settle_iff {body : Eval α} {m n : Machine} :
    Eval.settle body m = .ok result n ↔ body.Settles m result n := by
  constructor
  · intro settled
    obtain ⟨attempted, n', attempt, rest⟩ := Eval.bind_eq_ok settled
    cases attempted with
    | ok a =>
      cases rest
      exact .ok (Eval.attempt_eq_ok.mp attempt)
    | error e =>
      cases rest
      exact .error (Eval.attempt_eq_error.mp attempt)
  · intro settles
    cases settles with
    | ok ran => exact Eval.bind_of_ok (Eval.attempt_eq_ok.mpr ran)
    | error failed => exact Eval.bind_of_ok (Eval.attempt_eq_error.mpr failed)

theorem Eval.settles_within {body : Eval α} {m m' : Machine} :
    (Eval.within scope body).Settles m result m' ↔ ∃ n,
      body.Settles { m with active := scope } result n ∧ m' = { n with active := m.active } := by
  constructor
  · intro settles
    cases settles with
    | ok ran =>
      obtain ⟨n, inside, rfl⟩ := Eval.within_eq_ok.mp ran
      exact ⟨n, .ok inside, rfl⟩
    | error failed =>
      obtain ⟨n, inside, rfl⟩ := Eval.within_eq_error.mp failed
      exact ⟨n, .error inside, rfl⟩
  · rintro ⟨n, settles, rfl⟩
    cases settles with
    | ok ran => exact .ok (Eval.within_eq_ok.mpr ⟨n, ran, rfl⟩)
    | error failed => exact .error (Eval.within_eq_error.mpr ⟨n, failed, rfl⟩)

/-- The diagnostic sink after these diagnostics have been reported. -/
def Sink.reporting (diagnostics : List Diagnostic) (err : Sink) : Sink :=
  diagnostics.foldl (fun err d => err.write (d.message ++ "\n")) err

theorem reportWarnings_eq (warnings : List Diagnostic) (m : Machine) :
    Eval.reportWarnings warnings m =
      .ok () { m with world := { m.world with err := m.world.err.reporting warnings } } := by
  induction warnings generalizing m with
  | nil => rfl
  | cons d ds ih => exact ih _

/-- The machine accepts the source as this program, with these warnings. The references in it get
numbers up to the next one, and the registry knows their addresses. -/
inductive Machine.Accepts (m : Machine) (source : String) (program : List Stmt)
    (warnings : List Diagnostic) : (next : NodeId) → (known : Registry) → Prop where
  | of (scanned : scan source = .ok tokens)
    (parsed : parse tokens m.nextNode = (.ok program, cursor))
    (resolved : resolve program m.registry = (.ok warnings, known)) :
    Accepts m source program warnings cursor.nextNode known

/-- The machine just before it runs a program that it has accepted. -/
def Machine.ready (m : Machine) (warnings : List Diagnostic) (next : NodeId) (known : Registry) :
    Machine :=
  { m with
    active := none
    nextNode := next
    registry := known
    world := { m.world with err := m.world.err.reporting warnings } }

/-- To run a source that is accepted is to run its program. -/
theorem Machine.Accepts.runSource_iff {E : Engine} {m m' : Machine}
    (accepts : m.Accepts source program warnings next known) :
    E.runSource source m = .ok result m' ↔
      ∃ ended n, (E.interpret program).Settles (m.ready warnings next known) ended n ∧
        result = ended.map (fun _ => warnings) ∧ m' = { n with active := m.active } := by
  obtain ⟨scanned, parsed, resolved⟩ := accepts
  have prepared : Eval.prepare parse resolve source m = _ := prepare_parsed scanned parsed
  rw [resolved] at prepared
  have run : E.runSource source m = _ :=
    (Eval.bind_of_ok prepared).trans (Eval.bind_of_ok (reportWarnings_eq warnings _))
  rw [run]
  constructor
  · intro ran
    obtain ⟨ended, m', settled, rest⟩ := Eval.bind_eq_ok ran
    obtain ⟨n, settles, rfl⟩ := Eval.settles_within.mp (Eval.settle_iff.mp settled)
    refine ⟨ended, n, settles, ?_⟩
    cases ended with
    | error failure =>
      cases rest
      exact ⟨rfl, rfl⟩
    | ok _ =>
      cases rest
      exact ⟨rfl, rfl⟩
  · rintro ⟨ended, n, settles, rfl, rfl⟩
    refine (Eval.bind_of_ok (Eval.settle_iff.mpr (Eval.settles_within.mpr
      ⟨n, settles, rfl⟩))).trans ?_
    cases ended <;> rfl

/-- A source that is not rejected has been accepted. -/
theorem accepts_of_runSource {E : Engine} {m m' : Machine}
    (ran : E.runSource source m = .ok result m')
    (begun : ∀ failure, result = .error failure → failure.isStatic = false) :
    ∃ program warnings next known, m.Accepts source program warnings next known := by
  obtain ⟨prepared, n, before, rest⟩ := Eval.bind_eq_ok ran
  cases scanned : scan source with
  | error e =>
    cases (prepare_unscanned scanned).symm.trans before
    cases rest
    cases begun _ rfl
  | ok tokens =>
    cases outcome : parse tokens m.nextNode with
    | mk parsed cursor =>
      cases parsed with
      | error e =>
        cases (prepare_unparsed scanned outcome).symm.trans before
        cases rest
        cases begun _ rfl
      | ok program =>
        have ends := (prepare_parsed scanned outcome).symm.trans before
        cases verdict : (resolve program m.registry).1 with
        | ok warnings => exact ⟨program, warnings, _, _, .of scanned outcome (Prod.ext verdict rfl)⟩
        | error diagnostics =>
          rw [verdict] at ends
          cases ends
          cases rest
          cases begun _ rfl

namespace Machine.Accepts

variable {m : Machine}

theorem numbered (accepts : m.Accepts source program warnings next known) :
    Grammar.Numbered m.nextNode (Reference.inStmts true program) next := by
  cases accepts with
  | of scanned parsed _ => exact (parse_proper scanned parsed).2

/-- Nothing is known about the references outside the program that was not known before. -/
theorem addresses_eq (accepts : m.Accepts source program warnings next known) (id : NodeId)
    (outside : id < m.nextNode ∨ next ≤ id) :
    known.addresses[id]? = m.registry.addresses[id]? := by
  have numbered := accepts.numbered
  cases accepts with
  | of _ _ resolved =>
    obtain ⟨-, rfl⟩ := Resolver.clean_of_verdict resolved
    exact (Site.top (.stmts program) m.registry).final_kept numbered outside

end Machine.Accepts

theorem Engine.interpret_append (E : Engine) (ss ts : List Stmt) :
    E.interpret (ss ++ ts) = (do E.interpret ss; E.interpret ts) := by
  induction ss with
  | nil => rfl
  | cons s ss ih =>
    refine Eq.trans ?_ (bind_assoc ..).symm
    refine congrArg (E.execute s >>= ·) (funext fun completion => ?_)
    cases completion with
    | flow signal line => rfl
    | normal => exact ih
    | returned value => exact ih

theorem Engine.settles_append {E : Engine} (ran : E.interpret ss m = .ok () k)
    (settles : (E.interpret ts).Settles k ended n) :
    (E.interpret (ss ++ ts)).Settles m ended n := by
  have run : E.interpret (ss ++ ts) m = E.interpret ts k := by
    rw [E.interpret_append]
    exact Eval.bind_of_ok ran
  cases settles with
  | ok ran => exact .ok (run.trans ran)
  | error failed => exact .error (run.trans failed)

end Lox
