import Lox.Proofs.CorrespondingRuns
import Lox.Proofs.NumberedMachines
import Lox.Proofs.RegisteredTraits

/-! A source that is rejected before it runs leaves no trace but the signatures of the traits that
it declares: all that a machine can be asked later it answers as if only these signatures had been
registered. -/

namespace Lox

/-- Whether the failure is found before anything of the source has run. -/
def Failure.isStatic : Failure → Bool
  | lex _ | parse _ | resolve _ => true
  | runtime _ | unreadable _ => false

/-- The traits that are declared in a source; there are none if it cannot be parsed. -/
def traitsIn (parser : List Token → NodeId → Except ParseError α × Cursor)
    (traits : α → List TraitDecl) (source : String) (nextNode : NodeId) : List TraitDecl :=
  match scan source with
  | .error _ => []
  | .ok tokens =>
    match (parser tokens nextNode).1 with
    | .error _ => []
    | .ok tree => traits tree

/-- The state after a source has been rejected. Numbers have been given out, addresses have been
recorded for references that nothing holds, and traits have been registered. -/
structure Rejected (traits : List TraitDecl) (m m' : Machine) : Prop where
  rest : m' = { m with registry := m'.registry, nextNode := m'.nextNode }
  numbers : m.nextNode ≤ m'.nextNode
  addresses : ∀ id, id < m.nextNode ∨ m'.nextNode ≤ id →
    m'.registry.addresses[id]? = m.registry.addresses[id]?
  traits : m'.registry.traits = registered traits m.registry.traits

section

variable {parser : List Token → NodeId → Except ParseError α × Cursor} {pass : Eval.Pass α}
  {part : α → Part} {traits : α → List TraitDecl} {source : String} {m m' : Machine}
  {failure : Failure}

theorem rejected_of_prepare (reads : Reads parser pass part)
    (registers : ∀ tree registry,
      (pass tree registry).2.traits = registered (traits tree) registry.traits)
    (run : Eval.prepare parser pass source m = .ok (.error failure) m') :
    Rejected (traitsIn parser traits source m.nextNode) m m' := by
  unfold traitsIn
  cases scanned : scan source with
  | error e =>
    cases (prepare_unscanned scanned).symm.trans run
    exact ⟨rfl, Nat.le_refl _, fun _ _ => rfl, rfl⟩
  | ok tokens =>
    have counted := reads.counts tokens m.nextNode
    dsimp only
    cases outcome : parser tokens m.nextNode with
    | mk parsed cursor =>
      rw [outcome] at counted
      cases parsed with
      | error e =>
        cases (prepare_unparsed scanned outcome).symm.trans run
        exact ⟨rfl, counted, fun _ _ => rfl, rfl⟩
      | ok tree =>
        have ends := (prepare_parsed scanned outcome).symm.trans run
        cases verdict : (pass tree m.registry).1 with
        | ok warnings =>
          rw [verdict] at ends
          cases ends
        | error diagnostics =>
          rw [verdict] at ends
          cases ends
          refine ⟨rfl, counted, fun id outside => ?_, registers tree m.registry⟩
          obtain ⟨-, numbered⟩ := reads.proper scanned outcome
          have kept := (Site.top (part tree) m.registry).final_kept numbered outside
          exact (congrArg (fun registry => registry.2.addresses[id]?)
            (reads.resolves tree m.registry)).trans kept

/-- What goes wrong while a program runs is a runtime error. -/
theorem settle_error {p : Eval α} (run : Eval.settle p m = .ok (.error failure) m') :
    failure.isStatic = false := by
  obtain ⟨attempted, m₁, -, rest⟩ := Eval.bind_eq_ok run
  cases attempted with
  | ok value => cases rest
  | error e =>
    cases rest
    rfl

/-- A source that is rejected is rejected before it runs. -/
theorem runSource_rejected {E : Engine} (static : failure.isStatic = true)
    (run : E.runSource source m = .ok (.error failure) m') :
    Eval.prepare parse resolve source m = .ok (.error failure) m' := by
  obtain ⟨prepared, m₁, before, rest⟩ := Eval.bind_eq_ok run
  cases prepared with
  | error e =>
    cases rest
    exact before
  | ok unit =>
    obtain ⟨-, m₂, -, rest⟩ := Eval.bind_eq_ok rest
    obtain ⟨settled, m₃, last, rest⟩ := Eval.bind_eq_ok rest
    cases settled with
    | error e =>
      cases rest
      cases (settle_error last).symm.trans static
    | ok _ => cases rest

theorem evaluateSource_rejected {E : Engine} (static : failure.isStatic = true)
    (run : E.evaluateSource source m = .ok (.error failure) m') :
    Eval.prepare parseExpression resolveExpression source m = .ok (.error failure) m' := by
  obtain ⟨prepared, m₁, before, rest⟩ := Eval.bind_eq_ok run
  cases prepared with
  | error e =>
    cases rest
    exact before
  | ok unit =>
    obtain ⟨-, m₂, -, last⟩ := Eval.bind_eq_ok rest
    cases (settle_error last).symm.trans static

end

/-- What a host is told about one of its steps. -/
inductive Answer where
  | ran (result : Except Failure (List Diagnostic))
  | evaluated (result : Except Failure Value)
  | done

namespace Engine

/-- A step of a host with the answer to it. -/
def answer (engine : Engine) : HostStep → Eval Answer
  | .run source => do return .ran (← engine.runSource source)
  | .runFile path => do return .ran (← engine.runFile path)
  | .evaluate source => do return .evaluated (← engine.evaluateSource source)
  | .surround world => do
    modify fun m => { m with world }
    return .done

def answers (engine : Engine) : List HostStep → Eval (List Answer)
  | [] => pure []
  | step :: steps => do
    let answer ← engine.answer step
    return answer :: (← engine.answers steps)

end Engine

/-- Machines that show a host the same. They may have numbered their references differently. -/
structure Machine.LooksLike (m m' : Machine) : Prop where
  active : m'.active = m.active
  globals : m'.globals = m.globals
  instances : m'.store.instances = m.store.instances
  texts : ∀ value, m'.store.display value = m.store.display value
  traits : m'.registry.traits = m.registry.traits
  loaded : m'.loaded = m.loaded
  world : m'.world = m.world

/-- Runs that end alike and leave machines behind that look alike. -/
def lookalikes : Lockstep Halt Machine Halt Machine := ⟨Machine.LooksLike, Eq⟩

namespace Correspondence

/-- Numbers from `n` on are shifted, and nothing is renamed. -/
def shift (n k : Nat) : Correspondence where
  node id := if id < n then id else id + k
  injective := by
    intro (a : Nat) (b : Nat) same
    change (if a < n then a else a + k) = (if b < n then b else b + k) at same
    split at same <;> split at same
    · exact same
    · omega
    · omega
    · exact Nat.add_right_cancel same
  renamed _ := False
  old := ""
  new := ""

theorem shift_below {id n k : Nat} (below : id < n) : (shift n k).node id = id := if_pos below

theorem shift_above (n k i : Nat) : (shift n k).node (n + i) = n + k + i := by
  refine (if_neg (Nat.not_lt.mpr (Nat.le_add_right n i))).trans ?_
  exact Nat.add_right_comm n i k

section

variable {C : Correspondence} (same : C.new = C.old)
include same

theorem Errors.eq (errors : C.Errors e e') : e' = e := by
  cases errors with
  | same => rfl
  | undefined line => rw [same]

theorem Halts.eq (halts : C.Halts h h') : h = h' := by
  cases halts with
  | error errors => rw [errors.eq same]
  | violation | exhausted => rfl

theorem Failures.eq (failures : C.Failures f f') : f = f' := by
  cases failures with
  | same => rfl
  | runtime errors => rw [errors.eq same]

theorem Sinks.eq (sinks : C.Sinks s s') : s' = s := by
  induction sinks with
  | same => rfl
  | write _ texts ih =>
    cases texts with
    | same => rw [ih]
    | undefined line | unused line => rw [ih, same]

theorem results_eq {result result' : Except Failure α}
    (results : Results C.Failures Eq result result') :
    result = result' := by
  cases results with
  | ok values => rw [values]
  | error failures => rw [failures.eq same]

theorem Machines.looksLike (machines : C.Machines m m') : m.LooksLike m' where
  active := machines.active
  globals := machines.globals
  instances := machines.store.instances
  texts := machines.store.display_eq
  traits := machines.registry.traits
  loaded := machines.loaded
  world := by
    obtain ⟨out, err, input, disk, clock, time⟩ := machines.world
    have err := err.eq same
    cases world : m.world
    cases world' : m'.world
    simp_all

theorem Engines.answer {E : Engine} (runs : C.Engines E) (step : HostStep) :
    C.Runs a Eq (E.answer step) (E.answer step) := by
  cases step with
  | run source =>
    exact (runs.runSource source).bind fun _ _ results =>
      .pure (congrArg Answer.ran (results_eq same results))
  | runFile path =>
    exact (runs.runFile path).bind fun _ _ results =>
      .pure (congrArg Answer.ran (results_eq same results))
  | evaluate source =>
    exact (runs.evaluateSource source).bind fun _ _ results =>
      .pure (congrArg Answer.evaluated (results_eq same results))
  | surround world =>
    refine .next (.modify fun m m' states => ?_) fun _ => .pure rfl
    exact ⟨states.1, { states.2 with world := ⟨rfl, .same _, rfl, rfl, rfl, rfl⟩ }⟩

theorem Engines.answers {E : Engine} (runs : C.Engines E) (steps : List HostStep) :
    C.Runs a Eq (E.answers steps) (E.answers steps) := by
  induction steps with
  | nil => exact .pure rfl
  | cons step steps ih => exact .next (runs.answer same step) fun _ => .next ih fun _ => .pure rfl

/-- Machines that correspond, with nothing renamed, cannot be told apart. -/
theorem Machines.answers_alike (machines : C.Machines m m') (depth : Nat) (steps : List HostStep) :
    lookalikes.Ends Eq ((engine depth).answers steps m) ((engine depth).answers steps m') := by
  have ended := (C.engines depth).answers same steps ⟨rfl, machines⟩
  generalize (engine depth).answers steps m = result, (engine depth).answers steps m' = result'
    at ended
  cases ended with
  | ok values states => exact .ok values (states.2.looksLike same)
  | error halts states => exact .error (halts.eq same) (states.2.looksLike same)

end

end Correspondence

/-- The machine with the signatures of these traits. -/
def Machine.registering (m : Machine) (ts : List TraitDecl) : Machine :=
  { m with registry := { m.registry with traits := registered ts m.registry.traits } }

/-- Whatever is numbered after a rejected source has higher numbers than it would have had. -/
theorem Rejected.machines (rejected : Rejected ts m m') (numbered : m.Numbered) :
    ∃ k, (Correspondence.shift m.nextNode k).Machines (m.registering ts) m' := by
  obtain ⟨rest, ordered, addresses, traits⟩ := rejected
  obtain ⟨k, numbers⟩ := Nat.exists_eq_add_of_le ordered
  generalize m'.registry = registry at *
  generalize m'.nextNode = nextNode at *
  subst rest numbers
  refine ⟨k, rfl, rfl, ?_, ⟨fun id => ?_, traits, fun _ renamed => renamed.elim⟩, fun i => ?_,
    rfl, ⟨rfl, .same _, rfl, rfl, rfl, rfl⟩⟩
  · exact .refl
      (fun f member r inside => Correspondence.shift_below (numbered.functions f member r inside))
      fun method has r inside => Correspondence.shift_below (numbered.methods method has r inside)
  · change registry.addresses[_]? = m.registry.addresses[id]?
    obtain old | new := Nat.lt_or_ge id m.nextNode
    · rw [Correspondence.shift_below old]
      exact addresses id (.inl old)
    · obtain ⟨i, rfl⟩ := Nat.exists_eq_add_of_le new
      have above : m.nextNode + k ≤ m.nextNode + k + i := Nat.le_add_right ..
      rw [Correspondence.shift_above, numbered.unused _ new]
      exact (addresses _ (.inr above)).trans (numbered.unused _ (Nat.le_trans ordered above))
  · exact Correspondence.shift_above m.nextNode k i

theorem Rejected.answers_alike (rejected : Rejected ts m m') (numbered : m.Numbered) (depth : Nat)
    (steps : List HostStep) :
    lookalikes.Ends Eq ((engine depth).answers steps (m.registering ts))
      ((engine depth).answers steps m') := by
  obtain ⟨k, machines⟩ := rejected.machines numbered
  exact machines.answers_alike rfl depth steps

/-- A source that is rejected before it runs leaves everything as it is but the signatures of the
traits in it, and all that happens later is what would happen if only these had been registered. -/
theorem rejected_source_leaves_signatures (depth : Nat) :
    (∀ source m failure m', failure.isStatic = true →
      (engine depth).runSource source m = .ok (.error failure) m' →
      Rejected (traitsIn parse TraitDecl.inStmts source m.nextNode) m m' ∧
      (m.Numbered → ∀ later steps, lookalikes.Ends Eq
        ((engine later).answers steps
          (m.registering (traitsIn parse TraitDecl.inStmts source m.nextNode)))
        ((engine later).answers steps m'))) ∧
    (∀ source m failure m', failure.isStatic = true →
      (engine depth).evaluateSource source m = .ok (.error failure) m' →
      Rejected (traitsIn parseExpression TraitDecl.inExpr source m.nextNode) m m' ∧
      (m.Numbered → ∀ later steps, lookalikes.Ends Eq
        ((engine later).answers steps
          (m.registering (traitsIn parseExpression TraitDecl.inExpr source m.nextNode)))
        ((engine later).answers steps m'))) ∧
    (∀ world steps m, (engine depth).session steps (.fresh world) = .ok () m → m.Numbered) := by
  refine ⟨fun source m failure m' static run => ?_, fun source m failure m' static run => ?_,
    fun world steps m => session_numbered⟩
  · have rejected := rejected_of_prepare reads_program resolve_registers
      (runSource_rejected static run)
    exact ⟨rejected, rejected.answers_alike⟩
  · have rejected := rejected_of_prepare reads_expression resolveExpression_registers
      (evaluateSource_rejected static run)
    exact ⟨rejected, rejected.answers_alike⟩

/-- The failure of a source, if it is rejected. -/
def rejection? : EStateM.Result Halt Machine (Except Failure α) → Option Failure
  | .ok (.error failure) _ => if failure.isStatic then some failure else none
  | _ => none

theorem exists_of_rejection? {result : EStateM.Result Halt Machine (Except Failure α)}
    (rejected : (rejection? result).isSome = true) :
    ∃ failure m', failure.isStatic = true ∧ result = .ok (.error failure) m' := by
  unfold rejection? at rejected
  split at rejected
  · split at rejected
    · exact ⟨_, _, ‹_›, rfl⟩
    · cases rejected
  · cases rejected

/-- A trait, and a return that nothing at top level allows. -/
def traitBeforeReturn : String := "trait T \x7b m(); \x7d return;"

theorem traitBeforeReturn_leaves_signatures : ∃ failure m',
    failure.isStatic = true ∧
    (engine 2).runSource traitBeforeReturn (.fresh {}) = .ok (.error failure) m' ∧
    Rejected (traitsIn parse TraitDecl.inStmts traitBeforeReturn 0) (.fresh {}) m' ∧
    ∀ later steps, lookalikes.Ends Eq
      ((engine later).answers steps
        ((Machine.fresh {}).registering (traitsIn parse TraitDecl.inStmts traitBeforeReturn 0)))
      ((engine later).answers steps m') := by
  obtain ⟨failure, m', static, run⟩ := exists_of_rejection?
    (show (rejection? ((engine 2).runSource traitBeforeReturn (.fresh {}))).isSome = true by
      decide +kernel)
  obtain ⟨program, -, sessions⟩ := rejected_source_leaves_signatures 2
  obtain ⟨rejected, later⟩ := program _ _ _ _ static run
  exact ⟨failure, m', static, run, rejected, later (sessions {} [] _ rfl)⟩

/-- The trait of a rejected source is known to the sources after it: a class that mixes it in is
asked for its method, and is not told that there is no such trait. -/
theorem rejected_trait_stays_registered :
    (rejection? ((engine 2).runSource traitBeforeReturn (.fresh {}))).map Failure.message =
      some "[line 1] Error at 'return': Can't return from top-level code." ∧
    (rejection? ((engine 2).runSource "class A with T \x7b\x7d" (.fresh {}))).map
      Failure.message = some "[line 1] Error at 'T': Undefined trait 'T'." ∧
    (rejection? ((do
        let _ ← (engine 2).runSource traitBeforeReturn
        (engine 2).runSource "class A with T \x7b\x7d") (.fresh {}))).map Failure.message =
      some "[line 1] Error at 'A': Trait methods 'm' not all properly implemented." := by
  decide +kernel

end Lox
