import Lox.Proofs.EngineFamilies

/-! What happens in a run. A run can be watched: it goes on only while everything it is about to do
is allowed. An event belongs to a run if the run changes when this one event is forbidden. -/

namespace Lox

/-- What an engine is asked to do. -/
inductive Event where
  | evaluate (e : Expr)
  | execute (s : Stmt)
  | read (reference : Reference)
  | write (reference : Reference) (value : Value)
  | bind (method : Closure) (receiver : Value)
  | enter (function : Closure) (arguments : List Value)

namespace Engine

/-- The engine that runs parts as given and asks a guard before it reaches a variable, binds a method
or enters a function. -/
def guardedOver (guard : (α : Type) → Event → Eval α → Eval α) (evaluate : Expr → Eval Value)
    (execute : Stmt → Eval Completion) (turns : Nat) : Engine :=
  { evaluate, execute, turns
    read := fun r => guard _ (.read r) (Eval.readVariable r)
    write := fun r v => guard _ (.write r v) (Eval.writeVariable r v)
    bind := fun f v => guard _ (.bind f v) (Eval.bindThis f v)
    enter := fun f vs => guard _ (.enter f vs) (Eval.enterFunction f vs) }

/-- The engine of a given depth that asks a guard before whatever it does. -/
def guarded (guard : (α : Type) → Event → Eval α → Eval α) : (depth : Nat) → Engine
  | 0 => guardedOver guard (fun _ => Eval.exhausted) (fun _ => Eval.exhausted) 0
  | depth + 1 =>
    guardedOver guard (fun e => guard _ (.evaluate e) ((guarded guard depth).evaluateRule e))
      (fun s => guard _ (.execute s) ((guarded guard depth).executeRule s)) (depth + 1)

end Engine

/-- The events that are allowed, each in a state of the machine, and the halt of a run that is
about to do anything else. -/
structure Watch where
  allows : Event → Machine → Prop
  complaint : Violation

namespace Watch

/-- Everything is allowed but one event in one state. -/
def forbid (event : Event) (m : Machine) (complaint : Violation) : Watch :=
  ⟨fun event' m' => ¬ (event' = event ∧ m' = m), complaint⟩

open Classical in
noncomputable def guard (w : Watch) (event : Event) (body : Eval α) : Eval α := fun m =>
  if w.allows event m then body m else .error (.violation w.complaint) m

theorem guard_of_allowed {w : Watch} {body : Eval α} (allowed : w.allows event m) :
    w.guard event body m = body m := if_pos allowed

theorem guard_of_forbidden {w : Watch} {body : Eval α} (forbidden : ¬ w.allows event m) :
    w.guard event body m = .error (.violation w.complaint) m := if_neg forbidden

/-- The engine that runs parts as given and is watched while it reaches variables, binds methods and
enters functions. -/
noncomputable def engineOver (w : Watch) (evaluate : Expr → Eval Value)
    (execute : Stmt → Eval Completion) (turns : Nat) : Engine :=
  Engine.guardedOver (fun _ => w.guard) evaluate execute turns

/-- The engine of a given depth under a watch. -/
noncomputable def engine (w : Watch) (depth : Nat) : Engine :=
  Engine.guarded (fun _ => w.guard) depth

end Watch

/-- What a host does with a machine. Between two sources it may change whatever surrounds the
machine: files, input and sinks. -/
inductive HostStep where
  | run (source : String)
  | runFile (path : Path)
  | evaluate (source : String)
  | surround (world : World)

namespace Engine

/-- One step of a host. That a source fails does not end the session. -/
def perform (engine : Engine) : HostStep → Eval Unit
  | .run source => do let _ ← engine.runSource source
  | .runFile path => do let _ ← engine.runFile path
  | .evaluate source => do let _ ← engine.evaluateSource source
  | .surround world => modify fun m => { m with world }

def session (engine : Engine) : List HostStep → Eval Unit
  | [] => pure ()
  | step :: steps => do
    engine.perform step
    engine.session steps

-- Programs run in the engine of ample depth.
example (source : String) : (Lox.engine ampleDepth).perform (.run source) = (do
    let _ ← Eval.run source) := rfl

/-- One step of a host whose machine has another supply. -/
def performFrom (engine : Engine) (supply : Supply) : HostStep → Eval Unit
  | .run source => do let _ ← engine.runSourceFrom supply source
  | .runFile path => do let _ ← engine.runFileFrom supply path
  | .evaluate source => do let _ ← engine.evaluateSourceFrom supply source
  | .surround world => modify fun m => { m with world }

def sessionFrom (engine : Engine) (supply : Supply) : List HostStep → Eval Unit
  | [] => pure ()
  | step :: steps => do
    engine.performFrom supply step
    engine.sessionFrom supply steps

theorem sessionFrom_plain (engine : Engine) (steps : List HostStep) :
    engine.sessionFrom .plain steps = engine.session steps := by
  induction steps with
  | nil => rfl
  | cons step steps ih =>
    have same : engine.performFrom .plain step = engine.perform step := by cases step <;> rfl
    unfold sessionFrom session
    rw [same, ih]

theorem sessionFrom_append (engine : Engine) (supply : Supply) (before after : List HostStep) :
    engine.sessionFrom supply (before ++ after) =
      engine.sessionFrom supply before >>= fun _ => engine.sessionFrom supply after := by
  induction before with
  | nil => rfl
  | cons step before ih =>
    change (engine.performFrom supply step >>= fun _ => engine.sessionFrom supply (before ++ after)) =
      (engine.performFrom supply step >>= fun _ => engine.sessionFrom supply before) >>=
        fun _ => engine.sessionFrom supply after
    rw [ih, bind_assoc]

end Engine

theorem Congruence.Relates.sessionFrom {C : Congruence ι} {S : ι → Supply} [C.Supplied S]
    {E : ι → Engine} {limit : Nat} (related : C.Relates E limit)
    (surround : ∀ world : World, C.holds fun _ => modify fun m => { m with world })
    (steps : List HostStep) : C.holds fun i => (E i).sessionFrom (S i) steps := by
  induction steps with
  | nil => exact C.step .pure
  | cons step steps ih =>
    refine C.bind ?_ fun _ => ih
    cases step with
    | run source => exact C.bind (related.runSourceFrom source) fun _ => C.step .pure
    | runFile path => exact C.bind (related.runFileFrom path) fun _ => C.step .pure
    | evaluate source => exact C.bind (related.evaluateSourceFrom source) fun _ => C.step .pure
    | surround world => exact surround world

theorem Congruence.Relates.session {C : Congruence ι} [C.Supplied fun _ => .plain]
    {E : ι → Engine} {limit : Nat} (related : C.Relates E limit)
    (surround : ∀ world : World, C.holds fun _ => modify fun m => { m with world })
    (steps : List HostStep) : C.holds fun i => (E i).session steps := by
  have ran := related.sessionFrom (S := fun _ => .plain) surround steps
  simpa only [Engine.sessionFrom_plain] using ran

/-- An event belongs to a session if the session changes when the event is forbidden. Of two
complaints at least one cannot be how the session ends by itself. -/
def Happens (depth : Nat) (world : World) (steps : List HostStep) (event : Event) (m : Machine) :
    Prop :=
  ∃ complaint, ((Watch.forbid event m complaint).engine depth).session steps (.fresh world) ≠
    (engine depth).session steps (.fresh world)

/-- The watch has ended the run. -/
def Stopped (complaint : Violation) (r : EStateM.Result Halt Machine α) : Prop :=
  ∃ m, r = .error (.violation complaint) m

/-- Without an index the run is not watched. -/
abbrev Watched (α : Type) := Option Watch → Eval α

/-- A watched run is the run itself, or it ends at an event that is not allowed and that alone
would have ended it. -/
def Watched.Faithful (c : Watched α) : Prop :=
  ∀ allows m,
    (∀ complaint, c (some ⟨allows, complaint⟩) m = c none m ∧ ∀ event m', ¬ allows event m' →
      c (some (.forbid event m' complaint)) m = c none m) ∨
    ∃ event m', ¬ allows event m' ∧ ∀ complaint,
      Stopped complaint (c (some ⟨allows, complaint⟩) m) ∧
      Stopped complaint (c (some (.forbid event m' complaint)) m)

namespace Watched

theorem faithful_const (p : Eval α) : Faithful fun _ => p :=
  fun _ _ => .inl fun _ => ⟨rfl, fun _ _ _ => rfl⟩

/-- What is done with the outcome of a run: violations are handed on, and everything else goes on
faithfully. -/
theorem Faithful.andThen {c : Watched α} {d : Watched β} (faithful : Faithful c)
    (enter : Machine → Machine)
    (step : Machine → Option Watch → EStateM.Result Halt Machine α → EStateM.Result Halt Machine β)
    (same : ∀ i m, d i m = step m i (c i (enter m)))
    (handsOn : ∀ m i complaint r, Stopped complaint r → Stopped complaint (step m i r))
    (goesOn : ∀ m r, Faithful fun i _ => step m i r) : Faithful d := by
  intro allows m
  simp only [same]
  obtain unseen | ⟨event, m', forbidden, ended⟩ := faithful allows (enter m)
  · obtain later | ⟨event, m', forbidden, ended⟩ := goesOn m (c none (enter m)) allows m
    · refine .inl fun complaint => ?_
      rw [(unseen complaint).1]
      refine ⟨(later complaint).1, fun event m' forbidden => ?_⟩
      rw [(unseen complaint).2 event m' forbidden]
      exact (later complaint).2 event m' forbidden
    · refine .inr ⟨event, m', forbidden, fun complaint => ?_⟩
      rw [(unseen complaint).1, (unseen complaint).2 event m' forbidden]
      exact ended complaint
  · refine .inr ⟨event, m', forbidden, fun complaint => ?_⟩
    exact ⟨handsOn _ _ _ _ (ended complaint).1, handsOn _ _ _ _ (ended complaint).2⟩

/-- What follows a run in sequence. -/
def followedBy (f : α → Eval β) :
    EStateM.Result Halt Machine α → EStateM.Result Halt Machine β
  | .ok a m => f a m
  | .error halt m => .error halt m

/-- The run is over, and another scope is active again. -/
def backTo (scope : Option ScopeId) :
    EStateM.Result Halt Machine α → EStateM.Result Halt Machine α
  | .ok a m => .ok a { m with active := scope }
  | .error halt m => .error halt { m with active := scope }

/-- An error of the program has become the result. -/
def caught : EStateM.Result Halt Machine α →
    EStateM.Result Halt Machine (Except RuntimeError α)
  | .ok a m => .ok (.ok a) m
  | .error (.error e) m => .ok (.error e) m
  | .error halt m => .error halt m

theorem Faithful.bind {c : Watched α} {f : Option Watch → α → Eval β} (first : Faithful c)
    (later : ∀ a, Faithful fun i => f i a) : Faithful fun i => c i >>= f i := by
  refine first.andThen id (fun _ i => followedBy (f i)) ?_ ?_ ?_
  · intro i m
    change EStateM.bind (c i) (f i) m = _
    unfold EStateM.bind
    dsimp only [id]
    cases c i m <;> rfl
  · rintro _ _ _ _ ⟨m, rfl⟩
    exact ⟨m, rfl⟩
  · intro _ r
    cases r with
    | ok a m => exact fun allows _ => later a allows m
    | error halt m => exact fun _ _ => .inl fun _ => ⟨rfl, fun _ _ _ => rfl⟩

theorem Faithful.within {c : Watched α} (scope : Option ScopeId) (body : Faithful c) :
    Faithful fun i => Eval.within scope (c i) := by
  refine body.andThen (fun m => { m with active := scope })
    (fun outer _ => backTo outer.active) (fun _ _ => rfl) ?_ ?_
  · rintro _ _ _ _ ⟨m, rfl⟩
    exact ⟨_, rfl⟩
  · exact fun _ _ _ _ => .inl fun _ => ⟨rfl, fun _ _ _ => rfl⟩

theorem Faithful.attempt {c : Watched α} (body : Faithful c) :
    Faithful fun i => Eval.attempt (c i) := by
  refine body.andThen id (fun _ _ => caught) (fun _ _ => rfl) ?_ ?_
  · rintro _ _ _ _ ⟨m, rfl⟩
    exact ⟨m, rfl⟩
  · exact fun _ _ _ _ => .inl fun _ => ⟨rfl, fun _ _ _ => rfl⟩

/-- The combinators of the rules keep faithfulness. -/
def congruence : Congruence (Option Watch) where
  holds := Faithful
  step _ := faithful_const _
  bind := Faithful.bind
  within := Faithful.within
  attempt := Faithful.attempt

instance : congruence.Supplied fun _ => .plain where
  program _ := faithful_const _
  expression _ := faithful_const _
  remember _ := faithful_const _
  remembered := faithful_const _
  report _ := faithful_const _

theorem Faithful.guard {c : Watched α} (event : Event) (body : Faithful c) :
    Faithful fun i => match i with
      | none => c none
      | some w => w.guard event (c (some w)) := by
  intro allows m
  by_cases allowed : allows event m
  · have passes : ∀ event' m' complaint, ¬ allows event' m' →
        (Watch.forbid event' m' complaint).allows event m := by
      rintro event' m' complaint forbidden ⟨rfl, rfl⟩
      exact forbidden allowed
    obtain unseen | ⟨event', m', forbidden, ended⟩ := body allows m
    · refine .inl fun complaint => ⟨?_, fun event' m' forbidden => ?_⟩
      · exact (Watch.guard_of_allowed allowed).trans (unseen complaint).1
      · exact (Watch.guard_of_allowed (passes event' m' complaint forbidden)).trans
          ((unseen complaint).2 event' m' forbidden)
    · refine .inr ⟨event', m', forbidden, fun complaint => ?_⟩
      simp only
      rw [Watch.guard_of_allowed (w := ⟨allows, complaint⟩) allowed,
        Watch.guard_of_allowed (passes event' m' complaint forbidden)]
      exact ended complaint
  · refine .inr ⟨event, m, allowed, fun complaint => ⟨⟨m, ?_⟩, ⟨m, ?_⟩⟩⟩
    · exact Watch.guard_of_forbidden allowed
    · exact Watch.guard_of_forbidden fun free => free ⟨rfl, rfl⟩

/-- The engine of a given depth, watched or not. -/
noncomputable def engineOf (depth : Nat) : Option Watch → Engine
  | none => engine depth
  | some w => w.engine depth

theorem faithful_read (depth : Nat) (r : Reference) :
    Faithful fun i => (engineOf depth i).read r := by
  intro allows m
  have guarded := (faithful_const (Eval.readVariable r)).guard (.read r) allows m
  cases depth <;> exact guarded

theorem faithful_write (depth : Nat) (r : Reference) (v : Value) :
    Faithful fun i => (engineOf depth i).write r v := by
  intro allows m
  have guarded := (faithful_const (Eval.writeVariable r v)).guard (.write r v) allows m
  cases depth <;> exact guarded

theorem faithful_bind (depth : Nat) (f : Closure) (v : Value) :
    Faithful fun i => (engineOf depth i).bind f v := by
  intro allows m
  have guarded := (faithful_const (Eval.bindThis f v)).guard (.bind f v) allows m
  cases depth <;> exact guarded

theorem faithful_enter (depth : Nat) (f : Closure) (arguments : List Value) :
    Faithful fun i => (engineOf depth i).enter f arguments := by
  intro allows m
  have guarded :=
    (faithful_const (Eval.enterFunction f arguments)).guard (.enter f arguments) allows m
  cases depth <;> exact guarded

theorem engineOf_related (depth : Nat) : congruence.Relates (engineOf depth) depth := by
  induction depth with
  | zero =>
    refine ⟨fun e => ?_, fun s => ?_, faithful_read 0, faithful_write 0, faithful_bind 0,
      faithful_enter 0, ?_⟩
    · exact fun _ _ => .inl fun _ => ⟨rfl, fun _ _ _ => rfl⟩
    · exact fun _ _ => .inl fun _ => ⟨rfl, fun _ _ _ => rfl⟩
    · intro i
      cases i <;> rfl
  | succ depth ih =>
    refine ⟨fun e => ?_, fun s => ?_, faithful_read _, faithful_write _, faithful_bind _,
      faithful_enter _, ?_⟩
    · have rule : Faithful fun i => (engineOf depth i).evaluateRule e := ih.evaluateRule e
      exact rule.guard (.evaluate e)
    · have rule : Faithful fun i => (engineOf depth i).executeRule s := ih.executeRule s
      exact rule.guard (.execute s)
    · intro i
      cases i <;> rfl

end Watched

section

variable (depth : Nat) (world : World) (steps : List HostStep)

theorem faithful_session : Watched.Faithful fun i => (Watched.engineOf depth i).session steps :=
  (Watched.engineOf_related depth).session (fun _ => Watched.faithful_const _) steps

/-- No run ends with every complaint. -/
theorem not_stopped (r : EStateM.Result Halt Machine α)
    (stopped : ∀ complaint, Stopped complaint r) : False := by
  obtain ⟨_, first⟩ := stopped .noScope
  obtain ⟨_, second⟩ := stopped .pastOutermost
  cases first.symm.trans second

/-- A session does not notice a watch that allows all its events. -/
theorem session_watched (complaint : Violation) :
    ((⟨Happens depth world steps, complaint⟩ : Watch).engine depth).session steps (.fresh world) =
      (engine depth).session steps (.fresh world) := by
  obtain unseen | ⟨event, m, silent, ended⟩ :=
    faithful_session depth steps (Happens depth world steps) (.fresh world)
  · exact (unseen complaint).1
  · refine (not_stopped ((engine depth).session steps (.fresh world)) fun complaint => ?_).elim
    have same := Classical.not_not.mp fun differs => silent ⟨complaint, differs⟩
    rw [← same]
    exact (ended complaint).2

/-- A watch that a session does not notice allows all its events. -/
theorem allowed_of_happens {allows : Event → Machine → Prop}
    (unnoticed : ∀ complaint, ((⟨allows, complaint⟩ : Watch).engine depth).session steps
      (.fresh world) = (engine depth).session steps (.fresh world))
    (happens : Happens depth world steps event m) : allows event m := by
  refine Classical.byContradiction fun forbidden => ?_
  obtain unseen | ⟨event, m, forbidden, ended⟩ :=
    faithful_session depth steps allows (.fresh world)
  · obtain ⟨complaint, differs⟩ := happens
    exact differs ((unseen complaint).2 event m forbidden)
  · refine not_stopped ((engine depth).session steps (.fresh world)) fun complaint => ?_
    rw [← unnoticed complaint]
    exact (ended complaint).1

end

/-- A guard that can be run: it stops at events that pass a test. -/
def stopAt (test : Event → Machine → Bool) (complaint : Violation) (α : Type) (event : Event)
    (body : Eval α) : Eval α := fun m =>
  if test event m then .error (.violation complaint) m else body m

/-- The session comes to an end, but not when it is stopped at events that pass the test. -/
def detects (depth : Nat) (world : World) (steps : List HostStep)
    (test : Event → Machine → Bool) : Bool :=
  match (engine depth).session steps (.fresh world),
    (Engine.guarded (stopAt test .noScope) depth).session steps (.fresh world) with
  | .ok _ _, .error _ _ => true
  | _, _ => false

theorem guard_eq_stopAt (test : Event → Machine → Bool) (complaint : Violation) :
    (fun _ => (⟨fun event m => test event m = false, complaint⟩ : Watch).guard) =
      stopAt test complaint := by
  funext α event body m
  unfold stopAt
  cases passes : test event m with
  | false => exact Watch.guard_of_allowed passes
  | true =>
    refine Watch.guard_of_forbidden fun allowed => ?_
    cases passes.symm.trans allowed

/-- A test that changes a session has found an event of it. -/
theorem happens_of_detects {test : Event → Machine → Bool}
    (detected : detects depth world steps test = true) :
    ∃ event m, test event m = true ∧ Happens depth world steps event m := by
  obtain unseen | ⟨event, m, passes, ended⟩ :=
    faithful_session depth steps (fun event m => test event m = false) (.fresh world)
  · have same : (Engine.guarded (stopAt test .noScope) depth).session steps (.fresh world) =
        (engine depth).session steps (.fresh world) := by
      rw [← guard_eq_stopAt]
      exact (unseen .noScope).1
    unfold detects at detected
    rw [same] at detected
    cases ran : (engine depth).session steps (.fresh world) <;> rw [ran] at detected <;>
      cases detected
  · refine ⟨event, m, (Bool.not_eq_false _).mp passes, Classical.byContradiction fun silent => ?_⟩
    refine not_stopped ((engine depth).session steps (.fresh world)) fun complaint => ?_
    rw [← Classical.not_not.mp fun differs => silent ⟨complaint, differs⟩]
    exact (ended complaint).2

end Lox
