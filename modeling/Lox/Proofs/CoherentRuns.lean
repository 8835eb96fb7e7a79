import Lox.Proofs.CoherentRules

/-! Every state of a session agrees with the sources it runs: each event happens at a place of a
source, in the scopes that the resolution pass saw there. -/

namespace Lox

variable {past : History}

/-- The event belongs to a place of a source, and the state fits that place. A function is entered
with as many arguments as it has parameters. -/
def Placed (past : History) (m : Machine) : Event → Prop
  | .evaluate e => ∃ (w : Snapshot past) (context : Context) (r : Resolver), w.machine = m ∧
      Known past m ⟨.expr e, context, r⟩ ∧ w.Stands context
  | .execute s => ∃ (w : Snapshot past) (context : Context) (r : Resolver), w.machine = m ∧
      Known past m ⟨.stmt s, context, r⟩ ∧ w.Within context
  | .read reference | .write reference _ => ∃ (w : Snapshot past) (p : Site), w.machine = m ∧
      Known past m p ∧ w.Stands p.context ∧ reference ∈ p.part.ownReferences
  | .bind _ _ => True
  | .enter f arguments => arguments.length = f.declaration.params.length

/-- Only events that have happened are allowed, and only where they belong. -/
def Watch.placed (past : History) (complaint : Violation) : Watch :=
  ⟨fun event m => past event m ∧ Placed past m event, complaint⟩

/-- A watch that allows what has happened, wherever it belongs. -/
structure Admits (past allows : History) : Prop where
  stricter : ∀ event m, allows event m → past event m
  met : ∀ event (w : Snapshot past), past event w.machine → Placed past w.machine event →
    allows event w.machine

theorem Steps.placed {p q : Eval α} {w : Snapshot past} {post : α → Snapshot past → Prop}
    (admits : Admits past allows)
    (body : past event w.machine →
      Placed past w.machine event ∧ Steps complaint may p q w post) :
    Steps complaint may ((⟨allows, complaint⟩ : Watch).guard event p)
      ((⟨past, complaint⟩ : Watch).guard event q) w post :=
  .guard (admits.stricter event _) fun happens =>
    ⟨admits.met event w happens (body happens).1, (body happens).2⟩

theorem agree_over (admits : Admits past allows) {evaluate evaluate' : Expr → Eval Value}
    {execute execute' : Stmt → Eval Completion}
    (evaluates : ∀ {w : Snapshot past} {e context r}, Due past w.machine ⟨.expr e, context, r⟩ →
      w.Stands context → Steps complaint none (evaluate e) (evaluate' e) w Any)
    (executes : ∀ {w : Snapshot past} {s context r}, Due past w.machine ⟨.stmt s, context, r⟩ →
      w.Within context →
      Steps complaint (s.room w.machine.active) (execute s) (execute' s) w fun completion w' =>
        completion = .normal → w'.Within (context.advance s.declared.length)) (turns : Nat) :
    Agree past complaint ((⟨allows, complaint⟩ : Watch).engineOver evaluate execute turns)
      ((⟨past, complaint⟩ : Watch).engineOver evaluate' execute' turns) where
  evaluate := evaluates
  execute := executes
  read {w p reference} known stands own := .placed admits fun _ =>
    ⟨⟨w, p, rfl, known, stands, own⟩, readVariable_steps known stands own⟩
  write {w target value context r} known stands v := .placed admits fun _ => by
    have own : target ∈ (Part.expr (.assign target value)).ownReferences :=
      List.mem_singleton_self target
    obtain ⟨root, sited, -⟩ := known.sited
    exact ⟨⟨w, _, rfl, known, stands, own⟩,
      writeVariable_steps known stands own sited.accepted.proper.1 v⟩
  bind bindable this := .placed admits fun happens => ⟨trivial, bindThis_steps bindable happens⟩
  enter count := .placed admits fun _ => ⟨count, enterFunction_steps count⟩
  turns := rfl

/-- A watch that also asks where events belong sees nothing amiss. -/
theorem Admits.agree (admits : Admits past allows) (complaint : Violation) (depth : Nat) :
    Agree past complaint ((⟨allows, complaint⟩ : Watch).engine depth)
      ((⟨past, complaint⟩ : Watch).engine depth) := by
  induction depth with
  | zero => exact agree_over admits (fun _ _ => .exhausted) (fun _ _ => .exhausted) 0
  | succ depth ih =>
    refine agree_over admits (fun {w e context r} due stands => ?_)
      (fun {w s context r} due within => ?_) _
    · refine .placed admits fun happens => ?_
      have known := due.begin rfl happens
      exact ⟨⟨w, context, r, rfl, known, stands⟩, ih.evaluateRule known stands⟩
    · refine .placed admits fun happens => ?_
      have known := due.begin rfl happens
      exact ⟨⟨w, context, r, rfl, known, within⟩, ih.executeRule known within happens⟩

theorem agree_engine (past : History) (complaint : Violation) (depth : Nat) :
    Agree past complaint ((Watch.placed past complaint).engine depth)
      ((⟨past, complaint⟩ : Watch).engine depth) :=
  Admits.agree ⟨fun _ _ => And.left, fun _ _ happens placed => ⟨happens, placed⟩⟩ complaint depth

/-- A machine that has not run anything yet. -/
def Snapshot.fresh (past : History) (world : World) : Snapshot past where
  machine := .fresh world
  plan := []
  coherent := by
    refine ⟨rfl, nofun, fun f member => absurd member (Array.not_mem_empty f), ?_, fun _ _ => rfl⟩
    rintro method (⟨c, member, -⟩ | ⟨t, member, -⟩)
    · exact absurd member (Array.not_mem_empty c)
    · exact absurd member (Array.not_mem_empty t)

theorem Agree.perform {E F : Engine} (agree : Agree past complaint E F) {w : Snapshot past}
    (step : HostStep) : Steps complaint none (E.perform step) (F.perform step) w Any := by
  cases step with
  | run source => exact (agree.runSource source).bind fun _ _ _ _ => .pure trivial
  | runFile path => exact (agree.runFile path).bind fun _ _ _ _ => .pure trivial
  | evaluate source => exact (agree.evaluateSource source).bind fun _ _ _ _ => .pure trivial
  | surround world => exact .of_quiet (.of_store rfl rfl rfl rfl)

theorem Agree.session {E F : Engine} (agree : Agree past complaint E F) {w : Snapshot past}
    (steps : List HostStep) :
    Steps complaint none (E.session steps) (F.session steps) w Any := by
  induction steps generalizing w with
  | nil => exact .pure trivial
  | cons step steps ih => exact (agree.perform step).bind fun _ _ _ _ => ih

section

variable {depth : Nat} {world : World} {steps : List HostStep}

theorem session_steps (depth : Nat) (world : World) (steps : List HostStep)
    (complaint : Violation) :
    ((Watch.placed (Happens depth world steps) complaint).engine depth).session steps
        (.fresh world) = (engine depth).session steps (.fresh world) ∧
      Outcome complaint none (.fresh (Happens depth world steps) world) Any
        ((engine depth).session steps (.fresh world)) := by
  obtain ⟨same, outcome⟩ := (agree_engine (Happens depth world steps) complaint depth).session
    (w := .fresh _ world) steps
  change _ = ((⟨Happens depth world steps, complaint⟩ : Watch).engine depth).session steps
    (.fresh world) at same
  change Outcome _ _ _ _ (((⟨Happens depth world steps, complaint⟩ : Watch).engine depth).session
    steps (.fresh world)) at outcome
  rw [session_watched] at same outcome
  exact ⟨same, outcome⟩

/-- Whatever happens in a session belongs to a place of a source it runs. -/
theorem Happens.placed (happens : Happens depth world steps event m) :
    Placed (Happens depth world steps) m event :=
  (allowed_of_happens depth world steps (fun _ => (session_steps ..).1) happens).2

end

/-- Every slot of `this` or `super` is the same in a later state. -/
def Machine.KeepsKeywords (m m' : Machine) : Prop :=
  ∀ id index slot, m.store.scopes.slot? id index = some slot →
    (slot.name = "this" ∨ slot.name = "super") → m'.store.scopes.slot? id index = some slot

theorem Later.keepsKeywords {w w' : Snapshot past} (later : Later may w w') :
    w.machine.KeepsKeywords w'.machine := by
  intro id index slot there keyword
  obtain ⟨scope, found, here⟩ := Option.bind_eq_some_iff.mp there
  obtain ⟨scope', found', grows⟩ := later.scopes id scope found
  rw [Scopes.slot?, found', Option.bind_some]
  refine grows.bound index slot here fun plain => ?_
  obtain this | super := keyword
  · exact plain.1 this
  · exact plain.2 super

/-- A run that could only end in a violation of every kind ends in none. -/
theorem Outcome.not_violation {w : Snapshot past} {post : α → Snapshot past → Prop}
    (outcome : ∀ complaint, Outcome complaint may w post r) :
    r ≠ .error (.violation v) m := by
  rintro rfl
  cases (outcome .noScope).symm.trans (outcome .pastOutermost)

theorem Outcome.keepsKeywords {w : Snapshot past} {post : α → Snapshot past → Prop}
    {r : EStateM.Result Halt Machine α}
    (outcome : ∀ complaint, Outcome complaint may w post r) :
    w.machine.KeepsKeywords (left r) := by
  have ended := outcome .noScope
  match r with
  | .ok a m =>
    obtain ⟨w', rfl, later, -⟩ := ended
    exact later.keepsKeywords
  | .error (.error _) m | .error .exhausted m =>
    obtain ⟨w', rfl, later⟩ := ended
    exact later.keepsKeywords
  | .error (.violation v) m => exact (not_violation outcome rfl).elim

/-- A watch that allows everything does not matter. -/
theorem evaluate_unwatched (depth : Nat) (complaint : Violation) (e : Expr) (m : Machine) :
    ((⟨fun _ _ => True, complaint⟩ : Watch).engine depth).evaluate e m = evaluate depth e m := by
  obtain unseen | ⟨_, _, forbidden, _⟩ :=
    (Watched.engineOf_related depth).evaluate e (fun _ _ => True) m
  · exact (unseen complaint).1
  · exact (forbidden trivial).elim

theorem execute_unwatched (depth : Nat) (complaint : Violation) (s : Stmt) (m : Machine) :
    ((⟨fun _ _ => True, complaint⟩ : Watch).engine depth).execute s m = execute depth s m := by
  obtain unseen | ⟨_, _, forbidden, _⟩ :=
    (Watched.engineOf_related depth).execute s (fun _ _ => True) m
  · exact (unseen complaint).1
  · exact (forbidden trivial).elim

/-- The same state, seen with a history in which anything may have happened. -/
def Snapshot.unwatched (w : Snapshot past) : Snapshot fun _ _ => True where
  machine := w.machine
  plan := w.plan
  coherent := w.coherent.extend fun _ _ _ => trivial

/-- The watch asks only whether events have a place. -/
abbrev Watch.everywhere (complaint : Violation) : Watch := .placed (fun _ _ => True) complaint

/-- From a state of a session on, everything that happens has a place. -/
theorem Placed.evaluate_steps (placed : Placed past m (.evaluate e)) (depth : Nat) :
    ∃ w : Snapshot fun _ _ => True, w.machine = m ∧ ∀ complaint,
      Steps complaint none (((Watch.everywhere complaint).engine depth).evaluate e)
        (evaluate depth e) w Any := by
  obtain ⟨w, context, r, rfl, known, stands⟩ := placed
  have all (event : Event) (m : Machine) (_ : past event m) : True := trivial
  refine ⟨w.unwatched, rfl, fun complaint => ?_⟩
  have steps := (agree_engine _ complaint depth).evaluate (w := w.unwatched)
    (.inl (known.extend all)) (stands.extend all)
  unfold Steps at steps ⊢
  rw [evaluate_unwatched] at steps
  exact steps

theorem Placed.execute_steps (placed : Placed past m (.execute s)) (depth : Nat) :
    ∃ (w : Snapshot fun _ _ => True) (context : Context), w.machine = m ∧ w.Within context ∧
      ∀ complaint, Steps complaint (s.room m.active)
        (((Watch.everywhere complaint).engine depth).execute s) (execute depth s) w
        fun completion w' =>
          completion = .normal → w'.Within (context.advance s.declared.length) := by
  obtain ⟨w, context, r, rfl, known, within⟩ := placed
  have all (event : Event) (m : Machine) (_ : past event m) : True := trivial
  have within' : w.unwatched.Within context := ⟨within.fits.extend all, within.exact⟩
  refine ⟨w.unwatched, context, rfl, within', fun complaint => ?_⟩
  have steps := (agree_engine _ complaint depth).execute (w := w.unwatched)
    (.inl (known.extend all)) within'
  unfold Steps at steps ⊢
  rw [execute_unwatched] at steps
  exact steps

theorem Placed.evaluates (placed : Placed past m (.evaluate e)) (depth : Nat) :
    ∃ w : Snapshot fun _ _ => True, w.machine = m ∧
      ∀ complaint, Outcome complaint none w Any (evaluate depth e m) := by
  obtain ⟨w, rfl, steps⟩ := placed.evaluate_steps depth
  exact ⟨w, rfl, fun complaint => (steps complaint).2⟩

theorem Placed.executes (placed : Placed past m (.execute s)) (depth : Nat) :
    ∃ (w : Snapshot fun _ _ => True) (context : Context), w.machine = m ∧ w.Within context ∧
      ∀ complaint, Outcome complaint (s.room m.active) w
        (fun completion w' =>
          completion = .normal → w'.Within (context.advance s.declared.length))
        (execute depth s m) := by
  obtain ⟨w, context, rfl, within, steps⟩ := placed.execute_steps depth
  exact ⟨w, context, rfl, within, fun complaint => (steps complaint).2⟩

end Lox
