import Lox.Proofs.AcceptedSources
import Lox.Proofs.JoinedSources
import Lox.Proofs.RelabelledPasses
import Lox.Proofs.TwinRuns

/-! Two sources that run one after the other do what one source does that holds the first, a line
end and the second. The first one runs unchanged in front of the second, and the second one runs as
it would on its own, but stands further down. -/

namespace Lox

/-- Machines that agree in all that code works with, its own addresses apart. -/
structure Machine.Agrees (m m' : Machine) : Prop where
  active : m'.active = m.active
  globals : m'.globals = m.globals
  objects : Recoded.Objects Eq m.store m'.store
  scopes : m'.store.scopes = m.store.scopes
  out : m'.world.out = m.world.out
  input : m'.world.input = m.world.input

section

variable {ι : Type} {T : Twins ι} {m m' : Machine}

/-- Machines that agree are twins, if both ways to label their code leave it as it is. -/
theorem Machine.Agrees.twins (agrees : m.Agrees m')
    (same : ∀ f, m.store.Holds f → ∃ i, (T.left i).function f.declaration = f.declaration ∧
      (T.right i).function f.declaration = f.declaration)
    (here : m.backdrop = T.here) (there : m'.backdrop = T.there) : T.Machines m m' := by
  obtain ⟨active, globals, objects, scopes, out, input⟩ := agrees
  refine ⟨active, globals, ⟨objects.mono fun f holds f' equal => ?_, scopes⟩, out, input, here,
    there⟩
  obtain ⟨i, left, right⟩ := same f holds
  have closures : T.Closures ((T.left i).closure f) ((T.right i).closure f) := .of f
  unfold Relabelling.closure at closures
  rw [left, right] at closures
  exact equal ▸ closures

/-- Twins whose code has the same labels agree. -/
theorem Twins.Machines.agrees (machines : T.Machines m m') (same : T.left = T.right) :
    m.Agrees m' := by
  refine ⟨machines.active, machines.globals, machines.store.mono fun f _ f' closures => ?_,
    machines.store.scopes, machines.out, machines.input⟩
  cases closures with
  | of f => rw [same]

end

/-- Numbers from `n` on all become one number. -/
def Relabelling.capped (n spare : NodeId) : Relabelling :=
  ⟨fun id => if id < n then id else spare, fun line => line⟩

section

variable {m m' : Machine} {n spare : NodeId}

/-- Machines that run the same code, of which no reference has a number between the two. -/
def Twins.inFront (known : ∀ id, id < n ∨ spare ≤ id →
    m'.registry.addresses[id]? = m.registry.addresses[id]?) : Twins Unit where
  left _ := .capped n spare
  right _ := .capped n spare
  here := m.backdrop
  there := m'.backdrop
  addresses _ id := by
    refine known _ ?_
    unfold Relabelling.capped
    dsimp only
    split
    case isTrue below => exact .inl below
    case isFalse => exact .inr (Nat.le_refl spare)
  zero _ := ⟨rfl, rfl⟩

/-- A program does not depend on the addresses of references that neither it nor the machine
holds. -/
theorem interpret_in_front (agrees : m.Agrees m') (top : m.active = none)
    (held : ∀ f, m.store.Holds f → ∀ r ∈ Reference.inFunction true f.declaration, r.id < n)
    (counted : ∀ r ∈ Reference.inStmts true program, r.id < n)
    (known : ∀ id, id < n ∨ spare ≤ id →
      m'.registry.addresses[id]? = m.registry.addresses[id]?)
    (ran : (secluded depth).interpret program m = .ok () k) :
    ∃ k', (secluded depth).interpret program m' = .ok () k' ∧ k.Agrees k' ∧ k.active = none ∧
      k.backdrop = m.backdrop ∧ k'.backdrop = m'.backdrop := by
  let T := Twins.inFront known
  have kept {id : NodeId} (below : id < n) : (Relabelling.capped n spare).node id = id :=
    if_pos below
  have machines : T.Machines m m' := by
    refine agrees.twins (fun f holds => ?_) rfl rfl
    have fixed : (Relabelling.capped n spare).function f.declaration = f.declaration :=
      Relabelling.function_fixed (fun r member => kept (held f holds r member)) fun _ _ => rfl
    exact ⟨(), fixed, fixed⟩
  have unchanged : (Relabelling.capped n spare).stmts program = program :=
    Relabelling.stmts_fixed (fun r member => kept (counted r member)) fun _ _ => rfl
  have ended := (T.engines depth).interpret (i := ()) program ⟨top, machines⟩
  change (T.lockstep none).Ends Eq
    ((secluded depth).interpret ((Relabelling.capped n spare).stmts program) m)
    ((secluded depth).interpret ((Relabelling.capped n spare).stmts program) m') at ended
  rw [unchanged, ran] at ended
  generalize (secluded depth).interpret program m' = result' at ended ⊢
  cases ended with
  | ok values states =>
    exact ⟨_, rfl, states.2.agrees rfl, states.1, states.2.here, states.2.there⟩

end

/-- Whose code it is: that of the second source, or code that was there before it. -/
inductive Origin where
  | second
  | earlier

namespace Origin

/-- Where code stands when the second source stands further down. -/
def moved (lines : Nat) : Origin → Relabelling
  | second => .below lines
  | earlier => .identity

/-- The lines on which there is code, when a program is about to run as the second one. -/
def Owns (program : List Stmt) (s : Store) : Origin → Nat → Prop
  | second, line => line ∈ Lines.inStmts program
  | earlier, line => ∃ f, s.Holds f ∧ line ∈ Lines.inFunction f.declaration

end Origin

/-- Code of either origin on its own, and where it stands behind a first source. -/
def Labels.joined (lines : Nat) : Labels Origin := ⟨fun _ => .identity, Origin.moved lines⟩

section

variable {m m' : Machine} {s : Store} {program : List Stmt} {lines : Nat}

/-- The labels put the code that exists where it stands behind the first source. -/
structure Origin.Places (lines : Nat) (program : List Stmt) (s : Store)
    (φ : Origin → Relabelling) : Prop where
  node : ∀ o id, (φ o).node id = id
  zero : ∀ o, (φ o).line 0 = 0
  line : ∀ o line, o.Owns program s line → (φ o).line line = (o.moved lines).line line

/-- Machines that run code of either origin on its own lines and on those of the labels. -/
def Twins.behind (places : Origin.Places lines program m.store φ)
    (known : m'.registry = m.registry) : Twins Origin where
  left _ := .identity
  right := φ
  here := m.backdrop
  there := m'.backdrop
  addresses o id := by
    rw [places.node]
    exact congrArg (·.addresses[id]?) known
  zero o := ⟨rfl, places.zero o⟩

/-- A program that stands further down runs as before. -/
theorem interpret_behind (depth : Nat) (agrees : m.Agrees m') (top : m.active = none)
    (places : Origin.Places lines program m.store φ) (known : m'.registry = m.registry) :
    ((Twins.behind places known).lockstep none).Ends Eq ((secluded depth).interpret program m)
      ((secluded depth).interpret ((Relabelling.below lines).stmts program) m') := by
  let T := Twins.behind places known
  have machines : T.Machines m m' := by
    refine agrees.twins (fun f holds => ⟨.earlier, Relabelling.identity_function _, ?_⟩) rfl rfl
    exact Relabelling.function_fixed (fun r _ => places.node .earlier r.id) fun line member =>
      places.line .earlier line ⟨f, holds, member⟩
  have second : (φ .second).stmts program = (Relabelling.below lines).stmts program :=
    Relabelling.stmts_congr program (fun r _ => places.node .second r.id) (places.line .second)
  have ended := (T.engines depth).interpret (i := .second) program ⟨top, machines⟩
  change (T.lockstep none).Ends Eq
    ((secluded depth).interpret (Relabelling.identity.stmts program) m)
    ((secluded depth).interpret ((φ .second).stmts program) m') at ended
  rwa [second, Relabelling.identity_stmts] at ended

theorem Origin.places_moved (lines : Nat) (program : List Stmt) (s : Store) :
    Origin.Places lines program s (Origin.moved lines) where
  node o _ := by cases o <;> rfl
  zero o := by cases o <;> rfl
  line _ _ _ := rfl

/-- Errors that blame the same piece of code: one of the second source, on its line further down,
or one that was there before it. Code that stands on no line is blamed at line 0. -/
inductive Blames (lines : Nat) (program : List Stmt) (s : Store) :
    RuntimeError → RuntimeError → Prop where
  | second (cause : RuntimeError.Cause) (member : line ∈ Lines.inStmts program) :
    Blames lines program s ⟨line, cause⟩ ⟨line + lines, cause⟩
  | earlier (cause : RuntimeError.Cause)
    (holds : line = 0 ∨ ∃ f, s.Holds f ∧ line ∈ Lines.inFunction f.declaration) :
    Blames lines program s ⟨line, cause⟩ ⟨line, cause⟩

open Classical in
/-- Code on lines where no code of its origin stands is put on one line, to be found there. -/
noncomputable def Origin.marked (lines : Nat) (program : List Stmt) (s : Store) (mark : Nat)
    (o : Origin) : Relabelling :=
  .onLines fun line => if line = 0 then 0 else
    if o.Owns program s line then (o.moved lines).line line else mark

theorem Origin.places_marked (lines : Nat) (program : List Stmt) (s : Store) (mark : Nat) :
    Origin.Places lines program s (Origin.marked lines program s mark) where
  node _ _ := rfl
  zero _ := rfl
  line o line owns := by
    by_cases zero : line = 0
    · subst zero
      cases o <;> rfl
    · exact (if_neg zero).trans (if_pos owns)

/-- Code that does not exist is never blamed: it would be blamed on any line that it is put on. -/
theorem blames_of_errors (errors : (Labels.mk (fun _ => .identity)
      (Origin.marked lines program s (e'.line + 1))).Errors e e') :
    Blames lines program s e e' := by
  generalize marks : e'.line + 1 = mark at errors
  cases errors with
  | @of o line cause =>
    let φ := Origin.marked lines program s mark o
    change φ.line line + 1 = mark at marks
    change Blames lines program s ⟨line, cause⟩ ⟨φ.line line, cause⟩
    by_cases zero : line = 0
    · subst zero
      exact .earlier cause (.inl rfl)
    · by_cases owns : o.Owns program s line
      · have placed : φ.line line = (o.moved lines).line line :=
          (if_neg zero).trans (if_pos owns)
        rw [placed]
        cases o with
        | second =>
          have below : (Origin.second.moved lines).line line = line + lines := if_neg zero
          rw [below]
          exact .second cause owns
        | earlier => exact .earlier cause (.inr owns)
      · have marked : φ.line line = mark := (if_neg zero).trans (if_neg owns)
        omega

/-- What two runs give, apart from where they blame the code of the second source. -/
inductive Joins (lines : Nat) (program : List Stmt) (s : Store) (a a' : α) :
    Except Failure α → Except Failure α → Prop where
  | ok : Joins lines program s a a' (.ok a) (.ok a')
  | error (blames : Blames lines program s e e') :
    Joins lines program s a a' (.error (.runtime e)) (.error (.runtime e'))

theorem Joins.map (joins : Joins lines program s () () ended ended') (a a' : α) :
    Joins lines program s a a' (ended.map fun _ => a) (ended'.map fun _ => a') := by
  cases joins with
  | ok => exact .ok
  | error blames => exact .error blames

theorem settles_behind (lines : Nat) (agrees : m.Agrees m') (top : m.active = none)
    (known : m'.registry = m.registry)
    (settles : ((secluded depth).interpret program).Settles m ended k) :
    ∃ ended' k',
      ((secluded depth).interpret ((Relabelling.below lines).stmts program)).Settles m' ended' k' ∧
      Joins lines program m.store () () ended ended' ∧
      (Twins.behind (Origin.places_moved lines program m.store) known).Machines k k' := by
  have ended := interpret_behind depth agrees top (Origin.places_moved lines program m.store) known
  cases settles with
  | ok ran =>
    rw [ran] at ended
    generalize same : (secluded depth).interpret _ m' = result at ended
    cases ended with
    | ok _ states => exact ⟨_, _, .ok same, .ok, states.2⟩
  | @error e k failed =>
    rw [failed] at ended
    generalize same : (secluded depth).interpret _ m' = result at ended
    cases ended with
    | error halts states =>
      cases halts with
      | @error _ e' _ =>
        refine ⟨_, _, .error same, .error ?_, states.2⟩
        have marked := interpret_behind depth agrees top
          (Origin.places_marked lines program m.store (e'.line + 1)) known
        rw [failed, same] at marked
        cases marked with
        | error halts _ =>
          cases halts with
          | error errors => exact blames_of_errors errors

end

/-- A source behind another one is accepted where it is accepted after the other one. -/
theorem Machine.Accepts.joined {m m₁ : Machine} (accepts : m.Accepts p program warnings next known)
    (accepts' : m₁.Accepts q program' warnings' next' known') (number : m₁.nextNode = next)
    (registered : m₁.registry = known) :
    m.Accepts (p ++ "\n" ++ q) (program ++ (Relabelling.below (newlines p + 1)).stmts program')
      (warnings ++ warnings'.map (Diagnostic.relabelled (.down (newlines p + 1))))
      next' known' := by
  cases accepts with
  | of scanned parsed resolved =>
    cases accepts' with
    | of scanned' parsed' resolved' =>
      rw [number] at parsed'
      rw [registered] at resolved'
      obtain ⟨tokens, cursor, scans, parses, same⟩ := parse_joined scanned scanned' parsed parsed'
      rw [← below_parsed _ scanned' parsed'] at parses
      rw [← same]
      refine .of scans parses ?_
      rw [below_parsed _ scanned' parsed']
      exact resolve_joined resolved resolved'

/-- Machines that have run the same code, which stands further down in one of them as far as it is
code of the second source. Only what they have reported about it may differ. -/
structure Machine.Joined (lines : Nat) (m m' : Machine) : Prop where
  active : m'.active = m.active
  globals : m'.globals = m.globals
  store : (Labels.joined lines).Stores m.store m'.store
  registry : m'.registry = m.registry
  nextNode : m'.nextNode = m.nextNode
  loaded : m'.loaded = m.loaded
  out : m'.world.out = m.world.out
  input : m'.world.input = m.world.input
  disk : m'.world.disk = m.world.disk
  clock : m'.world.clock = m.world.clock
  time : m'.world.time = m.world.time

/-- Twins whose surroundings differ at most in what has been reported. -/
theorem Machine.Joined.of_machines {n n' m m' : Machine} {known : n'.registry = n.registry}
    (machines : (Twins.behind (Origin.places_moved lines program n.store) known).Machines m m')
    (same : m'.backdrop = { m.backdrop with err := err }) (scope : Option ScopeId) :
    Machine.Joined lines { m with active := scope } { m' with active := scope } where
  active := rfl
  globals := machines.globals
  store := machines.store
  registry := congrArg Backdrop.registry same
  nextNode := congrArg Backdrop.nextNode same
  loaded := congrArg Backdrop.loaded same
  out := machines.out
  input := machines.input
  disk := congrArg Backdrop.disk same
  clock := congrArg Backdrop.clock same
  time := congrArg Backdrop.time same

/-- A source is made ready behind another one as it is after the other one, but for the reports. -/
theorem Machine.backdrop_ready {m k : Machine}
    (here : k.backdrop = (m.ready warnings next known).backdrop) (all : List Diagnostic)
    (warnings' : List Diagnostic) (next' : NodeId) (known' : Registry) :
    (m.ready all next' known').backdrop =
      { (k.ready warnings' next' known').backdrop with err := m.world.err.reporting all } := by
  have loaded : k.loaded = m.loaded := congrArg Backdrop.loaded here
  have disk : k.world.disk = m.world.disk := congrArg Backdrop.disk here
  have clock : k.world.clock = m.world.clock := congrArg Backdrop.clock here
  have time : k.world.time = m.world.time := congrArg Backdrop.time here
  simp only [Machine.backdrop, Machine.ready, loaded, disk, clock, time]

theorem Machine.Numbered.within {m : Machine} (numbered : m.Numbered) (holds : m.store.Holds f) :
    ∀ r ∈ Reference.inFunction true f.declaration, r.id < m.nextNode := by
  obtain member | ⟨method, has, rfl⟩ := holds
  · exact numbered.functions f member
  · exact numbered.methods method has

/-- A program in front of other code, after both have been accepted. -/
theorem interpret_ready {m : Machine} (all : List Diagnostic) (numbered : m.Numbered)
    (accepts : m.Accepts p program warnings next known)
    (ran : (secluded depth).interpret program (m.ready warnings next known) = .ok () k)
    (kept : ∀ id, id < next ∨ next' ≤ id → known'.addresses[id]? = known.addresses[id]?) :
    ∃ k', (secluded depth).interpret program (m.ready all next' known') = .ok () k' ∧
      k.Agrees k' ∧ k.active = none ∧ k.backdrop = (m.ready warnings next known).backdrop ∧
      k'.backdrop = (m.ready all next' known').backdrop := by
  have agrees : (m.ready warnings next known).Agrees (m.ready all next' known') :=
    ⟨rfl, rfl, .refl _, rfl, rfl, rfl⟩
  refine interpret_in_front agrees rfl (n := next) (fun f holds r member => ?_)
    (fun r member => (accepts.numbered.within r member).2) kept ran
  exact Nat.lt_of_lt_of_le (numbered.within holds r member) accepts.numbered.ordered

/-- The run of one source that holds two, beside the run of the second one after the first. -/
structure JoinedRun (E : Engine) (p q : String) (m m₁ m₂ : Machine) (warnings : List Diagnostic)
    (result : Except Failure (List Diagnostic)) (program : List Stmt) (warnings' : List Diagnostic)
    (result' : Except Failure (List Diagnostic)) (m' : Machine) : Prop where
  second : ∃ next known, m₁.Accepts q program warnings' next known
  both : ∃ whole next known, m.Accepts (p ++ "\n" ++ q) whole
    (warnings ++ warnings'.map (Diagnostic.relabelled (.down (newlines p + 1)))) next known
  ran : E.runSource (p ++ "\n" ++ q) m = .ok result' m'
  ends : Joins (newlines p + 1) program m₁.store warnings'
    (warnings ++ warnings'.map (Diagnostic.relabelled (.down (newlines p + 1)))) result result'
  leaves : m₂.Joined (newlines p + 1) m'
  reported : m₂.world.err = (m.world.err.reporting warnings).reporting warnings' ∧
    m'.world.err = m.world.err.reporting
      (warnings ++ warnings'.map (Diagnostic.relabelled (.down (newlines p + 1))))

/-- Runs that neither run another source nor read the clock follow each other as the sources do in
one source. -/
theorem secluded_joined {m m₁ m₂ : Machine} (numbered : m.Numbered)
    (accepts : m.Accepts p program warnings next known)
    (first : (secluded depth).runSource p m = .ok (.ok reported) m₁)
    (accepts' : m₁.Accepts q program' warnings' next' known')
    (second : (secluded depth).runSource q m₁ = .ok result m₂) :
    ∃ result' m', JoinedRun (secluded depth) p q m m₁ m₂ reported result program' warnings' result'
      m' := by
  obtain ⟨_, k, settles, same, rfl⟩ := accepts.runSource_iff.mp first
  cases settles with
  | error failed => cases same
  | ok ran =>
    cases same
    obtain ⟨-, -, -, top, here, -⟩ := interpret_ready [] numbered accepts ran
      fun id (_ : id < next ∨ next ≤ id) => rfl
    obtain rfl : k.nextNode = next := congrArg Backdrop.nextNode here
    obtain rfl : k.registry = known := congrArg Backdrop.registry here
    have joined := accepts.joined accepts' rfl rfl
    generalize all : warnings ++ warnings'.map (Diagnostic.relabelled (.down (newlines p + 1))) =
      whole at joined
    -- The first program runs alike where the second one has been accepted already.
    obtain ⟨k', ran', agrees, -, -, there⟩ := interpret_ready whole numbered accepts ran
      accepts'.addresses_eq
    obtain ⟨ended, k₂, settles, rfl, rfl⟩ := accepts'.runSource_iff.mp second
    have agrees' : ({ k with active := m.active }.ready warnings' next' known').Agrees k' :=
      { agrees with active := agrees.active.trans top }
    obtain ⟨ended', k₂', settles', joins, machines⟩ := settles_behind (newlines p + 1) agrees' rfl
      (congrArg Backdrop.registry there) settles
    have reported : k.world.err = m.world.err.reporting warnings := congrArg Backdrop.err here
    have same : k₂'.backdrop = { k₂.backdrop with err := m.world.err.reporting whole } := by
      rw [machines.there.trans there, machines.here]
      exact Machine.backdrop_ready here whole warnings' next' known'
    refine ⟨ended'.map fun _ => whole, { k₂' with active := m.active }, ⟨_, _, accepts'⟩,
      ⟨_, _, _, all ▸ joined⟩, joined.runSource_iff.mpr ⟨ended', k₂',
        Engine.settles_append ran' settles', rfl, rfl⟩, all ▸ joins.map warnings' whole,
      .of_machines machines same m.active, ?_⟩
    exact ⟨(congrArg Backdrop.err machines.here).trans
      (congrArg (Sink.reporting warnings') reported), all ▸ congrArg Backdrop.err same⟩

/-- Two sources may as well stand in one, with a line end between them, if neither of them runs
another source or reads the clock: it is accepted with the warnings of both and does what the two do
one after the other. Where the second one is to blame, for a warning or for an error, it is blamed
as many lines further down as the first one has. Machines of a session are numbered
(`session_numbered`). -/
theorem joined_sources_run_alike {m m₁ m₂ : Machine} (depth : Nat) (numbered : m.Numbered)
    (first : (engine depth).runSource p m = .ok (.ok warnings) m₁)
    (second : (engine depth).runSource q m₁ = .ok result m₂)
    (begun : ∀ failure, result = .error failure → failure.isStatic = false)
    (own : Secluded depth p m) (own' : Secluded depth q m₁) :
    ∃ program warnings' result' m',
      JoinedRun (engine depth) p q m m₁ m₂ warnings result program warnings' result' m' := by
  obtain ⟨_, _, _, _, accepts⟩ := accepts_of_runSource first fun _ same => by cases same
  obtain ⟨program, warnings', _, _, accepts'⟩ := accepts_of_runSource second begun
  obtain ⟨result', m', joined⟩ :=
    secluded_joined numbered accepts (own.trans first) accepts' (own'.trans second)
  exact ⟨program, warnings', result', m',
    { joined with ran := runSource_of_barring joined.ran }⟩

/-- Whether the first source runs to its end and the second one is not rejected. -/
def bothRun : EStateM.Result Halt Machine (Except Failure α × Except Failure β) → Bool
  | .ok (.ok _, .ok _) _ => true
  | .ok (.ok _, .error failure) _ => !failure.isStatic
  | _ => false

theorem exists_of_bothRun {E : Engine} {m : Machine}
    (ran : bothRun ((do return (← E.runSource p, ← E.runSource q)) m) = true) :
    ∃ warnings m₁ result m₂, E.runSource p m = .ok (.ok warnings) m₁ ∧
      E.runSource q m₁ = .ok result m₂ ∧
      ∀ failure, result = .error failure → failure.isStatic = false := by
  cases run : (do return (← E.runSource p, ← E.runSource q)) m with
  | error halt n =>
    rw [run] at ran
    cases ran
  | ok results m₂ =>
    rw [run] at ran
    obtain ⟨a, m₁, first, rest⟩ := Eval.bind_eq_ok run
    obtain ⟨b, n, second, last⟩ := Eval.bind_eq_ok rest
    cases last
    cases a with
    | error failure => cases ran
    | ok warnings =>
      refine ⟨warnings, m₁, b, m₂, first, second, fun failure same => ?_⟩
      subst same
      simpa [bothRun] using ran

/-- A function, and a variable that is not used. -/
def declaringSource : String := "fun f(a) \x7b return a; \x7d\n\x7b var u; \x7d"

/-- A variable that is not used, a call of the function and an error. -/
def callingSource : String := "\x7b var v; \x7d\nprint f(true);\nprint -nil;"

theorem declaring_calling_run_alike : ∃ warnings m₁ result m₂,
    (engine 12).runSource declaringSource (.fresh {}) = .ok (.ok warnings) m₁ ∧
    (engine 12).runSource callingSource m₁ = .ok result m₂ ∧
    ∃ program warnings' result' m',
      JoinedRun (engine 12) declaringSource callingSource (.fresh {}) m₁ m₂ warnings result program
        warnings' result' m' := by
  obtain ⟨warnings, m₁, result, m₂, first, second, begun⟩ := exists_of_bothRun
    (show bothRun ((do
        return (← (secluded 12).runSource declaringSource,
          ← (secluded 12).runSource callingSource)) (.fresh {})) = true by
      decide +kernel)
  have started : (engine 0).session [] (.fresh {}) = .ok () (.fresh {}) := rfl
  have first' := runSource_of_barring first
  have second' := runSource_of_barring second
  exact ⟨warnings, m₁, result, m₂, first', second', joined_sources_run_alike 12
    (session_numbered started) first' second' begun (first.trans first'.symm)
    (second.trans second'.symm)⟩

/-- The line that is blamed for a runtime error. -/
def blamedLine? : EStateM.Result Halt Machine (Except Failure α) → Option Nat
  | .ok (.error (.runtime e)) _ => some e.line
  | _ => none

/-- The line that is blamed when one source is run after another one has run to its end. -/
def blamedAfter (E : Engine) (p q : String) (m : Machine) : Option Nat :=
  match E.runSource p m with
  | .ok (.ok _) m₁ => blamedLine? (E.runSource q m₁)
  | _ => none

/-- A function that fails when it is called. -/
def failingFunction : String := "fun f() \x7b return -nil; \x7d"

/-- An error is blamed on the same line although the source that fails stands further down, if code
of the source before it is to blame, or a literal, which stands on no line. -/
theorem blamed_line_may_stay :
    newlines failingFunction + 1 = 1 ∧
    blamedAfter (engine 12) failingFunction "f();" (.fresh {}) = some 1 ∧
    blamedLine? ((engine 12).runSource (failingFunction ++ "\n" ++ "f();") (.fresh {})) = some 1 ∧
    newlines "" + 1 = 1 ∧
    blamedAfter (engine 12) "" "print nil;" (.fresh { out.room := some 0 }) = some 0 ∧
    blamedLine? ((engine 12).runSource ("" ++ "\n" ++ "print nil;")
      (.fresh { out.room := some 0 })) = some 0 := by
  decide +kernel

end Lox
