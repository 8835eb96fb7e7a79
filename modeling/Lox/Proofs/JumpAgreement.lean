import Lox.Proofs.CoherentSteps
import Lox.Proofs.JumpSemantics
import Lox.Proofs.Lockstep
import Lox.Proofs.FailingSteps

/-! The evaluation and the semantics of jumps run in lockstep. A signal is on its way in one of two
forms, as the end of a statement and as an error that leaves a call. Both forms stand for the jump
that the signal makes from where it was raised: nothing but the body of a loop changes where a jump
leads to. -/

namespace Lox.Jump

theorem raised_cons {activity : Activity} (other : activity ≠ .body) (stack : List Activity)
    (signal : Signal) (line : Nat) :
    raised (activity :: stack) signal line = raised stack signal line := by
  cases activity with
  | body => exact absurd rfl other
  | block | branch | call | getter | constructor | condition | increment => rfl

/-- What a failed evaluation means: an error that stands for a signal is the jump of this signal. -/
def unwound (stack : List Activity) (halt : Halt) : Stop :=
  match halt.signal? with
  | some (signal, line) => raised stack signal line
  | none => .halt halt

theorem unwound_silent {halt : Halt} (silent : halt.signal? = none) (stack : List Activity) :
    unwound stack halt = .halt halt := by
  unfold unwound
  rw [silent]

theorem unwound_cons {activity : Activity} (other : activity ≠ .body) (stack : List Activity)
    (halt : Halt) : unwound (activity :: stack) halt = unwound stack halt := by
  unfold unwound
  cases halt.signal? with
  | none => rfl
  | some found => exact raised_cons other stack found.1 found.2

/-- Every failure is that of a signal, or has nothing to do with signals. -/
theorem signal_or_silent (halt : Halt) :
    (∃ signal line, halt = .error ⟨line, .escaped signal⟩) ∨ halt.signal? = none := by
  cases found : halt.signal? with
  | none => exact .inr rfl
  | some raised => exact .inl ⟨raised.1, raised.2, Halt.signal?_eq_some.mp found⟩

/-- The outcome of an expression, where an error that stands for a signal is a jump. -/
def carried (stack : List Activity) :
    EStateM.Result Halt Machine α → EStateM.Result Stop Machine α
  | .ok value m => .ok value m
  | .error halt m => .error (unwound stack halt) m

/-- The outcome of a statement, where both forms of a signal are a jump. -/
def completed (stack : List Activity) :
    EStateM.Result Halt Machine Completion → EStateM.Result Stop Machine Ending
  | .ok .normal m => .ok .normal m
  | .ok (.returned value) m => .ok (.returned value) m
  | .ok (.flow signal line) m => .error (raised stack signal line) m
  | .error halt m => .error (unwound stack halt) m

/-- The same machine on both sides, and the jump for the signal. -/
def lockstep (stack : List Activity) : Lockstep Halt Machine Stop Machine where
  states := Eq
  errors halt stop := stop = unwound stack halt

/-- Whatever goes on around them, both end alike, with values that belong together. -/
def Follows (V : α → β → Prop) (p : Eval α) (q : Run β) : Prop :=
  ∀ stack, (lockstep stack).Runs V p (q stack)

/-- Both end alike, where a signal at the end of the statement is a jump too. -/
def Completes (p : Eval Completion) (q : Run Ending) : Prop :=
  ∀ stack m, q stack m = completed stack (p m)

namespace Follows

variable {V : α → β → Prop} {W : γ → δ → Prop} {p : Eval α} {q : Run β}

theorem eq {q : Run α} (follows : Follows Eq p q) (stack : List Activity) (m : Machine) :
    q stack m = carried stack (p m) := by
  have ended := follows stack (rfl : m = m)
  generalize p m = result, q stack m = result' at ended
  cases ended with
  | ok values states =>
    cases values
    cases states
    rfl
  | error errors states =>
    cases errors
    cases states
    rfl

theorem pure {a : α} {b : β} (values : V a b) : Follows V (Pure.pure a) (Pure.pure b) :=
  fun _ => .pure values

theorem bind {f : α → Eval γ} {g : β → Run δ} (first : Follows V p q)
    (later : ∀ ⦃a b⦄, V a b → Follows W (f a) (g b)) : Follows W (p >>= f) (q >>= g) :=
  fun stack => .bind (first stack) fun _ _ values => later values stack

theorem next {q : Run α} {f : α → Eval γ} {g : α → Run δ} (first : Follows Eq p q)
    (later : ∀ a, Follows W (f a) (g a)) : Follows W (p >>= f) (q >>= g) :=
  fun stack => .next (first stack) fun a => later a stack

theorem ite {condition : Prop} [Decidable condition] {p p' : Eval α} {q q' : Run β}
    (yes : Follows V p q) (no : Follows V p' q') :
    Follows V (if condition then p else p') (if condition then q else q') := by
  split
  · exact yes
  · exact no

/-- A step that raises no signal is the same on both sides. -/
theorem lift (silent : Silent p) : Follows Eq p (Jump.lift p) := by
  intro stack m m' same
  cases same
  unfold Jump.lift
  cases ended : p m with
  | ok value m₁ => exact .ok rfl rfl
  | error halt m₁ => exact .error (unwound_silent (silent ended) stack).symm rfl

theorem fail {line : Nat} {cause : RuntimeError.Cause}
    (silent : RuntimeError.signal? ⟨line, cause⟩ = none) :
    Follows (α := α) Eq (Eval.fail line cause) (Jump.lift (Eval.fail line cause)) :=
  lift (.fail silent)

theorem get : Follows Eq (MonadState.get : Eval Machine) (Jump.lift MonadState.get) :=
  lift .get

/-- All that goes on between a signal and its loop is passed by. -/
theorem during {activity : Activity} (other : activity ≠ .body) (follows : Follows V p q) :
    Follows V p (Jump.during activity q) := by
  intro stack m m' same
  have ended := follows (activity :: stack) same
  unfold Jump.during
  generalize p m = result, q (activity :: stack) m' = result' at ended
  cases ended with
  | ok values states => exact .ok values states
  | error errors states => exact .error (errors.trans (unwound_cons other stack _)) states

theorem within (scope : Option ScopeId) (follows : Follows V p q) :
    Follows V (Eval.within scope p) (Jump.within scope q) := by
  intro stack m m' same
  cases same
  have ended := follows stack (rfl : ({ m with active := scope } : Machine) = _)
  unfold Eval.within Jump.within
  dsimp only
  generalize p { m with active := scope } = result, q stack { m with active := scope } = result'
    at ended
  cases ended with
  | ok values states =>
    cases states
    exact .ok values rfl
  | error errors states =>
    cases states
    exact .error errors rfl

/-- A signal that leaves a source finds no loop: those around the source are not known. -/
theorem settle {q : Run α} (follows : Follows Eq p q) :
    Follows Eq (Eval.settle p) (Jump.settle q) := by
  intro stack m m' same
  cases same
  have ran := follows.eq [] m
  change (lockstep stack).Ends Eq (EStateM.bind (Eval.attempt p) _ m) _
  unfold EStateM.bind Eval.attempt Jump.settle
  rw [ran]
  cases p m with
  | ok value m₁ => exact .ok rfl rfl
  | error halt m₁ =>
    rcases signal_or_silent halt with ⟨signal, line, rfl⟩ | silent
    · exact .ok rfl rfl
    · simp only [carried, unwound_silent silent]
      cases halt with
      | error e => exact .ok rfl rfl
      | violation v => exact .error (unwound_silent silent stack).symm rfl
      | exhausted => exact .error (unwound_silent silent stack).symm rfl

end Follows

namespace Completes

variable {V : α → β → Prop} {p : Eval Completion} {q : Run Ending}

theorem normal : Completes (pure .normal) (pure .normal) := fun _ _ => rfl

theorem returned (value : Value) : Completes (pure (.returned value)) (pure (.returned value)) :=
  fun _ _ => rfl

theorem flow (signal : Signal) (line : Nat) :
    Completes (pure (.flow signal line)) (raise signal line) := fun _ _ => rfl

/-- A statement after a step. -/
theorem after {p : Eval α} {q : Run β} {f : α → Eval Completion} {g : β → Run Ending}
    (first : Follows V p q) (later : ∀ ⦃a b⦄, V a b → Completes (f a) (g b)) :
    Completes (p >>= f) (q >>= g) := by
  intro stack m
  have ended := first stack (rfl : m = m)
  change EStateM.bind (q stack) (fun b => g b stack) m = completed stack (EStateM.bind p f m)
  unfold EStateM.bind
  generalize p m = result, q stack m = result' at ended
  cases ended with
  | ok values states =>
    cases states
    exact later values stack _
  | error errors states =>
    cases errors
    cases states
    rfl

theorem next {p : Eval α} {q : Run α} {f : α → Eval Completion} {g : α → Run Ending}
    (first : Follows Eq p q) (later : ∀ a, Completes (f a) (g a)) :
    Completes (p >>= f) (q >>= g) :=
  .after first fun a b same => by
    cases same
    exact later a

/-- More statements after one. Its signal passes them by. -/
theorem andThen {f : Completion → Eval Completion} {g : Ending → Run Ending}
    (first : Completes p q) (normal : Completes (f .normal) (g .normal))
    (returned : ∀ value, Completes (f (.returned value)) (g (.returned value)))
    (flow : ∀ signal line, f (.flow signal line) = pure (.flow signal line)) :
    Completes (p >>= f) (q >>= g) := by
  intro stack m
  change EStateM.bind (q stack) (fun b => g b stack) m = completed stack (EStateM.bind p f m)
  unfold EStateM.bind
  rw [first stack m]
  cases p m with
  | ok completion m₁ =>
    cases completion with
    | normal => exact normal stack m₁
    | returned value => exact returned value stack m₁
    | flow signal line =>
      dsimp only
      rw [flow]
      rfl
  | error halt m₁ => rfl

/-- Where code ends that a signal cannot leave as such, it leaves as an error. -/
theorem follows {f : Completion → Eval α} {g : Ending → Run β} (first : Completes p q)
    (normal : Follows V (f .normal) (g .normal))
    (returned : ∀ value, Follows V (f (.returned value)) (g (.returned value)))
    (flow : ∀ signal line, f (.flow signal line) = Eval.fail line (.escaped signal)) :
    Follows V (p >>= f) (q >>= g) := by
  intro stack m m' same
  cases same
  change (lockstep stack).Ends V (EStateM.bind p f m)
    (EStateM.bind (q stack) (fun b => g b stack) m)
  unfold EStateM.bind
  rw [first stack m]
  cases p m with
  | ok completion m₁ =>
    cases completion with
    | normal => exact normal stack rfl
    | returned value => exact returned value stack rfl
    | flow signal line =>
      dsimp only
      rw [flow]
      exact .error rfl rfl
  | error halt m₁ => exact .error rfl rfl

theorem during {activity : Activity} (other : activity ≠ .body) (completes : Completes p q) :
    Completes p (Jump.during activity q) := by
  intro stack m
  unfold Jump.during
  rw [completes (activity :: stack) m]
  cases p m with
  | ok completion m₁ =>
    cases completion with
    | normal => rfl
    | returned value => rfl
    | flow signal line => simp only [completed, raised_cons other]
  | error halt m₁ => simp only [completed, unwound_cons other]

theorem within (scope : Option ScopeId) (completes : Completes p q) :
    Completes (Eval.within scope p) (Jump.within scope q) := by
  intro stack m
  unfold Eval.within Jump.within
  dsimp only
  rw [completes stack]
  cases p { m with active := scope } with
  | ok completion m₁ => cases completion <;> rfl
  | error halt m₁ => rfl

end Completes

theorem attempt_ok {p : Eval α} (ran : p m = .ok value m') :
    Eval.attempt p m = .ok (.ok value) m' := by
  unfold Eval.attempt
  rw [ran]

theorem attempt_error {p : Eval α} (failed : p m = .error (.error e) m') :
    Eval.attempt p m = .ok (.error e) m' := by
  unfold Eval.attempt
  rw [failed]

theorem catchSignal_ok {p : Eval Completion} (ran : p m = .ok completion m') :
    Engine.catchSignal p m = .ok completion m' :=
  Eval.bind_of_ok (attempt_ok ran)

theorem catchSignal_signal {p : Eval Completion}
    (failed : p m = .error (.error ⟨line, .escaped signal⟩) m') :
    Engine.catchSignal p m = .ok (.flow signal line) m' :=
  Eval.bind_of_ok (attempt_error failed)

theorem catchSignal_silent {p : Eval Completion} (failed : p m = .error halt m')
    (silent : halt.signal? = none) : Engine.catchSignal p m = .error halt m' := by
  cases halt with
  | error e =>
    have none : e.signal? = none := Option.map_eq_none_iff.mp silent
    refine (Eval.bind_of_ok (attempt_error failed)).trans ?_
    dsimp only
    rw [none]
    rfl
  | violation v | exhausted =>
    apply Eval.bind_of_error
    unfold Eval.attempt
    rw [failed]

/-- How a loop sees the end of its body. -/
inductive Caught : Completion → Except Signal Ending → Prop where
  | normal : Caught .normal (.ok .normal)
  | returned (value : Value) : Caught (.returned value) (.ok (.returned value))
  | flow (signal : Signal) (line : Nat) : Caught (.flow signal line) (.error signal)

/-- The jumps to a loop are the signals that reach it from its body, in either form. -/
theorem Completes.caught {p : Eval Completion} {q : Run Ending} (completes : Completes p q) :
    Follows Caught (Engine.catchSignal p) (bodyOfLoop q) := by
  intro stack m m' same
  cases same
  have ran := completes (.body :: stack) m
  have own (signal : Signal) (line : Nat) :
      raised (.body :: stack) signal line = .jump stack.length signal line := rfl
  unfold bodyOfLoop
  rw [ran]
  cases ended : p m with
  | ok completion m₁ =>
    rw [catchSignal_ok ended]
    cases completion with
    | normal => exact .ok .normal rfl
    | returned value => exact .ok (.returned value) rfl
    | flow signal line =>
      simp only [completed, own, if_true]
      exact .ok (.flow signal line) rfl
  | error halt m₁ =>
    rcases signal_or_silent halt with ⟨signal, line, rfl⟩ | silent
    · rw [catchSignal_signal ended]
      change (lockstep stack).Ends Caught _ (if stack.length = stack.length then _ else _)
      rw [if_pos rfl]
      exact .ok (.flow signal line) rfl
    · rw [catchSignal_silent ended silent]
      simp only [completed, unwound_silent silent]
      exact .error (unwound_silent silent stack).symm rfl

/-- What both sides run inside an expression or a statement agrees. -/
structure Agrees (depth : Nat) (I : Interpreter) : Prop where
  evaluate : ∀ e, Follows Eq (evaluate depth e) (I.evaluate e)
  execute : ∀ s, Completes (execute depth s) (I.execute s)
  turns : I.turns = depth

namespace Agrees

variable {depth : Nat} {I : Interpreter} (agrees : Agrees depth I)
include agrees

theorem evaluateAll (es : List Expr) :
    Follows Eq ((engine depth).evaluateAll es) (I.evaluateAll es) := by
  induction es with
  | nil => exact .pure rfl
  | cons e es ih => exact .next (agrees.evaluate e) fun _ => .next ih fun _ => .pure rfl

theorem executeAll (ss : List Stmt) :
    Completes ((engine depth).executeAll ss) (I.executeAll ss) := by
  induction ss with
  | nil => exact .normal
  | cons s ss ih => exact .andThen (agrees.execute s) ih .returned fun _ _ => rfl

theorem interpret (ss : List Stmt) : Follows Eq ((engine depth).interpret ss) (I.interpret ss) := by
  induction ss with
  | nil => exact .pure rfl
  | cons s ss ih => exact (agrees.execute s).follows ih (fun _ => ih) fun _ _ => rfl

theorem runSource (source : String) :
    Follows Eq ((engine depth).runSource source) (I.runSource source) := by
  refine .next (.lift (.prepare _ _ source)) fun prepared => ?_
  cases prepared with
  | error failure => exact .pure rfl
  | ok ready =>
    refine .next (.lift (.reportWarnings _)) fun _ =>
      .next (.settle (.within none (agrees.interpret ready.1))) fun result => ?_
    cases result with
    | error failure => exact .pure rfl
    | ok value => exact .pure rfl

theorem evaluateSource (source : String) :
    Follows Eq ((engine depth).evaluateSource source) (I.evaluateSource source) := by
  refine .next (.lift (.prepare _ _ source)) fun prepared => ?_
  cases prepared with
  | error failure => exact .pure rfl
  | ok ready =>
    exact .next (.lift (.reportWarnings _)) fun _ =>
      .settle (.within none (agrees.evaluate ready.1))

theorem runFile (path : Path) : Follows Eq ((engine depth).runFile path) (I.runFile path) := by
  refine .next .get fun m => ?_
  cases m.world.disk.readText path with
  | error fault => exact .pure rfl
  | ok source => exact .next (.lift .modify) fun _ => agrees.runSource source

theorem load (line : Nat) (path : Path) :
    Follows Eq ((engine depth).load line path) (I.load line path) := by
  refine .next (agrees.runFile path) fun result => ?_
  cases result with
  | ok warnings => exact .pure rfl
  | error failure =>
    cases failure with
    | unreadable fault => exact .fail rfl
    | lex | parse | resolve | runtime => exact .lift .modify

theorem loadAll (line : Nat) (paths : List Path) :
    Follows Eq ((engine depth).loadAll line paths) (I.loadAll line paths) := by
  induction paths with
  | nil => exact .pure rfl
  | cons path paths ih => exact .next (agrees.load line path) fun _ => ih

theorem callNative (function : Native) (line : Nat) (arguments : List Value) :
    Follows Eq ((engine depth).callNative function line arguments)
      (I.callNative function line arguments) := by
  cases function with
  | clock => exact .lift (.bind .modify fun _ => .bind .get fun _ => .pure)
  | readLine => exact .lift (.readLine line)
  | printw =>
    cases arguments with
    | nil => exact .lift .pure
    | cons value rest =>
      exact .lift (.bind (.display value) fun _ => .bind (.print line _) fun _ => .pure)
  | loadFile =>
    cases arguments with
    | nil => exact .fail rfl
    | cons value rest =>
      cases value with
      | string path => exact .next (agrees.load line path) fun _ => .pure rfl
      | nil | bool | number | functionRef | native | classRef | instanceRef | traitRef =>
        exact .fail rfl
  | reload => exact .next .get fun m => .next (agrees.loadAll line m.loaded) fun _ => .pure rfl

theorem callClosure (f : Closure) (arguments : List Value) :
    Follows Eq ((engine depth).callClosure f arguments) (I.callClosure f arguments) := by
  refine .next (.lift (.enterFunction f arguments)) fun scope => ?_
  have body := (agrees.executeAll f.declaration.body).within (some scope)
  refine body.follows ?_ (fun value => ?_) fun _ _ => rfl
  · exact .ite (.lift (.receiver f)) (.pure rfl)
  · exact .ite (.lift (.receiver f)) (.pure rfl)

theorem instantiate (id : ClassId) (arguments : List Value) :
    Follows Eq ((engine depth).instantiate id arguments) (I.instantiate id arguments) := by
  refine .next (.lift (.newInstance _)) fun object => .next .get fun m => ?_
  cases m.store.initializer? id with
  | none => exact .pure rfl
  | some f =>
    exact .next (.lift (.bindThis f object)) fun bound =>
      .next (agrees.callClosure bound arguments) fun _ => .pure rfl

theorem invoke (callee : Store.Callable) (line : Nat) (arguments : List Value) :
    Follows Eq ((engine depth).invoke callee line arguments) (I.invoke callee line arguments) := by
  cases callee with
  | function f => exact .during (by decide) (agrees.callClosure f arguments)
  | native function => exact .during (by decide) (agrees.callNative function line arguments)
  | classRef id => exact .during (by decide) (agrees.instantiate id arguments)

theorem call (callee : Value) (line : Nat) (arguments : List Value) :
    Follows Eq ((engine depth).call callee line arguments) (I.call callee line arguments) := by
  refine .next .get fun m => ?_
  dsimp only
  cases m.store.callable? callee with
  | none => exact .fail rfl
  | some callable => exact .ite (agrees.invoke callable line arguments) (.fail rfl)

theorem readMethod (m : Method) (this : Value) :
    Follows Eq ((engine depth).readMethod m this) (I.readMethod m this) :=
  .next (.lift (.bindThis m.closure this)) fun f =>
    .ite (.during (by decide) (agrees.callClosure f [])) (.lift (.newFunction f))

theorem getProperty (object : Value) (name : Token) :
    Follows Eq ((engine depth).getProperty object name) (I.getProperty object name) := by
  refine .next .get fun m => ?_
  dsimp only
  cases m.store.descriptor? object with
  | none => exact .fail rfl
  | some descriptor =>
    cases m.store.field? object name.lexeme with
    | some value => exact .pure rfl
    | none =>
      dsimp only
      cases m.store.methodOf? name.lexeme descriptor with
      | some method => exact agrees.readMethod method object
      | none => exact .fail rfl

theorem setProperty (object : Value) (name : Token) (value : Expr) :
    Follows Eq ((engine depth).setProperty object name value)
      (I.setProperty object name value) := by
  refine .next .get fun m => ?_
  cases m.store.descriptor? object with
  | none => exact .fail rfl
  | some descriptor =>
    exact .next (agrees.evaluate value) fun _ => .next (.lift .modify) fun _ => .pure rfl

theorem superMethod (keyword : Reference) (method : Token) :
    Follows Eq ((engine depth).superMethod keyword method) (I.superMethod keyword method) := by
  refine .next (.lift (.address? keyword)) fun found => ?_
  cases found with
  | none => exact .fail rfl
  | some address =>
    refine .next (.lift (.superAndThis _ _)) fun target => .next .get fun m => ?_
    cases m.store.method? method.lexeme target.1 with
    | some found => exact agrees.readMethod found target.2
    | none => exact .fail rfl

theorem evaluateRule (e : Expr) :
    Follows Eq ((engine depth).evaluateRule e) (I.evaluateRule e) := by
  cases e with
  | assign target value =>
    exact .next (agrees.evaluate value) fun _ => .next (.lift (.writeVariable _ _)) fun _ =>
      .pure rfl
  | binary left operator right =>
    exact .next (agrees.evaluate left) fun _ => .next (agrees.evaluate right) fun _ =>
      .lift (.binary _ _ _)
  | call callee paren arguments =>
    exact .next (agrees.evaluate callee) fun _ => .next (agrees.evaluateAll arguments) fun _ =>
      agrees.call _ _ _
  | property object name =>
    exact .next (agrees.evaluate object) fun object => agrees.getProperty object name
  | group e => exact agrees.evaluate e
  | lambda f => exact .next .get fun _ => .lift (.newFunction _)
  | literal value => exact .pure rfl
  | logical left operator right =>
    exact .next (agrees.evaluate left) fun _ => .ite (.pure rfl) (agrees.evaluate right)
  | setProperty object name value =>
    exact .next (agrees.evaluate object) fun object => agrees.setProperty object name value
  | superRef keyword method => exact agrees.superMethod keyword method
  | ternary condition thenValue elseValue =>
    exact .next (agrees.evaluate condition) fun _ =>
      .ite (agrees.evaluate thenValue) (agrees.evaluate elseValue)
  | thisRef keyword => exact .lift (.readVariable keyword)
  | unary operator right =>
    exact .next (agrees.evaluate right) fun _ => .lift (.unary _ _)
  | varRef reference => exact .lift (.readVariable reference)

theorem betweenTurns (increment : Option Expr) :
    Follows Eq ((engine depth).betweenTurns increment) (I.betweenTurns increment) := by
  cases increment with
  | none => exact .pure rfl
  | some increment =>
    exact .next (.during (by decide) (agrees.evaluate increment)) fun _ => .pure rfl

end Agrees

/-- How the turns of a loop end on both sides. A signal is never the result of a turn. -/
inductive Turned : Option Completion → Option Ending → Prop where
  | again : Turned none none
  | normal : Turned (some .normal) (some .normal)
  | returned (value : Value) : Turned (some (.returned value)) (some (.returned value))

theorem Agrees.turn (agrees : Agrees depth I) (condition : Expr) (body : Stmt)
    (increment : Option Expr) :
    Follows Turned ((engine depth).turn condition body increment)
      (I.turn condition body increment) := by
  have tested : Follows Eq ((engine depth).evaluate condition)
      (during .condition (I.evaluate condition)) :=
    .during (by decide) (agrees.evaluate condition)
  have again : Follows Turned
      (do (engine depth).betweenTurns increment; return none)
      (do I.betweenTurns increment; return none) :=
    .next (agrees.betweenTurns increment) fun _ => .pure .again
  refine .next tested fun value => .ite (.pure .normal) (.bind (agrees.execute body).caught ?_)
  intro completion outcome caught
  cases caught with
  | normal => exact again
  | returned value => exact .pure (.returned value)
  | flow signal line =>
    cases signal with
    | exitLoop => exact .pure .normal
    | nextTurn => exact again

/-- By induction on the turns that are left. -/
theorem Completes.repeatUntil {step : Eval (Option Completion)} {step' : Run (Option Ending)}
    (steps : Follows Turned step step') (turns : Nat) :
    Completes (Engine.repeatUntil step turns) (Interpreter.repeatUntil step' turns) := by
  induction turns with
  | zero => exact fun _ _ => rfl
  | succ turns ih =>
    refine .after steps fun result result' turned => ?_
    cases turned with
    | again => exact ih
    | normal => exact .normal
    | returned value => exact .returned value

/-- Which traits a class mixes in does not depend on the engine. -/
theorem traitsOf_depth (depth : Nat) (traits : List Reference) :
    (engine depth).traitsOf traits = (engine 0).traitsOf traits := by
  induction traits with
  | nil => rfl
  | cons reference rest ih =>
    unfold Engine.traitsOf
    rw [ih]
    rfl

theorem declareClass_depth (depth : Nat) (c : ClassDecl) :
    (engine depth).declareClass c = (engine 0).declareClass c := by
  unfold Engine.declareClass
  rw [traitsOf_depth]
  rfl

theorem Agrees.executeRule (agrees : Agrees depth I) (s : Stmt) :
    Completes ((engine depth).executeRule s) (I.executeRule s) := by
  cases s with
  | block body =>
    exact .next .get fun m => .next (.lift (.newScope _ _)) fun scope =>
      .during (by decide) (.within (some scope) (agrees.executeAll body))
  | classDecl declaration =>
    have declared : Follows Eq ((engine depth).declareClass declaration)
        (lift ((engine 0).declareClass declaration)) := by
      rw [declareClass_depth]
      exact .lift (.declareClass (fun r => .readVariable r) declaration)
    exact .next declared fun _ => .normal
  | expression value => exact .next (agrees.evaluate value) fun _ => .normal
  | flow signal line => exact .flow signal line
  | functionDecl declaration => exact .next (.lift (.declareFunction declaration)) fun _ => .normal
  | ifElse condition thenBranch elseBranch =>
    refine .next (agrees.evaluate condition) fun value => ?_
    split
    · exact .during (by decide) (agrees.execute thenBranch)
    · cases elseBranch with
      | some branch => exact .during (by decide) (agrees.execute branch)
      | none => exact .normal
  | print value =>
    exact .next (agrees.evaluate value) fun result => .next (.lift (.display result)) fun _ =>
      .next (.lift (.print _ _)) fun _ => .normal
  | returns line value =>
    cases value with
    | none => exact .returned .nil
    | some value => exact .next (agrees.evaluate value) .returned
  | traitDecl declaration => exact .next (.lift (.declareTrait declaration)) fun _ => .normal
  | varDecl name value =>
    cases value with
    | some value =>
      exact .next (agrees.evaluate value) fun _ => .next (.lift (.declare _ _)) fun _ => .normal
    | none => exact .next (.pure rfl) fun _ => .next (.lift (.declare _ _)) fun _ => .normal
  | loop condition body increment =>
    change Completes (Engine.repeatUntil _ depth) (Interpreter.repeatUntil _ I.turns)
    rw [agrees.turns]
    exact .repeatUntil (agrees.turn condition body increment) depth

/-- Both semantics agree at every depth. -/
theorem agrees (depth : Nat) : Agrees depth (interpreter depth) := by
  induction depth with
  | zero => exact ⟨fun _ => .lift .exhausted, fun _ _ _ => rfl, rfl⟩
  | succ depth ih => exact ⟨ih.evaluateRule, ih.executeRule, rfl⟩

end Lox.Jump
