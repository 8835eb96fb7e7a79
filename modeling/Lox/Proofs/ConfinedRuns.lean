import Lox.Proofs.EngineFamilies

/-! Runs that do without some of the native functions. They are the runs that do not change where a
call of these functions has no result. Runs that keep to their own source are among them, and runs
that do not depend on the time either. -/

namespace Lox

/-- Whether a call calls one of these native functions. -/
def Value.calls (barred : Native → Bool) (arguments : List Value) : Value → Bool
  | .native function => barred function && arguments.length == function.arity
  | _ => false

/-- A function that is called as it has to be is not barred. -/
theorem Value.open_of_calls {barred : Native → Bool} {function : Native} {arguments : List Value}
    (own : (Value.native function).calls barred arguments = false)
    (fits : arguments.length = function.arity) : barred function = false := by
  simpa [calls, fits] using own

/-- The rules of evaluation, without a result for calls of the functions that are barred. -/
def Engine.barredRule (barred : Native → Bool) (engine : Engine) : Expr → Eval Value
  | .call callee paren arguments => do
    let callee ← engine.evaluate callee
    let arguments ← engine.evaluateAll arguments
    if callee.calls barred arguments then Eval.exhausted
    else engine.call callee paren.line arguments
  | e => engine.evaluateRule e

/-- The engine of a given depth that does without the functions that are barred. -/
def barring (barred : Native → Bool) : (depth : Nat) → Engine
  | 0 => .over (fun _ => Eval.exhausted) (fun _ => Eval.exhausted) 0
  | depth + 1 =>
    .over ((barring barred depth).barredRule barred) (barring barred depth).executeRule (depth + 1)

/-- The engine of a given depth that runs no source but its own. -/
abbrev confined (depth : Nat) : Engine := barring Native.loads depth

/-- Whether a function runs another source or reads the clock. -/
def Native.readsFilesOrClock : Native → Bool
  | .loadFile | .reload | .clock => true
  | .readLine | .printw => false

/-- The engine of a given depth that neither runs another source nor reads the clock. -/
abbrev secluded (depth : Nat) : Engine := barring Native.readsFilesOrClock depth

theorem Congruence.Relates.confinedRule {C : Congruence ι} {E : ι → Engine} {turns : Nat}
    (related : C.Relates E turns) (e : Expr) :
    C.holds fun i => (E i).barredRule Native.loads e := by
  have rule := related.evaluateRule_of e
  cases e with
  | call callee paren arguments =>
    refine C.bind (related.evaluate callee) fun f =>
      C.bind (related.evaluateAll arguments) fun values => ?_
    cases own : f.calls Native.loads values with
    | true => exact C.step .exhausted
    | false =>
      refine related.call_of fun function same fits => ownNative ?_ paren.line values
      subst same
      exact Value.open_of_calls own fits
  | _ => exact rule fun _ _ _ same => by cases same

/-- What holds of the steps that have nothing to do with sources holds of all that a confined engine
does. -/
theorem Congruence.confined (C : Congruence ι) (depth : Nat) :
    C.Relates (fun _ => Lox.confined depth) depth := by
  induction depth with
  | zero =>
    exact ⟨fun _ => C.step .exhausted, fun _ => C.step .exhausted,
      fun r => C.step (.readVariable r), fun r v => C.step (.writeVariable r v),
      fun f v => C.step (.bindThis f v), fun f vs => C.step (.enterFunction f vs), fun _ => rfl⟩
  | succ depth ih =>
    exact ⟨ih.confinedRule, ih.executeRule, fun r => C.step (.readVariable r),
      fun r v => C.step (.writeVariable r v), fun f v => C.step (.bindThis f v),
      fun f vs => C.step (.enterFunction f vs), fun _ => rfl⟩

/-- To run the source, no other source is run. -/
def SelfContained (depth : Nat) (source : String) (m : Machine) : Prop :=
  (confined depth).runSource source m = (engine depth).runSource source m

/-- To run the source, no other source is run and the clock is not read. -/
def Secluded (depth : Nat) (source : String) (m : Machine) : Prop :=
  (secluded depth).runSource source m = (engine depth).runSource source m

namespace Confinement

variable {barred : Native → Bool}

/-- The two engines of a depth, the one that does without some functions first. -/
def engines (barred : Native → Bool) (depth : Nat) : Bool → Engine
  | true => barring barred depth
  | false => engine depth

/-- The first of two evaluations is the second one, or has no result. -/
def Agrees (p : Bool → Eval α) (m : Machine) : Prop :=
  p true m = p false m ∨ ∃ m', p true m = .error .exhausted m'

theorem Agrees.bind {p : Bool → Eval α} {f : Bool → α → Eval β} {m : Machine} (first : Agrees p m)
    (later : ∀ a m, Agrees (fun i => f i a) m) : Agrees (fun i => p i >>= f i) m := by
  change EStateM.bind (p true) (f true) m = EStateM.bind (p false) (f false) m ∨
    ∃ m', EStateM.bind (p true) (f true) m = .error .exhausted m'
  unfold EStateM.bind
  obtain same | ⟨m', stopped⟩ := first
  · rw [same]
    cases p false m with
    | ok a m => exact later a m
    | error halt m => exact .inl rfl
  · rw [stopped]
    exact .inr ⟨m', rfl⟩

theorem Agrees.within {p : Bool → Eval α} {m : Machine} (scope : Option ScopeId)
    (body : Agrees p { m with active := scope }) :
    Agrees (fun i => Eval.within scope (p i)) m := by
  unfold Agrees Eval.within
  dsimp only
  obtain same | ⟨m', stopped⟩ := body
  · rw [same]
    exact .inl rfl
  · rw [stopped]
    exact .inr ⟨_, rfl⟩

theorem Agrees.attempt {p : Bool → Eval α} {m : Machine} (body : Agrees p m) :
    Agrees (fun i => Eval.attempt (p i)) m := by
  unfold Agrees Eval.attempt
  dsimp only
  obtain same | ⟨m', stopped⟩ := body
  · rw [same]
    exact .inl rfl
  · rw [stopped]
    exact .inr ⟨m', rfl⟩

def agreement : Congruence Bool where
  holds p := ∀ m, Agrees p m
  step _ _ := .inl rfl
  bind first later m := (first m).bind later
  within scope body _ := .within scope (body _)
  attempt body m := (body m).attempt

instance : agreement.Supplied fun _ => .plain where
  program _ _ := .inl rfl
  expression _ _ := .inl rfl
  remember _ _ := .inl rfl
  remembered _ := .inl rfl
  report _ _ := .inl rfl

/-- Only a call can tell the two engines apart, and only one of a function that is barred. -/
theorem evaluate {depth limit : Nat} (related : agreement.Relates (engines barred depth) limit)
    (e : Expr) : agreement.holds fun i => (engines barred (depth + 1) i).evaluate e := by
  have rule := related.evaluateRule e
  cases e with
  | call callee paren arguments =>
    intro m
    have calls : Agrees (fun i => do
        let callee ← (engines barred depth i).evaluate callee
        let arguments ← (engines barred depth i).evaluateAll arguments
        if i && callee.calls barred arguments then Eval.exhausted
        else (engines barred depth i).call callee paren.line arguments) m := by
      refine .bind (related.evaluate callee m) fun callee m =>
        .bind (related.evaluateAll arguments m) fun arguments m => ?_
      cases callee.calls barred arguments with
      | true => exact .inr ⟨m, rfl⟩
      | false =>
        simp only [Bool.and_false, Bool.false_eq_true, if_false]
        exact related.call callee paren.line arguments m
    exact calls
  | _ => exact rule

theorem relates (barred : Native → Bool) (depth : Nat) :
    agreement.Relates (engines barred depth) depth := by
  induction depth with
  | zero =>
    exact ⟨fun _ _ => .inl rfl, fun _ _ => .inl rfl, fun _ _ => .inl rfl, fun _ _ _ => .inl rfl,
      fun _ _ _ => .inl rfl, fun _ _ _ => .inl rfl, Bool.rec rfl rfl⟩
  | succ depth ih =>
    exact ⟨evaluate ih, fun s m => ih.executeRule s m, fun _ _ => .inl rfl, fun _ _ _ => .inl rfl,
      fun _ _ _ => .inl rfl, fun _ _ _ => .inl rfl, Bool.rec rfl rfl⟩

end Confinement

/-- A run that has a result without some functions is a run. -/
theorem runSource_of_barring (ran : (barring barred depth).runSource source m = .ok result m') :
    (engine depth).runSource source m = .ok result m' := by
  obtain same | ⟨m', stopped⟩ := (Confinement.relates barred depth).runSource source m
  · exact same.symm.trans ran
  · cases ran.symm.trans stopped

end Lox
