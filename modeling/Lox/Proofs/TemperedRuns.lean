import Lox.Proofs.FailingSteps
import Lox.Proofs.Watch

/-! What runs fail with. A run raises a signal only if it executes the `break` or the `continue`
that asks for it, and it complains about an operator only if it evaluates an expression whose
operator is none. -/

namespace Lox

variable {P : Halt → Prop}

namespace Ends

variable {Q : α → Prop}

theorem within {p : Eval α} (scope : Option ScopeId) (body : Ends P Q p) :
    Ends P Q (Eval.within scope p) := by
  intro m
  have ended := body { m with active := scope }
  unfold Eval.within
  cases ran : p { m with active := scope } with
  | ok a m₁ =>
    rw [ran] at ended
    exact ended
  | error halt m₁ =>
    rw [ran] at ended
    exact ended

/-- What has been caught is a failure all the same. -/
def Caught (P : Halt → Prop) (Q : α → Prop) : Except RuntimeError α → Prop
  | .ok a => Q a
  | .error e => P (.error e)

theorem attempt {p : Eval α} (body : Ends P Q p) : Ends P (Caught P Q) (Eval.attempt p) := by
  intro m
  have ended := body m
  unfold Eval.attempt
  split <;> rename_i ran <;> rw [ran] at ended <;> exact ended

theorem repeatUntil {step : Eval (Option α)} [lenient : Lenient P]
    (once : Ends P (fun result => ∀ a ∈ result, Q a) step) (turns : Nat) :
    Ends P Q (Engine.repeatUntil step turns) := by
  induction turns with
  | zero => exact .throw (lenient.common _ rfl)
  | succ turns ih =>
    apply once.bind
    intro result holds
    cases result with
    | none => exact ih
    | some a => exact .pure (holds a rfl)

end Ends

namespace Raises

theorem within {p : Eval α} (scope : Option ScopeId) (body : Raises P p) :
    Raises P (Eval.within scope p) := (body.ends.within scope).raises

theorem settle {p : Eval α} (body : Raises P p) : Raises P (Eval.settle p) := by
  apply bind body.ends.attempt.raises
  intro caught
  cases caught <;> exact pure

end Raises

/-- A statement may end with a signal if the failure that it becomes meets the condition. -/
def Completion.Allowed (P : Halt → Prop) : Completion → Prop
  | .flow signal line => P (.error ⟨line, .escaped signal⟩)
  | .normal | .returned _ => True

/-- A caught signal goes on as a signal, and any other error as an error. -/
theorem Ends.catchSignal {body : Eval Completion} (ends : Ends P (Completion.Allowed P) body) :
    Ends P (Completion.Allowed P) (Engine.catchSignal body) := by
  apply ends.attempt.bind
  intro caught holds
  cases caught with
  | ok completion => exact .pure holds
  | error e =>
    dsimp only
    cases found : e.signal? with
    | none => exact .throw holds
    | some signal =>
      have raised : Halt.signal? (.error e) = some (signal, e.line) := by
        simp [Halt.signal?, found]
      refine .pure ?_
      change P (.error ⟨e.line, .escaped signal⟩)
      rw [← Halt.signal?_eq_some.mp raised]
      exact holds

/-- The complaint about an operator that is none meets the condition. -/
def Expr.Operable (P : Halt → Prop) : Expr → Prop
  | .unary operator _ => operator.kind ∉ unaryOperators →
      P (.error ⟨operator.line, .invalidUnary operator.lexeme⟩)
  | .binary _ operator _ => operator.kind ∉ binaryOperators →
      P (.error ⟨operator.line, .invalidBinary operator.lexeme⟩)
  | _ => True

/-- Only the signal of a flow statement has to meet the condition. -/
def Stmt.Operable (P : Halt → Prop) : Stmt → Prop
  | .flow signal line => P (.error ⟨line, .escaped signal⟩)
  | _ => True

/-- An engine whose parts fail only in ways that meet the condition. -/
structure Engine.Tempered (P : Halt → Prop) (E : Engine) : Prop where
  evaluate : ∀ e, Raises P (E.evaluate e)
  execute : ∀ s, Ends P (Completion.Allowed P) (E.execute s)
  read : ∀ reference, Raises P (E.read reference)
  write : ∀ reference value, Raises P (E.write reference value)
  bind : ∀ method receiver, Raises P (E.bind method receiver)
  enter : ∀ f arguments, Raises P (E.enter f arguments)

namespace Engine.Tempered

variable {E : Engine} (tempered : E.Tempered P)
include tempered

theorem evaluateAll (es : List Expr) : Raises P (E.evaluateAll es) := by
  induction es with
  | nil => exact .pure
  | cons e es ih => exact .bind (tempered.evaluate e) fun _ => .bind ih fun _ => .pure

theorem executeAll (ss : List Stmt) : Ends P (Completion.Allowed P) (E.executeAll ss) := by
  induction ss with
  | nil => exact .pure trivial
  | cons s ss ih =>
    apply (tempered.execute s).bind
    intro completion allowed
    cases completion with
    | normal => exact ih
    | returned value => exact .pure allowed
    | flow signal line => exact .pure allowed

theorem interpret (ss : List Stmt) : Raises P (E.interpret ss) := by
  induction ss with
  | nil => exact .pure
  | cons s ss ih =>
    apply Raises.after (tempered.execute s)
    intro completion allowed
    cases completion with
    | normal => exact ih
    | returned value => exact ih
    | flow signal line => exact .throw allowed

theorem turn (condition : Expr) (body : Stmt) (increment : Option Expr) :
    Ends P (fun result => ∀ completion ∈ result, completion.Allowed P)
      (E.turn condition body increment) := by
  have goOn : Ends P (fun result => ∀ completion ∈ result, Completion.Allowed P completion)
      (do E.betweenTurns increment; return none) := by
    have between : Raises P (E.betweenTurns increment) := by
      cases increment with
      | none => exact .pure
      | some e => exact .bind (tempered.evaluate e) fun _ => .pure
    apply between.ends.bind
    intro _ _
    refine .pure ?_
    simp
  apply (tempered.evaluate condition).ends.bind
  intro asked _
  split
  · refine .pure ?_
    simp [Completion.Allowed]
  · apply (tempered.execute body).catchSignal.bind
    intro completion _
    cases completion with
    | normal => exact goOn
    | returned value =>
      refine .pure ?_
      simp [Completion.Allowed]
    | flow signal line =>
      cases signal with
      | exitLoop =>
        refine .pure ?_
        simp [Completion.Allowed]
      | nextTurn => exact goOn

theorem runSource (source : String) : Raises P (E.runSource source) := by
  refine .bind (.prepare _ _ source) fun prepared => ?_
  cases prepared with
  | error failure => exact .pure
  | ok accepted =>
    obtain ⟨program, warnings⟩ := accepted
    refine .bind (.reportWarnings warnings) fun _ => ?_
    refine .bind (.settle (.within none (tempered.interpret program))) fun settled => ?_
    cases settled <;> exact .pure

theorem runFile (path : Path) : Raises P (E.runFile path) := by
  refine .bind .get fun m => ?_
  cases m.world.disk.readText path with
  | error fault => exact .pure
  | ok source => exact .bind .modify fun _ => tempered.runSource source

/-- A function makes the signal of its body a failure. -/
theorem callClosure (f : Closure) (arguments : List Value) :
    Raises P (E.callClosure f arguments) := by
  refine .bind (tempered.enter f arguments) fun scope => ?_
  apply Raises.after ((tempered.executeAll f.declaration.body).within (some scope))
  intro completion allowed
  cases completion with
  | flow signal line => exact .throw allowed
  | normal => exact .ite (.receiver f) .pure
  | returned value => exact .ite (.receiver f) .pure

theorem instantiate (id : ClassId) (arguments : List Value) :
    Raises P (E.instantiate id arguments) := by
  refine .bind (.newInstance _) fun object => .bind .get fun m => ?_
  cases m.store.initializer? id with
  | none => exact .pure
  | some f =>
    exact .bind (tempered.bind f object) fun bound =>
      .bind (tempered.callClosure bound arguments) fun _ => .pure

theorem readMethod (m : Method) (this : Value) : Raises P (E.readMethod m this) := by
  apply Raises.bind (tempered.bind m.closure this)
  intro f
  exact .ite (tempered.callClosure f []) (.newFunction f)

variable [Lenient P]

theorem load (line : Nat) (path : Path) : Raises P (E.load line path) := by
  apply Raises.bind (tempered.runFile path)
  intro ran
  split
  · exact .pure
  · exact .fail rfl
  · exact .modify

theorem loadAll (line : Nat) (paths : List Path) : Raises P (E.loadAll line paths) := by
  induction paths with
  | nil => exact .pure
  | cons path paths ih => exact .bind (tempered.load line path) fun _ => ih

theorem callNative (function : Native) (line : Nat) (arguments : List Value) :
    Raises P (E.callNative function line arguments) := by
  unfold Engine.callNative
  split
  · exact .bind .modify fun _ => .bind .get fun _ => .pure
  · exact .readLine line
  · exact .pure
  · exact .bind (.display _) fun _ => .bind (.print line _) fun _ => .pure
  · exact .bind (tempered.load line _) fun _ => .pure
  · exact .fail rfl
  · exact .bind .get fun _ => .bind (tempered.loadAll line _) fun _ => .pure

theorem call (callee : Value) (line : Nat) (arguments : List Value) :
    Raises P (E.call callee line arguments) := by
  refine .bind .get fun m => ?_
  dsimp only
  cases m.store.callable? callee with
  | none => exact .fail rfl
  | some callable =>
    refine .ite ?_ (.fail rfl)
    cases callable with
    | function f => exact tempered.callClosure f arguments
    | native function => exact tempered.callNative function line arguments
    | classRef id => exact tempered.instantiate id arguments

theorem getProperty (object : Value) (name : Token) : Raises P (E.getProperty object name) := by
  refine .bind .get fun m => ?_
  dsimp only
  cases m.store.descriptor? object with
  | none => exact .fail rfl
  | some descriptor =>
    cases m.store.field? object name.lexeme with
    | some value => exact .pure
    | none =>
      dsimp only
      cases m.store.methodOf? name.lexeme descriptor with
      | some method => exact tempered.readMethod method object
      | none => exact .fail rfl

theorem setProperty (object : Value) (name : Token) (value : Expr) :
    Raises P (E.setProperty object name value) := by
  refine .bind .get fun m => ?_
  cases m.store.descriptor? object with
  | none => exact .fail rfl
  | some _ => exact .bind (tempered.evaluate value) fun _ => .bind .modify fun _ => .pure

theorem superMethod (keyword : Reference) (method : Token) :
    Raises P (E.superMethod keyword method) := by
  refine .bind (.address? keyword) fun address => ?_
  cases address with
  | none => exact .fail rfl
  | some address =>
    refine .bind (.superAndThis _ _) fun found => .bind .get fun m => ?_
    cases m.store.method? method.lexeme found.1 with
    | some method => exact tempered.readMethod method found.2
    | none => exact .fail rfl

theorem evaluateRule {e : Expr} (operable : e.Operable P) : Raises P (E.evaluateRule e) := by
  cases e with
  | assign target value =>
    exact .bind (tempered.evaluate value) fun v => .bind (tempered.write target v) fun _ => .pure
  | binary left operator right =>
    exact .bind (tempered.evaluate left) fun _ => .bind (tempered.evaluate right) fun _ =>
      .binary operable
  | call callee paren arguments =>
    exact .bind (tempered.evaluate callee) fun _ => .bind (tempered.evaluateAll arguments) fun _ =>
      tempered.call _ _ _
  | property object name =>
    exact .bind (tempered.evaluate object) fun _ => tempered.getProperty _ name
  | group e => exact tempered.evaluate e
  | lambda f => exact .bind .get fun _ => .newFunction _
  | literal value => exact .pure
  | logical left operator right =>
    exact .bind (tempered.evaluate left) fun _ => .ite .pure (tempered.evaluate right)
  | setProperty object name value =>
    exact .bind (tempered.evaluate object) fun _ => tempered.setProperty _ name value
  | superRef keyword method => exact tempered.superMethod keyword method
  | ternary condition thenValue elseValue =>
    exact .bind (tempered.evaluate condition) fun _ =>
      .ite (tempered.evaluate thenValue) (tempered.evaluate elseValue)
  | thisRef keyword => exact tempered.read keyword
  | unary operator right =>
    exact .bind (tempered.evaluate right) fun _ => .unary operable
  | varRef reference => exact tempered.read reference

theorem executeRule {s : Stmt} (operable : s.Operable P) :
    Ends P (Completion.Allowed P) (E.executeRule s) := by
  have normally {α : Type} {p : Eval α} (raises : Raises P p) :
      Ends P (Completion.Allowed P) (do let _ ← p; return .normal) :=
    raises.ends.bind fun _ _ => .pure trivial
  cases s with
  | block body =>
    refine .bind Raises.get.ends fun m _ => .bind (Raises.newScope _ _).ends fun scope _ => ?_
    exact (tempered.executeAll body).within (some scope)
  | classDecl declaration => exact normally (.declareClass tempered.read declaration)
  | expression value => exact normally (tempered.evaluate value)
  | flow signal line => exact .pure operable
  | functionDecl declaration => exact normally (.declareFunction declaration)
  | ifElse condition thenBranch elseBranch =>
    apply (tempered.evaluate condition).ends.bind
    intro asked _
    split
    · exact tempered.execute thenBranch
    · cases elseBranch with
      | some branch => exact tempered.execute branch
      | none => exact .pure trivial
  | print value =>
    refine (tempered.evaluate value).ends.bind fun result _ => ?_
    refine (Raises.display result).ends.bind fun text _ => ?_
    exact normally (.print _ _)
  | returns keyword value =>
    cases value with
    | none => exact .pure trivial
    | some value => exact (tempered.evaluate value).ends.bind fun _ _ => .pure trivial
  | traitDecl declaration => exact normally (.declareTrait declaration)
  | varDecl name value =>
    cases value with
    | none => exact normally (.declare name.lexeme _)
    | some value =>
      exact (tempered.evaluate value).ends.bind fun _ _ => normally (.declare name.lexeme _)
  | loop condition body increment =>
    exact (tempered.turn condition body increment).repeatUntil E.turns

end Engine.Tempered

section

variable [lenient : Lenient P] {w : Watch} {event : Event}

/-- Where the watch stops a run is no failure of the program. -/
theorem Ends.guard {p : Eval α} {Q : α → Prop} (body : ∀ m, w.allows event m → Ends P Q p) :
    Ends P Q (w.guard event p) := by
  intro m
  by_cases allowed : w.allows event m
  · rw [Watch.guard_of_allowed allowed]
    exact body m allowed m
  · rw [Watch.guard_of_forbidden allowed]
    exact lenient.common _ rfl

theorem Raises.guard {p : Eval α} (body : ∀ m, w.allows event m → Raises P p) :
    Raises P (w.guard event p) :=
  (Ends.guard fun m allowed => (body m allowed).ends).raises

/-- If all that a watch allows is operable, its engine is tempered. -/
theorem Watch.tempered (expressions : ∀ e m, w.allows (.evaluate e) m → e.Operable P)
    (statements : ∀ s m, w.allows (.execute s) m → s.Operable P) (depth : Nat) :
    (w.engine depth).Tempered P := by
  have parts {evaluate : Expr → Eval Value} {execute : Stmt → Eval Completion} {turns : Nat}
      (evaluates : ∀ e, Raises P (evaluate e))
      (executes : ∀ s, Ends P (Completion.Allowed P) (execute s)) :
      (w.engineOver evaluate execute turns).Tempered P := by
    refine ⟨evaluates, executes, fun reference => ?_, fun reference value => ?_,
      fun method receiver => ?_, fun f arguments => ?_⟩
    · exact .guard fun _ _ => .readVariable reference
    · exact .guard fun _ _ => .writeVariable reference value
    · exact .guard fun _ _ => .bindThis method receiver
    · exact .guard fun _ _ => .enterFunction f arguments
  induction depth with
  | zero => exact parts (fun _ => .exhausted) fun _ => .throw (lenient.common _ rfl)
  | succ depth ih =>
    apply parts
    · intro e
      exact .guard fun m allowed => ih.evaluateRule (expressions e m allowed)
    · intro s
      exact .guard fun m allowed => ih.executeRule (statements s m allowed)

end

end Lox
