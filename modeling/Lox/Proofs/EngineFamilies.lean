import Lox.Proofs.SourcelessSteps
import Lox.Proofs.Supplies

/-! The rules of evaluation use their engine only to run it. Whatever relates the computations of
several engines, holds of the steps that have nothing to do with sources, and is kept by sequencing,
by a change of the active scope and by catching errors, therefore relates the rules over these
engines. Where it also relates the ways in which they come by their sources, it relates everything
that the engines do. -/

namespace Lox

/-- A property of families of computations that the combinators of the rules keep. -/
structure Congruence (ι : Type) where
  holds : {α : Type} → (ι → Eval α) → Prop
  step : {α : Type} → {p : Eval α} → Sourceless p → holds fun _ => p
  bind : {α β : Type} → {p : ι → Eval α} → {f : ι → α → Eval β} → holds p →
    (∀ a, holds fun i => f i a) → holds fun i => p i >>= f i
  within : {α : Type} → {p : ι → Eval α} → (scope : Option ScopeId) → holds p →
    holds fun i => Eval.within scope (p i)
  attempt : {α : Type} → {p : ι → Eval α} → holds p → holds fun i => Eval.attempt (p i)

namespace Congruence

/-- What is looked up in the machine must not be the files that are remembered. -/
theorem ask (C : Congruence ι) {f : ι → Machine → Eval β}
    (blind : ∀ i (m : Machine) paths, f i (m.recalling paths) = f i m)
    (later : ∀ m, C.holds fun i => f i m) : C.holds fun i => get >>= f i := by
  let look : Eval Machine := fun m => .ok (m.recalling []) m
  have sourceless : Sourceless look := ⟨fun _ => ⟨rfl, rfl, rfl, rfl⟩, fun _ _ => rfl⟩
  have same : (fun i => get >>= f i) = fun i => look >>= f i := by
    funext i m
    exact congrFun (blind i m []).symm m
  rw [same]
  exact C.bind (C.step sourceless) later

/-- The property also relates the supplies, and holds of reports. -/
class Supplied (C : Congruence ι) (S : ι → Supply) : Prop where
  program : ∀ source, C.holds fun i => (S i).program source
  expression : ∀ source, C.holds fun i => (S i).expression source
  remember : ∀ path, C.holds fun i => (S i).remember path
  remembered : C.holds fun i => (S i).remembered
  report : ∀ text, C.holds fun _ => Eval.report text

end Congruence

/-- The functions that run other sources. -/
def Native.loads : Native → Bool
  | loadFile | reload => true
  | clock | readLine | printw => false

/-- Only a native function is called as one. -/
theorem Store.native_of_callable? {s : Store} {callee : Value}
    (found : s.callable? callee = some (.native function)) : callee = .native function := by
  cases callee <;> simp_all [Store.callable?]

/-- Engines that are related in all that they do. -/
structure Congruence.Relates (C : Congruence ι) (E : ι → Engine) (turns : Nat) : Prop where
  evaluate : ∀ e, C.holds fun i => (E i).evaluate e
  execute : ∀ s, C.holds fun i => (E i).execute s
  read : ∀ r, C.holds fun i => (E i).read r
  write : ∀ r v, C.holds fun i => (E i).write r v
  bind : ∀ f v, C.holds fun i => (E i).bind f v
  enter : ∀ f vs, C.holds fun i => (E i).enter f vs
  turns : ∀ i, (E i).turns = turns

namespace Congruence.Relates

variable {C : Congruence ι} {E : ι → Engine} {turns : Nat} (related : C.Relates E turns)
include related

theorem evaluateAll (es : List Expr) : C.holds fun i => (E i).evaluateAll es := by
  induction es with
  | nil => exact C.step .pure
  | cons e es ih => exact C.bind (related.evaluate e) fun _ => C.bind ih fun _ => C.step .pure

theorem executeAll (ss : List Stmt) : C.holds fun i => (E i).executeAll ss := by
  induction ss with
  | nil => exact C.step .pure
  | cons s ss ih =>
    refine C.bind (related.execute s) fun completion => ?_
    cases completion with
    | normal => exact ih
    | returned value => exact C.step .pure
    | flow signal line => exact C.step .pure

theorem interpret (ss : List Stmt) : C.holds fun i => (E i).interpret ss := by
  induction ss with
  | nil => exact C.step .pure
  | cons s ss ih =>
    refine C.bind (related.execute s) fun completion => ?_
    cases completion with
    | normal => exact ih
    | returned value => exact ih
    | flow signal line => exact C.step .fail

theorem callClosure (f : Closure) (arguments : List Value) :
    C.holds fun i => (E i).callClosure f arguments := by
  refine C.bind (related.enter f arguments) fun scope =>
    C.bind (C.within (some scope) (related.executeAll f.declaration.body)) fun completion => ?_
  cases completion with
  | flow signal line => exact C.step .fail
  | normal => exact C.step (.ite (.receiver f) .pure)
  | returned value => exact C.step (.ite (.receiver f) .pure)

theorem instantiate (id : ClassId) (arguments : List Value) :
    C.holds fun i => (E i).instantiate id arguments := by
  refine C.bind (C.step (.newInstance _)) fun object => C.ask (fun _ _ _ => rfl) fun m => ?_
  cases m.store.initializer? id with
  | none => exact C.step .pure
  | some f =>
    exact C.bind (related.bind f object) fun bound =>
      C.bind (related.callClosure bound arguments) fun _ => C.step .pure

omit related in
/-- The functions that run no other source do not depend on the engine. -/
theorem ownNative {function : Native} (own : function.loads = false) (line : Nat)
    (arguments : List Value) : C.holds fun i => (E i).callNative function line arguments := by
  match function, arguments with
  | .clock, _ => exact C.step .readClock
  | .readLine, _ => exact C.step (.readLine line)
  | .printw, [] => exact C.step .pure
  | .printw, value :: _ =>
    have printed : Sourceless (do Eval.print line (← Eval.display value); return Value.nil) :=
      .bind (.display value) fun _ => .bind (.print line _) fun _ => .pure
    exact C.step printed
  | .loadFile, _ | .reload, _ => cases own

/-- How the functions are called that run other sources is left open. -/
theorem invoke_of {callee : Store.Callable} {line : Nat} {arguments : List Value}
    (natives : ∀ function, callee = .native function →
      C.holds fun i => (E i).callNative function line arguments) :
    C.holds fun i => (E i).invoke callee line arguments := by
  cases callee with
  | function f => exact related.callClosure f arguments
  | native function => exact natives function rfl
  | classRef id => exact related.instantiate id arguments

theorem call_of {callee : Value} {line : Nat} {arguments : List Value}
    (natives : ∀ function, callee = .native function → arguments.length = function.arity →
      C.holds fun i => (E i).callNative function line arguments) :
    C.holds fun i => (E i).call callee line arguments := by
  refine C.ask (fun _ _ _ => rfl) fun m => ?_
  dsimp only
  cases found : m.store.callable? callee with
  | none => exact C.step .fail
  | some callable =>
    dsimp only
    split
    · rename_i fits
      refine related.invoke_of fun function same => ?_
      subst same
      exact natives function (Store.native_of_callable? found) fits
    · exact C.step .fail

theorem readMethod (m : Method) (this : Value) : C.holds fun i => (E i).readMethod m this := by
  refine C.bind (related.bind m.closure this) fun f => ?_
  cases m.isGetter with
  | true => exact related.callClosure f []
  | false => exact C.step (.newFunction f)

theorem getProperty (object : Value) (name : Token) :
    C.holds fun i => (E i).getProperty object name := by
  refine C.ask (fun _ _ _ => rfl) fun m => ?_
  dsimp only
  cases m.store.descriptor? object with
  | none => exact C.step .fail
  | some descriptor =>
    cases m.store.field? object name.lexeme with
    | some value => exact C.step .pure
    | none =>
      dsimp only
      cases m.store.methodOf? name.lexeme descriptor with
      | some method => exact related.readMethod method object
      | none => exact C.step .fail

theorem setProperty (object : Value) (name : Token) (value : Expr) :
    C.holds fun i => (E i).setProperty object name value := by
  refine C.ask (fun _ _ _ => rfl) fun m => ?_
  cases m.store.descriptor? object with
  | none => exact C.step .fail
  | some _ =>
    exact C.bind (related.evaluate value) fun _ => C.step (.bind .modifyStore fun _ => .pure)

theorem superMethod (keyword : Reference) (method : Token) :
    C.holds fun i => (E i).superMethod keyword method := by
  refine C.bind (C.step (.address? keyword)) fun address => ?_
  cases address with
  | none => exact C.step .fail
  | some address =>
    refine C.bind (C.step (.superAndThis _ _)) fun found => C.ask (fun _ _ _ => rfl) fun m => ?_
    cases m.store.method? method.lexeme found.1 with
    | some method => exact related.readMethod method found.2
    | none => exact C.step .fail

/-- How calls are made is left open. -/
theorem evaluateRule_of (e : Expr)
    (calls : ∀ callee paren arguments, e = .call callee paren arguments →
      ∀ f values, C.holds fun i => (E i).call f paren.line values) :
    C.holds fun i => (E i).evaluateRule e := by
  cases e with
  | assign target value =>
    exact C.bind (related.evaluate value) fun v =>
      C.bind (related.write target v) fun _ => C.step .pure
  | binary left operator right =>
    exact C.bind (related.evaluate left) fun _ => C.bind (related.evaluate right) fun _ =>
      C.step (.binary _ _ _)
  | call callee paren arguments =>
    exact C.bind (related.evaluate callee) fun f =>
      C.bind (related.evaluateAll arguments) fun values => calls callee paren arguments rfl f values
  | property object name =>
    exact C.bind (related.evaluate object) fun object => related.getProperty object name
  | group inner => exact related.evaluate inner
  | lambda f => exact C.ask (fun _ _ _ => rfl) fun _ => C.step (.newFunction _)
  | literal value => exact C.step .pure
  | logical left operator right =>
    refine C.bind (related.evaluate left) fun value => ?_
    cases Eval.decides operator value with
    | true => exact C.step .pure
    | false => exact related.evaluate right
  | setProperty object name value =>
    exact C.bind (related.evaluate object) fun object => related.setProperty object name value
  | superRef keyword method => exact related.superMethod keyword method
  | ternary condition thenValue elseValue =>
    refine C.bind (related.evaluate condition) fun value => ?_
    cases value.isTruthy with
    | true => exact related.evaluate thenValue
    | false => exact related.evaluate elseValue
  | thisRef keyword => exact related.read keyword
  | unary operator right =>
    exact C.bind (related.evaluate right) fun _ => C.step (.unary _ _)
  | varRef reference => exact related.read reference

theorem superclassOf (parent : Option Reference) :
    C.holds fun i => (E i).superclassOf parent := by
  cases parent with
  | none => exact C.step .pure
  | some reference =>
    refine C.bind (related.read reference) fun value => ?_
    cases value with
    | classRef id => exact C.step .pure
    | _ => exact C.step .fail

theorem traitsOf (traits : List Reference) : C.holds fun i => (E i).traitsOf traits := by
  induction traits with
  | nil => exact C.step .pure
  | cons reference rest ih =>
    refine C.bind (related.read reference) fun value => ?_
    cases value with
    | traitRef id => exact C.bind ih fun _ => C.step .pure
    | _ => exact C.step .fail

theorem declareClass (c : ClassDecl) : C.holds fun i => (E i).declareClass c := by
  simp only [Engine.declareClass_eq]
  exact C.bind (related.superclassOf c.superclass) fun _ =>
    C.bind (related.traitsOf c.traits) fun _ => C.step <|
      .bind (.declare _ _) fun _ => .bind (.methodScope _) fun _ => .bind (.newClass _) fun _ =>
        .rebind _ _ _

omit related in
theorem catchSignal {p : ι → Eval Completion} (h : C.holds p) :
    C.holds fun i => Engine.catchSignal (p i) := by
  refine C.bind (C.attempt h) fun result => ?_
  cases result with
  | ok completion => exact C.step .pure
  | error e =>
    dsimp only
    cases e.signal? with
    | some signal => exact C.step .pure
    | none => exact C.step .throw

theorem betweenTurns (increment : Option Expr) :
    C.holds fun i => (E i).betweenTurns increment := by
  cases increment with
  | none => exact C.step .pure
  | some e => exact C.bind (related.evaluate e) fun _ => C.step .pure

theorem turn (condition : Expr) (body : Stmt) (increment : Option Expr) :
    C.holds fun i => (E i).turn condition body increment := by
  refine C.bind (related.evaluate condition) fun value => ?_
  cases value.isTruthy with
  | false => exact C.step .pure
  | true =>
    refine C.bind (catchSignal (related.execute body)) fun completion => ?_
    match completion with
    | .returned value => exact C.step .pure
    | .flow .exitLoop line => exact C.step .pure
    | .flow .nextTurn line | .normal =>
      exact C.bind (related.betweenTurns increment) fun _ => C.step .pure

omit related in
theorem repeatUntil {step : ι → Eval (Option α)} (h : C.holds step) (turns : Nat) :
    C.holds fun i => Engine.repeatUntil (step i) turns := by
  induction turns with
  | zero => exact C.step .exhausted
  | succ turns ih =>
    refine C.bind h fun result => ?_
    cases result with
    | some value => exact C.step .pure
    | none => exact ih

theorem executeRule (s : Stmt) : C.holds fun i => (E i).executeRule s := by
  cases s with
  | block body =>
    exact C.ask (fun _ _ _ => rfl) fun _ => C.bind (C.step (.newScope _ _)) fun scope =>
      C.within (some scope) (related.executeAll body)
  | classDecl declaration =>
    exact C.bind (related.declareClass declaration) fun _ => C.step .pure
  | expression value => exact C.bind (related.evaluate value) fun _ => C.step .pure
  | flow signal line => exact C.step .pure
  | functionDecl declaration =>
    exact C.step (.bind (.declareFunction declaration) fun _ => .pure)
  | ifElse condition thenBranch elseBranch =>
    refine C.bind (related.evaluate condition) fun value => ?_
    cases value.isTruthy with
    | true => exact related.execute thenBranch
    | false =>
      cases elseBranch with
      | none => exact C.step .pure
      | some branch => exact related.execute branch
  | print value =>
    exact C.bind (related.evaluate value) fun _ => C.step <|
      .bind (.display _) fun _ => .bind (.print _ _) fun _ => .pure
  | returns keyword value =>
    cases value with
    | none => exact C.step .pure
    | some value => exact C.bind (related.evaluate value) fun _ => C.step .pure
  | traitDecl declaration => exact C.step (.bind (.declareTrait declaration) fun _ => .pure)
  | varDecl name value =>
    cases value with
    | none => exact C.step (.bind (.declare _ _) fun _ => .pure)
    | some value =>
      exact C.bind (related.evaluate value) fun _ => C.step (.bind (.declare _ _) fun _ => .pure)
  | loop condition body increment =>
    have step := repeatUntil (related.turn condition body increment) turns
    have same : (fun i => (E i).executeRule (.loop condition body increment)) =
        fun i => Engine.repeatUntil ((E i).turn condition body increment) turns := by
      funext i
      rw [← related.turns i]
      rfl
    rw [same]
    exact step

omit related in
theorem settle {p : ι → Eval α} (h : C.holds p) : C.holds fun i => Eval.settle (p i) := by
  refine C.bind (C.attempt h) fun result => ?_
  cases result with
  | ok value => exact C.step .pure
  | error e => exact C.step .pure

omit related in
theorem reportWarnings {S : ι → Supply} (supplied : C.Supplied S) (warnings : List Diagnostic) :
    C.holds fun _ => Eval.reportWarnings warnings := by
  induction warnings with
  | nil => exact C.step .pure
  | cons d ds ih => exact C.bind (supplied.report _) fun _ => ih

section

variable {S : ι → Supply} [supplied : C.Supplied S]

theorem runSourceFrom (source : String) :
    C.holds fun i => (E i).runSourceFrom (S i) source := by
  refine C.bind (supplied.program source) fun prepared => ?_
  match prepared with
  | .error failure => exact C.step .pure
  | .ok (program, warnings) =>
    refine C.bind (reportWarnings supplied warnings) fun _ =>
      C.bind (settle (C.within none (related.interpret program))) ?_
    intro result
    match result with
    | .error failure => exact C.step .pure
    | .ok () => exact C.step .pure

theorem evaluateSourceFrom (source : String) :
    C.holds fun i => (E i).evaluateSourceFrom (S i) source := by
  refine C.bind (supplied.expression source) fun prepared => ?_
  match prepared with
  | .error failure => exact C.step .pure
  | .ok (e, warnings) =>
    exact C.bind (reportWarnings supplied warnings) fun _ =>
      settle (C.within none (related.evaluate e))

theorem runFileFrom (path : Path) : C.holds fun i => (E i).runFileFrom (S i) path := by
  refine C.ask (fun _ _ _ => rfl) fun m => ?_
  cases m.world.disk.readText path with
  | error fault => exact C.step .pure
  | ok source => exact C.bind (supplied.remember path) fun _ => related.runSourceFrom source

theorem loadFrom (line : Nat) (path : Path) : C.holds fun i => (E i).loadFrom (S i) line path := by
  refine C.bind (related.runFileFrom path) fun result => ?_
  match result with
  | .ok _ => exact C.step .pure
  | .error (.unreadable fault) => exact C.step .fail
  | .error (.lex _) | .error (.parse _) | .error (.resolve _) | .error (.runtime _) =>
    exact supplied.report _

theorem loadAllFrom (line : Nat) (paths : List Path) :
    C.holds fun i => (E i).loadAllFrom (S i) line paths := by
  induction paths with
  | nil => exact C.step .pure
  | cons path paths ih => exact C.bind (related.loadFrom line path) fun _ => ih

theorem callNativeFrom (function : Native) (line : Nat) (arguments : List Value) :
    C.holds fun i => (E i).callNativeFrom (S i) function line arguments := by
  have own (own : function.loads = false) :
      C.holds fun i => (E i).callNative function line arguments := ownNative own line arguments
  cases function with
  | clock | readLine | printw => exact own rfl
  | loadFile =>
    cases arguments with
    | nil => exact C.step .fail
    | cons value values =>
      cases value with
      | string path => exact C.bind (related.loadFrom line path) fun _ => C.step .pure
      | _ => exact C.step .fail
  | reload =>
    exact C.bind supplied.remembered fun paths =>
      C.bind (related.loadAllFrom line paths) fun _ => C.step .pure

theorem callFrom (callee : Value) (line : Nat) (arguments : List Value) :
    C.holds fun i => (E i).callFrom (S i) callee line arguments := by
  have other (differs : ∀ function, callee = .native function →
      arguments.length ≠ function.arity) : C.holds fun i => (E i).call callee line arguments :=
    related.call_of fun function same fits => (differs function same fits).elim
  cases callee with
  | native function =>
    unfold Engine.callFrom
    dsimp only
    split
    · exact related.callNativeFrom function line arguments
    · rename_i differs
      exact other fun _ same => by cases same; exact differs
  | _ => exact other fun _ same => by cases same

theorem evaluateRuleFrom (e : Expr) : C.holds fun i => (E i).evaluateRuleFrom (S i) e := by
  have rule := related.evaluateRule_of e
  cases e with
  | call callee paren arguments =>
    exact C.bind (related.evaluate callee) fun f =>
      C.bind (related.evaluateAll arguments) fun values => related.callFrom f paren.line values
  | _ => exact rule fun _ _ _ same => by cases same

end

variable [C.Supplied fun _ => .plain]

theorem runSource (source : String) : C.holds fun i => (E i).runSource source :=
  related.runSourceFrom (S := fun _ => .plain) source

theorem evaluateSource (source : String) : C.holds fun i => (E i).evaluateSource source :=
  related.evaluateSourceFrom (S := fun _ => .plain) source

theorem runFile (path : Path) : C.holds fun i => (E i).runFile path :=
  related.runFileFrom (S := fun _ => .plain) path

theorem load (line : Nat) (path : Path) : C.holds fun i => (E i).load line path :=
  related.loadFrom (S := fun _ => .plain) line path

theorem loadAll (line : Nat) (paths : List Path) : C.holds fun i => (E i).loadAll line paths := by
  have loaded := related.loadAllFrom (S := fun _ => .plain) line paths
  simpa only [Engine.loadAllFrom_plain] using loaded

theorem call (callee : Value) (line : Nat) (arguments : List Value) :
    C.holds fun i => (E i).call callee line arguments := by
  have called := related.callFrom (S := fun _ => .plain) callee line arguments
  simpa only [Engine.callFrom_plain] using called

theorem evaluateRule (e : Expr) : C.holds fun i => (E i).evaluateRule e := by
  have rule := related.evaluateRuleFrom (S := fun _ => .plain) e
  simpa only [Engine.evaluateRuleFrom_plain] using rule

end Congruence.Relates

/-- The engines of a depth are related by what relates their supplies. -/
theorem Congruence.engineFrom (C : Congruence ι) (S : ι → Supply) [C.Supplied S] (depth : Nat) :
    C.Relates (fun i => Lox.engineFrom (S i) depth) depth := by
  induction depth with
  | zero =>
    exact ⟨fun _ => C.step .exhausted, fun _ => C.step .exhausted,
      fun r => C.step (.readVariable r), fun r v => C.step (.writeVariable r v),
      fun f v => C.step (.bindThis f v), fun f vs => C.step (.enterFunction f vs), fun _ => rfl⟩
  | succ depth ih =>
    exact ⟨ih.evaluateRuleFrom, ih.executeRule, fun r => C.step (.readVariable r),
      fun r v => C.step (.writeVariable r v), fun f v => C.step (.bindThis f v),
      fun f vs => C.step (.enterFunction f vs), fun _ => rfl⟩

end Lox
