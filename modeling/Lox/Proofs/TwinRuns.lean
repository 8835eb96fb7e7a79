import Lox.Proofs.ConfinedRuns
import Lox.Proofs.TwinMachines

/-! The same code under different labels does the same on machines that are twins, as long as no
other source is run and nobody asks for the time: both end with the same value or the same
completion, or fail for the same cause at lines that belong together, and the machines are twins
again. -/

namespace Lox

namespace Twins

open Eval

variable {ι : Type} {T : Twins ι} {i : ι} {a : Option ScopeId}

/-- An engine that does the same with code under different labels. -/
structure Engines (T : Twins ι) (E : Engine) : Prop where
  evaluate : ∀ {i a} e,
    T.Runs a Eq (E.evaluate ((T.left i).expr e)) (E.evaluate ((T.right i).expr e))
  execute : ∀ {i a} s,
    T.Runs a T.Completions (E.execute ((T.left i).stmt s)) (E.execute ((T.right i).stmt s))
  read : ∀ {i a} r,
    T.Runs a Eq (E.read ((T.left i).reference r)) (E.read ((T.right i).reference r))
  write : ∀ {i a} r v,
    T.Runs a Eq (E.write ((T.left i).reference r) v) (E.write ((T.right i).reference r) v)
  bind : ∀ {a f f'}, T.Closures f f' → ∀ v, T.Runs a T.Closures (E.bind f v) (E.bind f' v)
  enter : ∀ {a f f'}, T.Closures f f' → ∀ vs, T.Runs a Eq (E.enter f vs) (E.enter f' vs)

theorem entries_methodEntry (parent : Option ScopeId) (f : FunctionDecl) (isGetter : Bool) :
    Recoded.Entries T.Closures (Engine.methodEntry parent ((T.left i).function f) isGetter)
      (Engine.methodEntry parent ((T.right i).function f) isGetter) := by
  have titles : ((T.right i).function f).title = ((T.left i).function f).title :=
    (Relabelling.title_function f).trans (Relabelling.title_function f).symm
  refine ⟨titles, ⟨?_, rfl⟩⟩
  dsimp only [Engine.methodEntry]
  rw [titles]
  exact .of ⟨f, parent, _⟩

theorem entries_default (parent : Option ScopeId) (f : FunctionDecl) :
    Recoded.Entries T.Closures
      (((T.left i).function f).title, ⟨⟨(T.left i).function f, parent, false⟩, false⟩)
      (((T.right i).function f).title, ⟨⟨(T.right i).function f, parent, false⟩, false⟩) :=
  ⟨(Relabelling.title_function f).trans (Relabelling.title_function f).symm,
    ⟨.of ⟨f, parent, false⟩, rfl⟩⟩

theorem tables_functions {entry : FunctionDecl → String × Method}
    (entries : ∀ f, Recoded.Entries T.Closures (entry ((T.left i).function f))
      (entry ((T.right i).function f))) (fs : List FunctionDecl) :
    Recoded.Tables T.Closures (Lox.Methods.ofList (((T.left i).functions fs).map entry))
      (Lox.Methods.ofList (((T.right i).functions fs).map entry)) := by
  refine .ofList ?_
  induction fs with
  | nil => exact .nil
  | cons f fs ih => exact .cons (entries f) ih

theorem tables_methods (parent : Option ScopeId) (ms : List MethodDecl) :
    Recoded.Tables T.Closures
      (Lox.Methods.ofList
        (((T.left i).methods ms).map fun m => Engine.methodEntry parent m.function m.isGetter))
      (Lox.Methods.ofList
        (((T.right i).methods ms).map fun m =>
          Engine.methodEntry parent m.function m.isGetter)) := by
  refine .ofList ?_
  induction ms with
  | nil => exact .nil
  | cons m ms ih =>
    obtain ⟨f, isGetter⟩ := m
    exact .cons (entries_methodEntry parent f isGetter) ih

theorem runs_declareFunction (f : FunctionDecl) :
    T.Runs a Eq (Engine.declareFunction ((T.left i).function f))
      (Engine.declareFunction ((T.right i).function f)) := by
  refine .bind .get fun m m' states => ?_
  rw [states.2.active, Relabelling.title_function, Relabelling.title_function]
  exact .next (runs_newFunction (.of ⟨f, m.active, false⟩)) fun value =>
    .next (runs_declare f.title value) fun _ => .pure rfl

theorem runs_declareTrait (name : Token) (signatures : List Signature) (fs : List FunctionDecl) :
    T.Runs a Eq
      (Engine.declareTrait
        ⟨(T.left i).token name, signatures.map (T.left i).signature, (T.left i).functions fs⟩)
      (Engine.declareTrait
        ⟨(T.right i).token name, signatures.map (T.right i).signature,
          (T.right i).functions fs⟩) := by
  refine .bind .get fun m m' states => ?_
  dsimp only
  rw [states.2.active]
  exact .next (runs_newTrait ⟨rfl, tables_functions (entries_default m.active) fs⟩) fun value =>
    .next (runs_declare name.lexeme value) fun _ => .pure rfl

theorem runs_catchSignal {p q : Eval Completion} (body : T.Runs a T.Completions p q) :
    T.Runs a T.Completions (Engine.catchSignal p) (Engine.catchSignal q) := by
  refine .bind (runs_attempt body) fun result result' results => ?_
  cases results with
  | ok completions => exact .pure completions
  | error errors =>
    cases errors with
    | of line cause =>
      dsimp only [RuntimeError.signal?]
      cases cause with
      | escaped signal => exact .pure (.flow signal line)
      | _ => exact .throw (.error (.of line _))

theorem runs_repeatUntil {V : α → β → Prop} {step : Eval (Option α)} {step' : Eval (Option β)}
    (one : T.Runs a (Option.Rel V) step step') (turns : Nat) :
    T.Runs a V (Engine.repeatUntil step turns) (Engine.repeatUntil step' turns) := by
  induction turns with
  | zero => exact runs_exhausted
  | succ turns ih =>
    refine .bind one fun result result' results => ?_
    cases results with
    | some values => exact .pure values
    | none => exact ih

namespace Engines

variable {E : Engine} (runs : T.Engines E)
include runs

theorem evaluateAll (es : List Expr) :
    T.Runs a Eq (E.evaluateAll ((T.left i).exprs es)) (E.evaluateAll ((T.right i).exprs es)) := by
  induction es with
  | nil => exact .pure rfl
  | cons e es ih => exact .next (runs.evaluate e) fun _ => .next ih fun _ => .pure rfl

theorem executeAll (ss : List Stmt) :
    T.Runs a T.Completions (E.executeAll ((T.left i).stmts ss))
      (E.executeAll ((T.right i).stmts ss)) := by
  induction ss with
  | nil => exact .pure .normal
  | cons s ss ih =>
    refine .bind (runs.execute s) fun completion completion' completions => ?_
    cases completions with
    | normal => exact ih
    | returned value => exact .pure (.returned value)
    | flow signal line => exact .pure (.flow signal line)

theorem interpret (ss : List Stmt) :
    T.Runs a Eq (E.interpret ((T.left i).stmts ss)) (E.interpret ((T.right i).stmts ss)) := by
  induction ss with
  | nil => exact .pure rfl
  | cons s ss ih =>
    refine .bind (runs.execute s) fun completion completion' completions => ?_
    cases completions with
    | normal => exact ih
    | returned value => exact ih
    | flow signal line => exact runs_fail ..

theorem callClosure (closures : T.Closures f f') (arguments : List Value) :
    T.Runs a Eq (E.callClosure f arguments) (E.callClosure f' arguments) := by
  have enters := runs.enter (a := a) closures arguments
  have receives := runs_receiver (a := a) closures
  cases closures with
  | of f =>
    obtain ⟨⟨name, params, body, own⟩, parent, isInitializer⟩ := f
    refine .next enters fun scope => .bind (runs_within (some scope) (runs.executeAll body))
      fun completion completion' completions => ?_
    cases completions with
    | flow signal line => exact runs_fail ..
    | normal => exact .ite receives (.pure rfl)
    | returned value => exact .ite receives (.pure rfl)

theorem instantiate (id : ClassId) (arguments : List Value) :
    T.Runs a Eq (E.instantiate id arguments) (E.instantiate id arguments) := by
  refine .next (runs_newInstance _) fun object => .bind .get fun m m' states => ?_
  have initializers := states.2.store.initializer? id
  generalize m.store.initializer? id = f, m'.store.initializer? id = f' at initializers
  cases initializers with
  | none => exact .pure rfl
  | some closures =>
    exact .bind (runs.bind closures object) fun _ _ bound =>
      .next (runs.callClosure bound arguments) fun _ => .pure rfl

omit runs in
/-- A function that neither runs another source nor reads the clock. -/
theorem callNative (function : Native) (own : function.readsFilesOrClock = false) (line : Nat)
    (arguments : List Value) :
    T.Runs a Eq (E.callNative function ((T.left i).line line) arguments)
      (E.callNative function ((T.right i).line line) arguments) := by
  cases function with
  | readLine => exact runs_readLine line
  | printw =>
    cases arguments with
    | nil => exact .pure rfl
    | cons value _ =>
      exact .next (runs_display value) fun _ => .next (runs_print line _) fun _ => .pure rfl
  | loadFile => cases own
  | reload => cases own
  | clock => cases own

omit runs in
theorem eq_native_of_callable? {s : Store} (found : s.callable? value = some (.native function)) :
    value = .native function := by
  cases value with
  | native f =>
    cases found
    rfl
  | functionRef id =>
    obtain ⟨_, -, same⟩ := Option.map_eq_some_iff.mp found
    cases same
  | classRef id =>
    obtain ⟨_, -, same⟩ := Option.map_eq_some_iff.mp found
    cases same
  | _ => cases found

theorem call (callee : Value) (line : Nat) (arguments : List Value)
    (own : callee.calls Native.readsFilesOrClock arguments = false) :
    T.Runs a Eq (E.call callee ((T.left i).line line) arguments)
      (E.call callee ((T.right i).line line) arguments) := by
  refine .bind .get fun m m' states => ?_
  have callees := states.2.store.callable? callee
  dsimp only
  generalize found : m.store.callable? callee = c, m'.store.callable? callee = c' at callees
  cases callees with
  | none => exact runs_fail ..
  | some callees =>
    dsimp only
    rw [states.2.store.arity_eq Labels.presents callees]
    split
    case isFalse => exact runs_fail ..
    case isTrue count =>
      cases callees with
      | function closures => exact runs.callClosure closures arguments
      | classRef id => exact runs.instantiate id arguments
      | native function =>
        obtain rfl := eq_native_of_callable? found
        exact callNative function (Value.open_of_calls own count) line arguments

theorem readMethod (methods : Recoded.Methods T.Closures method method') (this : Value) :
    T.Runs a Eq (E.readMethod method this) (E.readMethod method' this) := by
  refine .bind (runs.bind methods.closure this) fun f f' bound => ?_
  rw [methods.isGetter]
  exact .ite (runs.callClosure bound []) (runs_newFunction bound)

theorem getProperty (object : Value) (name : Token) :
    T.Runs a Eq (E.getProperty object ((T.left i).token name))
      (E.getProperty object ((T.right i).token name)) := by
  refine .bind .get fun m m' states => ?_
  dsimp only [Relabelling.token]
  rw [states.2.store.descriptor?_eq, states.2.store.field?_eq]
  cases m.store.descriptor? object with
  | none => exact runs_fail ..
  | some descriptor =>
    cases m.store.field? object name.lexeme with
    | some value => exact .pure rfl
    | none =>
      dsimp only
      have found := states.2.store.methodOf? name.lexeme descriptor
      generalize m.store.methodOf? name.lexeme descriptor = method at found
      generalize m'.store.methodOf? name.lexeme descriptor = method' at found
      cases found with
      | none => exact runs_fail ..
      | some methods => exact runs.readMethod methods object

theorem setProperty (object : Value) (name : Token) (value : Expr) :
    T.Runs a Eq (E.setProperty object ((T.left i).token name) ((T.left i).expr value))
      (E.setProperty object ((T.right i).token name) ((T.right i).expr value)) := by
  refine .bind .get fun m m' states => ?_
  rw [states.2.store.descriptor?_eq]
  cases m.store.descriptor? object with
  | none => exact runs_fail ..
  | some descriptor =>
    exact .next (runs.evaluate value) fun value =>
      .next (runs_setField object name.lexeme value) fun _ => .pure rfl

theorem superMethod (keyword : Reference) (method : Token) :
    T.Runs a Eq (E.superMethod ((T.left i).reference keyword) ((T.left i).token method))
      (E.superMethod ((T.right i).reference keyword) ((T.right i).token method)) := by
  refine .next (runs_address? keyword) fun address => ?_
  cases address with
  | none => exact runs_fail ..
  | some address =>
    refine .next (runs_superAndThis keyword.name.line _) fun target =>
      .bind .get fun m m' states => ?_
    have found := states.2.store.method? method.lexeme target.1
    dsimp only [Relabelling.token]
    generalize m.store.method? method.lexeme target.1 = f at found
    generalize m'.store.method? method.lexeme target.1 = f' at found
    cases found with
    | none => exact runs_fail ..
    | some methods => exact runs.readMethod methods target.2

theorem secludedRule (e : Expr) :
    T.Runs a Eq (E.barredRule Native.readsFilesOrClock ((T.left i).expr e))
      (E.barredRule Native.readsFilesOrClock ((T.right i).expr e)) := by
  cases e with
  | assign target value =>
    exact .next (runs.evaluate value) fun v => .next (runs.write target v) fun _ => .pure rfl
  | binary left operator right =>
    exact .next (runs.evaluate left) fun l => .next (runs.evaluate right) fun r =>
      runs_binary operator l r
  | call callee paren arguments =>
    refine .next (runs.evaluate callee) fun callee =>
      .next (runs.evaluateAll arguments) fun arguments => ?_
    cases own : callee.calls Native.readsFilesOrClock arguments with
    | true => exact runs_exhausted
    | false => exact runs.call callee paren.line arguments own
  | property object name =>
    exact .next (runs.evaluate object) fun object => runs.getProperty object name
  | group inner => exact runs.evaluate inner
  | lambda f =>
    refine .bind .get fun m m' states => ?_
    rw [states.2.active]
    exact runs_newFunction (.of ⟨f, m.active, false⟩)
  | literal value => exact .pure rfl
  | logical left operator right =>
    exact .next (runs.evaluate left) fun value => .ite (.pure rfl) (runs.evaluate right)
  | setProperty object name value =>
    exact .next (runs.evaluate object) fun object => runs.setProperty object name value
  | superRef keyword method => exact runs.superMethod keyword method
  | ternary condition thenValue elseValue =>
    exact .next (runs.evaluate condition) fun _ =>
      .ite (runs.evaluate thenValue) (runs.evaluate elseValue)
  | thisRef keyword => exact runs.read keyword
  | unary operator right => exact .next (runs.evaluate right) fun value => runs_unary operator value
  | varRef reference => exact runs.read reference

theorem superclassOf (parent : Option Reference) :
    T.Runs a Eq (E.superclassOf (parent.map (T.left i).reference))
      (E.superclassOf (parent.map (T.right i).reference)) := by
  cases parent with
  | none => exact .pure rfl
  | some reference =>
    refine .next (runs.read reference) fun value => ?_
    cases value with
    | classRef id => exact .pure rfl
    | _ => exact runs_fail ..

theorem traitsOf (traits : List Reference) :
    T.Runs a Eq (E.traitsOf (traits.map (T.left i).reference))
      (E.traitsOf (traits.map (T.right i).reference)) := by
  induction traits with
  | nil => exact .pure rfl
  | cons reference traits ih =>
    refine .next (runs.read reference) fun value => ?_
    cases value with
    | traitRef id => exact .next ih fun _ => .pure rfl
    | _ => exact runs_fail ..

theorem declareClass (name : Token) (parent : Option Reference) (traits : List Reference)
    (ms : List MethodDecl) (fs : List FunctionDecl) :
    T.Runs a Eq
      (E.declareClass ⟨(T.left i).token name, parent.map (T.left i).reference,
        traits.map (T.left i).reference, (T.left i).methods ms, (T.left i).functions fs⟩)
      (E.declareClass ⟨(T.right i).token name, parent.map (T.right i).reference,
        traits.map (T.right i).reference, (T.right i).methods ms, (T.right i).functions fs⟩) := by
  rw [Engine.declareClass_eq, Engine.declareClass_eq]
  exact .next (runs.superclassOf parent) fun superclass => .next (runs.traitsOf traits) fun _ =>
    .next (runs_declare name.lexeme .nil) fun binding =>
      .next (runs_methodScope superclass) fun scope =>
        .next (runs_newClass ⟨rfl, rfl, rfl, tables_methods scope ms,
          tables_functions (fun f => entries_methodEntry scope f false) fs, rfl⟩) fun value =>
            runs_rebind binding name.lexeme value

theorem turn (condition : Expr) (body : Stmt) {increment increment' : Option Expr}
    (between : T.Runs a Eq (E.betweenTurns increment) (E.betweenTurns increment')) :
    T.Runs a (Option.Rel T.Completions)
      (E.turn ((T.left i).expr condition) ((T.left i).stmt body) increment)
      (E.turn ((T.right i).expr condition) ((T.right i).stmt body) increment') := by
  refine .next (runs.evaluate condition) fun value => .ite (.pure (.some .normal)) (.bind
    (runs_catchSignal (runs.execute body)) fun completion completion' completions => ?_)
  cases completions with
  | normal => exact .next between fun _ => .pure .none
  | returned value => exact .pure (.some (.returned value))
  | flow signal line =>
    cases signal with
    | exitLoop => exact .pure (.some .normal)
    | nextTurn => exact .next between fun _ => .pure .none

theorem executeRule (s : Stmt) :
    T.Runs a T.Completions (E.executeRule ((T.left i).stmt s))
      (E.executeRule ((T.right i).stmt s)) := by
  cases s with
  | block body =>
    refine .bind .get fun m m' states => ?_
    rw [states.2.active]
    exact .next (runs_newScope m.active []) fun scope =>
      runs_within (some scope) (runs.executeAll body)
  | classDecl declaration =>
    obtain ⟨name, parent, traits, ms, fs⟩ := declaration
    exact .next (runs.declareClass name parent traits ms fs) fun _ => .pure .normal
  | expression value => exact .next (runs.evaluate value) fun _ => .pure .normal
  | flow signal line => exact .pure (.flow signal line)
  | functionDecl f => exact .next (runs_declareFunction f) fun _ => .pure .normal
  | ifElse condition thenBranch elseBranch =>
    cases elseBranch with
    | none =>
      exact .next (runs.evaluate condition) fun _ =>
        .ite (runs.execute thenBranch) (.pure .normal)
    | some elseBranch =>
      exact .next (runs.evaluate condition) fun _ =>
        .ite (runs.execute thenBranch) (runs.execute elseBranch)
  | print value =>
    refine .next (runs.evaluate value) fun result => ?_
    rw [Relabelling.line_expr (T.zero i).1, Relabelling.line_expr (T.zero i).2]
    exact .next (runs_display result) fun _ =>
      .next (runs_print value.line _) fun _ => .pure .normal
  | returns keyword value =>
    cases value with
    | none => exact .pure (.returned .nil)
    | some value => exact .next (runs.evaluate value) fun result => .pure (.returned result)
  | traitDecl declaration =>
    obtain ⟨name, signatures, fs⟩ := declaration
    exact .next (runs_declareTrait name signatures fs) fun _ => .pure .normal
  | varDecl name value =>
    cases value with
    | none =>
      exact .next (.pure rfl) fun v => .next (runs_declare name.lexeme v) fun _ => .pure .normal
    | some value =>
      exact .next (runs.evaluate value) fun v =>
        .next (runs_declare name.lexeme v) fun _ => .pure .normal
  | loop condition body increment =>
    cases increment with
    | none => exact runs_repeatUntil (runs.turn condition body (.pure rfl)) _
    | some increment =>
      exact runs_repeatUntil (runs.turn condition body
        (.next (runs.evaluate increment) fun _ => .pure rfl)) _

end Engines

/-- Twins stay twins at every depth. -/
theorem engines (T : Twins ι) (depth : Nat) : T.Engines (secluded depth) := by
  induction depth with
  | zero =>
    exact ⟨fun _ => runs_exhausted, fun _ => runs_exhausted, runs_readVariable, runs_writeVariable,
      runs_bindThis, runs_enterFunction⟩
  | succ depth ih =>
    exact ⟨ih.secludedRule, ih.executeRule, runs_readVariable, runs_writeVariable, runs_bindThis,
      runs_enterFunction⟩

end Twins

end Lox
