import Lox.Evaluation
import Lox.Proofs.CorrespondingSteps
import Lox.Proofs.RelabelledPasses

/-! Trees that are alike do the same on machines that correspond: they end with the same value or
the same completion, or with the same error up to the name of an undefined variable, and the
machines still correspond. -/

namespace Lox

namespace Correspondence

open Eval

variable {C : Correspondence} {a : Option ScopeId}

theorem Registries.insert {g g' : Registry} (registries : C.Registries g g') (id : NodeId)
    (address : Address) : C.Registries { g with addresses := g.addresses.insert id address }
      { g' with addresses := g'.addresses.insert (C.node id) address } := by
  refine ⟨fun other => ?_, registries.traits, fun other renamed => ?_⟩
  · simp only [Std.TreeMap.getElem?_insert, Nat.compare_eq_eq, C.injective.eq_iff,
      registries.addresses]
  · simp only [Std.TreeMap.getElem?_insert]
    split
    · rfl
    · exact registries.renamed other renamed

/-- Addresses are recorded under the numbers that correspond. -/
def records (C : Correspondence) : C.relabelling.Records where
  holds := C.Registries
  traits registries := registries.traits
  insert := Registries.insert
  register registries _ := { registries with traits := rfl }

theorem relabelled_diagnostics (ds : List Diagnostic) :
    ds.map (Diagnostic.relabelled C.relabelling) = ds := by
  induction ds with
  | nil => rfl
  | cons d ds ih =>
    have same : d.relabelled C.relabelling = d := by cases d <;> rfl
    rw [List.map_cons, same, ih]

theorem Registries.resolvers {g g' : Registry} (registries : C.Registries g g') :
    Resolver.Relabelled C.records [] { registry := g } { registry := g' } :=
  ⟨.nil, rfl, rfl, rfl, registries⟩

/-- Passes over trees that differ in numbers only give one verdict, and addresses that
correspond. -/
theorem verdicts {r r' : Resolver} (alike : Resolver.Relabelled C.records [] r r') :
    r'.verdict.1 = r.verdict.1 ∧ C.Registries r.verdict.2 r'.verdict.2 := by
  refine ⟨?_, alike.registry⟩
  unfold Resolver.verdict
  rw [alike.diagnostics, List.nil_append, relabelled_diagnostics]

section

variable {f : α → α} {parser : List Token → NodeId → Except ParseError α × Cursor}
  {pass : Pass α}

/-- A pass that gives one verdict on a tree and on the renumbered one, and addresses that
correspond. -/
def ResolvesAlike (C : Correspondence) (f : α → α) (pass : Pass α) : Prop :=
  ∀ t ⦃g g'⦄, C.Registries g g' →
    (pass (f t) g').1 = (pass t g).1 ∧ C.Registries (pass t g).2 (pass (f t) g').2

theorem runs_parseWith (reads : Renumbers C.node f parser) (source : String) :
    C.Runs a (Results Eq fun t t' => f t = t') (parseWith parser source)
      (parseWith parser source) := by
  unfold parseWith
  cases scan source with
  | error e => exact .pure (.error rfl)
  | ok tokens =>
    refine .bind .get fun m m' states => ?_
    have results := reads.results tokens states.2.numbers
    have numbers := reads.numbers tokens states.2.numbers
    generalize parser tokens m.nextNode = outcome, parser tokens m'.nextNode = outcome' at *
    refine .next (.modify fun m m' states => ⟨states.1, { states.2 with numbers }⟩) fun _ =>
      .pure ?_
    generalize outcome.1 = parsed, outcome'.1 = parsed' at results
    cases results with
    | ok trees => exact .ok trees
    | error same => exact .error (congrArg Failure.parse same)

theorem runs_resolveWith (resolves : C.ResolvesAlike f pass) (t : α) :
    C.Runs a Eq (resolveWith pass t) (resolveWith pass (f t)) := by
  refine .bind .get fun m m' states => ?_
  obtain ⟨verdict, registry⟩ := resolves t states.2.registry
  generalize pass t m.registry = outcome, pass (f t) m'.registry = outcome' at *
  refine .next (.modify fun m m' states => ⟨states.1, { states.2 with registry }⟩) fun _ => .pure ?_
  rw [verdict]

theorem runs_prepare (reads : Renumbers C.node f parser) (resolves : C.ResolvesAlike f pass)
    (source : String) : C.Runs a (Results Eq fun p p' => p' = (f p.1, p.2))
      (prepare parser pass source) (prepare parser pass source) := by
  refine .bind (runs_parseWith reads source) fun parsed parsed' results => ?_
  cases results with
  | error same => exact .pure (.error same)
  | @ok t t' same =>
    cases same
    refine .next (runs_resolveWith resolves t) fun verdict => ?_
    cases verdict with
    | error failure => exact .pure (.error rfl)
    | ok warnings => exact .pure (.ok rfl)

end

/-- An engine that does the same with trees that are alike. A statement may declare variables of
another name only where a scope is active. -/
structure Engines (C : Correspondence) (E : Engine) : Prop where
  evaluate : ∀ {a n e e'}, C.likeness.Alike n (.expr e) (.expr e') →
    C.Runs a Eq (E.evaluate e) (E.evaluate e')
  execute : ∀ {a n s s'}, (n = true → a.isSome) → C.likeness.Alike n (.stmt s) (.stmt s') →
    C.Runs a Eq (E.execute s) (E.execute s')
  read : ∀ {a r r'}, C.Refers r r' → C.Runs a Eq (E.read r) (E.read r')
  write : ∀ {a r r'}, C.Refers r r' → ∀ v, C.Runs a Eq (E.write r v) (E.write r' v)
  bind : ∀ {a f f'}, C.Closures f f' → ∀ v, C.Runs a C.Closures (E.bind f v) (E.bind f' v)
  enter : ∀ {a f f'}, C.Closures f f' → ∀ vs, C.Runs a Eq (E.enter f vs) (E.enter f' vs)

namespace Engines

variable {E : Engine} (runs : C.Engines E)
include runs

theorem evaluateAll {es es' : List Expr} (alike : C.likeness.Alike n (.exprs es) (.exprs es')) :
    C.Runs a Eq (E.evaluateAll es) (E.evaluateAll es') := by
  induction es generalizing es' with
  | nil =>
    cases alike
    exact .pure rfl
  | cons e es ih =>
    cases alike with
    | moreExprs first rest =>
      exact .next (runs.evaluate first) fun _ => .next (ih rest) fun _ => .pure rfl

theorem executeAll {ss ss' : List Stmt} (nested : n = true → a.isSome)
    (alike : C.likeness.Alike n (.stmts ss) (.stmts ss')) :
    C.Runs a Eq (E.executeAll ss) (E.executeAll ss') := by
  induction ss generalizing ss' with
  | nil =>
    cases alike
    exact .pure rfl
  | cons s ss ih =>
    cases alike with
    | moreStmts first rest =>
      refine .next (runs.execute nested first) fun completion => ?_
      cases completion with
      | normal => exact ih rest
      | returned value => exact .pure rfl
      | flow signal line => exact .pure rfl

theorem interpret {ss ss' : List Stmt} (nested : n = true → a.isSome)
    (alike : C.likeness.Alike n (.stmts ss) (.stmts ss')) :
    C.Runs a Eq (E.interpret ss) (E.interpret ss') := by
  induction ss generalizing ss' with
  | nil =>
    cases alike
    exact .pure rfl
  | cons s ss ih =>
    cases alike with
    | moreStmts first rest =>
      refine .next (runs.execute nested first) fun completion => ?_
      cases completion with
      | normal => exact ih rest
      | returned value => exact ih rest
      | flow signal line => exact runs_fail ..

theorem runSource (source : String) :
    C.Runs a (Results C.Failures Eq) (E.runSource source) (E.runSource source) := by
  refine .bind (runs_prepare parse_renumbers (fun program _ _ registries =>
    verdicts (Resolver.stmts_relabelled program registries.resolvers)) source)
      fun prepared prepared' results => ?_
  cases results with
  | error same =>
    cases same
    exact .pure (.error (.same _))
  | @ok p _ same =>
    obtain ⟨program, warnings⟩ := p
    cases same
    have alike := Likeness.alike_stmts C.likeness_tolerant false program fun r _ =>
      C.likeness_relabelling r
    refine .next (runs_reportWarnings warnings) fun _ => .bind (runs_settle (runs_within none
      (runs.interpret (absurd · Bool.false_ne_true) alike))) fun result result' results => ?_
    cases results with
    | ok _ => exact .pure (.ok rfl)
    | error failures => exact .pure (.error failures)

theorem evaluateSource (source : String) :
    C.Runs a (Results C.Failures Eq) (E.evaluateSource source) (E.evaluateSource source) := by
  refine .bind (runs_prepare parseExpression_renumbers (fun e _ _ registries =>
    verdicts (Resolver.expr_relabelled e registries.resolvers)) source)
      fun prepared prepared' results => ?_
  cases results with
  | error same =>
    cases same
    exact .pure (.error (.same _))
  | @ok p _ same =>
    obtain ⟨e, warnings⟩ := p
    cases same
    have alike := Likeness.alike_expr C.likeness_tolerant false e fun r _ =>
      C.likeness_relabelling r
    exact .next (runs_reportWarnings warnings) fun _ =>
      runs_settle (runs_within none (runs.evaluate alike))

theorem runFile (path : Path) :
    C.Runs a (Results C.Failures Eq) (E.runFile path) (E.runFile path) := by
  refine .bind .get fun m m' states => ?_
  rw [states.2.world.disk]
  cases m.world.disk.readText path with
  | error fault => exact .pure (.error (.same _))
  | ok source => exact .next (runs_remember path) fun _ => runs.runSource source

theorem load (line : Nat) (path : Path) : C.Runs a Eq (E.load line path) (E.load line path) := by
  refine .bind (runs.runFile path) fun result result' results => ?_
  cases results with
  | ok _ => exact .pure rfl
  | @error failure _ failures =>
    cases failures with
    | same =>
      cases failure with
      | unreadable fault => exact runs_fail ..
      | _ => exact runs_report (.same _)
    | runtime errors =>
      cases errors with
      | same e => exact runs_report (.same _)
      | undefined line => exact runs_report (.undefined line)

theorem loadAll (line : Nat) (paths : List Path) :
    C.Runs a Eq (E.loadAll line paths) (E.loadAll line paths) := by
  induction paths with
  | nil => exact .pure rfl
  | cons path paths ih => exact .next (runs.load line path) fun _ => ih

theorem callNative (function : Native) (line : Nat) (arguments : List Value) :
    C.Runs a Eq (E.callNative function line arguments) (E.callNative function line arguments) := by
  cases function with
  | clock => exact runs_readClock
  | readLine => exact runs_readLine line
  | printw =>
    cases arguments with
    | nil => exact .pure rfl
    | cons value _ =>
      exact .next (runs_display value) fun _ => .next (runs_print line _) fun _ => .pure rfl
  | loadFile =>
    cases arguments with
    | nil => exact runs_fail ..
    | cons value _ =>
      cases value with
      | string path => exact .next (runs.load line path) fun _ => .pure rfl
      | _ => exact runs_fail ..
  | reload =>
    refine .bind .get fun m m' states => ?_
    rw [states.2.loaded]
    exact .next (runs.loadAll line m.loaded) fun _ => .pure rfl

theorem callClosure {f f' : Closure} (closures : C.Closures f f') (arguments : List Value) :
    C.Runs a Eq (E.callClosure f arguments) (E.callClosure f' arguments) := by
  have enters := runs.enter (a := a) closures arguments
  have receives := runs_receiver (a := a) closures
  obtain ⟨⟨name, params, body, line⟩, parent, isInitializer⟩ := f
  obtain ⟨⟨name', params', body', line'⟩, parent', isInitializer'⟩ := f'
  obtain ⟨declaration, same, initializers⟩ := closures
  dsimp only at declaration same initializers
  cases same
  cases initializers
  cases declaration with
  | function binds alike =>
    refine .next enters fun scope =>
      .next (runs_within (some scope) (runs.executeAll (fun _ => rfl) alike)) fun completion => ?_
    cases completion with
    | flow signal line => exact runs_fail ..
    | normal => exact .ite receives (.pure rfl)
    | returned value => exact .ite receives (.pure rfl)

theorem instantiate (id : ClassId) (arguments : List Value) :
    C.Runs a Eq (E.instantiate id arguments) (E.instantiate id arguments) := by
  refine .next (runs_newInstance _) fun object => .bind .get fun m m' states => ?_
  have initializers := states.2.store.initializer? id
  generalize m.store.initializer? id = f, m'.store.initializer? id = f' at initializers
  cases initializers with
  | none => exact .pure rfl
  | some closures =>
    exact .bind (runs.bind closures object) fun _ _ bound =>
      .next (runs.callClosure bound arguments) fun _ => .pure rfl

theorem invoke {callee callee' : Store.Callable} (callees : C.Callables callee callee') (line : Nat)
    (arguments : List Value) :
    C.Runs a Eq (E.invoke callee line arguments) (E.invoke callee' line arguments) := by
  cases callees with
  | function closures => exact runs.callClosure closures arguments
  | native function => exact runs.callNative function line arguments
  | classRef id => exact runs.instantiate id arguments

theorem call (callee : Value) (line : Nat) (arguments : List Value) :
    C.Runs a Eq (E.call callee line arguments) (E.call callee line arguments) := by
  refine .bind .get fun m m' states => ?_
  have callees := states.2.store.callable? callee
  dsimp only
  generalize m.store.callable? callee = c, m'.store.callable? callee = c' at callees
  cases callees with
  | none => exact runs_fail ..
  | some callees =>
    dsimp only
    rw [states.2.store.arity_eq callees]
    exact .ite (runs.invoke callees line arguments) (runs_fail ..)

theorem readMethod {method method' : Method} (methods : C.Methods method method') (this : Value) :
    C.Runs a Eq (E.readMethod method this) (E.readMethod method' this) := by
  refine .bind (runs.bind methods.closure this) fun f f' bound => ?_
  rw [methods.isGetter]
  exact .ite (runs.callClosure bound []) (runs_newFunction bound)

theorem getProperty (object : Value) (name : Token) :
    C.Runs a Eq (E.getProperty object name) (E.getProperty object name) := by
  refine .bind .get fun m m' states => ?_
  dsimp only
  rw [states.2.store.descriptor?_eq, states.2.store.field?_eq]
  cases m.store.descriptor? object with
  | none => exact runs_fail ..
  | some descriptor =>
    cases m.store.field? object name.lexeme with
    | some value => exact .pure rfl
    | none =>
      dsimp only
      have found := states.2.store.methodOf? name.lexeme descriptor
      generalize m.store.methodOf? name.lexeme descriptor = method at found
      generalize m'.store.methodOf? name.lexeme descriptor = method' at found
      cases found with
      | none => exact runs_fail ..
      | some methods => exact runs.readMethod methods object

theorem setProperty (object : Value) (name : Token) {value value' : Expr}
    (alike : C.likeness.Alike n (.expr value) (.expr value')) :
    C.Runs a Eq (E.setProperty object name value) (E.setProperty object name value') := by
  refine .bind .get fun m m' states => ?_
  rw [states.2.store.descriptor?_eq]
  cases m.store.descriptor? object with
  | none => exact runs_fail ..
  | some descriptor =>
    exact .next (runs.evaluate alike) fun value =>
      .next (runs_setField object name.lexeme value) fun _ => .pure rfl

theorem superMethod {keyword keyword' : Reference} (refers : C.Refers keyword keyword')
    (method : Token) :
    C.Runs a Eq (E.superMethod keyword method) (E.superMethod keyword' method) := by
  refine .bind (runs_address? refers) ?_
  rintro _ found ⟨rfl, -⟩
  rw [refers.line]
  cases found with
  | none => exact runs_fail ..
  | some address =>
    refine .next (runs_superAndThis _ _) fun target => .bind .get fun m m' states => ?_
    have found := states.2.store.method? method.lexeme target.1
    generalize m.store.method? method.lexeme target.1 = f at found
    generalize m'.store.method? method.lexeme target.1 = f' at found
    cases found with
    | none => exact runs_fail ..
    | some methods => exact runs.readMethod methods target.2

theorem evaluateRule {e e' : Expr} (alike : C.likeness.Alike n (.expr e) (.expr e')) :
    C.Runs a Eq (E.evaluateRule e) (E.evaluateRule e') := by
  cases alike with
  | assign target value =>
    exact .next (runs.evaluate value) fun v => .next (runs.write target v) fun _ => .pure rfl
  | binary left right =>
    exact .next (runs.evaluate left) fun l => .next (runs.evaluate right) fun r => runs_binary _ l r
  | call callee arguments =>
    exact .next (runs.evaluate callee) fun callee =>
      .next (runs.evaluateAll arguments) fun arguments => runs.call callee _ arguments
  | property object =>
    exact .next (runs.evaluate object) fun object => runs.getProperty object _
  | group inside => exact runs.evaluate inside
  | lambda function =>
    refine .bind .get fun m m' states => ?_
    rw [states.2.active]
    cases function with
    | function params body => exact runs_newFunction ⟨.function params body, rfl, rfl⟩
  | literal => exact .pure rfl
  | logical left right =>
    exact .next (runs.evaluate left) fun value => .ite (.pure rfl) (runs.evaluate right)
  | setProperty object value =>
    exact .next (runs.evaluate object) fun object => runs.setProperty object _ value
  | superRef keyword => exact runs.superMethod keyword _
  | ternary condition thenValue elseValue =>
    exact .next (runs.evaluate condition) fun _ =>
      .ite (runs.evaluate thenValue) (runs.evaluate elseValue)
  | thisRef keyword => exact runs.read keyword
  | unary right => exact .next (runs.evaluate right) fun value => runs_unary _ value
  | varRef reference => exact runs.read reference

theorem superclassOf {parent parent' : Option Reference}
    (parents : Option.Rel C.Refers parent parent') :
    C.Runs a Eq (E.superclassOf parent) (E.superclassOf parent') := by
  cases parents with
  | none => exact .pure rfl
  | some refers =>
    refine .next (runs.read refers) fun value => ?_
    rw [refers.line]
    cases value with
    | classRef id => exact .pure rfl
    | _ => exact runs_fail ..

theorem traitsOf {ts ts' : List Reference} (traits : List.Forall₂ C.Refers ts ts') :
    C.Runs a Eq (E.traitsOf ts) (E.traitsOf ts') := by
  induction traits with
  | nil => exact .pure rfl
  | cons refers _ ih =>
    refine .next (runs.read refers) fun value => ?_
    rw [refers.line]
    cases value with
    | traitRef id => exact .next ih fun _ => .pure rfl
    | _ => exact runs_fail ..

end Engines

/-- Entries of a table under one name. -/
def Entries (C : Correspondence) (entry entry' : String × Method) : Prop :=
  entry'.1 = entry.1 ∧ C.Methods entry.2 entry'.2

theorem tables_ofList {entries entries' : List (String × Method)}
    (each : List.Forall₂ C.Entries entries entries') :
    C.Tables (Lox.Methods.ofList entries) (Lox.Methods.ofList entries') := by
  refine tables_iff.mp (.ofList (each.imp fun _ _ entry => ?_))
  exact ⟨entry.1, methods_iff.mpr entry.2⟩

/-- A method closes over the same scope as the one it corresponds to. -/
theorem entries_methodEntry {f f' : FunctionDecl}
    (alike : C.likeness.Alike n (.function f) (.function f')) (parent : Option ScopeId)
    (isGetter : Bool) : C.Entries (Engine.methodEntry parent f isGetter)
      (Engine.methodEntry parent f' isGetter) := by
  cases alike with
  | function params body => exact ⟨rfl, ⟨.function params body, rfl, rfl⟩, rfl⟩

theorem entries_default {f f' : FunctionDecl}
    (alike : C.likeness.Alike n (.function f) (.function f')) (parent : Option ScopeId) :
    C.Entries (f.title, ⟨⟨f, parent, false⟩, false⟩) (f'.title, ⟨⟨f', parent, false⟩, false⟩) := by
  cases alike with
  | function params body => exact ⟨rfl, ⟨.function params body, rfl, rfl⟩, rfl⟩

theorem tables_functions {fs fs' : List FunctionDecl} {entry : FunctionDecl → String × Method}
    (alike : C.likeness.Alike n (.functions fs) (.functions fs'))
    (entries : ∀ ⦃f f'⦄, C.likeness.Alike n (.function f) (.function f') →
      C.Entries (entry f) (entry f')) :
    C.Tables (Lox.Methods.ofList (fs.map entry)) (Lox.Methods.ofList (fs'.map entry)) := by
  refine tables_ofList ?_
  induction fs generalizing fs' with
  | nil =>
    cases alike
    exact .nil
  | cons f fs ih =>
    cases alike with
    | moreFunctions first rest => exact .cons (entries first) (ih rest)

theorem tables_methods {ms ms' : List MethodDecl}
    (alike : C.likeness.Alike n (.methods ms) (.methods ms')) (parent : Option ScopeId) :
    C.Tables
      (Lox.Methods.ofList (ms.map fun m => Engine.methodEntry parent m.function m.isGetter))
      (Lox.Methods.ofList (ms'.map fun m => Engine.methodEntry parent m.function m.isGetter)) := by
  refine tables_ofList ?_
  induction ms generalizing ms' with
  | nil =>
    cases alike
    exact .nil
  | cons m ms ih =>
    cases alike with
    | moreMethods first rest => exact .cons (entries_methodEntry first parent _) (ih rest)

theorem runs_declareTrait {name : Token} {signatures : List Signature} {fs fs' : List FunctionDecl}
    (alike : C.likeness.Alike n (.functions fs) (.functions fs')) :
    C.Runs a Eq (Engine.declareTrait ⟨name, signatures, fs⟩)
      (Engine.declareTrait ⟨name, signatures, fs'⟩) := by
  refine .bind .get fun m m' states => ?_
  dsimp only
  rw [states.2.active]
  refine .next (runs_newTrait ⟨rfl, ?_⟩) fun value =>
    .next (runs_declare (.inr rfl) value) fun _ => .pure rfl
  exact tables_functions alike fun _ _ function => entries_default function m.active

theorem runs_declareFunction {f f' : FunctionDecl}
    (alike : C.likeness.Alike n (.function f) (.function f')) :
    C.Runs a Eq (Engine.declareFunction f) (Engine.declareFunction f') := by
  refine .bind .get fun m m' states => ?_
  rw [states.2.active]
  cases alike with
  | function params body =>
    exact .next (runs_newFunction ⟨.function params body, rfl, rfl⟩) fun value =>
      .next (runs_declare (.inr rfl) value) fun _ => .pure rfl

theorem runs_catchSignal {p q : Eval Completion} (body : C.Runs a Eq p q) :
    C.Runs a Eq (Engine.catchSignal p) (Engine.catchSignal q) := by
  refine .bind (runs_attempt body) fun result result' results => ?_
  cases results with
  | ok same =>
    cases same
    exact .pure rfl
  | @error e _ errors =>
    cases errors with
    | undefined line => exact .throw (.error (.undefined line))
    | same =>
      dsimp only
      cases e.signal? with
      | none => exact .throw (.error (.same e))
      | some signal => exact .pure rfl

theorem runs_repeatUntil {step step' : Eval (Option α)} (one : C.Runs a Eq step step')
    (turns : Nat) :
    C.Runs a Eq (Engine.repeatUntil step turns) (Engine.repeatUntil step' turns) := by
  induction turns with
  | zero => exact runs_exhausted
  | succ turns ih =>
    refine .next one fun result => ?_
    cases result with
    | some value => exact .pure rfl
    | none => exact ih

namespace Engines

variable {E : Engine} (runs : C.Engines E)
include runs

theorem declareClass {name : Token} {p p' : Option Reference} {ts ts' : List Reference}
    {ms ms' : List MethodDecl} {fs fs' : List FunctionDecl} (parents : Option.Rel C.Refers p p')
    (traits : List.Forall₂ C.Refers ts ts')
    (methods : C.likeness.Alike n (.methods ms) (.methods ms'))
    (statics : C.likeness.Alike n (.functions fs) (.functions fs')) :
    C.Runs a Eq (E.declareClass ⟨name, p, ts, ms, fs⟩)
      (E.declareClass ⟨name, p', ts', ms', fs'⟩) := by
  rw [Engine.declareClass_eq, Engine.declareClass_eq]
  refine .next (runs.superclassOf parents) fun superclass =>
    .next (runs.traitsOf traits) fun mixed => .next (runs_declare (.inr rfl) .nil) fun binding =>
      .next (runs_methodScope superclass) fun scope =>
        .next (runs_newClass ⟨rfl, rfl, rfl, tables_methods methods scope, ?_, rfl⟩) fun value =>
          runs_rebind binding _ value
  exact tables_functions statics fun _ _ function => entries_methodEntry function scope false

theorem turn {c c' : Expr} {s s' : Stmt} {i i' : Option Expr}
    (condition : C.likeness.Alike n (.expr c) (.expr c')) (nested : n = true → a.isSome)
    (body : C.likeness.Alike n (.stmt s) (.stmt s'))
    (between : C.Runs a Eq (E.betweenTurns i) (E.betweenTurns i')) :
    C.Runs a Eq (E.turn c s i) (E.turn c' s' i') := by
  refine .next (runs.evaluate condition) fun value => .ite (.pure rfl)
    (.next (runs_catchSignal (runs.execute nested body)) fun completion => ?_)
  cases completion with
  | normal => exact .next between fun _ => .pure rfl
  | returned value => exact .pure rfl
  | flow signal line =>
    cases signal with
    | exitLoop => exact .pure rfl
    | nextTurn => exact .next between fun _ => .pure rfl

theorem executeRule {s s' : Stmt} (nested : n = true → a.isSome)
    (alike : C.likeness.Alike n (.stmt s) (.stmt s')) :
    C.Runs a Eq (E.executeRule s) (E.executeRule s') := by
  cases alike with
  | block body =>
    refine .bind .get fun m m' states => ?_
    rw [states.2.active]
    exact .next (runs_newScope m.active rfl) fun scope =>
      runs_within (some scope) (runs.executeAll (fun _ => rfl) body)
  | classDecl parents traits methods statics =>
    exact .next (runs.declareClass parents traits methods statics) fun _ => .pure rfl
  | expression value => exact .next (runs.evaluate value) fun _ => .pure rfl
  | flow => exact .pure rfl
  | functionDecl function => exact .next (runs_declareFunction function) fun _ => .pure rfl
  | ifThen condition thenBranch =>
    exact .next (runs.evaluate condition) fun _ => .ite (runs.execute nested thenBranch) (.pure rfl)
  | ifElse condition thenBranch elseBranch =>
    exact .next (runs.evaluate condition) fun _ =>
      .ite (runs.execute nested thenBranch) (runs.execute nested elseBranch)
  | print value =>
    have line := value.line_eq (fun _ _ (refers : C.Refers _ _) => refers.line) rfl rfl
    refine .next (runs.evaluate value) fun result => ?_
    rw [line]
    exact .next (runs_display result) fun _ => .next (runs_print _ _) fun _ => .pure rfl
  | returnsNothing => exact .pure rfl
  | returns value => exact .next (runs.evaluate value) fun _ => .pure rfl
  | traitDecl defaults => exact .next (runs_declareTrait defaults) fun _ => .pure rfl
  | bareVar names =>
    exact .next (.pure rfl) fun v =>
      .next (runs_declare (names.imp nested id) v) fun _ => .pure rfl
  | varDecl names value =>
    exact .next (runs.evaluate value) fun v =>
      .next (runs_declare (names.imp nested id) v) fun _ => .pure rfl
  | bareLoop condition body =>
    exact runs_repeatUntil (runs.turn condition nested body (.pure rfl)) _
  | loop condition body increment =>
    exact runs_repeatUntil (runs.turn condition nested body
      (.next (runs.evaluate increment) fun _ => .pure rfl)) _

end Engines

/-- Machines stay in correspondence at every depth. -/
theorem engines (C : Correspondence) (depth : Nat) : C.Engines (engine depth) := by
  induction depth with
  | zero =>
    exact ⟨fun _ => runs_exhausted, fun _ _ => runs_exhausted, runs_readVariable,
      runs_writeVariable, runs_bindThis, runs_enterFunction⟩
  | succ depth ih =>
    exact ⟨ih.evaluateRule, ih.executeRule, runs_readVariable, runs_writeVariable, runs_bindThis,
      runs_enterFunction⟩

end Correspondence

end Lox
