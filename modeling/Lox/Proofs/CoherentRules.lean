import Lox.Proofs.Receivers
import Lox.Proofs.SourceSteps

/-! The rules of evaluation keep states coherent, over any engine that does so at the places that
the rules lead to. -/

namespace Lox

/-- The scope that a statement may add slots to. -/
def Stmt.room (s : Stmt) (active : Option ScopeId) : Option ScopeId :=
  if s.declared = [] then none else active

/-- Two engines that do the same at every place of a source and keep states coherent. -/
structure Agree (past : History) (complaint : Violation) (E F : Engine) : Prop where
  evaluate : ∀ {w : Snapshot past} {e context r}, Due past w.machine ⟨.expr e, context, r⟩ →
    w.Stands context → Steps complaint none (E.evaluate e) (F.evaluate e) w Any
  execute : ∀ {w : Snapshot past} {s context r}, Due past w.machine ⟨.stmt s, context, r⟩ →
    w.Within context →
    Steps complaint (s.room w.machine.active) (E.execute s) (F.execute s) w
      fun completion w' =>
        completion = .normal → w'.Within (context.advance s.declared.length)
  read : ∀ {w : Snapshot past} {p reference}, Known past w.machine p → w.Stands p.context →
    reference ∈ p.part.ownReferences →
    Steps complaint none (E.read reference) (F.read reference) w fun value w' =>
      w' = w ∧ Eval.readVariable reference w.machine = .ok value w.machine
  write : ∀ {w : Snapshot past} {target value context r},
    Known past w.machine ⟨.expr (.assign target value), context, r⟩ → w.Stands context →
    ∀ v, Steps complaint none (E.write target v) (F.write target v) w Any
  bind : ∀ {w : Snapshot past} {f}, Bindable past w.plan w.machine f →
    ∀ this, Steps complaint none (E.bind f this) (F.bind f this) w fun g w' =>
      Callable past w'.plan w'.machine g ∧ g.declaration = f.declaration
  enter : ∀ {w : Snapshot past} {f arguments}, arguments.length = f.declaration.params.length →
    Steps complaint none (E.enter f arguments) (F.enter f arguments) w
      (Opened w f.parent ((f.declaration.params.map Token.lexeme).zip arguments)
        (f.declaration.params.map Token.lexeme ++ declared f.declaration.body))
  turns : E.turns = F.turns

theorem Stmt.room_of_nil {s : Stmt} (none : s.declared = []) : s.room active = .none :=
  if_pos none

/-- At worst a statement adds slots to the active scope. -/
theorem Steps.inRoom {past : History} {s : Stmt} {p q : Eval α} {w : Snapshot past}
    {post : α → Snapshot past → Prop} (steps : Steps complaint (s.room active) p q w post) :
    Steps complaint active p q w post := by
  unfold Stmt.room at steps
  split at steps
  · exact steps.weaken
  · exact steps

theorem Remembers.at {past : History} {w : Snapshot past} (scope : Option ScopeId) :
    Remembers w.machine (w.at scope).machine := ⟨Nat.le_refl _, fun _ _ => rfl⟩

theorem Context.advance_zero (context : Context) : context.advance 0 = context := by
  unfold advance
  split <;> rfl

theorem display_steps {past : History} {w : Snapshot past} (value : Value) :
    Steps complaint may (Eval.display value) (Eval.display value) w Any :=
  .bind_get (.pure trivial)

theorem settle_steps {past : History} {p q : Eval α} {w : Snapshot past}
    {post : α → Snapshot past → Prop} (body : Steps complaint may p q w post) :
    Steps complaint may (Eval.settle p) (Eval.settle q) w Any := by
  refine body.attempt.bind fun result w' _ _ => ?_
  cases result with
  | ok value => exact .pure trivial
  | error e => exact .pure trivial

theorem numbers_steps {past : History} {w : Snapshot past} (operator : Token) (left right : Value) :
    Steps complaint may (Eval.numbers operator left right) (Eval.numbers operator left right) w
      Any := by
  unfold Eval.numbers
  split
  · exact .pure trivial
  · exact .fail ..

theorem binary_steps {past : History} {w : Snapshot past} (operator : Token) (left right : Value) :
    Steps complaint may (Eval.binary operator left right) (Eval.binary operator left right) w
      Any := by
  have computed (result : Float × Float → Value) :
      Steps complaint may
        (Eval.numbers operator left right >>= fun pair => pure (result pair))
        (Eval.numbers operator left right >>= fun pair => pure (result pair)) w Any :=
    (numbers_steps operator left right).bind fun _ _ _ _ => .pure trivial
  unfold Eval.binary
  split
  · unfold Eval.add
    split
    · exact .pure trivial
    · exact (display_steps left).bind fun _ _ _ _ => (display_steps right).bind fun _ _ _ _ =>
        .pure trivial
  · exact computed fun pair => .number (pair.1 - pair.2)
  · exact computed fun pair => .number (pair.1 * pair.2)
  · refine (numbers_steps operator left right).bind fun pair _ _ _ => ?_
    obtain ⟨a, b⟩ := pair
    dsimp only
    split
    · exact .fail ..
    · exact .pure trivial
  · exact computed fun pair => .number (Number.remainder pair.1 pair.2)
  · exact computed fun pair => .bool (pair.2 < pair.1)
  · exact computed fun pair => .bool (pair.2 ≤ pair.1)
  · exact computed fun pair => .bool (pair.1 < pair.2)
  · exact computed fun pair => .bool (pair.1 ≤ pair.2)
  · exact .pure trivial
  · exact .pure trivial
  · exact .fail ..

theorem unary_steps {past : History} {w : Snapshot past} (operator : Token) (right : Value) :
    Steps complaint may (Eval.unary operator right) (Eval.unary operator right) w Any := by
  unfold Eval.unary
  split
  · exact .pure trivial
  · exact .fail ..
  · exact .pure trivial
  · exact .fail ..

namespace Agree

variable {past : History} {complaint : Violation} {E F : Engine} {w : Snapshot past}
  {context : Context} {r : Resolver} (agree : Agree past complaint E F)
include agree

theorem evaluateAll (known : Known past w.machine ⟨.exprs es, context, r⟩)
    (stands : w.Stands context) :
    Steps complaint none (E.evaluateAll es) (F.evaluateAll es) w Any := by
  induction es generalizing w r with
  | nil => exact .pure trivial
  | cons e es ih =>
    refine (agree.evaluate (.inl (known.enter .firstExpr)) stands).bind fun _ w' later _ => ?_
    refine (ih (later.known (known.enter .otherExprs)) (later.stands stands)).bind
      fun _ _ _ _ => .pure trivial

/-- Only the active scope gets new slots from the statements in it. -/
theorem executeAll (known : Known past w.machine ⟨.stmts ss, context, r⟩)
    (within : w.Within context) :
    Steps complaint w.machine.active (E.executeAll ss) (F.executeAll ss) w Any := by
  induction ss generalizing w context r with
  | nil => exact .pure trivial
  | cons s ss ih =>
    refine (agree.execute (.inl (known.enter .firstStmt)) within).inRoom.bind
      fun completion w' later after => ?_
    cases completion with
    | normal =>
      have rest := ih (later.known (known.enter .otherStmts)) (after rfl)
      rwa [later.active] at rest
    | returned value => exact .pure trivial
    | flow signal line => exact .pure trivial

/-- At top level there is no scope to grow. -/
theorem interpret (loaded : Loaded root w.machine) (path : Reaches root ⟨.stmts ss, [], r⟩)
    (top : w.machine.active = none) :
    Steps complaint none (E.interpret ss) (F.interpret ss) w Any := by
  induction ss generalizing w r with
  | nil => exact .pure trivial
  | cons s ss ih =>
    have first := agree.execute (.inr ⟨⟨rfl, top⟩, root, loaded, path.step .firstStmt⟩)
      ⟨top, trivial⟩
    rw [top] at first
    refine first.inRoom.bind fun completion w' later _ => ?_
    have rest := ih (loaded.stays later.remembers) (path.step .otherStmts)
      (later.active.trans top)
    cases completion with
    | normal => exact rest
    | returned value => exact rest
    | flow signal line => exact .fail ..

theorem runSource (source : String) :
    Steps complaint none (E.runSource source) (F.runSource source) w Any := by
  refine (prepare_steps reads_program source).bind fun prepared w' _ ready => ?_
  match prepared with
  | .error failure => exact .pure trivial
  | .ok (program, warnings) =>
    obtain ⟨registry, loaded⟩ := ready program warnings rfl
    refine (reportWarnings_steps warnings).bind fun _ w'' later _ => ?_
    have loaded' := (loaded.stays later.remembers).stays (Remembers.at none)
    refine (settle_steps (.within none (agree.interpret loaded' .refl rfl))).bind
      fun result _ _ _ => ?_
    cases result with
    | error failure => exact .pure trivial
    | ok _ => exact .pure trivial

theorem evaluateSource (source : String) :
    Steps complaint none (E.evaluateSource source) (F.evaluateSource source) w Any := by
  refine (prepare_steps reads_expression source).bind fun prepared w' _ ready => ?_
  match prepared with
  | .error failure => exact .pure trivial
  | .ok (e, warnings) =>
    obtain ⟨registry, loaded⟩ := ready e warnings rfl
    refine (reportWarnings_steps warnings).bind fun _ w'' later _ => ?_
    have loaded' := (loaded.stays later.remembers).stays (Remembers.at none)
    exact settle_steps (.within none (agree.evaluate (.inr ⟨⟨rfl, rfl⟩, _, loaded', .refl⟩) rfl))

theorem runFile (path : Path) : Steps complaint none (E.runFile path) (F.runFile path) w Any := by
  refine .bind_get ?_
  cases w.machine.world.disk.readText path with
  | error fault => exact .pure trivial
  | ok source => exact (remember_steps path).bind fun _ _ _ _ => agree.runSource source

theorem load (line : Nat) (path : Path) :
    Steps complaint none (E.load line path) (F.load line path) w Any := by
  refine (agree.runFile path).bind fun result _ _ _ => ?_
  match result with
  | .ok _ => exact .pure trivial
  | .error (.unreadable fault) => exact .fail ..
  | .error (.lex _) | .error (.parse _) | .error (.resolve _) | .error (.runtime _) =>
    exact report_steps _

theorem loadAll (line : Nat) (paths : List Path) :
    Steps complaint none (E.loadAll line paths) (F.loadAll line paths) w Any := by
  induction paths generalizing w with
  | nil => exact .pure trivial
  | cons path paths ih => exact (agree.load line path).bind fun _ _ _ _ => ih

theorem callNative (function : Native) (line : Nat) (arguments : List Value) :
    Steps complaint none (E.callNative function line arguments)
      (F.callNative function line arguments) w Any := by
  match function, arguments with
  | .clock, _ => exact readClock_steps
  | .readLine, _ => exact readLine_steps line
  | .printw, [] => exact .pure trivial
  | .printw, value :: _ =>
    exact (display_steps value).bind fun text _ _ _ =>
      (print_steps line text).bind fun _ _ _ _ => .pure trivial
  | .loadFile, .string path :: _ =>
    exact (agree.load line path).bind fun _ _ _ _ => .pure trivial
  | .loadFile, [] | .loadFile, .nil :: _ | .loadFile, .bool _ :: _ | .loadFile, .number _ :: _
  | .loadFile, .functionRef _ :: _ | .loadFile, .native _ :: _ | .loadFile, .classRef _ :: _
  | .loadFile, .instanceRef _ :: _ | .loadFile, .traitRef _ :: _ => exact .fail ..
  | .reload, _ =>
    exact .bind_get ((agree.loadAll line _).bind fun _ _ _ _ => .pure trivial)

omit agree in
theorem receiver (f : Closure) :
    Steps complaint may (Engine.receiver f) (Engine.receiver f) w Any :=
  .bind_get (.pure trivial)

/-- A function runs in a scope of its own, which nobody else can see grow. -/
theorem callClosure {f : Closure} (callable : Callable past w.plan w.machine f)
    (count : arguments.length = f.declaration.params.length) :
    Steps complaint none (E.callClosure f arguments) (F.callClosure f arguments) w Any := by
  obtain ⟨kind, outer, r, known, fits⟩ := callable
  have size : (Scopes.slotsOf ((f.declaration.params.map Token.lexeme).zip arguments)).size =
      f.declaration.params.length := by
    simp [Scopes.slotsOf, count]
  refine (agree.enter count).bindNew (fun _ _ opened => opened.absent)
    fun id w' later opened => ?_
  have inside : (w'.at (some id)).Within (outer.ofFunction f.declaration) :=
    ⟨⟨id, _, rfl, opened.found, opened.planned, .inl (Nat.le_of_eq size.symm), later.fits fits⟩,
      id, _, rfl, opened.found, size⟩
  have body := agree.executeAll ((later.known (known.enter .body)).stays (Remembers.at _)) inside
  refine (body.within (some id)).bind fun completion _ _ _ => ?_
  cases completion with
  | flow signal line => exact .fail ..
  | normal =>
    dsimp only
    split
    · exact receiver f
    · exact .pure trivial
  | returned value =>
    dsimp only
    split
    · exact receiver f
    · exact .pure trivial

theorem instantiate {id : ClassId} (count : ∀ f, w.machine.store.initializer? id = some f →
      arguments.length = f.declaration.params.length) :
    Steps complaint none (E.instantiate id arguments) (F.instantiate id arguments) w Any := by
  refine (newInstance_steps (.ofClass id)).bind fun object w' _ same => .bind_get ?_
  obtain ⟨classes, traits⟩ := same
  cases found : w'.machine.store.initializer? id with
  | none => exact .pure trivial
  | some f =>
    have count' : arguments.length = f.declaration.params.length := by
      refine count f ?_
      rw [← found, Store.initializer?, Store.initializer?, Store.method?_congr classes traits]
    obtain ⟨method, looked, rfl⟩ := Option.map_eq_some_iff.mp found
    have bindable := (w'.coherent.methods method (Store.has_method looked)).1
    refine (agree.bind bindable object).bind fun g w'' _ bound => ?_
    obtain ⟨callable, declaration⟩ := bound
    exact (agree.callClosure callable (declaration ▸ count')).bind fun _ _ _ _ => .pure trivial

theorem invoke {callee : Store.Callable} (found : w.machine.store.callable? value = some callee)
    (count : arguments.length = w.machine.store.arity callee) (line : Nat) :
    Steps complaint none (E.invoke callee line arguments) (F.invoke callee line arguments) w
      Any := by
  cases callee with
  | native function => exact agree.callNative function line arguments
  | classRef id =>
    refine agree.instantiate fun f initializer => count.trans ?_
    rw [Store.arity, initializer]
    rfl
  | function f =>
    refine agree.callClosure (w.coherent.functions f ?_) count
    cases value with
    | functionRef id =>
      obtain ⟨f', there, same⟩ := Option.map_eq_some_iff.mp found
      cases same
      exact Array.mem_of_getElem? there
    | classRef id =>
      obtain ⟨_, _, same⟩ := Option.map_eq_some_iff.mp found
      cases same
    | _ => cases found

/-- A call passes as many arguments as there are parameters. -/
theorem call (callee : Value) (line : Nat) (arguments : List Value) :
    Steps complaint none (E.call callee line arguments) (F.call callee line arguments) w Any := by
  refine .bind_get ?_
  dsimp only
  cases found : w.machine.store.callable? callee with
  | none => exact .fail ..
  | some callable =>
    dsimp only
    split
    · rename_i count
      exact agree.invoke found count line
    · exact .fail ..

theorem readMethod {method : Method} (has : w.machine.store.Has method) (this : Value) :
    Steps complaint none (E.readMethod method this) (F.readMethod method this) w Any := by
  obtain ⟨bindable, getter⟩ := w.coherent.methods method has
  refine (agree.bind bindable this).bind fun f w' _ bound => ?_
  obtain ⟨callable, declaration⟩ := bound
  split
  · rename_i isGetter
    refine agree.callClosure callable ?_
    rw [declaration, getter isGetter]
    rfl
  · exact newFunction_steps callable

theorem getProperty (object : Value) (name : Token) :
    Steps complaint none (E.getProperty object name) (F.getProperty object name) w Any := by
  refine .bind_get ?_
  dsimp only
  cases w.machine.store.descriptor? object with
  | none => exact .fail ..
  | some descriptor =>
    cases w.machine.store.field? object name.lexeme with
    | some value => exact .pure trivial
    | none =>
      dsimp only
      cases found : w.machine.store.methodOf? name.lexeme descriptor with
      | some method => exact agree.readMethod (Store.has_methodOf found) object
      | none => exact .fail ..

theorem setProperty (known : Known past w.machine ⟨.expr value, context, r⟩)
    (stands : w.Stands context) (object : Value) (name : Token) :
    Steps complaint none (E.setProperty object name value) (F.setProperty object name value) w
      Any := by
  refine .bind_get ?_
  cases w.machine.store.descriptor? object with
  | none => exact .fail ..
  | some _ =>
    exact (agree.evaluate (.inl known) stands).bind fun value _ _ _ =>
      (setField_steps object name.lexeme value).bind fun _ _ _ _ => .pure trivial

/-- A method is looked up in the superclass of the class around the place. -/
theorem superMethod (known : Known past w.machine ⟨.expr (.superRef keyword name), context, r⟩)
    (stands : w.Stands context) :
    Steps complaint none (E.superMethod keyword name) (F.superMethod keyword name) w Any := by
  obtain ⟨_, _, _, this, parent, -, -, receives, inherited, recorded⟩ := w.super known stands
  unfold Steps
  rw [inherited.superMethod receives recorded, inherited.superMethod receives recorded]
  cases found : w.machine.store.method? name.lexeme parent with
  | none => exact Steps.fail ..
  | some method => exact agree.readMethod (Store.has_method found) this

theorem evaluateRule {e : Expr} (known : Known past w.machine ⟨.expr e, context, r⟩)
    (stands : w.Stands context) :
    Steps complaint none (E.evaluateRule e) (F.evaluateRule e) w Any := by
  cases e with
  | assign target value =>
    refine (agree.evaluate (.inl (known.enter .assigned)) stands).bind fun v w' later _ => ?_
    exact (agree.write (later.known known) (later.stands stands) v).bind fun _ _ _ _ =>
      .pure trivial
  | binary left operator right =>
    refine (agree.evaluate (.inl (known.enter .binaryLeft)) stands).bind fun a w' later _ => ?_
    refine (agree.evaluate (.inl (later.known (known.enter .binaryRight)))
      (later.stands stands)).bind fun b _ _ _ => ?_
    exact binary_steps operator a b
  | call callee paren arguments =>
    refine (agree.evaluate (.inl (known.enter .callee)) stands).bind fun f w' later _ => ?_
    exact (agree.evaluateAll (later.known (known.enter .arguments)) (later.stands stands)).bind
      fun values _ _ _ => agree.call f paren.line values
  | property object name =>
    exact (agree.evaluate (.inl (known.enter .object)) stands).bind fun value _ _ _ =>
      agree.getProperty value name
  | group inner => exact agree.evaluate (.inl (known.enter .grouped)) stands
  | lambda f =>
    exact .bind_get (newFunction_steps ⟨.function, context, r, known.enter .lambda, stands⟩)
  | literal value => exact .pure trivial
  | logical left operator right =>
    refine (agree.evaluate (.inl (known.enter .logicalLeft)) stands).bind fun v w' later _ => ?_
    split
    · exact .pure trivial
    · exact agree.evaluate (.inl (later.known (known.enter .logicalRight))) (later.stands stands)
  | setProperty object name value =>
    refine (agree.evaluate (.inl (known.enter .setObject)) stands).bind fun v w' later _ => ?_
    exact agree.setProperty (later.known (known.enter .setValue)) (later.stands stands) v name
  | superRef keyword method => exact agree.superMethod known stands
  | ternary condition thenValue elseValue =>
    refine (agree.evaluate (.inl (known.enter .asked)) stands).bind fun v w' later _ => ?_
    split
    · exact agree.evaluate (.inl (later.known (known.enter .thenValue))) (later.stands stands)
    · exact agree.evaluate (.inl (later.known (known.enter .elseValue))) (later.stands stands)
  | thisRef keyword =>
    exact (agree.read known stands (List.mem_singleton_self keyword)).mono fun _ _ _ _ => trivial
  | unary operator right =>
    exact (agree.evaluate (.inl (known.enter .operand)) stands).bind fun v _ _ _ =>
      unary_steps operator v
  | varRef reference =>
    exact (agree.read known stands (List.mem_singleton_self reference)).mono
      fun _ _ _ _ => trivial

theorem superclassOf {c : ClassDecl}
    (known : Known past w.machine ⟨.stmt (.classDecl c), context, r⟩) (stands : w.Stands context)
    (happens : past (.execute (.classDecl c)) w.machine) :
    Steps complaint none (E.superclassOf c.superclass) (F.superclassOf c.superclass) w
      fun parent w' => w' = w ∧ Inherits past c w parent := by
  cases same : c.superclass with
  | none => exact .pure ⟨rfl, same⟩
  | some reference =>
    have own : reference ∈ (Part.stmt (.classDecl c)).ownReferences :=
      List.mem_append_left _ (same ▸ List.mem_singleton_self reference)
    refine (agree.read known stands own).bind fun value w' _ read => ?_
    obtain ⟨rfl, read⟩ := read
    cases value with
    | classRef id => exact .pure ⟨rfl, reference, w'.machine, happens, same, read, rfl⟩
    | _ => exact .fail ..

theorem traitsOf {c : ClassDecl}
    (known : Known past w.machine ⟨.stmt (.classDecl c), context, r⟩) (stands : w.Stands context)
    (own : traits ⊆ c.traits) :
    Steps complaint none (E.traitsOf traits) (F.traitsOf traits) w fun _ w' => w' = w := by
  induction traits with
  | nil => exact .pure rfl
  | cons reference rest ih =>
    have here : reference ∈ (Part.stmt (.classDecl c)).ownReferences :=
      List.mem_append_right _ (own (List.mem_cons_self ..))
    refine (agree.read known stands here).bind fun value w' _ read => ?_
    obtain ⟨rfl, -⟩ := read
    cases value with
    | traitRef id =>
      exact (ih (List.Subset.trans (List.subset_cons_self ..) own)).bind fun _ _ _ same =>
        .pure same
    | _ => exact .fail ..

theorem declareClass {c : ClassDecl}
    (known : Known past w.machine ⟨.stmt (.classDecl c), context, r⟩) (within : w.Within context)
    (happens : past (.execute (.classDecl c)) w.machine) :
    Steps complaint w.machine.active (E.declareClass c) (F.declareClass c) w
      fun _ w' => w'.Within (context.advance 1) := by
  obtain ⟨root, sited, -⟩ := known.sited
  have plain : Plain c.name.lexeme := by
    have proper := sited.accepted.proper
    cases c
    exact proper.1
  rw [Engine.declareClass_eq, Engine.declareClass_eq]
  refine (agree.superclassOf known within.fits happens).weaken.bind fun parent w' _ read => ?_
  obtain ⟨rfl, inherits⟩ := read
  refine (agree.traitsOf known within.fits (List.Subset.refl _)).weaken.bind
    fun traits w'' _ same => ?_
  subst same
  refine (declare_steps within sited.situated.2 .nil).bind fun binding w₁ later₁ declared => ?_
  obtain ⟨after, bound, new⟩ := declared
  have inherits' : Inherits past c w₁ parent := by
    cases parent with
    | none => exact inherits
    | some parent =>
      obtain ⟨reference, m, happened, same, read, next⟩ := inherits
      exact ⟨reference, m, happened, same, read, next.trans new.symm⟩
  -- What follows leaves the scope of the class as it is now.
  refine .weaken (.mono (?_ : Steps _ _ _ _ w₁ Any) fun _ _ later _ => later.within after)
  refine (methodScope_steps after inherits').bind fun scope w₂ later₂ fits => ?_
  have later := later₁.remembers.trans later₂.remembers
  refine (newClass_steps (.methods ((known.enter .methods).stays later) fits)
    (.functions ((known.enter .statics).stays later) fits _ (fun _ => rfl) (fun _ => rfl)
      fun _ => rfl)).bind fun value w₃ later₃ _ => ?_
  exact rebind_steps (later₃.bound (later₂.bound bound)) plain value

omit agree in
theorem catchSignal {p q : Eval Completion} (body : Steps complaint may p q w post) :
    Steps complaint may (Engine.catchSignal p) (Engine.catchSignal q) w Any := by
  refine body.attempt.bind fun result w' _ _ => ?_
  cases result with
  | ok completion => exact .pure trivial
  | error e =>
    dsimp only
    cases e.signal? with
    | none => exact .of_error rfl
    | some signal => exact .pure trivial

omit agree in
theorem repeatUntil {p q : Eval (Option α)}
    (step : ∀ w', Later none w w' → Steps complaint none p q w' Any) (turns : Nat) :
    Steps complaint none (Engine.repeatUntil p turns) (Engine.repeatUntil q turns) w Any := by
  induction turns generalizing w with
  | zero => exact .exhausted
  | succ turns ih =>
    refine (step w (.refl w)).bind fun result w' later _ => ?_
    cases result with
    | some value => exact .pure trivial
    | none => exact ih fun w'' later' => step w'' (later.trans later')

/-- A statement that declares nothing, as part of another. -/
theorem branch (known : Known past w.machine ⟨.stmt s, context, r⟩) (within : w.Within context)
    (declares : s.declared = []) :
    Steps complaint none (E.execute s) (F.execute s) w Any := by
  have run := agree.execute (.inl known) within
  rw [Stmt.room_of_nil declares] at run
  exact run.mono fun _ _ _ _ => trivial

theorem betweenTurns
    (known : Known past w.machine ⟨.stmt (.loop condition body increment), context, r⟩)
    (stands : w.Stands context) :
    Steps complaint none (E.betweenTurns increment) (F.betweenTurns increment) w Any := by
  cases increment with
  | none => exact .pure trivial
  | some increment =>
    exact (agree.evaluate (.inl (known.enter .increment)) stands).bind fun _ _ _ _ =>
      .pure trivial

theorem turn (known : Known past w.machine ⟨.stmt (.loop condition body increment), context, r⟩)
    (within : w.Within context) :
    Steps complaint none (E.turn condition body increment) (F.turn condition body increment) w
      Any := by
  obtain ⟨root, sited, -⟩ := known.sited
  have declares := Proper.loop_declared sited.accepted.proper
  refine (agree.evaluate (.inl (known.enter .loopCondition)) within.fits).bind
    fun value w' later _ => ?_
  split
  · exact .pure trivial
  have run := agree.branch (later.known (known.enter .loopBody)) (later.within within) declares
  refine (catchSignal run).bind fun completion w'' later' _ => ?_
  have both := later.trans later'
  match completion with
  | .returned value => exact .pure trivial
  | .flow .exitLoop line => exact .pure trivial
  | .flow .nextTurn line | .normal =>
    exact (agree.betweenTurns (both.known known) (both.stands within.fits)).bind fun _ _ _ _ =>
      .pure trivial

omit agree in
/-- A statement that declares nothing leaves its scope as it was. -/
theorem undeclared {s : Stmt} {p q : Eval Completion} (steps : Steps complaint none p q w Any)
    (within : w.Within context) (declares : s.declared = []) :
    Steps complaint (s.room w.machine.active) p q w fun completion w' =>
      completion = .normal → w'.Within (context.advance s.declared.length) := by
  refine .weaken (steps.mono fun _ w' later _ _ => ?_)
  rw [declares, List.length_nil, Context.advance_zero]
  exact later.within within

theorem executeRule {s : Stmt} (known : Known past w.machine ⟨.stmt s, context, r⟩)
    (within : w.Within context) (happens : past (.execute s) w.machine) :
    Steps complaint (s.room w.machine.active) (E.executeRule s) (F.executeRule s) w
      fun completion w' =>
        completion = .normal → w'.Within (context.advance s.declared.length) := by
  obtain ⟨root, sited, -⟩ := known.sited
  cases s with
  | block body =>
    refine undeclared ?_ within rfl
    refine .bind_get ((newScope_steps _ [] (List.nil_prefix (l := declared body))).bindNew
      (fun _ _ opened => opened.absent) fun id w' later opened => ?_)
    have inside : (w'.at (some id)).Within (context.ofBlock body) :=
      ⟨⟨id, _, rfl, opened.found, opened.planned, .inl (Nat.zero_le _), later.fits within.fits⟩,
        id, _, rfl, opened.found, rfl⟩
    exact (agree.executeAll ((later.known (known.enter .block)).stays (Remembers.at _))
      inside).within (some id)
  | classDecl c =>
    exact (agree.declareClass known within happens).bind fun _ _ _ after => .pure fun _ => after
  | expression value =>
    exact undeclared ((agree.evaluate (.inl (known.enter .evaluated)) within.fits).bind
      fun _ _ _ _ => .pure trivial) within rfl
  | flow signal line => exact undeclared (.pure trivial) within rfl
  | functionDecl f =>
    obtain ⟨name, params, body, line⟩ := f
    cases name with
    | none => exact sited.accepted.proper.elim
    | some name =>
      exact (declareFunction_steps known within).bind fun _ _ _ after => .pure fun _ => after
  | ifElse condition thenBranch elseBranch =>
    have condition_steps := agree.evaluate (.inl (known.enter .ifCondition)) within.fits
    cases elseBranch with
    | none =>
      obtain ⟨-, declares, -⟩ := sited.accepted.proper
      refine undeclared (condition_steps.bind fun v w' later _ => ?_) within declares
      split
      · exact agree.branch (later.known (known.enter .thenBranch)) (later.within within) declares
      · exact .pure trivial
    | some elseBranch =>
      obtain ⟨-, ⟨thenDeclares, -⟩, elseDeclares, -⟩ := sited.accepted.proper
      refine undeclared (condition_steps.bind fun v w' later _ => ?_) within
        (by rw [Stmt.declared, thenDeclares, elseDeclares]; rfl)
      split
      · exact agree.branch (later.known (known.enter .thenBranch)) (later.within within)
          thenDeclares
      · exact agree.branch (later.known (known.enter .elseBranch)) (later.within within)
          elseDeclares
  | print value =>
    refine undeclared ?_ within rfl
    refine (agree.evaluate (.inl (known.enter .printed)) within.fits).bind fun v _ _ _ => ?_
    exact (display_steps v).bind fun _ _ _ _ => (print_steps ..).bind fun _ _ _ _ => .pure trivial
  | returns keyword value =>
    refine undeclared ?_ within rfl
    cases value with
    | none => exact .pure trivial
    | some value =>
      exact (agree.evaluate (.inl (known.enter .returned)) within.fits).bind fun _ _ _ _ =>
        .pure trivial
  | traitDecl t =>
    exact (declareTrait_steps known within).bind fun _ _ _ after => .pure fun _ => after
  | varDecl name value =>
    have declares {w' : Snapshot past} (later : Later none w w') (v : Value) :
        Steps complaint w.machine.active (Eval.declare name.lexeme v)
          (Eval.declare name.lexeme v) w' fun _ w'' => w''.Within (context.advance 1) := by
      rw [← later.active]
      exact (declare_steps (later.within within) sited.situated.2 v).mono fun _ _ _ after => after.1
    cases value with
    | none => exact (declares (.refl w) .nil).bind fun _ _ _ after => .pure fun _ => after
    | some value =>
      have initial := agree.evaluate (.inl (known.enter .initializer)) (within.await happens)
      exact initial.bindQuiet fun v _ later _ =>
        (declares later v).bind fun _ _ _ after => .pure fun _ => after
  | loop condition body increment =>
    have declares : (Stmt.loop condition body increment).declared = [] := by
      rw [Stmt.declared]
      exact Proper.loop_declared sited.accepted.proper
    refine undeclared ?_ within declares
    change Steps _ _ (Engine.repeatUntil (E.turn condition body increment) E.turns)
      (Engine.repeatUntil (F.turn condition body increment) F.turns) _ _
    rw [agree.turns]
    exact repeatUntil (fun w' later => agree.turn (later.known known) (later.within within)) _

end Agree

end Lox
