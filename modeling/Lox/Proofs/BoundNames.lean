import Lox.Proofs.ClassDeclarations
import Lox.Proofs.ConfinedRuns

/-!
What is bound while a program runs. A statement binds names in the active scope only, or as global
variables where no scope is active. An expression binds nothing there at all, since every function
that it calls has a new scope of its own.
-/

namespace Lox

/-- A scope in two states: its slots have the same names, and it lies in the same scope. -/
structure Scope.SameNames (scope scope' : Scope) : Prop where
  names : scope'.names = scope.names
  parent : scope'.parent = scope.parent

theorem Scope.SameNames.refl (scope : Scope) : scope.SameNames scope := ⟨rfl, rfl⟩

theorem Scope.SameNames.trans {a b c : Scope} (first : a.SameNames b) (second : b.SameNames c) :
    a.SameNames c :=
  ⟨second.names.trans first.names, second.parent.trans first.parent⟩

theorem Scope.SameNames.size {scope scope' : Scope} (same : scope.SameNames scope') :
    scope'.slots.size = scope.slots.size := by
  simpa [Scope.names] using congrArg List.length same.names

/-- Between two states nothing has been bound in what there was before, save where variables are
declared, if they are declared `here`. -/
structure Machine.Binds (here : Prop) (m m' : Machine) : Prop where
  active : m'.active = m.active
  scopes : ∀ id scope, m.store.scopes.get? id = some scope → (here → m.active ≠ some id) →
    ∃ scope', m'.store.scopes.get? id = some scope' ∧ scope.SameNames scope'
  globals : (here → m.active ≠ none) →
    ∀ name, m'.globals.contains name = m.globals.contains name

namespace Machine.Binds

variable {here : Prop} {m m' m'' : Machine}

theorem of_same (active : m'.active = m.active) (scopes : m'.store.scopes = m.store.scopes)
    (globals : m'.globals = m.globals) : m.Binds here m' := by
  refine ⟨active, fun id scope found _ => ⟨scope, ?_, .refl scope⟩, fun _ name => ?_⟩
  · rw [scopes, found]
  · rw [globals]

theorem refl (m : Machine) : m.Binds here m := of_same rfl rfl rfl

theorem trans (first : m.Binds here m') (second : m'.Binds here m'') : m.Binds here m'' := by
  refine ⟨second.active.trans first.active, fun id scope found apart => ?_, fun apart name => ?_⟩
  · obtain ⟨scope', found', same⟩ := first.scopes id scope found apart
    rw [← first.active] at apart
    obtain ⟨scope'', found'', same'⟩ := second.scopes id scope' found' apart
    exact ⟨scope'', found'', same.trans same'⟩
  · have before := first.globals apart name
    rw [← first.active] at apart
    exact (second.globals apart name).trans before

/-- Where nothing is bound, nothing is bound here. -/
theorem weaken (binds : m.Binds False m') : m.Binds here m' :=
  ⟨binds.active, fun id scope found _ => binds.scopes id scope found nofun,
    fun _ => binds.globals nofun⟩

/-- A new scope changes no other. -/
theorem opened (m : Machine) (parent : Option ScopeId) (slots : List (String × Value)) :
    m.Binds here { m with store :=
      { m.store with scopes := m.store.scopes.opened parent slots } } := by
  refine ⟨rfl, fun id scope found _ => ⟨scope, ?_, .refl scope⟩, fun _ _ => rfl⟩
  rw [Scopes.get?_opened, if_neg (Scopes.ne_nextId found), found]

/-- A global variable that exists may be overwritten. -/
theorem overwrite {name : String} (known : m.globals.contains name = true)
    (value : Value) : m.Binds here { m with globals := m.globals.insert name value } := by
  refine ⟨rfl, fun id scope found _ => ⟨scope, found, .refl scope⟩, fun _ other => ?_⟩
  by_cases same : name = other
  · subst same
    simp [known]
  · simp [Std.TreeMap.contains_insert, same]

/-- What is bound in a scope that is new is not bound in what there was before. -/
theorem within {body : Machine} {id : ScopeId} (new : m.store.scopes.get? id = none)
    (opens : m.Binds False m') (inside : { m' with active := some id }.Binds True body) :
    m.Binds here { body with active := m'.active } := by
  refine ⟨opens.active, fun other scope found _ => ?_, fun _ name => ?_⟩
  · have apart : other ≠ id := by
      rintro rfl
      rw [new] at found
      cases found
    obtain ⟨scope', found', same⟩ := opens.scopes other scope found nofun
    obtain ⟨scope'', found'', same'⟩ := inside.scopes other scope' found' fun _ equal =>
      apart (Option.some.inj equal).symm
    exact ⟨scope'', found'', same.trans same'⟩
  · exact (inside.globals (fun _ => nofun) name).trans (opens.globals nofun name)

end Machine.Binds

/-- A sequence ends where its first part does, or where the rest does from there. -/
theorem left_bind (p : Eval α) (f : α → Eval β) (m : Machine) :
    left ((p >>= f) m) = left (p m) ∨ ∃ a, left ((p >>= f) m) = left (f a (left (p m))) := by
  cases ran : p m with
  | ok a m' => exact .inr ⟨a, congrArg left (Eval.bind_of_ok ran)⟩
  | error halt m' => exact .inl (congrArg left (Eval.bind_of_error ran))

/-- Whatever state the computation starts in, it binds nothing in what there is, save where
variables are declared, if it declares them `here`. -/
def Binds (here : Prop) (p : Eval α) : Prop := ∀ m : Machine, m.Binds here (left (p m))

namespace Binds

variable {here : Prop} {p : Eval α}

theorem weaken (binds : Binds False p) : Binds here p := fun m => (binds m).weaken

theorem pure {a : α} : Binds here (Pure.pure a) := fun m => .refl m

theorem throw {halt : Halt} : Binds here (MonadExcept.throw halt : Eval α) := fun m => .refl m

theorem fail {line : Nat} {cause : RuntimeError.Cause} :
    Binds here (Eval.fail line cause : Eval α) := throw

theorem get : Binds here (MonadState.get : Eval Machine) := fun m => .refl m

theorem changeStore {f : Store → Store} (scopes : ∀ s, (f s).scopes = s.scopes) :
    Binds here (Eval.modifyStore f) := fun m => .of_same rfl (scopes m.store) rfl

theorem changeWorld (f : World → World) :
    Binds here (modify fun m => { m with world := f m.world } : Eval Unit) :=
  fun _ => .of_same rfl rfl rfl

theorem bind {f : α → Eval β} (first : Binds here p) (later : ∀ a, Binds here (f a)) :
    Binds here (p >>= f) := by
  intro m
  obtain same | ⟨a, same⟩ := left_bind p f m
  · rw [same]
    exact first m
  · rw [same]
    exact (first m).trans (later a _)

theorem ite {condition : Prop} [Decidable condition] {q : Eval α} (yes : Binds here p)
    (no : Binds here q) : Binds here (if condition then p else q) := by
  split
  · exact yes
  · exact no

theorem attempt (body : Binds here p) : Binds here (Eval.attempt p) := by
  intro m
  rw [left_attempt]
  exact body m

theorem lift (result : Except Violation α) : Binds here (Eval.lift result) := by
  cases result with
  | ok value => exact pure
  | error v => exact throw

theorem orUndefined (name : Token) (found : Option α) :
    Binds here (Eval.orUndefined name found) := by
  cases found with
  | some value => exact pure
  | none => exact fail

theorem activeScope : Binds here Eval.activeScope := by
  apply bind get
  intro m
  cases m.active with
  | some id => exact pure
  | none => exact throw

theorem slotValue (address : Address) : Binds here (Eval.slotValue address) :=
  bind activeScope fun _ => bind get fun _ => lift _

theorem address? (reference : Reference) : Binds here (Eval.address? reference) :=
  bind get fun _ => pure

theorem readVariable (reference : Reference) : Binds here (Eval.readVariable reference) := by
  apply bind (address? reference)
  intro found
  cases found with
  | some address => exact bind (slotValue address) fun _ => orUndefined _ _
  | none => exact bind get fun _ => orUndefined _ _

/-- A slot that is overwritten keeps its name. -/
theorem put (id : ScopeId) (index : Nat) (value : Value) :
    Binds here (Eval.modifyScopes (·.put id index value)) := by
  intro m
  refine ⟨rfl, fun other scope found _ => ?_, fun _ _ => rfl⟩
  change ∃ scope', (m.store.scopes.put id index value).get? other = some scope' ∧ _
  rw [Scopes.get?_put]
  by_cases same : other = id
  · subst same
    rw [if_pos rfl, found]
    exact ⟨_, rfl, Scopes.names_modify scope.slots index value, rfl⟩
  · rw [if_neg same]
    exact ⟨scope, found, .refl scope⟩

theorem writeVariable (reference : Reference) (value : Value) :
    Binds here (Eval.writeVariable reference value) := by
  apply bind (address? reference)
  intro found
  cases found with
  | some address =>
    exact bind activeScope fun _ => bind get fun _ => bind (lift _) fun _ => bind get fun _ =>
      bind (orUndefined _ _) fun _ => put _ _ value
  | none =>
    intro m
    change m.Binds here (left ((if m.globals.contains reference.name.lexeme then
      modify fun m => { m with globals := m.globals.insert reference.name.lexeme value }
      else Eval.fail _ _ : Eval Unit) m))
    split
    · rename_i known
      exact .overwrite known value
    · exact .refl m

theorem newScope (parent : Option ScopeId) (slots : List (String × Value)) :
    Binds here (Eval.newScope parent slots) := fun m => .opened m parent slots

theorem newFunction (f : Closure) : Binds here (Eval.newFunction f) :=
  bind (changeStore fun _ => rfl) fun _ => bind get fun _ => pure

theorem newInstance (descriptor : Descriptor) : Binds here (Eval.newInstance descriptor) :=
  bind (changeStore fun _ => rfl) fun _ => bind get fun _ => pure

theorem newTrait (t : Trait) : Binds here (Eval.newTrait t) :=
  bind (changeStore fun _ => rfl) fun _ => bind get fun _ => pure

theorem setField (object : Value) (name : String) (value : Value) :
    Binds here (Eval.modifyStore (·.setField object name value)) :=
  changeStore fun _ => by cases object <;> rfl

theorem bindThis (f : Closure) (this : Value) : Binds here (Eval.bindThis f this) :=
  bind (newScope _ _) fun _ => pure

theorem receiver (f : Closure) : Binds here (Engine.receiver f) := bind get fun _ => pure

theorem display (value : Value) : Binds here (Eval.display value) := bind get fun _ => pure

theorem superAndThis (line distance : Nat) : Binds here (Engine.superAndThis line distance) := by
  apply bind (slotValue _)
  intro found
  split
  · cases distance with
    | zero => exact throw
    | succ inside => exact bind (slotValue _) fun _ => pure
  · exact bind (display _) fun _ => fail

theorem numbers (operator : Token) (left right : Value) :
    Binds here (Eval.numbers operator left right) := by
  unfold Eval.numbers
  split
  · exact pure
  · exact fail

theorem binary (operator : Token) (left right : Value) :
    Binds here (Eval.binary operator left right) := by
  unfold Eval.binary
  split
  case h_1 =>
    unfold Eval.add
    split
    · exact pure
    · exact bind (display _) fun _ => bind (display _) fun _ => pure
  case h_4 => exact bind (numbers _ _ _) fun _ => ite fail pure
  case h_10 | h_11 => exact pure
  case h_12 => exact fail
  all_goals exact bind (numbers _ _ _) fun _ => pure

theorem unary (operator : Token) (right : Value) : Binds here (Eval.unary operator right) := by
  unfold Eval.unary
  split
  case h_1 | h_3 => exact pure
  case h_2 | h_4 => exact fail

theorem print (line : Nat) (text : String) : Binds here (Eval.print line text) := by
  refine bind get fun m =>
    bind (changeWorld fun w => { w with out := w.out.write text }) fun _ => ?_
  cases m.world.out.fault? text with
  | none => exact pure
  | some fault => exact fail

theorem readClock : Binds here Eval.readClock :=
  bind (changeWorld World.tick) fun _ => bind get fun _ => pure

theorem readLine (line : Nat) : Binds here (Eval.readLine line) := by
  refine bind get fun m => ite pure (bind (changeWorld fun w =>
    { w with input := (World.splitLine m.world.input).2 }) fun _ => ?_)
  split
  · exact pure
  · exact fail

theorem declare (name : String) (value : Value) : Binds True (Eval.declare name value) := by
  intro m
  have declared : left (Eval.declare name value m) = m.declared name value := by
    obtain ⟨active, globals, store, registry, nextNode, loaded, world⟩ := m
    cases active <;> rfl
  rw [declared]
  cases active : m.active with
  | none =>
    refine ⟨rfl, fun id scope found _ => ⟨scope, ?_, .refl scope⟩, fun apart => ?_⟩
    · simpa [Machine.declared, Scopes.declared, active] using found
    · exact (apart trivial active).elim
  | some id =>
    refine ⟨rfl, fun other scope found apart => ⟨scope, ?_, .refl scope⟩, fun _ name' => ?_⟩
    · have different : other ≠ id := by
        rintro rfl
        exact apart trivial active
      simp [Machine.declared, Scopes.declared, active, Scopes.get?_define, different, found]
    · simp [Machine.declared, active]

/-- A class that has been declared has a name, and its methods may have a new scope. -/
theorem finishClass (c : ClassDecl) (superclass : Option ClassId) (traits : List TraitId) :
    Binds True (Engine.finishClass c superclass traits) := by
  intro m
  cases active : m.active with
  | none =>
    rw [Engine.finishClass_global active]
    refine ⟨rfl, fun id scope found _ => ⟨scope, ?_, .refl scope⟩, fun apart => ?_⟩
    · exact Scopes.get?_withSuper found m.active superclass
    · exact (apart trivial active).elim
  | some id =>
    rw [Engine.finishClass_slot active]
    refine ⟨rfl, fun other scope found apart => ⟨scope, ?_, .refl scope⟩, fun _ _ => rfl⟩
    have different : other ≠ id := by
      rintro rfl
      exact apart trivial active
    have kept : (m.store.scopes.define id c.name.lexeme .nil).get? other = some scope := by
      rw [Scopes.get?_define, if_neg different, found]
    change (Scopes.put ..).get? other = some scope
    rw [Scopes.get?_put, if_neg different]
    exact Scopes.get?_withSuper kept m.active superclass

theorem declareTrait (t : TraitDecl) : Binds True (Engine.declareTrait t) :=
  bind get fun _ => bind (newTrait _) fun _ => bind (declare _ _) fun _ => pure

theorem declareFunction (f : FunctionDecl) : Binds True (Engine.declareFunction f) :=
  bind get fun _ => bind (newFunction _) fun _ => bind (declare _ _) fun _ => pure

/-- The computation makes a new scope. -/
def Opens (enter : Eval ScopeId) : Prop :=
  ∀ m : Machine, ∃ m', enter m = .ok m.store.scopes.nextId m' ∧ m.Binds False m'

theorem opens_newScope (parent : Option ScopeId) (slots : List (String × Value)) :
    Opens (Eval.newScope parent slots) := fun m => ⟨_, rfl, .opened m parent slots⟩

theorem inside {enter : Eval ScopeId} (opens : Opens enter) (body : Binds True p) :
    Binds here (enter >>= fun id => Eval.within (some id) p) := by
  intro m
  obtain ⟨m', entered, binds⟩ := opens m
  rw [Eval.bind_of_ok entered, left_within]
  exact .within (Scopes.get?_nextId _) binds (body _)

end Binds

/-- An engine whose statements bind names where they are executed only, and whose expressions bind
none. -/
structure Engine.BindsHere (E : Engine) : Prop where
  evaluate : ∀ e, Binds False (E.evaluate e)
  execute : ∀ s, Binds True (E.execute s)
  read : ∀ r, Binds False (E.read r)
  write : ∀ r v, Binds False (E.write r v)
  bind : ∀ f v, Binds False (E.bind f v)
  enter : ∀ f vs, Binds.Opens (E.enter f vs)

namespace Engine.BindsHere

variable {E : Engine} (binds : E.BindsHere)
include binds

theorem evaluateAll (es : List Expr) : Binds False (E.evaluateAll es) := by
  induction es with
  | nil => exact .pure
  | cons e es ih => exact .bind (binds.evaluate e) fun _ => .bind ih fun _ => .pure

theorem executeAll (ss : List Stmt) : Binds True (E.executeAll ss) := by
  induction ss with
  | nil => exact .pure
  | cons s ss ih =>
    apply Binds.bind (binds.execute s)
    intro completion
    cases completion with
    | normal => exact ih
    | returned value => exact .pure
    | flow signal line => exact .pure

/-- All that the body of a function declares lies in the scope of the call. -/
theorem callClosure (f : Closure) (arguments : List Value) :
    Binds False (E.callClosure f arguments) := by
  -- Entering is taken together with the body, since later nothing tells that the scope is new.
  have body : Binds False (E.enter f arguments >>= fun scope =>
      Eval.within (some scope) (E.executeAll f.declaration.body)) :=
    .inside (binds.enter f arguments) (binds.executeAll _)
  unfold Engine.callClosure
  rw [← bind_assoc]
  apply Binds.bind body
  intro completion
  cases completion with
  | flow signal line => exact .fail
  | normal => exact .ite (.receiver f) .pure
  | returned value => exact .ite (.receiver f) .pure

theorem instantiate (id : ClassId) (arguments : List Value) :
    Binds False (E.instantiate id arguments) := by
  refine .bind (.newInstance _) fun object => .bind .get fun m => ?_
  cases m.store.initializer? id with
  | none => exact .pure
  | some f =>
    exact .bind (binds.bind f object) fun bound =>
      .bind (binds.callClosure bound arguments) fun _ => .pure

omit binds in
theorem callNative {function : Native} (own : function.loads = false) (line : Nat)
    (arguments : List Value) : Binds False (E.callNative function line arguments) := by
  cases function with
  | clock => exact .readClock
  | readLine => exact .readLine line
  | printw =>
    cases arguments with
    | nil => exact .pure
    | cons value _ => exact .bind (.display value) fun _ => .bind (.print line _) fun _ => .pure
  | loadFile | reload => cases own

/-- A call that runs no other source. -/
theorem call {callee : Value} {arguments : List Value}
    (own : callee.calls Native.loads arguments = false) (line : Nat) :
    Binds False (E.call callee line arguments) := by
  apply Binds.bind .get
  intro m
  dsimp only
  cases found : m.store.callable? callee with
  | none => exact .fail
  | some callable =>
    dsimp only
    split
    · rename_i fits
      cases callable with
      | function f => exact binds.callClosure f arguments
      | classRef id => exact binds.instantiate id arguments
      | native function =>
        obtain rfl := Store.native_of_callable? found
        exact callNative (Value.open_of_calls own fits) line arguments
    · exact .fail

theorem readMethod (m : Method) (this : Value) : Binds False (E.readMethod m this) := by
  apply Binds.bind (binds.bind m.closure this)
  intro f
  cases m.isGetter with
  | true => exact binds.callClosure f []
  | false => exact .newFunction f

theorem getProperty (object : Value) (name : Token) : Binds False (E.getProperty object name) := by
  apply Binds.bind .get
  intro m
  dsimp only
  cases m.store.descriptor? object with
  | none => exact .fail
  | some descriptor =>
    cases m.store.field? object name.lexeme with
    | some value => exact .pure
    | none =>
      dsimp only
      cases m.store.methodOf? name.lexeme descriptor with
      | some method => exact binds.readMethod method object
      | none => exact .fail

theorem setProperty (object : Value) (name : Token) (value : Expr) :
    Binds False (E.setProperty object name value) := by
  apply Binds.bind .get
  intro m
  cases m.store.descriptor? object with
  | none => exact .fail
  | some _ => exact .bind (binds.evaluate value) fun _ => .bind (.setField _ _ _) fun _ => .pure

theorem superMethod (keyword : Reference) (method : Token) :
    Binds False (E.superMethod keyword method) := by
  apply Binds.bind (.address? keyword)
  intro address
  cases address with
  | none => exact .fail
  | some address =>
    refine .bind (.superAndThis _ _) fun found => .bind .get fun m => ?_
    cases m.store.method? method.lexeme found.1 with
    | some method => exact binds.readMethod method found.2
    | none => exact .fail

theorem confinedRule (e : Expr) : Binds False (E.barredRule Native.loads e) := by
  cases e with
  | assign target value =>
    exact .bind (binds.evaluate value) fun v => .bind (binds.write target v) fun _ => .pure
  | binary left operator right =>
    exact .bind (binds.evaluate left) fun _ => .bind (binds.evaluate right) fun _ => .binary _ _ _
  | call callee paren arguments =>
    refine .bind (binds.evaluate callee) fun f =>
      .bind (binds.evaluateAll arguments) fun values => ?_
    cases own : f.calls Native.loads values with
    | true => exact .throw
    | false => exact binds.call own paren.line
  | property object name =>
    exact .bind (binds.evaluate object) fun object => binds.getProperty object name
  | group inside => exact binds.evaluate inside
  | lambda f => exact .bind .get fun _ => .newFunction _
  | literal value => exact .pure
  | logical left operator right =>
    apply Binds.bind (binds.evaluate left)
    intro value
    cases Eval.decides operator value with
    | true => exact .pure
    | false => exact binds.evaluate right
  | setProperty object name value =>
    exact .bind (binds.evaluate object) fun object => binds.setProperty object name value
  | superRef keyword method => exact binds.superMethod keyword method
  | ternary condition thenValue elseValue =>
    apply Binds.bind (binds.evaluate condition)
    intro value
    cases value.isTruthy with
    | true => exact binds.evaluate thenValue
    | false => exact binds.evaluate elseValue
  | thisRef keyword => exact binds.read keyword
  | unary operator right => exact .bind (binds.evaluate right) fun _ => .unary _ _
  | varRef reference => exact binds.read reference

theorem superclassOf (parent : Option Reference) : Binds True (E.superclassOf parent) := by
  cases parent with
  | none => exact .pure
  | some reference =>
    apply Binds.bind (binds.read reference).weaken
    intro value
    cases value with
    | classRef id => exact .pure
    | _ => exact .fail

theorem traitsOf (traits : List Reference) : Binds True (E.traitsOf traits) := by
  induction traits with
  | nil => exact .pure
  | cons reference traits ih =>
    apply Binds.bind (binds.read reference).weaken
    intro value
    cases value with
    | traitRef id => exact .bind ih fun _ => .pure
    | _ => exact .fail

theorem declareClass (c : ClassDecl) : Binds True (E.declareClass c) := by
  rw [declareClass_eq]
  exact .bind (binds.superclassOf c.superclass) fun superclass =>
    .bind (binds.traitsOf c.traits) fun traits => .finishClass c superclass traits

omit binds in
theorem catchSignal {body : Eval Completion} (inside : Binds True body) :
    Binds True (Engine.catchSignal body) := by
  apply Binds.bind (.attempt inside)
  intro result
  cases result with
  | ok completion => exact .pure
  | error e =>
    dsimp only
    cases e.signal? with
    | some signal => exact .pure
    | none => exact .throw

theorem turn (condition : Expr) (body : Stmt) (increment : Option Expr) :
    Binds True (E.turn condition body increment) := by
  apply Binds.bind (binds.evaluate condition).weaken
  intro value
  cases value.isTruthy with
  | false => exact .pure
  | true =>
    have between : Binds True (E.betweenTurns increment) := by
      cases increment with
      | none => exact .pure
      | some e => exact .bind (binds.evaluate e).weaken fun _ => .pure
    apply Binds.bind (catchSignal (binds.execute body))
    intro completion
    cases completion with
    | returned value => exact .pure
    | normal => exact .bind between fun _ => .pure
    | flow signal line =>
      cases signal with
      | exitLoop => exact .pure
      | nextTurn => exact .bind between fun _ => .pure

omit binds in
theorem repeatUntil {step : Eval (Option α)} (binds : Binds True step) (turns : Nat) :
    Binds True (Engine.repeatUntil step turns) := by
  induction turns with
  | zero => exact .throw
  | succ turns ih =>
    apply Binds.bind binds
    intro result
    cases result with
    | some value => exact .pure
    | none => exact ih

theorem executeRule (s : Stmt) : Binds True (E.executeRule s) := by
  cases s with
  | block body =>
    exact .bind .get fun _ => .inside (Binds.opens_newScope _ _) (binds.executeAll body)
  | classDecl declaration => exact .bind (binds.declareClass declaration) fun _ => .pure
  | expression value => exact .bind (binds.evaluate value).weaken fun _ => .pure
  | flow signal line => exact .pure
  | functionDecl declaration => exact .bind (.declareFunction declaration) fun _ => .pure
  | ifElse condition thenBranch elseBranch =>
    apply Binds.bind (binds.evaluate condition).weaken
    intro value
    cases value.isTruthy with
    | true => exact binds.execute thenBranch
    | false =>
      cases elseBranch with
      | none => exact .pure
      | some branch => exact binds.execute branch
  | print value =>
    exact .bind (binds.evaluate value).weaken fun _ => .bind (.display _) fun _ =>
      .bind (.print _ _) fun _ => .pure
  | returns keyword value =>
    cases value with
    | none => exact .pure
    | some value => exact .bind (binds.evaluate value).weaken fun _ => .pure
  | traitDecl declaration => exact .bind (.declareTrait declaration) fun _ => .pure
  | varDecl name value =>
    cases value with
    | none => exact .bind .pure fun _ => .bind (.declare _ _) fun _ => .pure
    | some value =>
      exact .bind (binds.evaluate value).weaken fun _ => .bind (.declare _ _) fun _ => .pure
  | loop condition body increment => exact repeatUntil (binds.turn condition body increment) E.turns

end Engine.BindsHere

theorem confined_binds_here (depth : Nat) : (confined depth).BindsHere := by
  have enters (f : Closure) (vs : List Value) : Binds.Opens (Eval.enterFunction f vs) :=
    Binds.opens_newScope _ _
  induction depth with
  | zero =>
    exact ⟨fun _ => .throw, fun _ => .throw, .readVariable, .writeVariable, .bindThis, enters⟩
  | succ depth ih =>
    exact ⟨ih.confinedRule, ih.executeRule, .readVariable, .writeVariable, .bindThis, enters⟩

/-- What a confined engine does leaves the recorded addresses as they are. -/
def keepsRegistry : Congruence Unit where
  holds p := ∀ m : Machine, (left (p () m)).registry = m.registry
  step sourceless m := (sourceless.untouched m).registry
  bind {_ _ p f} first later m := by
    obtain same | ⟨a, same⟩ := left_bind (p ()) (f ()) m
    · exact (congrArg Machine.registry same).trans (first m)
    · exact (congrArg Machine.registry same).trans ((later a _).trans (first m))
  within scope body m := by
    rw [left_within]
    exact body _
  attempt body m := by
    rw [left_attempt]
    exact body m

/-- The name stands for no variable. -/
structure Machine.Unknown (m : Machine) (reference : Reference) : Prop where
  address : m.registry.addresses[reference.id]? = none
  global : m.globals.contains reference.name.lexeme = false

theorem writeVariable_unknown (unknown : m.Unknown target) (value : Value) :
    Eval.writeVariable target value m =
      .error (.error ⟨target.name.line, .undefinedVariable target.name.lexeme⟩) m := by
  unfold Eval.writeVariable
  rw [Eval.bind_of_ok (address?_eq unknown.address)]
  change (if m.globals.contains target.name.lexeme then _ else _ : Eval Unit) m = _
  rw [unknown.global]
  rfl

/-- To assign to an unknown name never succeeds. -/
theorem confined_assign_unknown (unknown : m.Unknown target) (value : Expr) (v : Value)
    (m' : Machine) : (confined depth).evaluate (.assign target value) m ≠ .ok v m' := by
  intro ran
  cases depth with
  | zero => cases ran
  | succ depth =>
    obtain ⟨v, m₁, evaluated, ends⟩ := Eval.bind_eq_ok ran
    have registry : (left ((confined depth).evaluate value m)).registry = m.registry :=
      (keepsRegistry.confined depth).evaluate value m
    have globals := ((confined_binds_here depth).evaluate value m).globals nofun
    rw [evaluated] at registry globals
    have still : m₁.Unknown target :=
      ⟨(congrArg (·.addresses[target.id]?) registry).trans unknown.address,
        (globals _).trans unknown.global⟩
    have writes : (confined depth).write = Eval.writeVariable := by cases depth <;> rfl
    rw [writes, Eval.bind_of_error (writeVariable_unknown still v)] at ends
    cases ends

/-- Evaluating the expression runs no other source: nothing changes if calls that would run one have
no result. -/
def Expr.KeepsToItself (depth : Nat) (e : Expr) (m : Machine) : Prop :=
  (confined depth).evaluate e m = evaluate depth e m

/-- However it ends, evaluating an expression that runs no other source binds nothing in what there
is, neither in a scope nor as a global variable. -/
theorem evaluation_binds_nothing (own : e.KeepsToItself depth m) :
    (∀ id scope, m.store.scopes.get? id = some scope →
      ∃ scope', (left (evaluate depth e m)).store.scopes.get? id = some scope' ∧
        scope'.slots.size = scope.slots.size ∧ scope'.names = scope.names ∧
        scope'.parent = scope.parent) ∧
    (∀ name, (left (evaluate depth e m)).globals.contains name = m.globals.contains name) ∧
    ∀ target value, e = .assign target value → m.Unknown target →
      ∀ v m', evaluate depth e m ≠ .ok v m' := by
  have binds := (confined_binds_here depth).evaluate e m
  rw [show (confined depth).evaluate e m = evaluate depth e m from own] at binds
  refine ⟨fun id scope found => ?_, binds.globals nofun, ?_⟩
  · obtain ⟨scope', found', same⟩ := binds.scopes id scope found nofun
    exact ⟨scope', found', same.size, same.names, same.parent⟩
  · rintro target value rfl unknown v m'
    rw [← show (confined depth).evaluate _ m = evaluate depth _ m from own]
    exact confined_assign_unknown unknown value v m'

/-- An expression that is evaluated without other sources, and not for too long. -/
theorem keepsToItself_of_ends (ends : ∀ m', (confined depth).evaluate e m ≠ .error .exhausted m') :
    e.KeepsToItself depth m := by
  obtain same | ⟨m', stopped⟩ := (Confinement.relates Native.loads depth).evaluate e m
  · exact same
  · exact (ends m' stopped).elim

/-- The state after a function has been made whose scope holds a parameter of another one. -/
def withKeeper : Machine := left ((engine 12).session
  [.run "fun keeper(it) \x7b
      fun keep(next) \x7b var old = it; it = next; return old; \x7d
      return keep;
    \x7d
    var keep = keeper(\"first\");"]
  (.fresh {}))

/-- `last = keep("second")`, where there is no variable `last`. -/
def strayAssignment : Expr :=
  .assign ⟨1000, ⟨.identifier, "last", 1⟩⟩
    (.call (.varRef ⟨1001, ⟨.identifier, "keep", 1⟩⟩) ⟨.rightParen, ")", 1⟩
      [.literal (.string "second")])

/-- Whether a run has failed after it has overwritten the parameter. -/
def failsAfterKeeping : EStateM.Result Halt Machine Value → Bool
  | .error (.error e) m => e.cause == .undefinedVariable "last" &&
    m.store.scopes.slot? ⟨0⟩ 0 == some ⟨"it", .string "second"⟩
  | _ => false

theorem strayAssignment_binds_nothing : strayAssignment.KeepsToItself 12 withKeeper ∧
    failsAfterKeeping (evaluate 12 strayAssignment withKeeper) ∧
    (∀ id scope, withKeeper.store.scopes.get? id = some scope →
      ∃ scope', (left (evaluate 12 strayAssignment withKeeper)).store.scopes.get? id = some scope' ∧
        scope'.slots.size = scope.slots.size ∧ scope'.names = scope.names ∧
        scope'.parent = scope.parent) ∧
    (∀ name, (left (evaluate 12 strayAssignment withKeeper)).globals.contains name =
      withKeeper.globals.contains name) ∧
    ∀ v m', evaluate 12 strayAssignment withKeeper ≠ .ok v m' := by
  obtain ⟨fails, address, global⟩ :
      failsAfterKeeping ((confined 12).evaluate strayAssignment withKeeper) ∧
      withKeeper.registry.addresses[1000]? = none ∧
      withKeeper.globals.contains "last" = false := by
    decide +kernel
  have own : strayAssignment.KeepsToItself 12 withKeeper := by
    apply keepsToItself_of_ends
    intro m' stopped
    rw [stopped] at fails
    cases fails
  obtain ⟨scopes, globals, assigned⟩ := evaluation_binds_nothing own
  rw [show (confined 12).evaluate _ _ = evaluate 12 _ _ from own] at fails
  exact ⟨own, fails, scopes, globals, assigned _ _ rfl ⟨address, global⟩⟩

end Lox
