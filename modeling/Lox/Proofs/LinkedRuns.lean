import Lox.Proofs.LinkedSteps

/-! Whatever a session runs, the objects of the machine stay linked: scopes and classes link to
older ones, nothing refers to what does not exist, and no link ever changes. -/

namespace Lox

open Keeps

/-- The value that a statement returns exists. -/
def Returns (completion : Completion) (m : Machine) : Prop :=
  ∀ value, completion = .returned value → value.In m.store

theorem returns_normal : Returns .normal m := by
  intro _ same
  cases same

theorem returns_flow : Returns (.flow signal line) m := by
  intro _ same
  cases same

/-- Engines, watched and not, that keep the links in all that they do. -/
structure Upholds (past : History) (E : Option Watch → Engine) (limit : Nat) : Prop where
  evaluate : ∀ {m} e, Keeps past (fun i => (E i).evaluate e) m Present
  execute : ∀ {m} s, Keeps past (fun i => (E i).execute s) m Returns
  read : ∀ {m} r, Keeps past (fun i => (E i).read r) m Present
  write : ∀ {m} r {v}, v.In m.store → Keeps past (fun i => (E i).write r v) m Anything
  bind : ∀ {m f v}, f.In m.store → v.In m.store →
    Keeps past (fun i => (E i).bind f v) m fun bound m' => bound.In m'.store
  enter : ∀ {m f vs}, f.In m.store → (∀ v ∈ vs, v.In m.store) →
    Keeps past (fun i => (E i).enter f vs) m fun id m' => m'.store.scopes.Has (some id)
  turns : ∀ i, (E i).turns = limit
  plain : E none = engine limit

namespace Upholds

variable {past : History} {E : Option Watch → Engine} {limit : Nat} {m : Machine}
  (upholds : Upholds past E limit)
include upholds

theorem evaluateAll (es : List Expr) : Keeps past (fun i => (E i).evaluateAll es) m
    fun values m' => ∀ value ∈ values, value.In m'.store := by
  induction es generalizing m with
  | nil => exact .pure fun _ member => absurd member List.not_mem_nil
  | cons e es ih =>
    refine .bind (upholds.evaluate e) fun value m' _ has => ?_
    refine .bind ih fun values m'' grows all => .pure fun v member => ?_
    obtain rfl | member := List.mem_cons.mp member
    · exact grows.value has
    · exact all v member

theorem executeAll (ss : List Stmt) : Keeps past (fun i => (E i).executeAll ss) m Returns := by
  induction ss generalizing m with
  | nil => exact .pure returns_normal
  | cons s ss ih =>
    refine .bind (upholds.execute s) fun completion m' _ returns => ?_
    cases completion with
    | normal => exact ih
    | returned | flow => exact .pure returns

theorem interpret (ss : List Stmt) : Keeps past (fun i => (E i).interpret ss) m Anything := by
  induction ss generalizing m with
  | nil => exact .pure trivial
  | cons s ss ih =>
    refine .bind (upholds.execute s) fun completion m' _ _ => ?_
    cases completion with
    | normal | returned => exact ih
    | flow signal line => exact .fail _ _

omit upholds in
theorem settle {c : Watched α} {post : α → Machine → Prop} (body : Keeps past c m post) :
    Keeps past (fun i => Eval.settle (c i)) m Anything := by
  refine .bind body.attempt fun result m' _ _ => ?_
  cases result with
  | ok value => exact .pure trivial
  | error e => exact .pure trivial

omit upholds in
/-- At top level no scope is active. -/
theorem atTop {c : Watched α} {post : α → Machine → Prop}
    (body : ∀ {m}, Keeps past c m post) :
    Keeps past (fun i => Eval.within none (c i)) m Anything := by
  refine .within none (fun linked => linked.at (Scopes.has_none _)) ?_
  exact body.mono fun _ _ _ _ _ => trivial

theorem runSource (source : String) : Keeps past (fun i => (E i).runSource source) m Anything := by
  refine .bind (prepare parse resolve source) fun prepared m' _ _ => ?_
  obtain failure | ⟨program, warnings⟩ := prepared
  · exact .pure trivial
  · refine .bind (reportWarnings warnings) fun _ _ _ _ =>
      .bind (settle (atTop (upholds.interpret program))) fun result _ _ _ => ?_
    cases result with
    | error failure => exact .pure trivial
    | ok value => exact .pure trivial

theorem evaluateSource (source : String) :
    Keeps past (fun i => (E i).evaluateSource source) m Anything := by
  refine .bind (prepare parseExpression resolveExpression source) fun prepared m' _ _ => ?_
  obtain failure | ⟨e, warnings⟩ := prepared
  · exact .pure trivial
  · exact .bind (reportWarnings warnings) fun _ _ _ _ => settle (atTop (upholds.evaluate e))

theorem runFile (path : Path) : Keeps past (fun i => (E i).runFile path) m Anything := by
  refine bind_get fun _ => ?_
  cases m.world.disk.readText path with
  | error fault => exact .pure trivial
  | ok source => exact .bind (remember path) fun _ _ _ _ => upholds.runSource source

theorem load (line : Nat) (path : Path) :
    Keeps past (fun i => (E i).load line path) m Anything := by
  refine .bind (upholds.runFile path) fun result m' _ _ => ?_
  cases result with
  | ok warnings => exact .pure trivial
  | error failure =>
    cases failure with
    | unreadable fault => exact .fail _ _
    | lex | parse | resolve | runtime => exact report _

theorem loadAll (line : Nat) (paths : List Path) :
    Keeps past (fun i => (E i).loadAll line paths) m Anything := by
  induction paths generalizing m with
  | nil => exact .pure trivial
  | cons path paths ih => exact .bind (upholds.load line path) fun _ _ _ _ => ih

theorem callNative (function : Native) (line : Nat) (arguments : List Value) :
    Keeps past (fun i => (E i).callNative function line arguments) m Present := by
  cases function with
  | clock => exact readClock
  | readLine => exact Keeps.readLine line
  | printw =>
    cases arguments with
    | nil => exact .pure trivial
    | cons value rest =>
      exact .bind (display value) fun text _ _ _ => .bind (print line text) fun _ _ _ _ =>
        .pure trivial
  | loadFile =>
    cases arguments with
    | nil => exact .fail _ _
    | cons value rest =>
      cases value with
      | string path => exact .bind (upholds.load line path) fun _ _ _ _ => .pure trivial
      | nil | bool | number | functionRef | native | classRef | instanceRef | traitRef =>
        exact .fail _ _
  | reload =>
    exact bind_get fun _ => .bind (upholds.loadAll line m.loaded) fun _ _ _ _ => .pure trivial

omit upholds in
theorem receiver (f : Closure) : Keeps past (fun _ => Engine.receiver f) m Present := by
  refine bind_get fun linked => .pure ?_
  cases found : f.parent.bind (m.store.scopes.slot? · 0) with
  | none => trivial
  | some slot =>
    obtain ⟨id, -, there⟩ := Option.bind_eq_some_iff.mp found
    exact linked.store.slot there

theorem callClosure {f : Closure} (closed : f.In m.store)
    (values : ∀ value ∈ arguments, value.In m.store) :
    Keeps past (fun i => (E i).callClosure f arguments) m Present := by
  refine .bind (upholds.enter closed values) fun scope m' _ has => ?_
  have body : Keeps past (fun i => Eval.within (some scope)
      ((E i).executeAll f.declaration.body)) m' Returns :=
    .within (some scope) (fun linked => linked.at has) (upholds.executeAll _)
  refine .bind body fun completion m'' _ returns => ?_
  cases completion with
  | flow signal line => exact .fail _ _
  | normal =>
    dsimp only
    split
    · exact receiver f
    · exact .pure trivial
  | returned value =>
    dsimp only
    split
    · exact receiver f
    · exact .pure (returns value rfl)

theorem instantiate {id : ClassId} (has : m.store.classAt? id ≠ none)
    (values : ∀ value ∈ arguments, value.In m.store) :
    Keeps past (fun i => (E i).instantiate id arguments) m Present := by
  have inside : (Descriptor.ofClass id).In m.store := has
  refine .bind (newInstance inside) fun object m₁ grows₁ made => bind_get fun linked => ?_
  cases found : m₁.store.initializer? id with
  | none => exact .pure made
  | some f =>
    obtain ⟨method, there, rfl⟩ := Option.map_eq_some_iff.mp found
    have closed := linked.store.method (Store.has_method there)
    refine .bind (upholds.bind closed made) fun bound m₂ grows₂ closed => ?_
    refine .bind (upholds.callClosure closed fun v member =>
      grows₂.value (grows₁.value (values v member))) fun _ m₃ grows₃ _ => .pure ?_
    exact grows₃.value (grows₂.value made)

theorem call (callee : Value) (line : Nat) (values : ∀ value ∈ arguments, value.In m.store) :
    Keeps past (fun i => (E i).call callee line arguments) m Present := by
  refine bind_get fun linked => ?_
  dsimp only
  cases found : m.store.callable? callee with
  | none => exact .fail _ _
  | some callable =>
    dsimp only
    split
    · cases callable with
      | function f => exact upholds.callClosure (linked.store.callable found) values
      | native function => exact upholds.callNative function line arguments
      | classRef id => exact upholds.instantiate (Store.hasClass_of_callable found) values
    · exact .fail _ _

theorem readMethod {method : Method} (closed : method.closure.In m.store)
    (has : this.In m.store) : Keeps past (fun i => (E i).readMethod method this) m Present := by
  refine .bind (upholds.bind closed has) fun bound m' _ closed => ?_
  split
  · exact upholds.callClosure closed fun _ member => absurd member List.not_mem_nil
  · exact newFunction closed

theorem getProperty (has : object.In m.store) (name : Token) :
    Keeps past (fun i => (E i).getProperty object name) m Present := by
  refine bind_get fun linked => ?_
  dsimp only
  cases m.store.descriptor? object with
  | none => exact .fail _ _
  | some descriptor =>
    cases found : m.store.field? object name.lexeme with
    | some value => exact .pure (linked.store.field found)
    | none =>
      dsimp only
      cases found : m.store.methodOf? name.lexeme descriptor with
      | some method =>
        exact upholds.readMethod (linked.store.method (Store.has_methodOf found)) has
      | none => exact .fail _ _

/-- The object still has properties when the value has been evaluated. -/
theorem setProperty {object value : Expr} {name : Token}
    (happens : past (.evaluate (.setProperty object name value)) m₀)
    (first : (E none).evaluate object m₀ = .ok o m) :
    (links past).Keeps past (fun i => (E i).setProperty o name value) m
      fun v log m' => v.In m'.store ∧ ∃ m₂ rest, Lox.evaluate limit value m = .ok v m₂ ∧
        Course past m.store rest m₂.store ∧ log = ⟨o, name.lexeme, v⟩ :: rest := by
  refine bind_get fun _ => ?_
  cases present : m.store.descriptor? o with
  | none => exact .fail _ _
  | some descriptor =>
    refine .bind (upholds.evaluate value).ran fun v m' grows result => ?_
    obtain ⟨has, second, develops⟩ := result
    rw [upholds.plain] at first second
    have still := grows.present (present ▸ Option.some_ne_none descriptor)
    refine .bind (setField happens first second still has) fun _ _ grows entry => .pure ?_
    subst entry
    exact ⟨grows.value has, m', _, second, develops.course, rfl⟩

/-- The log of an assignment ends with it. -/
theorem assign {object value : Expr} {name : Token}
    (happens : past (.evaluate (.setProperty object name value)) m) :
    (links past).Keeps past (fun i => (E i).evaluateRule (.setProperty object name value)) m
      fun v log m' => v.In m'.store ∧
        Recorded past limit (.setProperty object name value) m v log := by
  refine .bind (upholds.evaluate object).ran fun o m₁ _ result => ?_
  obtain ⟨-, first, before⟩ := result
  refine (upholds.setProperty happens first).mono fun v m' _ _ result => ?_
  obtain ⟨has, m₂, rest, second, course, rfl⟩ := result
  rw [upholds.plain] at first
  refine ⟨has, fun object name value same => ?_⟩
  cases same
  exact ⟨o, m₁, m₂, _, first, second, before.course.trans course, rfl⟩

omit upholds in
theorem superAndThis (line distance : Nat) :
    Keeps past (fun _ => Engine.superAndThis line distance) m
      fun found m' => found.2.In m'.store := by
  refine .bind (slotValue ⟨distance, 0⟩) fun found m' _ _ => ?_
  cases found.getD .nil with
  | classRef id =>
    cases distance with
    | zero => exact .throw _
    | succ inside =>
      refine .bind (slotValue ⟨inside, 0⟩) fun found m'' _ holds => .pure ?_
      cases found with
      | none => trivial
      | some this => exact holds this rfl
  | nil | bool | number | string | functionRef | native | instanceRef | traitRef =>
    exact .bind (display _) fun _ _ _ _ => .fail _ _

theorem superMethod (keyword : Reference) (name : Token) :
    Keeps past (fun i => (E i).superMethod keyword name) m Present := by
  refine .bind (address? keyword) fun found m' _ _ => ?_
  cases found with
  | none => exact .fail _ _
  | some address =>
    refine .bind (superAndThis _ address.distance) fun found m'' _ has => bind_get fun linked => ?_
    obtain ⟨id, this⟩ := found
    dsimp only
    cases found : m''.store.method? name.lexeme id with
    | some method =>
      exact upholds.readMethod (linked.store.method (Store.has_method found)) has
    | none => exact .fail _ _

omit upholds in
theorem numbers (operator : Token) (left right : Value) :
    Keeps past (fun _ => Eval.numbers operator left right) m Anything := by
  unfold Eval.numbers
  split
  · exact .pure trivial
  · exact .fail _ _

omit upholds in
theorem binary (operator : Token) (left right : Value) :
    Keeps past (fun _ => Eval.binary operator left right) m Present := by
  have arithmetic (f) : Keeps past (fun _ => Eval.arithmetic operator left right f) m Present :=
    .bind (numbers operator left right) fun _ _ _ _ => .pure trivial
  have comparison (f) : Keeps past (fun _ => Eval.comparison operator left right f) m Present :=
    .bind (numbers operator left right) fun _ _ _ _ => .pure trivial
  unfold Eval.binary
  split
  · unfold Eval.add
    split
    · exact .pure trivial
    · exact .bind (display left) fun _ _ _ _ => .bind (display right) fun _ _ _ _ => .pure trivial
  · exact arithmetic _
  · exact arithmetic _
  · refine .bind (numbers operator left right) fun operands _ _ _ => ?_
    dsimp only
    split
    · exact .fail _ _
    · exact .pure trivial
  · exact arithmetic _
  · exact comparison _
  · exact comparison _
  · exact comparison _
  · exact comparison _
  · exact .pure trivial
  · exact .pure trivial
  · exact .fail _ _

omit upholds in
theorem unary (operator : Token) (right : Value) :
    Keeps past (fun _ => Eval.unary operator right) m Present := by
  unfold Eval.unary
  split
  · exact .pure trivial
  · exact .fail _ _
  · exact .pure trivial
  · exact .fail _ _

theorem evaluateRule {e : Expr} (happens : past (.evaluate e) m) :
    Keeps past (fun i => (E i).evaluateRule e) m Present := by
  cases e with
  | assign target value =>
    refine .bind (upholds.evaluate value) fun v m' _ has => ?_
    exact .bind (upholds.write target has) fun _ _ grows _ => .pure (grows.value has)
  | binary left operator right =>
    exact .bind (upholds.evaluate left) fun _ _ _ _ =>
      .bind (upholds.evaluate right) fun _ _ _ _ => binary operator _ _
  | call callee paren arguments =>
    refine .bind (upholds.evaluate callee) fun callee m' _ _ => ?_
    exact .bind (upholds.evaluateAll arguments) fun arguments m'' _ values =>
      upholds.call callee paren.line values
  | property object name =>
    exact .bind (upholds.evaluate object) fun object m' _ has => upholds.getProperty has name
  | group e => exact upholds.evaluate e
  | lambda f => exact bind_get fun linked => newFunction linked.active
  | literal value =>
    refine .pure ?_
    cases value <;> trivial
  | logical left operator right =>
    refine .bind (upholds.evaluate left) fun value m' _ has => ?_
    split
    · exact .pure has
    · exact upholds.evaluate right
  | setProperty object name value =>
    exact (upholds.assign happens).mono fun _ _ _ _ result => result.1
  | superRef keyword name => exact upholds.superMethod keyword name
  | ternary condition thenValue elseValue =>
    refine .bind (upholds.evaluate condition) fun value m' _ _ => ?_
    split
    · exact upholds.evaluate thenValue
    · exact upholds.evaluate elseValue
  | thisRef keyword => exact upholds.read keyword
  | unary operator right =>
    exact .bind (upholds.evaluate right) fun _ _ _ _ => unary operator _
  | varRef reference => exact upholds.read reference

/-- Of all expressions only assignments to properties promise something about the log. -/
theorem records {e : Expr} (happens : past (.evaluate e) m) :
    (links past).Keeps past (fun i => (E i).evaluateRule e) m
      fun v log m' => v.In m'.store ∧ Recorded past limit e m v log := by
  cases e with
  | setProperty object name value => exact upholds.assign happens
  | _ => exact (upholds.evaluateRule happens).mono fun _ _ _ _ has => ⟨has, nofun⟩

theorem superclassOf (parent : Option Reference) :
    Keeps past (fun i => (E i).superclassOf parent) m
      fun found m' => ∀ id, found = some id → m'.store.classAt? id ≠ none := by
  cases parent with
  | none =>
    refine .pure fun _ same => ?_
    cases same
  | some reference =>
    refine .bind (upholds.read reference) fun value m' _ has => ?_
    cases value with
    | classRef id =>
      refine .pure fun id' same => ?_
      cases same
      exact has
    | nil | bool | number | string | functionRef | native | instanceRef | traitRef =>
      exact .fail _ _

theorem traitsOf (traits : List Reference) : Keeps past (fun i => (E i).traitsOf traits) m
    fun ids m' => ∀ id ∈ ids, m'.store.traitAt? id ≠ none := by
  induction traits generalizing m with
  | nil => exact .pure fun _ member => absurd member List.not_mem_nil
  | cons reference rest ih =>
    refine .bind (upholds.read reference) fun value m' _ has => ?_
    cases value with
    | traitRef id =>
      refine .bind ih fun ids m'' grows all => .pure fun id' member => ?_
      obtain rfl | member := List.mem_cons.mp member
      · exact grows.hasTrait has
      · exact all id' member
    | nil | bool | number | string | functionRef | native | classRef | instanceRef =>
      exact .fail _ _

omit upholds in
theorem methodScope {parent : Option ClassId}
    (has : ∀ id, parent = some id → m.store.classAt? id ≠ none) :
    Keeps past (fun _ => Engine.methodScope parent) m
      fun scope m' => m'.store.scopes.Has scope := by
  cases parent with
  | none => exact bind_get fun linked => .pure linked.active
  | some id =>
    refine bind_get fun linked => .bind (newScope linked.active fun slot member => ?_)
      fun _ _ _ inside => .pure inside
    cases List.mem_singleton.mp member
    exact has id rfl

omit upholds in
/-- All methods of a table lie in one scope. -/
theorem table {entries : List (String × Method)} {s : Store}
    (has : ∀ entry ∈ entries, entry.2.closure.In s) : (Methods.ofList entries).In s := by
  intro name method found
  obtain ⟨entry, member, rfl⟩ := Methods.mem_of_ofList found
  exact has entry member

theorem declareClass {c : ClassDecl} (happens : past (.execute (.classDecl c)) m) :
    Keeps past (fun i => (E i).declareClass c) m Anything := by
  simp only [Engine.declareClass_eq]
  refine .bind (upholds.superclassOf c.superclass).ran fun superclass m₁ _ result₁ => ?_
  refine .bind (upholds.traitsOf c.traits).ran fun traits m₂ _ result₂ => ?_
  obtain ⟨parent, inherits, -⟩ := result₁
  obtain ⟨mixed, mixes, -⟩ := result₂
  rw [upholds.plain] at inherits mixes
  obtain ⟨rfl, parents⟩ := superclassOf_ok inherits
  obtain ⟨rfl, references⟩ := traitsOf_ok mixes
  have nothing : Value.nil.In m.store := trivial
  refine .bind (declare c.name.lexeme nothing).ran fun binding m₃ grows₃ result₃ => ?_
  refine .bind (methodScope fun id same => grows₃.hasClass (parent id same)).ran
    fun scope m₄ grows₄ result₄ => ?_
  obtain ⟨has, opens, -⟩ := result₄
  have made : Class.MadeBy past (Engine.classOf c superclass traits scope) c scope m :=
    ⟨happens, parents, references, rfl, rfl⟩
  have place : m₄.store.classes = m.store.classes :=
    (methodScope_same opens).classes.trans (declare_same result₃.2.1).classes
  refine .bind (newClass made place
    (fun id same => grows₄.hasClass (grows₃.hasClass (parent id same)))
    (fun t member => grows₄.hasTrait (grows₃.hasTrait (mixed t member)))
    (table fun entry member => ?_) (table fun entry member => ?_) rfl)
    fun value m₅ _ made => rebind binding _ made
  · obtain ⟨method, -, rfl⟩ := List.mem_map.mp member
    exact has
  · obtain ⟨f, -, rfl⟩ := List.mem_map.mp member
    exact has

omit upholds in
theorem declareTrait {t : TraitDecl} (happens : past (.execute (.traitDecl t)) m) :
    Keeps past (fun _ => Engine.declareTrait t) m Anything := by
  have made : Trait.MadeBy past
      ⟨t.name.lexeme, .ofList (t.defaults.map fun f => (f.title, ⟨⟨f, m.active, false⟩, false⟩))⟩
      t m.active m := ⟨happens, rfl⟩
  refine bind_get fun linked => .bind (newTrait made (table fun entry member => ?_))
    fun value m' _ made => .bind (declare _ made) fun _ _ _ _ => .pure trivial
  obtain ⟨f, -, rfl⟩ := List.mem_map.mp member
  exact linked.active

omit upholds in
theorem declareFunction (f : FunctionDecl) :
    Keeps past (fun _ => Engine.declareFunction f) m Anything :=
  bind_get fun linked => .bind (newFunction linked.active) fun _ _ _ made =>
    .bind (declare _ made) fun _ _ _ _ => .pure trivial

omit upholds in
theorem catchSignal {c : Watched Completion} (body : Keeps past c m Returns) :
    Keeps past (fun i => Engine.catchSignal (c i)) m Returns := by
  refine .bind body.attempt fun result m' _ holds => ?_
  cases result with
  | ok completion => exact .pure (holds completion rfl)
  | error e =>
    dsimp only
    split
    · exact .pure returns_flow
    · exact .throw _

theorem turn (condition : Expr) (body : Stmt) (increment : Option Expr) :
    Keeps past (fun i => (E i).turn condition body increment) m
      fun result m' => ∀ completion, result = some completion → Returns completion m' := by
  have goesOn {m} : Keeps past (fun i => (E i).betweenTurns increment >>= fun _ => pure none) m
      fun (result : Option Completion) m' =>
        ∀ completion, result = some completion → Returns completion m' := by
    have between : Keeps past (fun i => (E i).betweenTurns increment) m Anything := by
      cases increment with
      | none => exact .pure trivial
      | some e => exact .bind (upholds.evaluate e) fun _ _ _ _ => .pure trivial
    refine .bind between fun _ _ _ _ => .pure fun _ same => ?_
    cases same
  refine .bind (upholds.evaluate condition) fun value m' _ _ => ?_
  split
  · refine .pure fun completion same => ?_
    cases same
    exact returns_normal
  · refine .bind (catchSignal (upholds.execute body)) fun completion m'' _ returns => ?_
    cases completion with
    | returned value =>
      refine .pure fun completion same => ?_
      cases same
      exact returns
    | normal => exact goesOn
    | flow signal line =>
      cases signal with
      | exitLoop =>
        refine .pure fun completion same => ?_
        cases same
        exact returns_normal
      | nextTurn => exact goesOn

omit upholds in
theorem repeatUntil {c : Watched (Option α)} {post : α → Machine → Prop}
    (step : ∀ {m}, Keeps past c m fun result m' => ∀ a, result = some a → post a m')
    (turns : Nat) : Keeps past (fun i => Engine.repeatUntil (c i) turns) m post := by
  induction turns generalizing m with
  | zero => exact .throw _
  | succ turns ih =>
    refine .bind step fun result m' _ holds => ?_
    cases result with
    | some a => exact .pure (holds a rfl)
    | none => exact ih

theorem executeRule {s : Stmt} (happens : past (.execute s) m) :
    Keeps past (fun i => (E i).executeRule s) m Returns := by
  cases s with
  | block body =>
    refine bind_get fun linked => .bind (newScope linked.active fun _ member =>
      absurd member List.not_mem_nil) fun scope m' _ has => ?_
    exact .within (some scope) (fun linked => linked.at has) (upholds.executeAll body)
  | classDecl c => exact .bind (upholds.declareClass happens) fun _ _ _ _ => .pure returns_normal
  | expression value => exact .bind (upholds.evaluate value) fun _ _ _ _ => .pure returns_normal
  | flow signal line => exact .pure returns_flow
  | functionDecl f => exact .bind (declareFunction f) fun _ _ _ _ => .pure returns_normal
  | ifElse condition thenBranch elseBranch =>
    refine .bind (upholds.evaluate condition) fun value _ _ _ => ?_
    split
    · exact upholds.execute thenBranch
    · cases elseBranch with
      | none => exact .pure returns_normal
      | some branch => exact upholds.execute branch
  | print value =>
    exact .bind (upholds.evaluate value) fun result _ _ _ => .bind (display result)
      fun _ _ _ _ => .bind (print _ _) fun _ _ _ _ => .pure returns_normal
  | returns keyword value =>
    cases value with
    | none =>
      refine .pure fun _ same => ?_
      cases same
      trivial
    | some value =>
      refine .bind (upholds.evaluate value) fun result _ _ has => .pure fun _ same => ?_
      cases same
      exact has
  | traitDecl t => exact .bind (declareTrait happens) fun _ _ _ _ => .pure returns_normal
  | varDecl name value =>
    cases value with
    | none =>
      have nothing : Keeps past (fun _ => (pure .nil : Eval Value)) m Present := .pure trivial
      exact .bind nothing fun _ _ _ has => .bind (declare _ has) fun _ _ _ _ => .pure returns_normal
    | some value =>
      exact .bind (upholds.evaluate value) fun _ _ _ has => .bind (declare _ has)
        fun _ _ _ _ => .pure returns_normal
  | loop condition body increment =>
    have same : (fun i => (E i).executeRule (.loop condition body increment)) =
        fun i => Engine.repeatUntil ((E i).turn condition body increment) limit := by
      funext i
      rw [← upholds.turns i]
      rfl
    rw [same]
    exact repeatUntil (upholds.turn condition body increment) limit

end Upholds

namespace Watched

theorem engineOf_read (depth : Nat) (r : Reference) :
    (fun i => (engineOf depth i).read r) = guarded (.read r) fun _ => Eval.readVariable r := by
  funext i
  cases i <;> cases depth <;> rfl

theorem engineOf_write (depth : Nat) (r : Reference) (v : Value) :
    (fun i => (engineOf depth i).write r v) =
      guarded (.write r v) fun _ => Eval.writeVariable r v := by
  funext i
  cases i <;> cases depth <;> rfl

theorem engineOf_bind (depth : Nat) (f : Closure) (v : Value) :
    (fun i => (engineOf depth i).bind f v) = guarded (.bind f v) fun _ => Eval.bindThis f v := by
  funext i
  cases i <;> cases depth <;> rfl

theorem engineOf_enter (depth : Nat) (f : Closure) (vs : List Value) :
    (fun i => (engineOf depth i).enter f vs) =
      guarded (.enter f vs) fun _ => Eval.enterFunction f vs := by
  funext i
  cases i <;> cases depth <;> rfl

theorem engineOf_evaluate (depth : Nat) (e : Expr) :
    (fun i => (engineOf (depth + 1) i).evaluate e) =
      guarded (.evaluate e) fun i => (engineOf depth i).evaluateRule e := by
  funext i
  cases i <;> rfl

theorem engineOf_execute (depth : Nat) (s : Stmt) :
    (fun i => (engineOf (depth + 1) i).execute s) =
      guarded (.execute s) fun i => (engineOf depth i).executeRule s := by
  funext i
  cases i <;> rfl

theorem engineOf_evaluate_zero (e : Expr) :
    (fun i => (engineOf 0 i).evaluate e) = fun _ => Eval.exhausted := by
  funext i
  cases i <;> rfl

theorem engineOf_execute_zero (s : Stmt) :
    (fun i => (engineOf 0 i).execute s) = fun _ => Eval.exhausted := by
  funext i
  cases i <;> rfl

end Watched

/-- An event that is no evaluation promises nothing about its log. -/
theorem Keeps.guard {c : Watched α} {post : α → Machine → Prop} {event : Event} (depth : Nat)
    (leaves : left (c none m) = event.over (depth + 1) m) (other : ∀ e, event ≠ .evaluate e)
    (body : past event m → Keeps past c m post) : Keeps past (c.guarded event) m post := by
  refine Upkeep.Keeps.guard event (fun log ends => ?_) body
  obtain ⟨grows, course⟩ := ends.left.2
  exact ⟨grows, course, depth, leaves, fun e _ same => absurd same (other e)⟩

theorem Upholds.guarded {E : Option Watch → Engine} (upholds : Upholds past E limit) (e : Expr) :
    Keeps past (Watched.guarded (.evaluate e) fun i => (E i).evaluateRule e) m Present := by
  refine Upkeep.Keeps.mono (Upkeep.Keeps.guard (.evaluate e) (fun log ends => ?_)
    fun happens => upholds.records happens) fun _ _ _ _ result => result.1
  obtain ⟨grows, course⟩ := ends.left.2
  rw [upholds.plain] at ends grows course ⊢
  refine ⟨grows, course, limit, rfl, fun e' v same ran => ?_⟩
  cases same
  change (links past).Ends log m _ (Lox.evaluate (limit + 1) e m) at ends
  rw [ran] at ends
  exact ends.2.2.2

theorem upholds_engine (past : History) (depth : Nat) :
    Upholds past (Watched.engineOf depth) depth := by
  have reads (depth m r) : Keeps past (fun i => (Watched.engineOf depth i).read r) m Present := by
    rw [Watched.engineOf_read]
    exact guard depth rfl nofun fun _ => readVariable r
  have writes (depth m r v) (has : Value.In (Machine.store m) v) :
      Keeps past (fun i => (Watched.engineOf depth i).write r v) m Anything := by
    rw [Watched.engineOf_write]
    exact guard depth rfl nofun fun _ => writeVariable r has
  have binds (depth m f v) (closed : Closure.In (Machine.store m) f) (has : Value.In m.store v) :
      Keeps past (fun i => (Watched.engineOf depth i).bind f v) m
        fun bound m' => bound.In m'.store := by
    rw [Watched.engineOf_bind]
    exact guard depth rfl nofun fun _ => bindThis closed has
  have enters (depth m f vs) (closed : Closure.In (Machine.store m) f)
      (has : ∀ v ∈ vs, Value.In m.store v) :
      Keeps past (fun i => (Watched.engineOf depth i).enter f vs) m
        fun id m' => m'.store.scopes.Has (some id) := by
    rw [Watched.engineOf_enter]
    exact guard depth rfl nofun fun _ => enterFunction closed has
  induction depth with
  | zero =>
    refine ⟨fun e => ?_, fun s => ?_, reads 0 _, fun r v => writes 0 _ r v, binds 0 _ _ _,
      enters 0 _ _ _, ?_, rfl⟩
    · rw [Watched.engineOf_evaluate_zero]
      exact .throw _
    · rw [Watched.engineOf_execute_zero]
      exact .throw _
    · intro i
      cases i <;> rfl
  | succ depth ih =>
    refine ⟨fun e => ?_, fun s => ?_, reads _ _, fun r v => writes _ _ r v, binds _ _ _ _,
      enters _ _ _ _, ?_, rfl⟩
    · rw [Watched.engineOf_evaluate]
      exact ih.guarded e
    · rw [Watched.engineOf_execute]
      exact guard depth rfl nofun fun happens => ih.executeRule happens
    · intro i
      cases i <;> rfl

theorem Upholds.perform {E : Option Watch → Engine} (upholds : Upholds past E limit)
    (step : HostStep) : Keeps past (fun i => (E i).perform step) m Anything := by
  cases step with
  | run source => exact .bind (upholds.runSource source) fun _ _ _ _ => .pure trivial
  | runFile path => exact .bind (upholds.runFile path) fun _ _ _ _ => .pure trivial
  | evaluate source => exact .bind (upholds.evaluateSource source) fun _ _ _ _ => .pure trivial
  | surround world => exact quiet rfl rfl rfl rfl fun _ => trivial

theorem Upholds.session {E : Option Watch → Engine} (upholds : Upholds past E limit)
    (steps : List HostStep) : Keeps past (fun i => (E i).session steps) m Anything := by
  induction steps generalizing m with
  | nil => exact .pure trivial
  | cons step steps ih => exact .bind (upholds.perform step) fun _ _ _ _ => ih

theorem Machine.linked_fresh (world : World) : (fresh world).Linked := by
  have empty {α : Type} (index : Nat) (x : α) : (#[] : Array α)[index]? ≠ some x := by simp
  have builtIn (natives : List Native) (globals : Std.TreeMap String Value)
      (plain : ∀ (name : String) value, globals[name]? = some value → value.In {}) (name : String)
      (value : Value) (found : (natives.foldl (fun g n => g.insert n.name (.native n))
        globals)[name]? = some value) : value.In {} := by
    induction natives generalizing globals with
    | nil => exact plain name value found
    | cons n natives ih =>
      refine ih (globals.insert n.name (.native n)) (fun other v found => ?_) found
      rw [Std.TreeMap.getElem?_insert] at found
      split at found
      · cases found
        trivial
      · exact plain other v found
  refine ⟨⟨?_, ?_, ?_, ?_, ?_⟩, Scopes.has_none _, ?_⟩
  · exact fun id scope found => (empty id.index scope found).elim
  · exact fun id f found => (empty id.index f found).elim
  · exact fun id c found => (empty id.index c found).elim
  · exact fun id t found => (empty id.index t found).elim
  · exact fun id i found => (empty id.index i found).elim
  · exact builtIn Native.all {} (Fields.in_empty _)

/-- What happens in a session is what the session comes by. -/
theorem happens_iff : Happens depth world steps event m ↔
    Watched.Meets (fun i => (Watched.engineOf depth i).session steps) (.fresh world) event m :=
  not_forall.symm

/-- Where something happens in a session, objects are linked and have come about by what happens. -/
theorem session_keeps (happens : Happens depth world steps event m) :
    m.Linked ∧ ∃ log, Chronicle (Happens depth world steps) log m.store := by
  have upholds := upholds_engine (Happens depth world steps) depth
  obtain ⟨log, -, met⟩ := upholds.session steps (Machine.linked_fresh world)
    fun _ _ seen => happens_iff.mpr seen.meets
  have met := (met event m).resolve_left (happens_iff.mp happens)
  obtain ⟨before, -, -, develops, -⟩ := met.after
  exact ⟨met.good, before, develops.course⟩

/-- The states that a session comes to: those in which something happens, and those that its host
sees between two steps. -/
inductive Reached (depth : Nat) (world : World) (steps : List HostStep) : Machine → Prop where
  | during (happens : Happens depth world steps event m) : Reached depth world steps m
  | between (parts : before ++ after = steps) :
      Reached depth world steps (left ((engine depth).session before (.fresh world)))

/-- What exists in both states has the same links in both. -/
structure Store.SameLinks (s s' : Store) : Prop where
  scopes : ∀ id scope scope', s.scopes.get? id = some scope → s'.scopes.get? id = some scope' →
    scope'.parent = scope.parent
  functions : ∀ id f f', s.functionAt? id = some f → s'.functionAt? id = some f' → f' = f
  classes : ∀ id c c', s.classAt? id = some c → s'.classAt? id = some c' →
    c' = { c with fields := c'.fields }
  traits : ∀ id t t', s.traitAt? id = some t → s'.traitAt? id = some t' → t' = t
  instances : ∀ id i i', s.instanceAt? id = some i → s'.instanceAt? id = some i' →
    i'.descriptor = i.descriptor

theorem Store.Grows.sameLinks {s s' last : Store} (first : s.Grows last)
    (second : s'.Grows last) : s.SameLinks s' where
  scopes id scope scope' found found' := by
    obtain ⟨_, there⟩ := first.scopes id scope found
    obtain ⟨_, there'⟩ := second.scopes id scope' found'
    have same := Option.some.inj (there.symm.trans there')
    exact (congrArg Scope.parent same).symm
  functions id f f' found found' :=
    Option.some.inj ((second.functions id f' found').symm.trans (first.functions id f found))
  classes id c c' found found' := by
    obtain ⟨_, there⟩ := first.classes id c found
    obtain ⟨_, there'⟩ := second.classes id c' found'
    have same := Option.some.inj (there'.symm.trans there)
    obtain ⟨name, superclass, traits, methods, statics, fields⟩ := c'
    cases same
    rfl
  traits id t t' found found' :=
    Option.some.inj ((second.traits id t' found').symm.trans (first.traits id t found))
  instances id i i' found found' := by
    obtain ⟨_, there⟩ := first.instances id i found
    obtain ⟨_, there'⟩ := second.instances id i' found'
    exact (Instance.mk.inj (Option.some.inj (there'.symm.trans there))).1

theorem session_append (E : Engine) (before after : List HostStep) :
    E.session (before ++ after) = E.session before >>= fun _ => E.session after := by
  simp only [← Engine.sessionFrom_plain]
  exact E.sessionFrom_append .plain before after

/-- A condition and an order that sessions keep, as seen in the states that a session comes to. -/
theorem Upkeep.reached {Entry : Type} {U : Upkeep Entry} (fresh : U.good (.fresh world))
    (keeps : ∀ steps m, U.Keeps (fun _ _ => True)
      (fun i => (Watched.engineOf depth i).session steps) m fun _ _ _ => True)
    (reached : Reached depth world steps m) :
    U.good m ∧ ∃ log, U.grows log m (left ((engine depth).session steps (.fresh world))) := by
  cases reached with
  | during happens =>
    obtain ⟨_, -, met⟩ := keeps steps _ fresh fun _ _ _ => trivial
    have met := (met _ _).resolve_left (happens_iff.mp happens)
    obtain ⟨_, log, -, -, grows⟩ := met.after
    exact ⟨met.good, log, grows⟩
  | @between before after parts =>
    subst parts
    obtain ⟨good, -, grows⟩ := (keeps before _).between (fun _ => keeps after) fresh
      fun _ _ _ => trivial
    rw [session_append]
    exact ⟨good, grows⟩

/-- Whatever there is in a state of a session is there until its end. -/
theorem Reached.grows (reached : Reached depth world steps m) : m.Linked ∧
    m.store.Grows (left ((engine depth).session steps (.fresh world))).store := by
  have upholds := upholds_engine (fun _ _ => True) depth
  obtain ⟨linked, _, develops⟩ := Upkeep.reached (Machine.linked_fresh world)
    (fun steps m => upholds.session steps) reached
  exact ⟨linked, develops.toGrows⟩

/-- In every state of a session scopes lie in older scopes and classes have older superclasses,
whatever is referred to exists, and no two states disagree on a link. So whoever follows the links
outwards, or looks for a method from class to class, comes to an end. -/
theorem links_wellFounded (reached : Reached depth world steps m) :
    m.Linked ∧
    (∀ m', Reached depth world steps m' → m.store.SameLinks m'.store) ∧
    (WellFounded fun outer scope : ScopeId => m.store.scopes.parent? scope = some outer) ∧
    (WellFounded fun parent id : ClassId =>
      (m.store.classAt? id).bind Class.superclass = some parent) ∧
    ∀ name id, m.store.method? name id = (m.store.classAt? id).bind fun c =>
      c.methods[name]? <|> m.store.traitMethod? c.traits name <|>
        c.superclass.bind (m.store.method? name) := by
  obtain ⟨linked, grows⟩ := reached.grows
  exact ⟨linked, fun m' reached' => grows.sameLinks reached'.grows.2, linked.store.outwards,
    linked.store.upwards, linked.store.method_eq⟩

/-- An instance of a subclass that holds itself in a field. -/
def selfHeld : List HostStep := [.run
  "class A \x7b me() \x7b return this.own; \x7d \x7d class B < A \x7b init() \x7b this.own = this; \x7d \x7d
   var f = B().me; \x7b fun g() \x7b f(); \x7d \x7d"]

theorem links_wellFounded_selfHeld : ∃ m, Reached 12 {} selfHeld m ∧
    m.store.field? (.instanceRef ⟨0⟩) "own" = some (.instanceRef ⟨0⟩) ∧
    (m.store.classAt? ⟨1⟩).bind Class.superclass = some ⟨0⟩ ∧
    m.Linked ∧ WellFounded fun parent id : ClassId =>
      (m.store.classAt? id).bind Class.superclass = some parent := by
  have reached : Reached 12 {} selfHeld (left ((engine 12).session selfHeld (.fresh {}))) :=
    .between (List.append_nil _)
  have links := links_wellFounded reached
  exact ⟨_, reached, by decide +kernel, by decide +kernel, links.1, links.2.2.2.1⟩

end Lox
