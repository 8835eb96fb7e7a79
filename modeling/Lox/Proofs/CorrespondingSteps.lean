import Lox.Evaluation.Engine
import Lox.Proofs.Lockstep
import Lox.Proofs.RecodedStores

/-! What a machine does without running code keeps machines in correspondence: looking things up
gives the same, and what is new in one machine corresponds to what is new in the other. -/

namespace Lox

namespace Correspondence

variable {C : Correspondence}

theorem Closures.title {f f' : Closure} (closures : C.Closures f f') :
    f'.declaration.title = f.declaration.title := by
  obtain ⟨⟨_, _, _, _⟩, _, _⟩ := f
  obtain ⟨⟨_, _, _, _⟩, _, _⟩ := f'
  cases closures.declaration
  rfl

theorem Closures.arity {f f' : Closure} (closures : C.Closures f f') : f'.arity = f.arity := by
  obtain ⟨⟨_, _, _, _⟩, _, _⟩ := f
  obtain ⟨⟨_, _, _, _⟩, _, _⟩ := f'
  cases closures.declaration with
  | function params _ => exact params.length_eq.symm

theorem presents : Recoded.Presents C.Closures :=
  ⟨fun _ _ => Closures.title, fun _ _ => Closures.arity⟩

theorem methods_iff {m m' : Method} : Recoded.Methods C.Closures m m' ↔ C.Methods m m' :=
  ⟨fun methods => ⟨methods.closure, methods.isGetter⟩,
    fun methods => ⟨methods.closure, methods.isGetter⟩⟩

theorem tables_iff {t t' : Lox.Methods} : Recoded.Tables C.Closures t t' ↔ C.Tables t t' :=
  ⟨fun tables name => rel_mono (tables name) fun _ _ => methods_iff.mp,
    fun tables name => rel_mono (tables name) fun _ _ => methods_iff.mpr⟩

namespace Stores

variable {s s' : Store} (alike : C.Stores s s')
include alike

/-- Corresponding stores hold the same objects, up to their code. -/
theorem objects : Recoded.Objects C.Closures s s' where
  functions := alike.functions
  classes i := rel_mono (alike.classes i) fun _ _ c =>
    ⟨c.name, c.superclass, c.traits, tables_iff.mpr c.methods, tables_iff.mpr c.statics, c.fields⟩
  traits i := rel_mono (alike.traits i) fun _ _ t => ⟨t.name, tables_iff.mpr t.methods⟩
  instances := alike.instances

theorem method? (name : String) (id : ClassId) :
    Option.Rel C.Methods (s.method? name id) (s'.method? name id) :=
  rel_mono (alike.objects.method? name id) fun _ _ => methods_iff.mp

theorem methodOf? (name : String) (descriptor : Descriptor) :
    Option.Rel C.Methods (s.methodOf? name descriptor) (s'.methodOf? name descriptor) :=
  rel_mono (alike.objects.methodOf? name descriptor) fun _ _ => methods_iff.mp

theorem initializer? (id : ClassId) :
    Option.Rel C.Closures (s.initializer? id) (s'.initializer? id) := alike.objects.initializer? id

theorem descriptor?_eq (value : Value) : s'.descriptor? value = s.descriptor? value :=
  alike.objects.descriptor?_eq value

theorem field?_eq (object : Value) (name : String) :
    s'.field? object name = s.field? object name := alike.objects.field?_eq object name

theorem callable? (value : Value) :
    Option.Rel C.Callables (s.callable? value) (s'.callable? value) := by
  refine rel_mono (alike.objects.callable? value) fun _ _ callables => ?_
  cases callables with
  | function closures => exact .function closures
  | native function => exact .native function
  | classRef id => exact .classRef id

theorem arity_eq {c c' : Store.Callable} (callables : C.Callables c c') :
    s'.arity c' = s.arity c := by
  cases callables with
  | function closures => exact closures.arity
  | native function => rfl
  | classRef id => exact alike.objects.arity_eq presents (.classRef id)

theorem display_eq (value : Value) : s'.display value = s.display value :=
  alike.objects.display_eq presents value

end Stores

variable (C) in
/-- Machines that correspond while one scope is active in both. -/
def lockstep (scope : Option ScopeId) : Lockstep Halt Machine Halt Machine where
  states m m' := m.active = scope ∧ C.Machines m m'
  errors := C.Halts

variable (C) in
/-- Evaluations that keep machines in correspondence, and their active scope. -/
abbrev Runs (scope : Option ScopeId) (V : α → β → Prop) (p : Eval α) (q : Eval β) : Prop :=
  (C.lockstep scope).Runs V p q

variable {a : Option ScopeId} {V : α → β → Prop}

open Eval

theorem runs_fail (line : Nat) (cause : RuntimeError.Cause) :
    C.Runs a V (fail line cause) (fail line cause) := .throw (.error (.same _))

theorem runs_exhausted : C.Runs a V exhausted exhausted := .throw .exhausted

/-- A scope may be active for a while. -/
theorem runs_within {p : Eval α} {q : Eval β} (scope : Option ScopeId) (body : C.Runs scope V p q) :
    C.Runs a V (within scope p) (within scope q) := by
  rintro m m' ⟨active, machines⟩
  have inside : C.Machines { m with active := scope } { m' with active := scope } :=
    { machines with active := rfl }
  have ended := body ⟨rfl, inside⟩
  unfold within
  dsimp only
  generalize p _ = result, q _ = result' at ended
  cases ended with
  | ok values states => exact .ok values ⟨active, { states.2 with active := machines.active }⟩
  | error errors states => exact .error errors ⟨active, { states.2 with active := machines.active }⟩

theorem runs_attempt {p : Eval α} {q : Eval β} (body : C.Runs a V p q) :
    C.Runs a (Results C.Errors V) (attempt p) (attempt q) := by
  intro m m' states
  have ended := body states
  unfold attempt
  generalize p m = result, q m' = result' at ended
  cases ended with
  | ok values states => exact .ok (.ok values) states
  | error errors states =>
    cases errors with
    | error errors => exact .ok (.error errors) states
    | violation v => exact .error (.violation v) states
    | exhausted => exact .error .exhausted states

theorem runs_settle {p : Eval α} {q : Eval β} (body : C.Runs a V p q) :
    C.Runs a (Results C.Failures V) (settle p) (settle q) := by
  refine (runs_attempt body).bind fun result result' results => ?_
  cases results with
  | ok values => exact .pure (.ok values)
  | error errors => exact .pure (.error (.runtime errors))

theorem runs_modifyStore {f g : Store → Store}
    (step : ∀ ⦃s s'⦄, C.Stores s s' → C.Stores (f s) (g s')) :
    C.Runs a Eq (modifyStore f) (modifyStore g) :=
  .modify fun _ _ states => ⟨states.1, { states.2 with store := step states.2.store }⟩

theorem runs_modifyScopes {f g : Scopes → Scopes}
    (step : ∀ ⦃s s'⦄, s'.unnamed = s.unnamed → (g s').unnamed = (f s).unnamed) :
    C.Runs a Eq (modifyScopes f) (modifyScopes g) :=
  runs_modifyStore fun _ _ stores => { stores with scopes := step stores.scopes }

theorem runs_activeScope : C.Runs a Eq activeScope activeScope := by
  refine .bind .get fun m m' states => ?_
  rw [states.2.active]
  cases m.active with
  | none => exact .throw (.violation _)
  | some id => exact .pure rfl

theorem runs_lift (result : Except Violation α) : C.Runs a Eq (lift result) (lift result) := by
  cases result with
  | ok value => exact .pure rfl
  | error v => exact .throw (.violation v)

theorem runs_address? {r r' : Reference} (refers : C.Refers r r') :
    C.Runs a (fun found found' => found' = found ∧ (C.renamed r.id → found.isSome))
      (address? r) (address? r') := by
  refine .bind .get fun m m' states => .pure ⟨?_, states.2.registry.renamed r.id⟩
  rw [refers.id]
  exact states.2.registry.addresses r.id

theorem runs_slotValue (address : Address) :
    C.Runs a Eq (slotValue address) (slotValue address) := by
  refine runs_activeScope.next fun id => .bind .get fun m m' states => ?_
  rw [← Scopes.read_unnamed m.store.scopes, ← Scopes.read_unnamed m'.store.scopes,
    states.2.store.scopes]
  exact runs_lift _

/-- The one error that may name another variable. -/
theorem runs_undefined {r r' : Reference} (refers : C.Refers r r') :
    C.Runs a V (fail r.name.line (.undefinedVariable r.name.lexeme))
      (fail r'.name.line (.undefinedVariable r'.name.lexeme)) := by
  refine .throw (.error ?_)
  rw [refers.line]
  obtain same | ⟨-, old, new⟩ := refers.lexeme
  · rw [same]
    exact .same _
  · rw [old, new]
    exact .undefined _

theorem runs_orUndefined {r r' : Reference} (refers : C.Refers r r') {x : Option α} {y : Option β}
    (options : Option.Rel V x y) : C.Runs a V (orUndefined r.name x) (orUndefined r'.name y) := by
  cases options with
  | none => exact runs_undefined refers
  | some related => exact .pure related

/-- A reference without an address is not renamed. -/
theorem Refers.lexeme_eq {r r' : Reference} (refers : C.Refers r r')
    (plain : C.renamed r.id → (none : Option Address).isSome) : r'.name.lexeme = r.name.lexeme := by
  obtain same | ⟨renamed, -⟩ := refers.lexeme
  · exact same
  · cases plain renamed

theorem runs_readVariable {r r' : Reference} (refers : C.Refers r r') :
    C.Runs a Eq (readVariable r) (readVariable r') := by
  refine (runs_address? refers).bind ?_
  rintro _ found ⟨rfl, renamed⟩
  cases found with
  | some address =>
    exact (runs_slotValue address).next fun value => runs_orUndefined refers (rel_eq value)
  | none =>
    refine .bind .get fun m m' states => ?_
    rw [states.2.globals, refers.lexeme_eq renamed]
    exact runs_orUndefined refers (rel_eq _)

theorem runs_writeVariable {r r' : Reference} (refers : C.Refers r r') (value : Value) :
    C.Runs a Eq (writeVariable r value) (writeVariable r' value) := by
  refine (runs_address? refers).bind ?_
  rintro _ found ⟨rfl, renamed⟩
  cases found with
  | some address =>
    refine runs_activeScope.next fun id => .bind .get fun m m' states => ?_
    rw [← Scopes.reach_unnamed m.store.scopes, ← Scopes.reach_unnamed m'.store.scopes,
      states.2.store.scopes]
    refine (runs_lift _).next fun target => .bind .get fun m m' states => ?_
    have slots := Scopes.slot?_unnamed m'.store.scopes target address.index
    rw [states.2.store.scopes, Scopes.slot?_unnamed] at slots
    refine (runs_orUndefined refers (rel_of_map_eq slots.symm)).bind fun _ _ _ =>
      runs_modifyScopes fun s s' same => ?_
    rw [Scopes.unnamed_put, Scopes.unnamed_put, same]
  | none =>
    refine .bind .get fun m m' states => ?_
    rw [states.2.globals, refers.lexeme_eq renamed]
    refine .ite (.modify fun m m' states => ⟨states.1, { states.2 with globals := ?_ }⟩) ?_
    · exact congrArg (·.insert r.name.lexeme value) states.2.globals
    · have undefined := runs_undefined (a := a) (V := (Eq : Unit → Unit → Prop)) refers
      rwa [refers.lexeme_eq renamed] at undefined

/-- Where names are global, they have to be the same. -/
theorem runs_declare {name name' : String} (names : a.isSome ∨ name' = name) (value : Value) :
    C.Runs a Eq (declare name value) (declare name' value) := by
  refine .bind .get fun m m' states => ?_
  rw [states.2.active, states.1]
  cases a with
  | some id =>
    have defined : C.Runs (some id) Eq (modifyScopes (·.define id name value))
        (modifyScopes (·.define id name' value)) := by
      refine runs_modifyScopes fun s s' same => ?_
      rw [Scopes.unnamed_define, Scopes.unnamed_define, same]
    refine defined.next fun _ => .bind .get fun m m' states => .pure ?_
    rw [← Scopes.nextSlot_unnamed m.store.scopes, ← Scopes.nextSlot_unnamed m'.store.scopes,
      states.2.store.scopes]
  | none =>
    obtain nested | rfl := names
    · cases nested
    · refine .next (.modify fun m m' states => ⟨states.1, { states.2 with globals := ?_ }⟩)
        fun _ => .pure rfl
      exact congrArg (·.insert name' value) states.2.globals

theorem runs_rebind (binding : Binding) (name : String) (value : Value) :
    C.Runs a Eq (rebind binding name value) (rebind binding name value) := by
  cases binding with
  | slot index =>
    refine runs_activeScope.next fun id => runs_modifyScopes fun s s' same => ?_
    rw [Scopes.unnamed_put, Scopes.unnamed_put, same]
  | global =>
    refine .modify fun m m' states => ⟨states.1, { states.2 with globals := ?_ }⟩
    exact congrArg (·.insert name value) states.2.globals

/-- Slots are defined one after the other, whatever their names. -/
theorem unnamed_defineAll {s s' : Scopes} (same : s'.unnamed = s.unnamed) (id : ScopeId)
    {slots slots' : List (String × Value)} (values : slots'.map Prod.snd = slots.map Prod.snd) :
    (slots'.foldl (fun s slot => s.define id slot.1 slot.2) s').unnamed =
      (slots.foldl (fun s slot => s.define id slot.1 slot.2) s).unnamed := by
  induction slots generalizing slots' s s' with
  | nil =>
    cases List.map_eq_nil_iff.mp values
    exact same
  | cons slot slots ih =>
    cases slots' with
    | nil => cases values
    | cons slot' slots' =>
      obtain ⟨value, rest⟩ := List.cons_eq_cons.mp values
      rw [List.foldl_cons, List.foldl_cons]
      refine ih ?_ rest
      rw [Scopes.unnamed_define, Scopes.unnamed_define, same, value]

theorem runs_newScope (parent : Option ScopeId) {slots slots' : List (String × Value)}
    (values : slots'.map Prod.snd = slots.map Prod.snd) :
    C.Runs a Eq (newScope parent slots) (newScope parent slots') := by
  refine .bind .get fun m m' states => ?_
  dsimp only
  rw [← Scopes.nextId_unnamed m.store.scopes, ← Scopes.nextId_unnamed m'.store.scopes,
    states.2.store.scopes]
  refine (runs_modifyScopes fun s s' same => unnamed_defineAll ?_ _ values).next fun _ => .pure rfl
  rw [Scopes.unnamed_create, Scopes.unnamed_create, same]

theorem runs_newFunction {f f' : Closure} (closures : C.Closures f f') :
    C.Runs a Eq (newFunction f) (newFunction f') := by
  refine .next (runs_modifyStore ?_) fun _ => .bind .get fun m m' states => .pure ?_
  · exact fun s s' stores => { stores with functions := stores.functions.push closures }
  · rw [states.2.store.functions.size_eq]

theorem runs_newClass {c c' : Class} (classes : C.Classes c c') :
    C.Runs a Eq (newClass c) (newClass c') := by
  refine .next (runs_modifyStore ?_) fun _ => .bind .get fun m m' states => .pure ?_
  · exact fun s s' stores => { stores with classes := stores.classes.push classes }
  · rw [states.2.store.classes.size_eq]

theorem runs_newTrait {t t' : Trait} (traits : C.Traits t t') :
    C.Runs a Eq (newTrait t) (newTrait t') := by
  refine .next (runs_modifyStore ?_) fun _ => .bind .get fun m m' states => .pure ?_
  · exact fun s s' stores => { stores with traits := stores.traits.push traits }
  · rw [states.2.store.traits.size_eq]

theorem runs_newInstance (descriptor : Descriptor) :
    C.Runs a Eq (newInstance descriptor) (newInstance descriptor) := by
  refine .next (runs_modifyStore ?_) fun _ => .bind .get fun m m' states => .pure ?_
  · exact fun s s' stores => { stores with
      instances := congrArg (Array.push · { descriptor }) stores.instances }
  · rw [states.2.store.instances]

theorem runs_bindThis {f f' : Closure} (closures : C.Closures f f') (this : Value) :
    C.Runs a C.Closures (bindThis f this) (bindThis f' this) := by
  unfold bindThis
  rw [closures.parent]
  exact (runs_newScope f.parent rfl).next fun id =>
    .pure ⟨closures.declaration, rfl, closures.isInitializer⟩

theorem zip_values (vs : List α) {xs : List β} {ys : List γ} (lengths : xs.length = ys.length) :
    (ys.zip vs).map Prod.snd = (xs.zip vs).map Prod.snd := by
  induction vs generalizing xs ys with
  | nil => rw [List.zip_nil_right, List.zip_nil_right]; rfl
  | cons v vs ih =>
    cases xs with
    | nil =>
      cases List.length_eq_zero_iff.mp lengths.symm
      rfl
    | cons x xs =>
      cases ys with
      | nil => cases lengths
      | cons y ys => exact congrArg (v :: ·) (ih (Nat.succ.inj lengths))

/-- The parameters may have other names, but there are as many of them. -/
theorem runs_enterFunction {f f' : Closure} (closures : C.Closures f f') (arguments : List Value) :
    C.Runs a Eq (enterFunction f arguments) (enterFunction f' arguments) := by
  obtain ⟨⟨name, params, body, line⟩, parent, isInitializer⟩ := f
  obtain ⟨⟨name', params', body', line'⟩, parent', isInitializer'⟩ := f'
  obtain ⟨declaration, same, -⟩ := closures
  dsimp only at declaration same
  cases same
  cases declaration with
  | function binds alike =>
    refine runs_newScope parent (zip_values arguments ?_)
    simp only [List.length_map, binds.length_eq]

theorem runs_setField (object : Value) (name : String) (value : Value) :
    C.Runs a Eq (modifyStore (·.setField object name value))
      (modifyStore (·.setField object name value)) := by
  refine runs_modifyStore fun s s' stores => ?_
  cases object with
  | instanceRef id =>
    refine { stores with instances := ?_ }
    simp only [Store.setField, stores.instances]
  | classRef id =>
    refine { stores with classes := stores.classes.modify id.index fun c c' classes => ?_ }
    exact { classes with fields := congrArg (·.insert name value) classes.fields }
  | _ => exact stores

theorem runs_display (value : Value) : C.Runs a Eq (display value) (display value) :=
  .bind .get fun _ _ states => .pure (states.2.store.display_eq value).symm

theorem runs_print (line : Nat) (text : String) :
    C.Runs a Eq (print line text) (print line text) := by
  refine .bind .get fun m m' states => ?_
  dsimp only
  rw [states.2.world.out]
  refine .next (.modify fun m m' states => ?_) fun _ => ?_
  · have out := congrArg (Sink.write text) states.2.world.out
    exact ⟨states.1, { states.2 with world := { states.2.world with out } }⟩
  · cases m.world.out.fault? text with
    | none => exact .pure rfl
    | some fault => exact runs_fail ..

theorem runs_report {text text' : String} (texts : C.Texts text text') :
    C.Runs a Eq (report text) (report text') := by
  refine .modify fun m m' states => ?_
  have err := states.2.world.err.write texts
  exact ⟨states.1, { states.2 with world := { states.2.world with err } }⟩

theorem runs_reportWarnings (warnings : List Diagnostic) :
    C.Runs a Eq (reportWarnings warnings) (reportWarnings warnings) := by
  induction warnings with
  | nil => exact .pure rfl
  | cons d ds ih => exact (runs_report (.same _)).next fun _ => ih

theorem runs_readClock : C.Runs a Eq readClock readClock := by
  refine .next (.modify fun m m' states => ?_) fun _ => .bind .get fun m m' states => .pure ?_
  · have time := congrArg (· + 1) states.2.world.time
    exact ⟨states.1, { states.2 with world := { states.2.world with time } }⟩
  · unfold World.reading
    rw [states.2.world.clock, states.2.world.time]

theorem runs_readLine (line : Nat) : C.Runs a Eq (readLine line) (readLine line) := by
  refine .bind .get fun m m' states => ?_
  dsimp only
  rw [states.2.world.input]
  refine .ite (.pure rfl) (.next (.modify fun m m' states => ?_) fun _ => ?_)
  · exact ⟨states.1, { states.2 with world := { states.2.world with input := rfl } }⟩
  · cases Text.Utf8.decode? _ with
    | none => exact runs_fail ..
    | some text => exact .pure rfl

theorem runs_remember (path : Path) : C.Runs a Eq (remember path) (remember path) := by
  refine .modify fun m m' states => ?_
  rw [states.2.loaded]
  split
  · exact states
  · exact ⟨states.1, { states.2 with loaded := rfl }⟩

theorem runs_numbers (operator : Token) (left right : Value) :
    C.Runs a Eq (numbers operator left right) (numbers operator left right) := by
  unfold numbers
  split
  · exact .pure rfl
  · exact runs_fail ..

theorem runs_add (left right : Value) : C.Runs a Eq (add left right) (add left right) := by
  unfold add
  split
  · exact .pure rfl
  · exact (runs_display left).next fun _ => (runs_display right).next fun _ => .pure rfl

theorem runs_binary (operator : Token) (left right : Value) :
    C.Runs a Eq (binary operator left right) (binary operator left right) := by
  have arithmetic (f : Float → Float → Float) :
      C.Runs a Eq (arithmetic operator left right f) (arithmetic operator left right f) :=
    (runs_numbers operator left right).next fun _ => .pure rfl
  have comparison (f : Float → Float → Bool) :
      C.Runs a Eq (comparison operator left right f) (comparison operator left right f) :=
    (runs_numbers operator left right).next fun _ => .pure rfl
  unfold binary
  split
  case h_1 => exact runs_add left right
  case h_2 | h_3 | h_5 => exact arithmetic _
  case h_4 =>
    exact (runs_numbers operator left right).next fun _ => .ite (runs_fail ..) (.pure rfl)
  case h_6 | h_7 | h_8 | h_9 => exact comparison _
  case h_10 | h_11 => exact .pure rfl
  case h_12 => exact runs_fail ..

theorem runs_unary (operator : Token) (right : Value) :
    C.Runs a Eq (unary operator right) (unary operator right) := by
  unfold unary
  split
  case h_1 | h_3 => exact .pure rfl
  case h_2 | h_4 => exact runs_fail ..

theorem runs_receiver {f f' : Closure} (closures : C.Closures f f') :
    C.Runs a Eq (Engine.receiver f) (Engine.receiver f') := by
  refine .bind .get fun m m' states => .pure ?_
  rw [closures.parent]
  cases f.parent with
  | none => rfl
  | some id =>
    have slots := Scopes.slot?_unnamed m'.store.scopes id 0
    rw [states.2.store.scopes, Scopes.slot?_unnamed] at slots
    exact congrArg (Option.getD · Value.nil) slots

theorem runs_superAndThis (line distance : Nat) :
    C.Runs a Eq (Engine.superAndThis line distance) (Engine.superAndThis line distance) := by
  refine (runs_slotValue _).next fun value => ?_
  cases value.getD .nil with
  | classRef id =>
    cases distance with
    | zero => exact .throw (.violation _)
    | succ inside => exact (runs_slotValue _).next fun _ => .pure rfl
  | _ => exact (runs_display _).next fun _ => runs_fail ..

theorem runs_methodScope (superclass : Option ClassId) :
    C.Runs a Eq (Engine.methodScope superclass) (Engine.methodScope superclass) := by
  cases superclass with
  | none => exact .bind .get fun _ _ states => .pure states.2.active.symm
  | some id =>
    refine .bind .get fun m m' states => ?_
    rw [states.2.active]
    exact (runs_newScope m.active rfl).next fun _ => .pure rfl

end Correspondence

end Lox
