import Lox.Evaluation.Engine
import Lox.Proofs.Lockstep
import Lox.Proofs.RecodedStores
import Lox.Proofs.Relabelling

/-! Machines that hold the same code under different labels. What they do without running code
keeps them together: looking things up gives the same, and what is new in one of them is new in the
other, up to the labels. -/

namespace Lox

def Relabelling.closure (φ : Relabelling) (f : Closure) : Closure :=
  { f with declaration := φ.function f.declaration }

/-- Two ways to label the code of each of several sources. -/
structure Labels (ι : Type) where
  left : ι → Relabelling
  right : ι → Relabelling

namespace Labels

variable {ι : Type} (L : Labels ι)

inductive Closures : Closure → Closure → Prop where
  | of {i : ι} (f : Closure) : Closures ((L.left i).closure f) ((L.right i).closure f)

/-- Stores with the same objects, up to the labels of their code. -/
structure Stores (s s' : Store) : Prop extends Recoded.Objects L.Closures s s' where
  scopes : s'.scopes = s.scopes

inductive Errors : RuntimeError → RuntimeError → Prop where
  | of {i : ι} (line : Nat) (cause : RuntimeError.Cause) :
    Errors ⟨(L.left i).line line, cause⟩ ⟨(L.right i).line line, cause⟩

inductive Halts : Halt → Halt → Prop where
  | error (errors : L.Errors e e') : Halts (.error e) (.error e')
  | violation (v : Violation) : Halts (.violation v) (.violation v)
  | exhausted : Halts .exhausted .exhausted

inductive Completions : Completion → Completion → Prop where
  | normal : Completions .normal .normal
  | returned (value : Value) : Completions (.returned value) (.returned value)
  | flow {i : ι} (signal : Signal) (line : Nat) :
    Completions (.flow signal ((L.left i).line line)) (.flow signal ((L.right i).line line))

variable {L}

theorem presents : Recoded.Presents L.Closures where
  title := by
    rintro _ _ ⟨f⟩
    exact (Relabelling.title_function _).trans (Relabelling.title_function _).symm
  arity := by
    rintro _ _ ⟨f⟩
    exact (Relabelling.arity_function _).trans (Relabelling.arity_function _).symm

theorem Closures.parent (closures : L.Closures f f') : f'.parent = f.parent := by
  cases closures with
  | of f => rfl

end Labels

/-- What stays as it is while a machine runs code that loads no other code and does not ask for the
time. -/
structure Backdrop where
  registry : Registry
  nextNode : NodeId
  loaded : List Path
  err : Sink
  disk : Disk
  clock : Nat → Nat
  time : Nat

def Machine.backdrop (m : Machine) : Backdrop :=
  ⟨m.registry, m.nextNode, m.loaded, m.world.err, m.world.disk, m.world.clock, m.world.time⟩

/-- Two machines that run the same code under different labels. References that are the same have
the same address, and what has no line in one machine has none in the other. -/
structure Twins (ι : Type) extends Labels ι where
  here : Backdrop
  there : Backdrop
  addresses : ∀ i id,
    there.registry.addresses[(right i).node id]? = here.registry.addresses[(left i).node id]?
  zero : ∀ i, (left i).line 0 = 0 ∧ (right i).line 0 = 0

namespace Twins

variable {ι : Type} (T : Twins ι)

structure Machines (m m' : Machine) : Prop where
  active : m'.active = m.active
  globals : m'.globals = m.globals
  store : T.Stores m.store m'.store
  out : m'.world.out = m.world.out
  input : m'.world.input = m.world.input
  here : m.backdrop = T.here
  there : m'.backdrop = T.there

/-- Twins while one scope is active in both. -/
def lockstep (scope : Option ScopeId) : Lockstep Halt Machine Halt Machine where
  states m m' := m.active = scope ∧ T.Machines m m'
  errors := T.Halts

/-- Evaluations that keep the machines twins, and their active scope. -/
abbrev Runs (scope : Option ScopeId) (V : α → β → Prop) (p : Eval α) (q : Eval β) : Prop :=
  (T.lockstep scope).Runs V p q

variable {T} {i : ι} {a : Option ScopeId} {V : α → β → Prop}

open Eval

theorem runs_fail (line : Nat) (cause : RuntimeError.Cause) :
    T.Runs a V (fail ((T.left i).line line) cause) (fail ((T.right i).line line) cause) :=
  .throw (.error (.of line cause))

theorem runs_exhausted : T.Runs a V exhausted exhausted := .throw .exhausted

/-- A scope may be active for a while. -/
theorem runs_within {p : Eval α} {q : Eval β} (scope : Option ScopeId) (body : T.Runs scope V p q) :
    T.Runs a V (within scope p) (within scope q) := by
  rintro m m' ⟨active, machines⟩
  have inside : T.Machines { m with active := scope } { m' with active := scope } :=
    { machines with active := rfl }
  have ended := body ⟨rfl, inside⟩
  unfold within
  dsimp only
  generalize p _ = result, q _ = result' at ended
  cases ended with
  | ok values states => exact .ok values ⟨active, { states.2 with active := machines.active }⟩
  | error errors states => exact .error errors ⟨active, { states.2 with active := machines.active }⟩

theorem runs_attempt {p : Eval α} {q : Eval β} (body : T.Runs a V p q) :
    T.Runs a (Results T.Errors V) (attempt p) (attempt q) := by
  intro m m' states
  have ended := body states
  unfold attempt
  generalize p m = result, q m' = result' at ended
  cases ended with
  | ok values states => exact .ok (.ok values) states
  | error errors states =>
    cases errors with
    | error errors => exact .ok (.error errors) states
    | violation v => exact .error (.violation v) states
    | exhausted => exact .error .exhausted states

theorem runs_modifyStore {f g : Store → Store}
    (step : ∀ ⦃s s'⦄, T.Stores s s' → T.Stores (f s) (g s')) :
    T.Runs a Eq (modifyStore f) (modifyStore g) :=
  .modify fun _ _ states => ⟨states.1, { states.2 with store := step states.2.store }⟩

theorem runs_modifyScopes (f : Scopes → Scopes) :
    T.Runs a Eq (modifyScopes f) (modifyScopes f) :=
  runs_modifyStore fun _ _ stores => { stores with scopes := congrArg f stores.scopes }

theorem runs_modifyGlobals (f : Std.TreeMap String Value → Std.TreeMap String Value) :
    T.Runs a Eq (modify fun m => { m with globals := f m.globals })
      (modify fun m => { m with globals := f m.globals }) :=
  .modify fun _ _ states =>
    ⟨states.1, { states.2 with globals := congrArg f states.2.globals }⟩

theorem runs_activeScope : T.Runs a Eq activeScope activeScope := by
  refine .bind .get fun m m' states => ?_
  rw [states.2.active]
  cases m.active with
  | none => exact .throw (.violation _)
  | some id => exact .pure rfl

theorem runs_lift (result : Except Violation α) : T.Runs a Eq (lift result) (lift result) := by
  cases result with
  | ok value => exact .pure rfl
  | error v => exact .throw (.violation v)

theorem runs_address? (r : Reference) :
    T.Runs a Eq (address? ((T.left i).reference r)) (address? ((T.right i).reference r)) := by
  refine .bind .get fun m m' states => .pure ?_
  have here := congrArg Backdrop.registry states.2.here
  have there := congrArg Backdrop.registry states.2.there
  change m.registry = _ at here
  change m'.registry = _ at there
  rw [here, there]
  exact (T.addresses i r.id).symm

theorem runs_slotValue (address : Address) :
    T.Runs a Eq (slotValue address) (slotValue address) := by
  refine runs_activeScope.next fun id => .bind .get fun m m' states => ?_
  rw [states.2.store.scopes]
  exact runs_lift _

theorem runs_orUndefined (name : Token) (value : Option α) :
    T.Runs a Eq (orUndefined ((T.left i).token name) value)
      (orUndefined ((T.right i).token name) value) := by
  cases value with
  | none => exact runs_fail ..
  | some value => exact .pure rfl

theorem runs_readVariable (r : Reference) :
    T.Runs a Eq (readVariable ((T.left i).reference r))
      (readVariable ((T.right i).reference r)) := by
  refine (runs_address? r).next fun address => ?_
  cases address with
  | some address => exact (runs_slotValue address).next fun value => runs_orUndefined r.name value
  | none =>
    refine .bind .get fun m m' states => ?_
    rw [states.2.globals]
    exact runs_orUndefined r.name _

theorem runs_writeVariable (r : Reference) (value : Value) :
    T.Runs a Eq (writeVariable ((T.left i).reference r) value)
      (writeVariable ((T.right i).reference r) value) := by
  refine (runs_address? r).next fun address => ?_
  cases address with
  | some address =>
    refine runs_activeScope.next fun id => .bind .get fun m m' states => ?_
    rw [states.2.store.scopes]
    refine (runs_lift _).next fun target => .bind .get fun m m' states => ?_
    rw [states.2.store.scopes]
    exact (runs_orUndefined r.name _).next fun _ => runs_modifyScopes _
  | none =>
    refine .bind .get fun m m' states => ?_
    rw [states.2.globals]
    exact .ite (runs_modifyGlobals (·.insert r.name.lexeme value)) (runs_fail ..)

theorem runs_declare (name : String) (value : Value) :
    T.Runs a Eq (declare name value) (declare name value) := by
  refine .bind .get fun m m' states => ?_
  rw [states.2.active]
  cases m.active with
  | some id =>
    refine (runs_modifyScopes _).next fun _ => .bind .get fun m m' states => .pure ?_
    rw [states.2.store.scopes]
  | none => exact (runs_modifyGlobals (·.insert name value)).next fun _ => .pure rfl

theorem runs_rebind (binding : Binding) (name : String) (value : Value) :
    T.Runs a Eq (rebind binding name value) (rebind binding name value) := by
  cases binding with
  | slot index => exact runs_activeScope.next fun _ => runs_modifyScopes _
  | global => exact runs_modifyGlobals (·.insert name value)

theorem runs_newScope (parent : Option ScopeId) (slots : List (String × Value)) :
    T.Runs a Eq (newScope parent slots) (newScope parent slots) := by
  refine .bind .get fun m m' states => ?_
  rw [states.2.store.scopes]
  exact (runs_modifyScopes _).next fun _ => .pure rfl

theorem runs_newFunction (closures : T.Closures f f') :
    T.Runs a Eq (newFunction f) (newFunction f') := by
  refine .next (runs_modifyStore ?_) fun _ => .bind .get fun m m' states => .pure ?_
  · exact fun s s' stores => { stores with functions := stores.functions.push closures }
  · rw [states.2.store.functions.size_eq]

theorem runs_newClass (classes : Recoded.Classes T.Closures c c') :
    T.Runs a Eq (newClass c) (newClass c') := by
  refine .next (runs_modifyStore ?_) fun _ => .bind .get fun m m' states => .pure ?_
  · exact fun s s' stores => { stores with classes := stores.classes.push classes }
  · rw [states.2.store.classes.size_eq]

theorem runs_newTrait (traits : Recoded.Traits T.Closures t t') :
    T.Runs a Eq (newTrait t) (newTrait t') := by
  refine .next (runs_modifyStore ?_) fun _ => .bind .get fun m m' states => .pure ?_
  · exact fun s s' stores => { stores with traits := stores.traits.push traits }
  · rw [states.2.store.traits.size_eq]

theorem runs_newInstance (descriptor : Descriptor) :
    T.Runs a Eq (newInstance descriptor) (newInstance descriptor) := by
  refine .next (runs_modifyStore ?_) fun _ => .bind .get fun m m' states => .pure ?_
  · exact fun s s' stores => { stores with
      instances := congrArg (Array.push · { descriptor }) stores.instances }
  · rw [states.2.store.instances]

theorem runs_bindThis (closures : T.Closures f f') (this : Value) :
    T.Runs a T.Closures (bindThis f this) (bindThis f' this) := by
  cases closures with
  | of f =>
    exact (runs_newScope f.parent _).next fun id => .pure (.of { f with parent := some id })

/-- Labels change no names, so the scope of a call is the same. -/
theorem runs_enterFunction (closures : T.Closures f f') (arguments : List Value) :
    T.Runs a Eq (enterFunction f arguments) (enterFunction f' arguments) := by
  cases closures with
  | of f =>
    obtain ⟨⟨name, params, body, own⟩, parent, isInitializer⟩ := f
    have names (φ : Relabelling) :
        (params.map φ.token).map Token.lexeme = params.map Token.lexeme := List.map_map
    unfold enterFunction
    dsimp only [Relabelling.closure, Relabelling.function]
    rw [names, names]
    exact runs_newScope parent _

theorem runs_setField (object : Value) (name : String) (value : Value) :
    T.Runs a Eq (modifyStore (·.setField object name value))
      (modifyStore (·.setField object name value)) := by
  refine runs_modifyStore fun s s' stores => ?_
  cases object with
  | instanceRef id =>
    refine { stores with instances := ?_ }
    simp only [Store.setField, stores.instances]
  | classRef id =>
    refine { stores with classes := stores.classes.modify id.index fun c c' classes => ?_ }
    exact { classes with fields := congrArg (·.insert name value) classes.fields }
  | _ => exact stores

theorem runs_display (value : Value) : T.Runs a Eq (display value) (display value) :=
  .bind .get fun _ _ states => .pure (states.2.store.display_eq Labels.presents value).symm

theorem runs_print (line : Nat) (text : String) :
    T.Runs a Eq (print ((T.left i).line line) text) (print ((T.right i).line line) text) := by
  refine .bind .get fun m m' states => ?_
  dsimp only
  rw [states.2.out]
  refine .next (.modify fun m m' states => ?_) fun _ => ?_
  · exact ⟨states.1, { states.2 with out := congrArg (Sink.write text) states.2.out }⟩
  · cases m.world.out.fault? text with
    | none => exact .pure rfl
    | some fault => exact runs_fail ..

theorem runs_readLine (line : Nat) :
    T.Runs a Eq (readLine ((T.left i).line line)) (readLine ((T.right i).line line)) := by
  refine .bind .get fun m m' states => ?_
  dsimp only
  rw [states.2.input]
  refine .ite (.pure rfl) (.next (.modify fun m m' states => ?_) fun _ => ?_)
  · exact ⟨states.1, { states.2 with input := rfl }⟩
  · cases Text.Utf8.decode? _ with
    | none => exact runs_fail ..
    | some text => exact .pure rfl

theorem runs_numbers (operator : Token) (left right : Value) :
    T.Runs a Eq (numbers ((T.left i).token operator) left right)
      (numbers ((T.right i).token operator) left right) := by
  unfold numbers
  split
  · exact .pure rfl
  · exact runs_fail ..

theorem runs_add (left right : Value) : T.Runs a Eq (add left right) (add left right) := by
  unfold add
  split
  · exact .pure rfl
  · exact (runs_display left).next fun _ => (runs_display right).next fun _ => .pure rfl

theorem runs_binary (operator : Token) (left right : Value) :
    T.Runs a Eq (binary ((T.left i).token operator) left right)
      (binary ((T.right i).token operator) left right) := by
  have arithmetic (f : Float → Float → Float) :
      T.Runs a Eq (arithmetic ((T.left i).token operator) left right f)
        (arithmetic ((T.right i).token operator) left right f) :=
    (runs_numbers operator left right).next fun _ => .pure rfl
  have comparison (f : Float → Float → Bool) :
      T.Runs a Eq (comparison ((T.left i).token operator) left right f)
        (comparison ((T.right i).token operator) left right f) :=
    (runs_numbers operator left right).next fun _ => .pure rfl
  have division : T.Runs a Eq (divide ((T.left i).token operator) left right)
      (divide ((T.right i).token operator) left right) :=
    (runs_numbers operator left right).next fun _ => .ite (runs_fail ..) (.pure rfl)
  obtain ⟨kind, lexeme, line⟩ := operator
  cases kind with
  | plus => exact runs_add left right
  | minus | star | percent => exact arithmetic _
  | slash => exact division
  | greater => exact comparison fun a b => b < a
  | greaterEqual => exact comparison fun a b => b ≤ a
  | less => exact comparison fun a b => a < b
  | lessEqual => exact comparison fun a b => a ≤ b
  | equalEqual | bangEqual => exact .pure rfl
  | _ => exact runs_fail ..

theorem runs_unary (operator : Token) (right : Value) :
    T.Runs a Eq (unary ((T.left i).token operator) right)
      (unary ((T.right i).token operator) right) := by
  obtain ⟨kind, lexeme, line⟩ := operator
  cases kind with
  | minus =>
    cases right with
    | number value => exact .pure rfl
    | _ => exact runs_fail ..
  | bang => exact .pure rfl
  | _ => exact runs_fail ..

theorem runs_receiver (closures : T.Closures f f') :
    T.Runs a Eq (Engine.receiver f) (Engine.receiver f') := by
  refine .bind .get fun m m' states => .pure ?_
  rw [closures.parent, states.2.store.scopes]

theorem runs_superAndThis (line distance : Nat) :
    T.Runs a Eq (Engine.superAndThis ((T.left i).line line) distance)
      (Engine.superAndThis ((T.right i).line line) distance) := by
  refine (runs_slotValue _).next fun value => ?_
  cases value.getD .nil with
  | classRef id =>
    cases distance with
    | zero => exact .throw (.violation _)
    | succ inside => exact (runs_slotValue _).next fun _ => .pure rfl
  | _ => exact (runs_display _).next fun _ => runs_fail ..

theorem runs_methodScope (superclass : Option ClassId) :
    T.Runs a Eq (Engine.methodScope superclass) (Engine.methodScope superclass) := by
  cases superclass with
  | none => exact .bind .get fun _ _ states => .pure states.2.active.symm
  | some id =>
    refine .bind .get fun m m' states => ?_
    rw [states.2.active]
    exact (runs_newScope m.active _).next fun _ => .pure rfl

end Twins

end Lox
