import Lox.Proofs.ClassScopes

/-! Most steps of a machine have nothing to do with sources: they neither number nor resolve
references, neither read files nor remember them, and report nothing. They do not even depend on
which files are remembered. -/

namespace Lox

/-- The state that a run leaves behind. -/
def left : EStateM.Result Halt Machine α → Machine
  | .ok _ m | .error _ m => m

theorem left_within (scope : Option ScopeId) (body : Eval α) (m : Machine) :
    left (Eval.within scope body m) =
      { left (body { m with active := scope }) with active := m.active } := by
  unfold Eval.within
  cases body { m with active := scope } <;> rfl

theorem left_attempt (body : Eval α) (m : Machine) :
    left (Eval.attempt body m) = left (body m) := by
  unfold Eval.attempt
  cases body m with
  | ok a n => rfl
  | error halt n => cases halt <;> rfl

/-- The same state, with these files remembered. -/
def Machine.recalling (paths : List Path) (m : Machine) : Machine := { m with loaded := paths }

/-- The same outcome, with these files remembered in the end. -/
def recalling (paths : List Path) :
    EStateM.Result Halt Machine α → EStateM.Result Halt Machine α
  | .ok a m => .ok a (m.recalling paths)
  | .error halt m => .error halt (m.recalling paths)

/-- Between the two states no source has been read. -/
structure Machine.Untouched (m m' : Machine) : Prop where
  registry : m'.registry = m.registry
  nextNode : m'.nextNode = m.nextNode
  disk : m'.world.disk = m.world.disk
  err : m'.world.err = m.world.err

theorem Machine.Untouched.trans {m m' m'' : Machine} (first : m.Untouched m')
    (second : m'.Untouched m'') : m.Untouched m'' :=
  ⟨second.registry.trans first.registry, second.nextNode.trans first.nextNode,
    second.disk.trans first.disk, second.err.trans first.err⟩

/-- A step that has nothing to do with sources. -/
structure Sourceless (p : Eval α) : Prop where
  untouched : ∀ m : Machine, m.Untouched (left (p m))
  blind : ∀ (m : Machine) paths, p (m.recalling paths) = recalling paths (p m)

theorem Sourceless.loaded {p : Eval α} (sourceless : Sourceless p) (m : Machine) :
    (left (p m)).loaded = m.loaded := by
  have same := sourceless.blind m m.loaded
  change p m = _ at same
  rw [same]
  cases p m <;> rfl

namespace Sourceless

theorem pure {a : α} : Sourceless (Pure.pure a) :=
  ⟨fun _ => ⟨rfl, rfl, rfl, rfl⟩, fun _ _ => rfl⟩

theorem throw {halt : Halt} : Sourceless (MonadExcept.throw halt : Eval α) :=
  ⟨fun _ => ⟨rfl, rfl, rfl, rfl⟩, fun _ _ => rfl⟩

theorem fail {line : Nat} {cause : RuntimeError.Cause} :
    Sourceless (Eval.fail line cause : Eval α) := throw

theorem exhausted : Sourceless (Eval.exhausted : Eval α) := throw

theorem modify {f : Machine → Machine} (untouched : ∀ m : Machine, m.Untouched (f m))
    (blind : ∀ (m : Machine) paths, f (m.recalling paths) = (f m).recalling paths) :
    Sourceless (modify f : Eval Unit) :=
  ⟨untouched, fun m paths => congrArg (EStateM.Result.ok ()) (blind m paths)⟩

theorem modifyStore {f : Store → Store} : Sourceless (Eval.modifyStore f) :=
  modify (fun _ => ⟨rfl, rfl, rfl, rfl⟩) fun _ _ => rfl

theorem bind {p : Eval α} {f : α → Eval β} (first : Sourceless p)
    (later : ∀ a, Sourceless (f a)) : Sourceless (p >>= f) := by
  refine ⟨fun m => ?_, fun m paths => ?_⟩
  · have before := first.untouched m
    change m.Untouched (left (EStateM.bind p f m))
    unfold EStateM.bind
    cases ran : p m with
    | ok a m₁ =>
      rw [ran] at before
      exact before.trans ((later a).untouched m₁)
    | error halt m₁ =>
      rw [ran] at before
      exact before
  · have same := first.blind m paths
    change EStateM.bind p f _ = recalling paths (EStateM.bind p f m)
    unfold EStateM.bind
    rw [same]
    cases p m with
    | ok a m₁ => exact (later a).blind m₁ paths
    | error halt m₁ => rfl

/-- What is looked up must not be the files that are remembered. -/
theorem get_bind {f : Machine → Eval β} (blind : ∀ (m : Machine) paths, f (m.recalling paths) = f m)
    (later : ∀ m, Sourceless (f m)) : Sourceless (get >>= f) := by
  refine ⟨fun m => (later m).untouched m, fun m paths => ?_⟩
  change f (m.recalling paths) (m.recalling paths) = recalling paths (f m m)
  rw [blind]
  exact (later m).blind m paths

theorem ite {condition : Prop} [Decidable condition] {p q : Eval α} (yes : Sourceless p)
    (no : Sourceless q) : Sourceless (if condition then p else q) := by
  split
  · exact yes
  · exact no

theorem lift (result : Except Violation α) : Sourceless (Eval.lift result) := by
  cases result with
  | ok value => exact pure
  | error v => exact throw

theorem orUndefined (name : Token) (value : Option α) :
    Sourceless (Eval.orUndefined name value) := by
  cases value with
  | some value => exact pure
  | none => exact fail

theorem activeScope : Sourceless Eval.activeScope := by
  refine get_bind (fun _ _ => rfl) fun m => ?_
  cases m.active with
  | some id => exact pure
  | none => exact throw

theorem address? (reference : Reference) : Sourceless (Eval.address? reference) :=
  get_bind (fun _ _ => rfl) fun _ => pure

theorem slotValue (address : Address) : Sourceless (Eval.slotValue address) :=
  bind activeScope fun _ => get_bind (fun _ _ => rfl) fun _ => lift _

theorem readVariable (reference : Reference) : Sourceless (Eval.readVariable reference) := by
  refine bind (address? reference) fun found => ?_
  cases found with
  | some address => exact bind (slotValue address) fun _ => orUndefined _ _
  | none => exact get_bind (fun _ _ => rfl) fun _ => orUndefined _ _

theorem writeVariable (reference : Reference) (value : Value) :
    Sourceless (Eval.writeVariable reference value) := by
  refine bind (address? reference) fun found => ?_
  cases found with
  | some address =>
    exact bind activeScope fun _ => get_bind (fun _ _ => rfl) fun _ => bind (lift _) fun _ =>
      get_bind (fun _ _ => rfl) fun _ => bind (orUndefined _ _) fun _ => modifyStore
  | none =>
    exact get_bind (fun _ _ => rfl) fun _ =>
      ite (modify (fun _ => ⟨rfl, rfl, rfl, rfl⟩) fun _ _ => rfl) fail

theorem declare (name : String) (value : Value) : Sourceless (Eval.declare name value) := by
  refine get_bind (fun _ _ => rfl) fun m => ?_
  cases m.active with
  | some id => exact bind modifyStore fun _ => get_bind (fun _ _ => rfl) fun _ => pure
  | none => exact bind (modify (fun _ => ⟨rfl, rfl, rfl, rfl⟩) fun _ _ => rfl) fun _ => pure

theorem rebind (binding : Eval.Binding) (name : String) (value : Value) :
    Sourceless (Eval.rebind binding name value) := by
  cases binding with
  | slot index => exact bind activeScope fun _ => modifyStore
  | global => exact modify (fun _ => ⟨rfl, rfl, rfl, rfl⟩) fun _ _ => rfl

theorem newScope (parent : Option ScopeId) (slots : List (String × Value)) :
    Sourceless (Eval.newScope parent slots) :=
  get_bind (fun _ _ => rfl) fun _ => bind modifyStore fun _ => pure

theorem newFunction (closure : Closure) : Sourceless (Eval.newFunction closure) :=
  bind modifyStore fun _ => get_bind (fun _ _ => rfl) fun _ => pure

theorem newClass (c : Class) : Sourceless (Eval.newClass c) :=
  bind modifyStore fun _ => get_bind (fun _ _ => rfl) fun _ => pure

theorem newTrait (t : Trait) : Sourceless (Eval.newTrait t) :=
  bind modifyStore fun _ => get_bind (fun _ _ => rfl) fun _ => pure

theorem newInstance (descriptor : Descriptor) : Sourceless (Eval.newInstance descriptor) :=
  bind modifyStore fun _ => get_bind (fun _ _ => rfl) fun _ => pure

theorem bindThis (f : Closure) (this : Value) : Sourceless (Eval.bindThis f this) :=
  bind (newScope _ _) fun _ => pure

theorem enterFunction (f : Closure) (arguments : List Value) :
    Sourceless (Eval.enterFunction f arguments) :=
  newScope _ _

theorem receiver (f : Closure) : Sourceless (Engine.receiver f) :=
  get_bind (fun _ _ => rfl) fun _ => pure

theorem display (value : Value) : Sourceless (Eval.display value) :=
  get_bind (fun _ _ => rfl) fun _ => pure

theorem superAndThis (line distance : Nat) : Sourceless (Engine.superAndThis line distance) := by
  refine bind (slotValue _) fun found => ?_
  split
  · cases distance with
    | zero => exact throw
    | succ d => exact bind (slotValue _) fun _ => pure
  · exact bind (display _) fun _ => fail

theorem numbers (operator : Token) (left right : Value) :
    Sourceless (Eval.numbers operator left right) := by
  unfold Eval.numbers
  split
  · exact pure
  · exact fail

theorem add (left right : Value) : Sourceless (Eval.add left right) := by
  unfold Eval.add
  split
  · exact pure
  · exact bind (display _) fun _ => bind (display _) fun _ => pure

theorem binary (operator : Token) (left right : Value) :
    Sourceless (Eval.binary operator left right) := by
  unfold Eval.binary
  split
  case h_1 => exact add left right
  case h_4 => exact bind (numbers _ _ _) fun _ => ite fail pure
  case h_10 | h_11 => exact pure
  case h_12 => exact fail
  all_goals exact bind (numbers _ _ _) fun _ => pure

theorem unary (operator : Token) (right : Value) : Sourceless (Eval.unary operator right) := by
  unfold Eval.unary
  split
  case h_1 | h_3 => exact pure
  case h_2 | h_4 => exact fail

theorem print (line : Nat) (text : String) : Sourceless (Eval.print line text) := by
  refine get_bind (fun _ _ => rfl) fun m =>
    bind (modify (fun _ => ⟨rfl, rfl, rfl, rfl⟩) fun _ _ => rfl) fun _ => ?_
  cases m.world.out.fault? text with
  | none => exact pure
  | some fault => exact fail

theorem readClock : Sourceless Eval.readClock :=
  bind (modify (fun _ => ⟨rfl, rfl, rfl, rfl⟩) fun _ _ => rfl) fun _ =>
    get_bind (fun _ _ => rfl) fun _ => pure

theorem readLine (line : Nat) : Sourceless (Eval.readLine line) := by
  refine get_bind (fun _ _ => rfl) fun m => ite pure
    (bind (modify (fun _ => ⟨rfl, rfl, rfl, rfl⟩) fun _ _ => rfl) fun _ => ?_)
  split
  · exact pure
  · exact fail

theorem methodScope (superclass : Option ClassId) :
    Sourceless (Engine.methodScope superclass) := by
  cases superclass with
  | none => exact get_bind (fun _ _ => rfl) fun _ => pure
  | some id => exact get_bind (fun _ _ => rfl) fun _ => bind (newScope _ _) fun _ => pure

theorem declareTrait (t : TraitDecl) : Sourceless (Engine.declareTrait t) :=
  get_bind (fun _ _ => rfl) fun _ => bind (newTrait _) fun _ => bind (declare _ _) fun _ => pure

theorem declareFunction (f : FunctionDecl) : Sourceless (Engine.declareFunction f) :=
  get_bind (fun _ _ => rfl) fun _ => bind (newFunction _) fun _ => bind (declare _ _) fun _ => pure

end Sourceless

end Lox
