import Lox.Proofs.ClassScopes

/-! What steps fail with. Most steps raise no signal and find no operator out of place: whatever stops
them, it is neither the error that stands for a `break` or a `continue`, which only functions raise
when their body ends with a signal, nor the error of an operator that is none. -/

namespace Lox

/-- The signal that an error stands for, with the line of its keyword. -/
def Halt.signal? : Halt → Option (Signal × Nat)
  | .error e => e.signal?.map (·, e.line)
  | .violation _ => none
  | .exhausted => none

theorem Halt.signal?_eq_some {halt : Halt} {signal : Signal} {line : Nat} :
    halt.signal? = some (signal, line) ↔ halt = .error ⟨line, .escaped signal⟩ := by
  constructor
  · intro found
    cases halt with
    | error e =>
      obtain ⟨at', cause⟩ := e
      cases cause <;> simp_all [Halt.signal?, RuntimeError.signal?]
    | violation v => cases found
    | exhausted => cases found
  · intro same
    cases same
    rfl

/-- How any step may fail: not with a signal, and not because of an operator out of place. -/
def Halt.isCommon : Halt → Bool
  | .error ⟨_, .escaped _⟩ | .error ⟨_, .invalidUnary _⟩ | .error ⟨_, .invalidBinary _⟩ => false
  | _ => true

/-- A condition on failures that those of any step meet. -/
class Lenient (P : Halt → Prop) : Prop where
  common : ∀ halt : Halt, halt.isCommon = true → P halt

/-- However the step fails, the failure meets the condition. -/
def Raises (P : Halt → Prop) (p : Eval α) : Prop :=
  ∀ ⦃m halt m'⦄, p m = .error halt m' → P halt

/-- What the end of a run has to meet: one condition if it fails, another on its result. -/
def Ended (P : Halt → Prop) (Q : α → Prop) : EStateM.Result Halt Machine α → Prop
  | .ok a _ => Q a
  | .error halt _ => P halt

/-- However the step ends, its end meets the conditions. -/
def Ends (P : Halt → Prop) (Q : α → Prop) (p : Eval α) : Prop := ∀ m, Ended P Q (p m)

/-- However the step fails, it raises no signal. -/
def Silent (p : Eval α) : Prop := Raises (·.signal? = none) p

instance : Lenient (·.signal? = none) where
  common halt common := by
    cases found : halt.signal? with
    | none => rfl
    | some raised =>
      rw [Halt.signal?_eq_some.mp found] at common
      cases common

/-- The operators between two values. -/
def binaryOperators : List Kind :=
  [.bangEqual, .equalEqual, .greater, .greaterEqual, .less, .lessEqual, .minus, .plus, .star,
    .slash, .percent]

def unaryOperators : List Kind := [.bang, .minus]

section

variable {P : Halt → Prop} {Q : α → Prop} {R : β → Prop}

theorem Raises.ends {p : Eval α} (raises : Raises P p) : Ends P (fun _ => True) p := by
  intro m
  cases ended : p m with
  | ok a m' => trivial
  | error halt m' => exact raises ended

namespace Ends

theorem raises {p : Eval α} (ends : Ends P Q p) : Raises P p := by
  intro m halt m' failed
  have ended := ends m
  rw [failed] at ended
  exact ended

theorem results {p : Eval α} (ends : Ends P Q p) (ran : p m = .ok a m') : Q a := by
  have ended := ends m
  rw [ran] at ended
  exact ended

theorem pure {a : α} (holds : Q a) : Ends P Q (Pure.pure a) := fun _ => holds

/-- A step that does not come to an end has no result. -/
theorem throw {halt : Halt} (meets : P halt) : Ends P Q (MonadExcept.throw halt : Eval α) :=
  fun _ => meets

theorem bind {p : Eval α} {f : α → Eval β} (first : Ends P Q p)
    (later : ∀ a, Q a → Ends P R (f a)) : Ends P R (p >>= f) := by
  intro m
  have ended := first m
  change Ended P R (EStateM.bind p f m)
  unfold EStateM.bind
  cases ran : p m with
  | ok a m₁ =>
    rw [ran] at ended
    exact later a ended m₁
  | error halt m₁ =>
    rw [ran] at ended
    exact ended

end Ends

end

namespace Raises

variable {P : Halt → Prop}

theorem pure {a : α} : Raises P (Pure.pure a) := by
  intro m halt m' failed
  cases failed

theorem throw {halt : Halt} (meets : P halt) : Raises P (MonadExcept.throw halt : Eval α) := by
  intro m halt m' failed
  cases failed
  exact meets

theorem get : Raises P (MonadState.get : Eval Machine) := by
  intro m halt m' failed
  cases failed

theorem modify {f : Machine → Machine} : Raises P (modify f : Eval Unit) := by
  intro m halt m' failed
  cases failed

/-- What follows may count on the result. -/
theorem after {p : Eval α} {f : α → Eval β} {Q : α → Prop} (first : Ends P Q p)
    (later : ∀ a, Q a → Raises P (f a)) : Raises P (p >>= f) :=
  (first.bind fun a holds => (later a holds).ends).raises

theorem bind {p : Eval α} {f : α → Eval β} (first : Raises P p) (later : ∀ a, Raises P (f a)) :
    Raises P (p >>= f) := after first.ends fun a _ => later a

theorem ite {condition : Prop} [Decidable condition] {p q : Eval α} (yes : Raises P p)
    (no : Raises P q) : Raises P (if condition then p else q) := by
  split
  · exact yes
  · exact no

theorem address? (reference : Reference) : Raises P (Eval.address? reference) :=
  bind get fun _ => pure

theorem declare (name : String) (value : Value) : Raises P (Eval.declare name value) := by
  refine bind get fun m => ?_
  cases m.active with
  | some id => exact bind modify fun _ => bind get fun _ => pure
  | none => exact bind modify fun _ => pure

theorem newScope (parent : Option ScopeId) (slots : List (String × Value)) :
    Raises P (Eval.newScope parent slots) :=
  bind get fun _ => bind modify fun _ => pure

theorem newFunction (closure : Closure) : Raises P (Eval.newFunction closure) :=
  bind modify fun _ => bind get fun _ => pure

theorem newInstance (descriptor : Descriptor) : Raises P (Eval.newInstance descriptor) :=
  bind modify fun _ => bind get fun _ => pure

theorem bindThis (f : Closure) (this : Value) : Raises P (Eval.bindThis f this) :=
  bind (newScope _ _) fun _ => pure

theorem enterFunction (f : Closure) (arguments : List Value) :
    Raises P (Eval.enterFunction f arguments) :=
  newScope _ _

theorem receiver (f : Closure) : Raises P (Engine.receiver f) :=
  bind get fun _ => pure

theorem display (value : Value) : Raises P (Eval.display value) :=
  bind get fun _ => pure

theorem add (left right : Value) : Raises P (Eval.add left right) := by
  unfold Eval.add
  split
  · exact pure
  · exact bind (display _) fun _ => bind (display _) fun _ => pure

theorem reportWarnings (warnings : List Diagnostic) : Raises P (Eval.reportWarnings warnings) := by
  induction warnings with
  | nil => exact pure
  | cons d ds ih => exact bind modify fun _ => ih

theorem parseWith (parser : List Token → NodeId → Except ParseError α × Cursor)
    (source : String) : Raises P (Eval.parseWith parser source) := by
  unfold Eval.parseWith
  split
  · exact pure
  · exact bind get fun _ => bind modify fun _ => pure

theorem resolveWith (pass : Eval.Pass α) (tree : α) : Raises P (Eval.resolveWith pass tree) :=
  bind get fun _ => bind modify fun _ => pure

theorem prepare (parser : List Token → NodeId → Except ParseError α × Cursor)
    (pass : Eval.Pass α) (source : String) : Raises P (Eval.prepare parser pass source) := by
  refine bind (parseWith parser source) fun parsed => ?_
  cases parsed with
  | error failure => exact pure
  | ok tree =>
    refine bind (resolveWith pass tree) fun verdict => ?_
    cases verdict with
    | error failure => exact pure
    | ok warnings => exact pure

theorem methodScope (superclass : Option ClassId) : Raises P (Engine.methodScope superclass) := by
  cases superclass with
  | none => exact bind get fun _ => pure
  | some id => exact bind get fun _ => bind (newScope _ _) fun _ => pure

theorem declareTrait (t : TraitDecl) : Raises P (Engine.declareTrait t) :=
  bind get fun _ => bind (bind modify fun _ => bind get fun _ => pure) fun _ =>
    bind (declare _ _) fun _ => pure

theorem declareFunction (f : FunctionDecl) : Raises P (Engine.declareFunction f) :=
  bind get fun _ => bind (newFunction _) fun _ => bind (declare _ _) fun _ => pure

variable [lenient : Lenient P]

theorem fail {line : Nat} {cause : RuntimeError.Cause}
    (common : Halt.isCommon (.error ⟨line, cause⟩) = true) :
    Raises P (Eval.fail line cause : Eval α) := throw (lenient.common _ common)

theorem violation (v : Violation) : Raises P (MonadExcept.throw (Halt.violation v) : Eval α) :=
  throw (lenient.common _ rfl)

theorem exhausted : Raises P (Eval.exhausted : Eval α) := throw (lenient.common _ rfl)

theorem lift (result : Except Violation α) : Raises P (Eval.lift result) := by
  cases result with
  | ok value => exact pure
  | error v => exact violation v

theorem orUndefined (name : Token) (value : Option α) : Raises P (Eval.orUndefined name value) := by
  cases value with
  | some value => exact pure
  | none => exact fail rfl

theorem activeScope : Raises P Eval.activeScope := by
  refine bind get fun m => ?_
  cases m.active with
  | some id => exact pure
  | none => exact violation _

theorem rebind (binding : Eval.Binding) (name : String) (value : Value) :
    Raises P (Eval.rebind binding name value) := by
  cases binding with
  | slot index => exact bind activeScope fun _ => modify
  | global => exact modify

theorem slotValue (address : Address) : Raises P (Eval.slotValue address) :=
  bind activeScope fun _ => bind get fun _ => lift _

theorem readVariable (reference : Reference) : Raises P (Eval.readVariable reference) := by
  refine bind (address? reference) fun found => ?_
  cases found with
  | some address => exact bind (slotValue address) fun _ => orUndefined _ _
  | none => exact bind get fun _ => orUndefined _ _

theorem writeVariable (reference : Reference) (value : Value) :
    Raises P (Eval.writeVariable reference value) := by
  refine bind (address? reference) fun found => ?_
  cases found with
  | some address =>
    exact bind activeScope fun _ => bind get fun _ => bind (lift _) fun _ =>
      bind get fun _ => bind (orUndefined _ _) fun _ => modify
  | none => exact bind get fun _ => ite modify (fail rfl)

theorem superAndThis (line distance : Nat) : Raises P (Engine.superAndThis line distance) := by
  refine bind (slotValue _) fun found => ?_
  split
  · cases distance with
    | zero => exact violation _
    | succ d => exact bind (slotValue _) fun _ => pure
  · exact bind (display _) fun _ => fail rfl

theorem numbers (operator : Token) (left right : Value) :
    Raises P (Eval.numbers operator left right) := by
  unfold Eval.numbers
  split
  · exact pure
  · exact fail rfl

/-- An operator that is none is the only other way to fail. -/
theorem binary {operator : Token} {left right : Value}
    (odd : operator.kind ∉ binaryOperators →
      P (.error ⟨operator.line, .invalidBinary operator.lexeme⟩)) :
    Raises P (Eval.binary operator left right) := by
  unfold Eval.binary
  split
  case h_1 => exact add left right
  case h_4 => exact bind (numbers _ _ _) fun _ => ite (fail rfl) pure
  case h_10 => exact pure
  case h_11 => exact pure
  case h_12 => exact throw (odd (by simp_all [binaryOperators]))
  all_goals exact bind (numbers _ _ _) fun _ => pure

theorem unary {operator : Token} {right : Value}
    (odd : operator.kind ∉ unaryOperators →
      P (.error ⟨operator.line, .invalidUnary operator.lexeme⟩)) :
    Raises P (Eval.unary operator right) := by
  unfold Eval.unary
  split
  · exact pure
  · exact fail rfl
  · exact pure
  · exact throw (odd (by simp_all [unaryOperators]))

theorem print (line : Nat) (text : String) : Raises P (Eval.print line text) := by
  refine bind get fun m => bind modify fun _ => ?_
  cases m.world.out.fault? text with
  | none => exact pure
  | some fault => exact fail rfl

theorem readLine (line : Nat) : Raises P (Eval.readLine line) := by
  refine bind get fun m => ite pure (bind modify fun _ => ?_)
  split
  · exact pure
  · exact fail rfl

section

variable {E : Engine} (reads : ∀ reference, Raises P (E.read reference))
include reads

theorem superclassOf (superclass : Option Reference) : Raises P (E.superclassOf superclass) := by
  cases superclass with
  | none => exact pure
  | some reference =>
    refine bind (reads reference) fun value => ?_
    split
    · exact pure
    · exact fail rfl

theorem traitsOf (traits : List Reference) : Raises P (E.traitsOf traits) := by
  induction traits with
  | nil => exact pure
  | cons reference rest ih =>
    refine bind (reads reference) fun value => ?_
    split
    · exact bind ih fun _ => pure
    · exact fail rfl

theorem declareClass (c : ClassDecl) : Raises P (E.declareClass c) := by
  rw [Engine.declareClass_eq]
  exact bind (superclassOf reads _) fun _ => bind (traitsOf reads _) fun _ =>
    bind (declare _ _) fun _ => bind (methodScope _) fun _ =>
      bind (bind modify fun _ => bind get fun _ => pure) fun _ => rebind _ _ _

end

end Raises

namespace Silent

/-- Whatever fails for a cause of its own is no signal. -/
theorem fail {line : Nat} {cause : RuntimeError.Cause}
    (silent : RuntimeError.signal? ⟨line, cause⟩ = none) : Silent (Eval.fail line cause : Eval α) :=
  Raises.throw (by simp only [Halt.signal?, silent, Option.map_none])

theorem binary (operator : Token) (left right : Value) :
    Silent (Eval.binary operator left right) := Raises.binary fun _ => rfl

theorem unary (operator : Token) (right : Value) : Silent (Eval.unary operator right) :=
  Raises.unary fun _ => rfl

end Silent

end Lox
