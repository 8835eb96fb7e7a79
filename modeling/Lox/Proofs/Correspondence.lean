import Lox.Proofs.Coherence
import Lox.Proofs.Likeness

/-! Machines that correspond. Their programs have been read with other numbers for the references,
and local variables of one name may have another in the other machine. Addresses lead to slots by
position, so none of this shows while the programs run, but in the message about an undefined
variable. -/

namespace Lox

/-- Arrays of one length whose entries are related. -/
def Matched (R : α → β → Prop) (xs : Array α) (ys : Array β) : Prop :=
  ∀ i : Nat, Option.Rel R xs[i]? ys[i]?

namespace Matched

variable {R : α → β → Prop} {xs : Array α} {ys : Array β}

theorem refl {R : α → α → Prop} {xs : Array α} (same : ∀ x ∈ xs, R x x) : Matched R xs xs := by
  intro i
  cases found : xs[i]? with
  | none => exact .none
  | some x => exact .some (same x (Array.mem_of_getElem? found))

theorem size_eq (matched : Matched R xs ys) : ys.size = xs.size := by
  have stops := matched xs.size
  have ends := matched ys.size
  rw [Array.getElem?_eq_none (Nat.le_refl _)] at stops ends
  generalize same : ys[xs.size]? = last at stops
  generalize same' : xs[ys.size]? = last' at ends
  cases stops
  cases ends
  rw [Array.getElem?_eq_none_iff] at same same'
  exact Nat.le_antisymm same same'

theorem push (matched : Matched R xs ys) (added : R x y) : Matched R (xs.push x) (ys.push y) := by
  intro i
  rw [Array.getElem?_push, Array.getElem?_push, matched.size_eq]
  split
  · exact .some added
  · exact matched i

theorem modify (matched : Matched R xs ys) (index : Nat) {f : α → α} {g : β → β}
    (changed : ∀ ⦃x y⦄, R x y → R (f x) (g y)) :
    Matched R (xs.modify index f) (ys.modify index g) := by
  intro i
  rw [Array.getElem?_modify, Array.getElem?_modify]
  have before := matched i
  split
  · generalize xs[i]? = x, ys[i]? = y at before
    cases before with
    | none => exact .none
    | some related => exact .some (changed related)
  · exact before

end Matched

namespace Scopes

/-- The scope with the names of its slots taken away. -/
def unnamedScope (scope : Scope) : Scope :=
  { scope with slots := scope.slots.map ({ · with name := "" }) }

/-- All scopes with the names of their slots taken away. -/
def unnamed (s : Scopes) : Scopes := ⟨s.entries.map unnamedScope⟩

theorem get?_unnamed (s : Scopes) (id : ScopeId) :
    s.unnamed.get? id = (s.get? id).map unnamedScope := by
  simp [unnamed, get?]

theorem nextId_unnamed (s : Scopes) : s.unnamed.nextId = s.nextId := by
  simp [unnamed, nextId]

theorem nextSlot_unnamed (s : Scopes) (id : ScopeId) : s.unnamed.nextSlot id = s.nextSlot id := by
  unfold nextSlot
  rw [get?_unnamed]
  cases s.get? id with
  | none => rfl
  | some scope => simp [unnamedScope]

theorem ancestor?_unnamed (s : Scopes) (distance : Nat) (id : ScopeId) :
    s.unnamed.ancestor? distance id = s.ancestor? distance id := by
  induction distance generalizing id with
  | zero => rfl
  | succ distance ih =>
    have parents : s.unnamed.parent? id = s.parent? id := by
      unfold parent?
      rw [get?_unnamed, Option.bind_map]
      rfl
    unfold ancestor?
    rw [parents]
    exact congrArg _ (funext ih)

theorem reach_unnamed (s : Scopes) (distance : Nat) (id : ScopeId) :
    s.unnamed.reach distance id = s.reach distance id := by
  unfold reach
  rw [ancestor?_unnamed]

theorem slot?_unnamed (s : Scopes) (id : ScopeId) (index : Nat) :
    (s.unnamed.slot? id index).map Slot.value = (s.slot? id index).map Slot.value := by
  unfold slot?
  rw [get?_unnamed]
  cases s.get? id with
  | none => rfl
  | some scope => simp [unnamedScope, Function.comp_def]

theorem read_unnamed (s : Scopes) (id : ScopeId) (address : Address) :
    s.unnamed.read id address = s.read id address := by
  unfold read
  rw [reach_unnamed]
  congr 1
  funext target
  rw [slot?_unnamed]

theorem unnamed_create (s : Scopes) (parent : Option ScopeId) :
    (s.create parent).unnamed = s.unnamed.create parent := by
  simp [unnamed, create, unnamedScope]

/-- Entries of an array that are changed and then mapped can be mapped and then changed. -/
theorem map_modify {f : α → α} {g : α → β} {h : β → β} (xs : Array α) (i : Nat)
    (commute : ∀ x, g (f x) = h (g x)) : (xs.modify i f).map g = (xs.map g).modify i h := by
  apply Array.ext_getElem?
  intro j
  rw [Array.getElem?_map, Array.getElem?_modify, Array.getElem?_modify, Array.getElem?_map]
  split
  · rw [Option.map_map, Option.map_map]
    congr 1
    funext x
    exact commute x
  · rfl

theorem unnamed_define (s : Scopes) (id : ScopeId) (name : String) (value : Value) :
    (s.define id name value).unnamed = s.unnamed.define id "" value := by
  simp only [unnamed, define, mk.injEq]
  exact map_modify s.entries id.index fun scope => by simp [unnamedScope]

theorem unnamed_put (s : Scopes) (id : ScopeId) (index : Nat) (value : Value) :
    (s.put id index value).unnamed = s.unnamed.put id index value := by
  simp only [unnamed, put, mk.injEq]
  refine map_modify s.entries id.index fun scope => ?_
  simp only [unnamedScope, Scope.mk.injEq, and_true]
  exact map_modify scope.slots index fun _ => rfl

end Scopes

/-- How the references of two machines are numbered, and which of them are written with a new name
in place of an old one. -/
structure Correspondence where
  node : NodeId → NodeId
  injective : Function.Injective node
  renamed : NodeId → Prop
  old : String
  new : String

namespace Correspondence

variable (C : Correspondence)

/-- References that correspond stand on one line and have one name, unless they are renamed. -/
structure Refers (r r' : Reference) : Prop where
  id : r'.id = C.node r.id
  line : r'.name.line = r.name.line
  lexeme : r'.name.lexeme = r.name.lexeme ∨
    C.renamed r.id ∧ r.name.lexeme = C.old ∧ r'.name.lexeme = C.new

/-- Trees that do the same when they run. The names of local variables do not matter. -/
def likeness : Likeness where
  refers := C.Refers
  binds nested t t' := nested = true ∨ t'.lexeme = t.lexeme

/-- The numbers of the other machine for the references of a tree. -/
abbrev relabelling : Relabelling := .onNodes C.node

theorem likeness_relabelling {C : Correspondence} (r : Reference) :
    C.likeness.refers r (C.relabelling.reference r) := ⟨rfl, rfl, .inl rfl⟩

structure Closures (f f' : Closure) : Prop where
  declaration : C.likeness.Alike true (.function f.declaration) (.function f'.declaration)
  parent : f'.parent = f.parent
  isInitializer : f'.isInitializer = f.isInitializer

structure Methods (m m' : Method) : Prop where
  closure : C.Closures m.closure m'.closure
  isGetter : m'.isGetter = m.isGetter

def Tables (t t' : Lox.Methods) : Prop := ∀ name : String, Option.Rel C.Methods t[name]? t'[name]?

structure Classes (c c' : Class) : Prop where
  name : c'.name = c.name
  superclass : c'.superclass = c.superclass
  traits : c'.traits = c.traits
  methods : C.Tables c.methods c'.methods
  statics : C.Tables c.statics c'.statics
  fields : c'.fields = c.fields

structure Traits (t t' : Trait) : Prop where
  name : t'.name = t.name
  methods : C.Tables t.methods t'.methods

inductive Callables : Store.Callable → Store.Callable → Prop where
  | function (closures : C.Closures f f') : Callables (.function f) (.function f')
  | native (function : Native) : Callables (.native function) (.native function)
  | classRef (id : ClassId) : Callables (.classRef id) (.classRef id)

structure Stores (s s' : Store) : Prop where
  scopes : s'.scopes.unnamed = s.scopes.unnamed
  functions : Matched C.Closures s.functions s'.functions
  classes : Matched C.Classes s.classes s'.classes
  traits : Matched C.Traits s.traits s'.traits
  instances : s'.instances = s.instances

/-- Addresses of corresponding references are the same. A reference that is renamed has one. -/
structure Registries (g g' : Registry) : Prop where
  addresses : ∀ id, g'.addresses[C.node id]? = g.addresses[id]?
  traits : g'.traits = g.traits
  renamed : ∀ id, C.renamed id → g.addresses[id]?.isSome

/-- Messages that differ at most in the name of a variable. -/
inductive Texts : String → String → Prop where
  | same (text : String) : Texts text text
  | undefined (line : Nat) :
    Texts (RuntimeError.message ⟨line, .undefinedVariable C.old⟩)
      (RuntimeError.message ⟨line, .undefinedVariable C.new⟩)
  | unused (line : Nat) :
    Texts (Diagnostic.unused C.old line).message (Diagnostic.unused C.new line).message

/-- Sinks that have taken the same lines, up to such messages. -/
inductive Sinks : Sink → Sink → Prop where
  | same (sink : Sink) : Sinks sink sink
  | write (before : Sinks s s') (texts : C.Texts t t') :
    Sinks (s.write (t ++ "\n")) (s'.write (t' ++ "\n"))

structure Worlds (w w' : World) : Prop where
  out : w'.out = w.out
  err : C.Sinks w.err w'.err
  input : w'.input = w.input
  disk : w'.disk = w.disk
  clock : w'.clock = w.clock
  time : w'.time = w.time

structure Machines (m m' : Machine) : Prop where
  active : m'.active = m.active
  globals : m'.globals = m.globals
  store : C.Stores m.store m'.store
  registry : C.Registries m.registry m'.registry
  numbers : C.relabelling.Continues m.nextNode m'.nextNode
  loaded : m'.loaded = m.loaded
  world : C.Worlds m.world m'.world

inductive Errors : RuntimeError → RuntimeError → Prop where
  | same (e : RuntimeError) : Errors e e
  | undefined (line : Nat) :
    Errors ⟨line, .undefinedVariable C.old⟩ ⟨line, .undefinedVariable C.new⟩

inductive Halts : Halt → Halt → Prop where
  | error (errors : C.Errors e e') : Halts (.error e) (.error e')
  | violation (v : Violation) : Halts (.violation v) (.violation v)
  | exhausted : Halts .exhausted .exhausted

inductive Failures : Failure → Failure → Prop where
  | same (failure : Failure) : Failures failure failure
  | runtime (errors : C.Errors e e') : Failures (.runtime e) (.runtime e')

variable {C}

theorem likeness_tolerant : C.likeness.Tolerant := fun _ _ => .inr rfl

theorem Refers.refl {r : Reference} (fixed : C.node r.id = r.id) : C.Refers r r :=
  ⟨fixed.symm, rfl, .inl rfl⟩

/-- References whose numbers stay as they are. -/
def Fixes (C : Correspondence) (f : FunctionDecl) : Prop :=
  ∀ r ∈ Reference.inFunction true f, C.node r.id = r.id

theorem Closures.refl {f : Closure} (fixed : C.Fixes f.declaration) : C.Closures f f := by
  have alike : C.likeness.Alike true (.function f.declaration)
      (.function (Relabelling.identity.function f.declaration)) :=
    Likeness.alike_function likeness_tolerant true f.declaration fun r member =>
      .refl (fixed r member)
  rw [Relabelling.identity_function] at alike
  exact ⟨alike, rfl, rfl⟩

theorem Tables.refl {table : Lox.Methods}
    (fixed : ∀ (name : String) method, table[name]? = some method →
      C.Fixes method.closure.declaration) : C.Tables table table := by
  intro name
  cases found : table[name]? with
  | none => exact .none
  | some method => exact .some ⟨.refl (fixed name method found), rfl⟩

/-- A store corresponds to itself if the numbers of all references in it stay. -/
theorem Stores.refl {s : Store} (functions : ∀ f ∈ s.functions, C.Fixes f.declaration)
    (methods : ∀ method, s.Has method → C.Fixes method.closure.declaration) : C.Stores s s where
  scopes := rfl
  functions := .refl fun f member => .refl (functions f member)
  classes := .refl fun c member => ⟨rfl, rfl, rfl,
    .refl fun name method found => methods method (.inl ⟨c, member, name, .inl found⟩),
    .refl fun name method found => methods method (.inl ⟨c, member, name, .inr found⟩), rfl⟩
  traits := .refl fun t member => ⟨rfl,
    .refl fun name method found => methods method (.inr ⟨t, member, name, found⟩)⟩
  instances := rfl

/-- A machine corresponds to itself if no number changes and the references that would be renamed
have addresses. -/
theorem Machines.refl (fixed : ∀ id, C.node id = id) (m : Machine)
    (renamed : ∀ id, C.renamed id → m.registry.addresses[id]?.isSome) : C.Machines m m where
  active := rfl
  globals := rfl
  store := .refl (fun _ _ r _ => fixed r.id) (fun _ _ r _ => fixed r.id)
  registry := ⟨fun id => by rw [fixed], rfl, renamed⟩
  numbers := fun _ => fixed _
  loaded := rfl
  world := ⟨rfl, .same _, rfl, rfl, rfl, rfl⟩

end Correspondence

end Lox
