import Lox.Proofs.TraitConformance

/-!
A class declaration takes effect as a whole or not at all. It looks up the classes and traits that
it refers to before it changes anything. If one of them is missing, or is something else, the
machine stays as it is. Otherwise nothing can fail any more: the variable that is declared first,
with `nil`, holds the finished class before any other code can run.
-/

namespace Lox

/-- The classes and traits that a declaration refers to. -/
def ClassDecl.parents (c : ClassDecl) : List Reference := c.superclass.toList ++ c.traits

/-- Why a class cannot be declared in this state, and what is said about it. -/
inductive ClassDecl.Refused (c : ClassDecl) (m : Machine) : RuntimeError → String → Prop where
  | undefined (own : reference ∈ c.parents)
      (missing : Eval.readVariable reference m =
        .error (.error ⟨reference.name.line, .undefinedVariable reference.name.lexeme⟩) m) :
      Refused c m ⟨reference.name.line, .undefinedVariable reference.name.lexeme⟩
        ("Undefined variable '" ++ reference.name.lexeme ++ "'.")
  | superclass (inherits : c.superclass = some reference)
      (read : Eval.readVariable reference m = .ok value m) (other : ∀ id, value ≠ .classRef id) :
      Refused c m ⟨reference.name.line, .superclassNotClass⟩ "Superclass must be a class."
  | trait (mixes : reference ∈ c.traits) (read : Eval.readVariable reference m = .ok value m)
      (other : ∀ id, value ≠ .traitRef id) :
      Refused c m ⟨reference.name.line, .notTrait⟩ "Can only mix in traits."

/-- All that there was before the class was declared is still the same, but for one more variable,
which holds the class. -/
structure Machine.Gains (m : Machine) (name : String) (k : Class) (m' : Machine) : Prop where
  rest : m' = { m with globals := m'.globals, store :=
    { m.store with scopes := m'.store.scopes, classes := m.store.classes.push k } }
  globals : ∀ other, m'.globals[other]? =
    if m.active = none ∧ name = other then some (.classRef ⟨m.store.classes.size⟩)
    else m.globals[other]?
  scopes : ∀ id scope, m.store.scopes.get? id = some scope → m'.store.scopes.get? id = some
    (if m.active = some id then
      { scope with slots := scope.slots.push ⟨name, .classRef ⟨m.store.classes.size⟩⟩ }
    else scope)
  live : ∀ id, m.active = some id → m.store.scopes.get? id ≠ none

/-- The scope that the methods of a new class lie in. It is the active one, and there is no new
scope, or it is the only new one and holds nothing but the superclass. -/
inductive Machine.OpensFor (m m' : Machine) : Option ClassId → Option ScopeId → Prop where
  | outside (size : m'.store.scopes.entries.size = m.store.scopes.entries.size) :
      OpensFor m m' none m.active
  | inside (size : m'.store.scopes.entries.size = m.store.scopes.entries.size + 1)
      (opened : m'.store.scopes.get? m.store.scopes.nextId =
        some ⟨#[⟨"super", .classRef parent⟩], m.active⟩) :
      OpensFor m m' (some parent) (some m.store.scopes.nextId)

/-- Executing the declaration has made this class and bound it to its name. -/
structure ClassDecl.Completes (past : History) (c : ClassDecl) (m : Machine) (k : Class)
    (scope : Option ScopeId) (m' : Machine) : Prop where
  name : k.name = c.name.lexeme
  fields : k.fields = {}
  made : k.MadeBy past c scope m
  closes : ∀ (name : String) method,
    k.methods[name]? = some method ∨ k.statics[name]? = some method →
      method.closure.parent = scope
  opens : m.OpensFor m' k.superclass scope
  gains : m.Gains c.name.lexeme k m'

section

variable {depth : Nat} {world : World} {steps : List HostStep} {c : ClassDecl} {m : Machine}

/-- A class or trait that a declaration refers to is there, or undefined. -/
theorem Happens.looksUp (happens : Happens depth world steps (.execute (.classDecl c)) m)
    (own : reference ∈ c.parents) : ∃ found,
      Eval.readVariable reference m = Eval.orUndefined reference.name found m := by
  obtain ⟨w, context, r, rfl, known, within⟩ := happens.placed
  cases recorded : w.machine.registry.addresses[reference.id]? with
  | none => exact ⟨_, readVariable_global recorded⟩
  | some address =>
    obtain ⟨target, scope, located⟩ := w.located known within.fits own recorded
    obtain ⟨id, active, reached⟩ := located.reached
    exact ⟨_, readVariable_address recorded active reached⟩

theorem Happens.superclassOf (happens : Happens depth world steps (.execute (.classDecl c)) m)
    (n : Nat) :
    (∃ e, (engine n).superclassOf c.superclass m = .error (.error e) m ∧
        c.Refused m e e.cause.message) ∨
      ∃ superclass, (engine n).superclassOf c.superclass m = .ok superclass m := by
  cases inherits : c.superclass with
  | none => exact .inr ⟨none, rfl⟩
  | some reference =>
    have own : reference ∈ c.parents := by simp [ClassDecl.parents, inherits]
    obtain ⟨found, read⟩ := happens.looksUp own
    cases found with
    | none => exact .inl ⟨_, Eval.bind_of_error read, .undefined own read⟩
    | some value =>
      have refused (other : ∀ id, value ≠ .classRef id) :
          c.Refused m ⟨reference.name.line, .superclassNotClass⟩ _ :=
        .superclass inherits read other
      cases value with
      | classRef id => exact .inr ⟨some id, Eval.bind_of_ok read⟩
      | _ => exact .inl ⟨_, Eval.bind_of_ok read, refused nofun⟩

theorem Happens.traitsOf (happens : Happens depth world steps (.execute (.classDecl c)) m)
    (n : Nat) {traits : List Reference} (own : traits ⊆ c.traits) :
    (∃ e, (engine n).traitsOf traits m = .error (.error e) m ∧ c.Refused m e e.cause.message) ∨
      ∃ ids, (engine n).traitsOf traits m = .ok ids m := by
  induction traits with
  | nil => exact .inr ⟨[], rfl⟩
  | cons reference traits ih =>
    obtain ⟨mixes, own⟩ := List.cons_subset.mp own
    obtain ⟨found, read⟩ := happens.looksUp (List.mem_append_right _ mixes)
    cases found with
    | none =>
      exact .inl ⟨_, Eval.bind_of_error read, .undefined (List.mem_append_right _ mixes) read⟩
    | some value =>
      have refused (other : ∀ id, value ≠ .traitRef id) :
          c.Refused m ⟨reference.name.line, .notTrait⟩ _ := .trait mixes read other
      cases value with
      | traitRef id =>
        obtain ⟨e, failed, refused⟩ | ⟨ids, found⟩ := ih own
        · exact .inl ⟨e, (Eval.bind_of_ok read).trans (Eval.bind_of_error failed), refused⟩
        · exact .inr ⟨id :: ids, (Eval.bind_of_ok read).trans (Eval.bind_of_ok found)⟩
      | _ => exact .inl ⟨_, Eval.bind_of_ok read, refused nofun⟩

end

namespace Engine

theorem closes_classOf {c : ClassDecl} {name : String}
    (found : (classOf c superclass traits scope).methods[name]? = some method ∨
      (classOf c superclass traits scope).statics[name]? = some method) :
    method.closure.parent = scope := by
  obtain found | found := found
  · obtain ⟨_, listed, rfl⟩ := Methods.mem_of_ofList found
    obtain ⟨f, -, rfl⟩ := List.mem_map.mp listed
    rfl
  · obtain ⟨_, listed, rfl⟩ := Methods.mem_of_ofList found
    obtain ⟨f, -, rfl⟩ := List.mem_map.mp listed
    rfl

end Engine

namespace Scopes

/-- Scopes are the same if each of them is. -/
theorem ext_get? {s s' : Scopes} (same : ∀ id, s.get? id = s'.get? id) : s = s' := by
  obtain ⟨entries⟩ := s
  obtain ⟨entries'⟩ := s'
  congr 1
  apply Array.ext_getElem?
  intro index
  exact same ⟨index⟩

/-- What a slot has held at first is forgotten when it is overwritten. -/
theorem put_define {s : Scopes} {id : ScopeId} (found : s.get? id = some scope) (name : String)
    (value value' : Value) :
    (s.define id name value).put id scope.slots.size value' = s.define id name value' := by
  apply ext_get?
  intro other
  have last : (scope.slots.push ⟨name, value⟩).modify scope.slots.size
      (fun slot => ⟨slot.name, value'⟩) = scope.slots.push ⟨name, value'⟩ := by
    apply Array.ext_getElem?
    intro index
    rw [Array.getElem?_modify, Array.getElem?_push, Array.getElem?_push]
    by_cases last : index = scope.slots.size
    · simp [last]
    · simp [last, Ne.symm last]
  rw [get?_put, get?_define, get?_define, get?_define, if_pos rfl, found]
  by_cases same : other = id <;> simp [same, last]

theorem ne_nextId {s : Scopes} {id : ScopeId} (found : s.get? id = some scope) :
    id ≠ s.nextId := by
  rintro rfl
  rw [get?_nextId] at found
  cases found

theorem put_opened {s : Scopes} {id : ScopeId} (old : id ≠ s.nextId) (index : Nat) (value : Value)
    (parent : Option ScopeId) (slots : List (String × Value)) :
    (s.opened parent slots).put id index value = (s.put id index value).opened parent slots := by
  have next : (s.put id index value).nextId = s.nextId := congrArg ScopeId.mk (size_put ..)
  apply ext_get?
  intro other
  rw [get?_put, get?_opened, get?_opened, get?_opened, if_neg old, next, get?_put]
  by_cases same : other = id
  · subst same
    rw [if_pos rfl, if_neg old, if_pos rfl]
  · rw [if_neg same, if_neg same]

/-- The scopes of the methods of a class: those there are, and one for the superclass. -/
def withSuper (s : Scopes) (active : Option ScopeId) : Option ClassId → Scopes
  | none => s
  | some parent => s.opened active [("super", .classRef parent)]

theorem put_withSuper {s : Scopes} {id : ScopeId} (old : id ≠ s.nextId) (index : Nat)
    (value : Value) (active : Option ScopeId) (superclass : Option ClassId) :
    (s.withSuper active superclass).put id index value =
      (s.put id index value).withSuper active superclass := by
  cases superclass with
  | none => rfl
  | some parent => exact put_opened old index value active _

theorem get?_withSuper {s : Scopes} {id : ScopeId} (found : s.get? id = some scope)
    (active : Option ScopeId) (superclass : Option ClassId) :
    (s.withSuper active superclass).get? id = some scope := by
  cases superclass with
  | none => exact found
  | some parent => rw [withSuper, get?_opened, if_neg (ne_nextId found), found]

theorem nextId_define (s : Scopes) (id : ScopeId) (name : String) (value : Value) :
    (s.define id name value).nextId = s.nextId := congrArg ScopeId.mk (size_define ..)

/-- A variable may as well get its final value when it is declared. -/
theorem put_declared {s : Scopes} {id : ScopeId} (found : s.get? id = some scope) (name : String)
    (value value' : Value) (active : Option ScopeId) (superclass : Option ClassId) :
    ((s.define id name value).withSuper active superclass).put id
        ((s.define id name value).nextSlot id - 1) value' =
      (s.define id name value').withSuper active superclass := by
  have slot : (s.define id name value).nextSlot id - 1 = scope.slots.size := by
    simp [nextSlot, get?_define, found]
  have old : id ≠ (s.define id name value).nextId := by
    rw [nextId_define]
    exact ne_nextId found
  rw [put_withSuper old, slot, put_define found]

end Scopes

/-- The scope that the methods of a class lie in that is declared in this state. -/
def Machine.methodsIn (m : Machine) : Option ClassId → Option ScopeId
  | none => m.active
  | some _ => some m.store.scopes.nextId

/-- The state after a class has been made, with these scopes. -/
def Machine.withClass (m : Machine) (scopes : Scopes) (k : Class) : Machine :=
  { m with store := { m.store with scopes, classes := m.store.classes.push k } }

namespace Engine

theorem methodScope_eq (superclass : Option ClassId) (m : Machine) :
    methodScope superclass m = .ok (m.methodsIn superclass) { m with store :=
      { m.store with scopes := m.store.scopes.withSuper m.active superclass } } := by
  cases superclass with
  | none => rfl
  | some parent => rfl

theorem newClass_eq (k : Class) (m : Machine) : Eval.newClass k m =
    .ok (.classRef ⟨m.store.classes.size⟩) (m.withClass m.store.scopes k) := by
  change EStateM.Result.ok (Value.classRef ⟨(m.store.classes.push k).size - 1⟩) _ = _
  rw [Array.size_push, Nat.add_sub_cancel]
  rfl

theorem rebind_slot {m : Machine} {id : ScopeId} (active : m.active = some id) (index : Nat)
    (name : String) (value : Value) : Eval.rebind (.slot index) name value m =
      Eval.modifyScopes (·.put id index value) m :=
  Eval.bind_of_ok (activeScope_eq active)

/-- In a scope the class has one new slot, which holds `nil` at first. -/
theorem finishClass_slot {m : Machine} {id : ScopeId} (active : m.active = some id) (c : ClassDecl)
    (superclass : Option ClassId) (traits : List TraitId) :
    finishClass c superclass traits m = .ok () (m.withClass
      (((m.store.scopes.define id c.name.lexeme .nil).withSuper m.active superclass).put id
        ((m.store.scopes.define id c.name.lexeme .nil).nextSlot id - 1)
        (.classRef ⟨m.store.classes.size⟩))
      (classOf c superclass traits (m.methodsIn superclass))) := by
  let declared := m.store.scopes.define id c.name.lexeme .nil
  let m₁ := { m with store := { m.store with scopes := declared } }
  have declares : Eval.declare c.name.lexeme .nil m =
      .ok (.slot (declared.nextSlot id - 1)) m₁ := by
    unfold Eval.declare
    rw [Eval.bind_get, active]
    rfl
  have place : m₁.methodsIn superclass = m.methodsIn superclass := by
    cases superclass with
    | none => rfl
    | some parent => exact congrArg some (Scopes.nextId_define ..)
  unfold finishClass
  rw [Eval.bind_of_ok declares, Eval.bind_of_ok (methodScope_eq superclass m₁), place,
    Eval.bind_of_ok (newClass_eq _ _)]
  refine (rebind_slot ?_ _ _ _).trans rfl
  exact active

/-- At top level it has a global variable. -/
theorem finishClass_global {m : Machine} (active : m.active = none) (c : ClassDecl)
    (superclass : Option ClassId) (traits : List TraitId) :
    finishClass c superclass traits m = .ok () { m.withClass
        (m.store.scopes.withSuper m.active superclass)
        (classOf c superclass traits (m.methodsIn superclass)) with
      globals := (m.globals.insert c.name.lexeme .nil).insert c.name.lexeme
        (.classRef ⟨m.store.classes.size⟩) } := by
  let m₁ := { m with globals := m.globals.insert c.name.lexeme .nil }
  have declared : Eval.declare c.name.lexeme .nil m = .ok .global m₁ := by
    unfold Eval.declare
    rw [Eval.bind_get, active]
    rfl
  unfold finishClass
  rw [Eval.bind_of_ok declared, Eval.bind_of_ok (methodScope_eq superclass m₁),
    Eval.bind_of_ok (newClass_eq _ _)]
  cases superclass with
  | none => rfl
  | some parent => rfl

end Engine

theorem Machine.OpensFor.of_withSuper {m m' : Machine} {s : Scopes}
    (size : s.entries.size = m.store.scopes.entries.size) (superclass : Option ClassId)
    (scopes : m'.store.scopes = s.withSuper m.active superclass) :
    m.OpensFor m' superclass (m.methodsIn superclass) := by
  cases superclass with
  | none =>
    apply OpensFor.outside
    rw [scopes, ← size]
    rfl
  | some parent =>
    have next : s.nextId = m.store.scopes.nextId := congrArg ScopeId.mk size
    apply OpensFor.inside
    · rw [scopes, ← size]
      exact Scopes.size_opened ..
    · rw [scopes, Scopes.withSuper, Scopes.get?_opened, if_pos next.symm]
      rfl

/-- Once all that it refers to has been found, a class is declared. -/
theorem finishClass_completes {m : Machine}
    (live : ∀ id, m.active = some id → m.store.scopes.get? id ≠ none)
    (c : ClassDecl) (superclass : Option ClassId) (traits : List TraitId) :
    ∃ m', Engine.finishClass c superclass traits m = .ok () m' ∧
      m.OpensFor m' superclass (m.methodsIn superclass) ∧
      m.Gains c.name.lexeme (Engine.classOf c superclass traits (m.methodsIn superclass)) m' := by
  cases active : m.active with
  | none =>
    refine ⟨_, Engine.finishClass_global active c superclass traits,
      .of_withSuper rfl superclass rfl, rfl, fun other => ?_, fun id scope found => ?_, live⟩
    · by_cases same : c.name.lexeme = other <;> simp [active, same, Std.TreeMap.getElem?_insert]
    · rw [if_neg (by simp [active])]
      exact Scopes.get?_withSuper found m.active superclass
  | some id =>
    obtain ⟨scope, found⟩ := Option.ne_none_iff_exists'.mp (live id active)
    have finished := Engine.finishClass_slot active c superclass traits
    rw [Scopes.put_declared found] at finished
    refine ⟨_, finished, .of_withSuper (Scopes.size_define ..) superclass rfl, rfl,
      fun other => ?_, fun other scope' there => ?_, live⟩
    · simp [active, Machine.withClass]
    · apply Scopes.get?_withSuper
      rw [Scopes.get?_define]
      by_cases same : other = id
      · subst same
        rw [if_pos rfl, if_pos active, there]
        rfl
      · rw [if_neg same, if_neg (by simpa [active] using Ne.symm same), there]

theorem Eval.bind_congr {p q : Eval α} {f g : α → Eval β} (first : p m = q m)
    (later : ∀ a m', q m = .ok a m' → f a m' = g a m') : (p >>= f) m = (q >>= g) m := by
  cases ran : q m with
  | ok a m' =>
    rw [Eval.bind_of_ok (first.trans ran), Eval.bind_of_ok ran]
    exact later a m' ran
  | error halt m' => rw [Eval.bind_of_error (first.trans ran), Eval.bind_of_error ran]

namespace Engine

variable {E : Engine} {m : Machine}

theorem superclassOf_congr (n : Nat) {parent : Option Reference}
    (reads : ∀ r ∈ parent.toList, E.read r m = Eval.readVariable r m) :
    E.superclassOf parent m = (engine n).superclassOf parent m := by
  cases parent with
  | none => rfl
  | some reference =>
    exact Eval.bind_congr (reads reference (List.mem_singleton_self _)) fun _ _ _ => rfl

theorem traitsOf_congr (n : Nat) {traits : List Reference}
    (reads : ∀ r ∈ traits, E.read r m = Eval.readVariable r m) :
    E.traitsOf traits m = (engine n).traitsOf traits m := by
  induction traits with
  | nil => rfl
  | cons reference traits ih =>
    obtain ⟨here, reads⟩ := List.forall_mem_cons.mp reads
    apply Eval.bind_congr here
    intro value m' read
    obtain rfl := Eval.readVariable_ok read
    cases value with
    | traitRef id => exact Eval.bind_congr (ih reads) fun _ _ _ => rfl
    | _ => rfl

/-- All that a declaration asks of an engine is to look up what it refers to. -/
theorem declareClass_congr (n : Nat) {c : ClassDecl}
    (reads : ∀ r ∈ c.parents, E.read r m = Eval.readVariable r m) :
    E.declareClass c m = (engine n).declareClass c m := by
  obtain ⟨inherits, mixes⟩ := List.forall_mem_append.mp reads
  apply Eval.bind_congr (superclassOf_congr n inherits)
  intro superclass m' inherits
  obtain ⟨rfl, -⟩ := superclassOf_ok inherits
  exact Eval.bind_congr (traitsOf_congr n mixes) fun _ _ _ => rfl

end Engine

section

variable {depth : Nat} {world : World} {steps : List HostStep} {c : ClassDecl} {m : Machine}

/-- What happens while a class is being declared. -/
def ClassDecl.Asks (c : ClassDecl) (event : Event) : Prop :=
  event = .execute (.classDecl c) ∨ ∃ reference ∈ c.parents, event = .read reference

/-- A declaration looks up what it refers to, in the state in which it starts, and does nothing else
that is ever watched. -/
theorem class_declaration_misses (n : Nat) (event : Event) {m' : Machine}
    (other : ¬ (c.Asks event ∧ m' = m)) :
    Watched.Misses (fun i => (Watched.engineOf (n + 1) i).execute (.classDecl c)) m event m' := by
  rw [Watched.engineOf_execute]
  intro complaint
  let w := Watch.forbid event m' complaint
  have allowed (event' : Event) (asks : c.Asks event') : w.allows event' m := by
    rintro ⟨rfl, rfl⟩
    exact other ⟨asks, rfl⟩
  have reads (r) (own : r ∈ c.parents) :
      (Watched.engineOf n (some w)).read r m = Eval.readVariable r m := by
    have read := congrFun (Watched.engineOf_read n r) (some w)
    exact (congrFun read m).trans (Watch.guard_of_allowed (allowed _ (.inr ⟨r, own, rfl⟩)))
  have same : (Watched.engineOf n (some w)).executeRule (.classDecl c) m =
      (engine n).executeRule (.classDecl c) m :=
    Eval.bind_congr (Engine.declareClass_congr n reads) fun _ _ _ => rfl
  exact (Watch.guard_of_allowed (allowed _ (.inl rfl))).trans same

theorem Happens.declareClass (happens : Happens depth world steps (.execute (.classDecl c)) m)
    (n : Nat) :
    (∃ e, (engine n).declareClass c m = .error (.error e) m ∧ c.Refused m e e.cause.message) ∨
      ∃ k scope m', (engine n).declareClass c m = .ok () m' ∧
        c.Completes (Happens depth world steps) m k scope m' := by
  rw [Engine.declareClass_eq]
  obtain ⟨e, failed, refused⟩ | ⟨superclass, inherits⟩ := happens.superclassOf n
  · exact .inl ⟨e, Eval.bind_of_error failed, refused⟩
  rw [Eval.bind_of_ok inherits]
  obtain ⟨e, failed, refused⟩ | ⟨traits, mixes⟩ := happens.traitsOf n (List.Subset.refl c.traits)
  · exact .inl ⟨e, Eval.bind_of_error failed, refused⟩
  rw [Eval.bind_of_ok mixes]
  -- From here on nothing fails, since the scope that is active exists.
  obtain ⟨w, context, r, rfl, -, within⟩ := happens.placed
  obtain ⟨m', completes, opens, gains⟩ := finishClass_completes within.live c superclass traits
  obtain ⟨-, parent⟩ := superclassOf_ok inherits
  obtain ⟨-, mixed⟩ := traitsOf_ok mixes
  exact .inr ⟨_, _, m', completes, rfl, rfl, ⟨happens, parent, mixed, rfl, rfl⟩,
    fun _ _ => Engine.closes_classOf, opens, gains⟩

/-- Wherever a session executes a class declaration, it fails and has changed nothing, or it
completes and the class has been bound to its name. All that happens meanwhile happens in the state
before. -/
theorem class_declared_whole_or_not
    (happens : Happens depth world steps (.execute (.classDecl c)) m) (n : Nat) :
    ((∃ e, execute (n + 1) (.classDecl c) m = .error (.error e) m ∧
        c.Refused m e e.cause.message) ∨
      ∃ k scope m', execute (n + 1) (.classDecl c) m = .ok .normal m' ∧
        c.Completes (Happens depth world steps) m k scope m') ∧
    ∀ event m', ¬ (c.Asks event ∧ m' = m) →
      Watched.Misses (fun i => (Watched.engineOf (n + 1) i).execute (.classDecl c)) m event m' := by
  refine ⟨?_, fun event m' other => class_declaration_misses n event other⟩
  obtain ⟨e, failed, refused⟩ | ⟨k, scope, m', declared, completes⟩ := happens.declareClass n
  · exact .inl ⟨e, Eval.bind_of_error failed, refused⟩
  · exact .inr ⟨k, scope, m', Eval.bind_of_ok declared, completes⟩

end

def localSubclass : List HostStep :=
  [.run "trait T \x7b a(); \x7d
    class A \x7b\x7d
    \x7b class B < A with T \x7b a() \x7b\x7d class b() \x7b\x7d \x7d \x7d"]

/-- A subclass is declared in a scope, and its declaration comes to its end. -/
def declaresLocalSubclass : Event → Machine → Bool
  | .execute (.classDecl c), m =>
    match c.superclass, m.active, execute 12 (.classDecl c) m with
    | some _, some _, .ok .normal _ => true
    | _, _, _ => false
  | _, _ => false

theorem localSubclass_declared : ∃ c m k scope m',
    Happens 12 {} localSubclass (.execute (.classDecl c)) m ∧ m.active ≠ none ∧
    c.superclass ≠ none ∧ execute 12 (.classDecl c) m = .ok .normal m' ∧
    c.Completes (Happens 12 {} localSubclass) m k scope m' ∧
    ∀ event m', ¬ (c.Asks event ∧ m' = m) →
      Watched.Misses (fun i => (Watched.engineOf 12 i).execute (.classDecl c)) m event m' := by
  obtain ⟨event, m, passes, happens⟩ := happens_of_detects
    (show detects 12 {} localSubclass declaresLocalSubclass = true by decide +kernel)
  unfold declaresLocalSubclass at passes
  split at passes
  · split at passes
    · rename_i inherits active completes
      obtain ⟨⟨e, failed, -⟩ | ⟨k, scope, m', declared, completed⟩, missed⟩ :=
        class_declared_whole_or_not happens 11
      · rw [completes] at failed
        cases failed
      · exact ⟨_, m, k, scope, m', happens, by simp [active], by simp [inherits], declared,
          completed, missed⟩
    · cases passes
  · cases passes

end Lox
