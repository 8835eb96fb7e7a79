import Lox.Proofs.Links
import Mathlib.Data.List.Forall2

/-!
How the objects of a machine have come about. A class and a trait are made by executing their
declarations, an instance is made for some class, and a field is set by evaluating an assignment to
it. Nothing else ever happens to classes, traits and instances, so a field holds what was last
assigned to it, and the methods of a class are those of its declaration.
-/

namespace Lox

/-- Classes, traits and instances are the same in both stores. -/
structure Store.SameObjects (s s' : Store) : Prop where
  classes : s'.classes = s.classes
  traits : s'.traits = s.traits
  instances : s'.instances = s.instances

theorem Store.SameObjects.refl (s : Store) : s.SameObjects s := ⟨rfl, rfl, rfl⟩

theorem Eval.activeScope_ok {id : ScopeId} (ran : Eval.activeScope m = .ok id m') : m = m' := by
  unfold Eval.activeScope at ran
  rw [Eval.bind_get] at ran
  cases active : m.active with
  | none =>
    rw [active] at ran
    cases ran
  | some id' =>
    rw [active] at ran
    cases ran
    rfl

theorem Eval.lift_ok {result : Except Violation α} (ran : Eval.lift result m = .ok a m') :
    m = m' := by
  cases result with
  | error v => cases ran
  | ok b =>
    cases ran
    rfl

theorem Eval.orUndefined_ok {found : Option α} (ran : Eval.orUndefined name found m = .ok a m') :
    m = m' := by
  cases found with
  | none => cases ran
  | some b =>
    cases ran
    rfl

/-- Reading a variable leaves the machine as it is. -/
theorem Eval.readVariable_ok (ran : Eval.readVariable reference m = .ok value m') : m = m' := by
  obtain ⟨found, m₁, looked, looks⟩ := Eval.bind_eq_ok ran
  cases looked
  cases recorded : m.registry.addresses[reference.id]? with
  | none =>
    rw [recorded] at looks
    exact Eval.orUndefined_ok looks
  | some address =>
    rw [recorded] at looks
    obtain ⟨slot, m₂, reads, ends⟩ := Eval.bind_eq_ok looks
    obtain ⟨id, m₃, active, lifts⟩ := Eval.bind_eq_ok reads
    obtain rfl := Eval.activeScope_ok active
    obtain rfl := Eval.lift_ok lifts
    exact Eval.orUndefined_ok ends

/-- The superclass of a class is the one that its reference stands for. -/
theorem superclassOf_ok (ran : (engine depth).superclassOf parent m = .ok found m') : m = m' ∧
    (parent.map fun reference => Eval.readVariable reference m) =
      found.map fun id => .ok (.classRef id) m := by
  cases parent with
  | none =>
    cases ran
    exact ⟨rfl, rfl⟩
  | some reference =>
    obtain ⟨value, m₁, read, ends⟩ := Eval.bind_eq_ok ran
    obtain rfl := Eval.readVariable_ok read
    cases value with
    | classRef id =>
      cases ends
      exact ⟨rfl, congrArg some read⟩
    | _ => cases ends

/-- The traits of a class are those that its references stand for. -/
theorem traitsOf_ok {ts : List Reference} (ran : (engine depth).traitsOf ts m = .ok ids m') :
    m = m' ∧ List.Forall₂ (fun t id => Eval.readVariable t m = .ok (.traitRef id) m) ts ids := by
  induction ts generalizing ids with
  | nil =>
    cases ran
    exact ⟨rfl, .nil⟩
  | cons t ts ih =>
    obtain ⟨value, m₁, read, goesOn⟩ := Eval.bind_eq_ok ran
    obtain rfl := Eval.readVariable_ok read
    cases value with
    | traitRef id =>
      obtain ⟨rest, m₂, others, ends⟩ := Eval.bind_eq_ok goesOn
      cases ends
      obtain ⟨rfl, mixed⟩ := ih others
      exact ⟨rfl, .cons read mixed⟩
    | _ => cases goesOn

theorem declare_same (ran : Eval.declare name value m = .ok binding m') :
    m.store.SameObjects m'.store := by
  unfold Eval.declare at ran
  rw [Eval.bind_get] at ran
  cases active : m.active with
  | none =>
    rw [active] at ran
    cases ran
    exact .refl _
  | some id =>
    rw [active] at ran
    cases ran
    exact ⟨rfl, rfl, rfl⟩

theorem methodScope_same (ran : Engine.methodScope parent m = .ok scope m') :
    m.store.SameObjects m'.store := by
  cases parent with
  | none =>
    cases ran
    exact .refl _
  | some id =>
    cases ran
    exact ⟨rfl, rfl, rfl⟩

theorem rebind_same (ran : Eval.rebind binding name value m = .ok () m') :
    m.store.SameObjects m'.store := by
  cases binding with
  | slot index =>
    obtain ⟨id, m₁, active, puts⟩ := Eval.bind_eq_ok ran
    obtain rfl := Eval.activeScope_ok active
    cases puts
    exact ⟨rfl, rfl, rfl⟩
  | global =>
    cases ran
    exact .refl _

/-- The class is one that executing the declaration in this state makes. Its methods close over the
given scope. -/
structure Class.MadeBy (past : History) (k : Class) (c : ClassDecl) (scope : Option ScopeId)
    (m : Machine) : Prop where
  happens : past (.execute (.classDecl c)) m
  superclass : (c.superclass.map fun reference => Eval.readVariable reference m) =
    k.superclass.map fun id => .ok (.classRef id) m
  traits : List.Forall₂ (fun reference id => Eval.readVariable reference m = .ok (.traitRef id) m)
    c.traits k.traits
  methods : k.methods =
    .ofList (c.methods.map fun f => Engine.methodEntry scope f.function f.isGetter)
  statics : k.statics = .ofList (c.statics.map fun f => Engine.methodEntry scope f false)

/-- The trait is one that executing the declaration in this state makes. -/
structure Trait.MadeBy (past : History) (t : Trait) (d : TraitDecl) (scope : Option ScopeId)
    (m : Machine) : Prop where
  happens : past (.execute (.traitDecl d)) m
  methods : t.methods = .ofList (d.defaults.map fun f => (f.title, ⟨⟨f, scope, false⟩, false⟩))

/-- A field was set on an object. -/
structure Assignment where
  object : Value
  name : String
  value : Value

/-- The second store has come about from the first by these assignments, the latest first. Each of
them belongs to an expression that was evaluated: first its object, then its value. Besides, classes
and traits have been declared and instances created. -/
inductive Course (past : History) (start : Store) : List Assignment → Store → Prop where
  | refl : Course past start [] start
  | other (before : Course past start log s) (same : s.SameObjects s') : Course past start log s'
  | declaredClass (before : Course past start log s) (made : Class.MadeBy past k c scope m)
      (place : m.store.classes.size = s.classes.size) (new : k.fields = {}) :
      Course past start log { s with classes := s.classes.push k }
  | declaredTrait (before : Course past start log s) (made : Trait.MadeBy past t d scope m)
      (place : m.store.traits.size = s.traits.size) :
      Course past start log { s with traits := s.traits.push t }
  | created (before : Course past start log s) (descriptor : Descriptor) :
      Course past start log { s with instances := s.instances.push { descriptor } }
  | assigned (before : Course past start log m₂.store)
      (happens : past (.evaluate (.setProperty object name value)) m)
      (first : evaluate depth object m = .ok o m₁) (second : evaluate depth value m₁ = .ok v m₂)
      (present : m₂.store.descriptor? o ≠ none) :
      Course past start (⟨o, name.lexeme, v⟩ :: log) (m₂.store.setField o name.lexeme v)

/-- The store has come about by these assignments from nothing. -/
abbrev Chronicle (past : History) (log : List Assignment) (s : Store) : Prop :=
  Course past {} log s

theorem Fields.getElem?_insert (fields : Fields) (name name' : String) (value : Value) :
    (fields.insert name value)[name']? = if name = name' then some value else fields[name']? := by
  by_cases same : name = name' <;> simp [Std.TreeMap.getElem?_insert, same]

namespace Store

theorem SameObjects.field? {s s' : Store} (same : s.SameObjects s') (object : Value)
    (name : String) : s'.field? object name = s.field? object name := by
  cases object <;> simp [Store.field?, fields?, classAt?, instanceAt?, same.classes, same.instances]

/-- A new object has no fields yet. -/
theorem field?_newClass {k : Class} (new : k.fields = {}) (s : Store) (object : Value)
    (name : String) :
    ({ s with classes := s.classes.push k } : Store).field? object name =
      s.field? object name := by
  cases object with
  | classRef id =>
    by_cases last : id.index = s.classes.size
    · simp [Store.field?, fields?, classAt?, last, new]
    · simp [Store.field?, fields?, classAt?, Array.getElem?_push, last]
  | _ => rfl

theorem field?_newInstance (descriptor : Descriptor) (s : Store) (object : Value)
    (name : String) :
    ({ s with instances := s.instances.push { descriptor } } : Store).field? object name =
      s.field? object name := by
  cases object with
  | instanceRef id =>
    by_cases last : id.index = s.instances.size
    · simp [Store.field?, fields?, instanceAt?, last]
    · simp [Store.field?, fields?, instanceAt?, Array.getElem?_push, last]
  | _ => rfl

/-- A field is set on one object and under one name. -/
theorem field?_setField {s : Store} {object : Value} (present : s.descriptor? object ≠ none)
    (name : String) (value other : Value) (name' : String) :
    (s.setField object name value).field? other name' =
      if object = other ∧ name = name' then some value else s.field? other name' := by
  by_cases same : object = other
  · subst same
    cases object with
    | classRef id =>
      obtain ⟨k, found⟩ : ∃ k, s.classAt? id = some k := by
        cases found : s.classAt? id <;> simp_all [descriptor?]
      simp only [classAt?] at found
      simp [setField, Store.field?, fields?, classAt?, Array.getElem?_modify, found,
        Fields.getElem?_insert]
    | instanceRef id =>
      obtain ⟨i, found⟩ : ∃ i, s.instanceAt? id = some i := by
        cases found : s.instanceAt? id <;> simp_all [descriptor?]
      simp only [instanceAt?] at found
      simp [setField, Store.field?, fields?, instanceAt?, Array.getElem?_modify, found,
        Fields.getElem?_insert]
    | _ => exact absurd rfl present
  · rw [if_neg (fun both => same both.1)]
    cases object with
    | classRef id =>
      cases other with
      | classRef id' =>
        have apart : id.index ≠ id'.index := fun equal => same (by
          cases id
          cases id'
          cases equal
          rfl)
        simp [setField, Store.field?, fields?, classAt?, Array.getElem?_modify, apart]
      | _ => rfl
    | instanceRef id =>
      cases other with
      | instanceRef id' =>
        have apart : id.index ≠ id'.index := fun equal => same (by
          cases id
          cases id'
          cases equal
          rfl)
        simp [setField, Store.field?, fields?, instanceAt?, Array.getElem?_modify, apart]
      | _ => rfl
    | _ => rfl

/-- Setting a field changes nothing but fields. -/
theorem classAt?_setField (s : Store) (object : Value) (name : String) (value : Value)
    (id : ClassId) :
    ∃ f : Fields → Fields, (s.setField object name value).classAt? id =
      (s.classAt? id).map fun k => { k with fields := f k.fields } := by
  cases object with
  | classRef id' =>
    by_cases same : id'.index = id.index
    · exact ⟨(·.insert name value), by simp [setField, classAt?, Array.getElem?_modify, same]⟩
    · exact ⟨fun fields => fields, by simp [setField, classAt?, Array.getElem?_modify, same]⟩
  | _ => exact ⟨fun fields => fields, by simp [setField, classAt?]⟩

theorem traitAt?_setField (s : Store) (object : Value) (name : String) (value : Value)
    (id : TraitId) : (s.setField object name value).traitAt? id = s.traitAt? id := by
  cases object <;> rfl

theorem descriptor?_setField (s : Store) (object : Value) (name : String) (value other : Value) :
    (s.setField object name value).descriptor? other = s.descriptor? other := by
  cases other with
  | classRef id =>
    obtain ⟨f, same⟩ := s.classAt?_setField object name value id
    simp only [descriptor?, same, Option.map_map]
    rfl
  | instanceRef id =>
    cases object with
    | instanceRef id' =>
      simp only [setField, descriptor?, instanceAt?, Array.getElem?_modify]
      split
      · simp only [Option.map_map]
        rfl
      · rfl
    | _ => rfl
  | _ => rfl

end Store

/-- The value that was last assigned to a field. -/
def lastAssigned (log : List Assignment) (object : Value) (name : String) : Option Value :=
  (log.find? fun a => a.object = object ∧ a.name = name).map Assignment.value

theorem lastAssigned_cons (a : Assignment) (log : List Assignment) (object : Value)
    (name : String) : lastAssigned (a :: log) object name =
      if a.object = object ∧ a.name = name then some a.value else lastAssigned log object name := by
  by_cases last : a.object = object ∧ a.name = name
  · simp [lastAssigned, last]
  · rw [lastAssigned, List.find?_cons_of_neg (by simpa using last), if_neg last]
    rfl

namespace Course

variable {past past' : History} {log new : List Assignment} {start s s' : Store}

/-- A field holds what was last assigned to it, or else what it held at the start. -/
theorem field? (course : Course past start log s) (object : Value) (name : String) :
    s.field? object name = (lastAssigned log object name).or (start.field? object name) := by
  induction course with
  | refl => rfl
  | other _ same ih => exact (same.field? object name).trans ih
  | declaredClass _ _ _ new ih => exact (Store.field?_newClass new _ object name).trans ih
  | declaredTrait _ _ _ ih => exact ih
  | created _ descriptor ih => exact (Store.field?_newInstance descriptor _ object name).trans ih
  | assigned _ _ _ _ present ih =>
    rw [Store.field?_setField present, ih, lastAssigned_cons]
    split
    · rfl
    · rfl

/-- More may have happened besides. -/
theorem mono (course : Course past start log s) (more : ∀ event m, past event m → past' event m) :
    Course past' start log s := by
  induction course with
  | refl => exact .refl
  | other _ same ih => exact .other ih same
  | declaredClass _ made place new ih =>
    obtain ⟨happens, superclass, traits, methods, statics⟩ := made
    exact .declaredClass ih ⟨more _ _ happens, superclass, traits, methods, statics⟩ place new
  | declaredTrait _ made place ih =>
    exact .declaredTrait ih ⟨more _ _ made.happens, made.methods⟩ place
  | created _ descriptor ih => exact .created ih descriptor
  | assigned _ happens first second present ih =>
    exact .assigned ih (more _ _ happens) first second present

/-- Logs of successive stretches are put together. -/
theorem trans (first : Course past start log s) (second : Course past s new s') :
    Course past start (new ++ log) s' := by
  induction second with
  | refl => exact first
  | other _ same ih => exact .other ih same
  | declaredClass _ made place new ih => exact .declaredClass ih made place new
  | declaredTrait _ made place ih => exact .declaredTrait ih made place
  | created _ descriptor ih => exact .created ih descriptor
  | assigned _ happens first second present ih => exact .assigned ih happens first second present

end Course

theorem Chronicle.field? (chronicle : Chronicle past log s) (object : Value) (name : String) :
    s.field? object name = lastAssigned log object name := by
  have none : ({} : Store).field? object name = none := by cases object <;> rfl
  rw [Course.field? chronicle, none, Option.or_none]

/-- Every class and every trait was made by a declaration, which was executed when all older ones
were there. -/
structure Store.Declared (past : History) (s : Store) : Prop where
  classes : ∀ id k, s.classAt? id = some k → ∃ c scope m,
    Class.MadeBy past k c scope m ∧ m.store.classes.size = id.index
  traits : ∀ id t, s.traitAt? id = some t → ∃ d scope m,
    Trait.MadeBy past t d scope m ∧ m.store.traits.size = id.index

/-- Fields do not matter. -/
theorem Class.MadeBy.withFields {k : Class} (made : k.MadeBy past c scope m) (fields : Fields) :
    ({ k with fields } : Class).MadeBy past c scope m :=
  ⟨made.happens, made.superclass, made.traits, made.methods, made.statics⟩

theorem Chronicle.declared (chronicle : Chronicle past log s) : s.Declared past := by
  induction chronicle with
  | refl =>
    constructor
    · intro id k found
      simp [Store.classAt?] at found
    · intro id t found
      simp [Store.traitAt?] at found
  | other _ same ih =>
    constructor
    · intro id k found
      rw [Store.classAt?, same.classes] at found
      exact ih.classes id k found
    · intro id t found
      rw [Store.traitAt?, same.traits] at found
      exact ih.traits id t found
  | @declaredClass _ _ _ c scope m _ made place _ ih =>
    refine ⟨fun id k found => ?_, ih.traits⟩
    rcases of_getElem?_push found with old | ⟨last, rfl⟩
    · exact ih.classes id k old
    · exact ⟨c, scope, m, made, place.trans last.symm⟩
  | @declaredTrait _ _ _ d scope m _ made place ih =>
    refine ⟨ih.classes, fun id t found => ?_⟩
    rcases of_getElem?_push found with old | ⟨last, rfl⟩
    · exact ih.traits id t old
    · exact ⟨d, scope, m, made, place.trans last.symm⟩
  | created _ _ ih => exact ⟨ih.classes, ih.traits⟩
  | @assigned _ _ name _ _ _ o _ v last _ _ _ _ _ ih =>
    constructor
    · intro id k found
      obtain ⟨f, same⟩ := last.store.classAt?_setField o name.lexeme v id
      rw [same] at found
      obtain ⟨k, old, rfl⟩ := Option.map_eq_some_iff.mp found
      obtain ⟨c, scope, m, made, place⟩ := ih.classes id k old
      exact ⟨c, scope, m, made.withFields _, place⟩
    · intro id t found
      rw [Store.traitAt?_setField] at found
      exact ih.traits id t found

end Lox
