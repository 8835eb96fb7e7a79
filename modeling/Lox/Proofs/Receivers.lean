import Lox.Proofs.VariableSteps

/-! What `this` and `super` stand for at a place of a running program: the receiver that the method
around the place was bound to, and the superclass of the class around it. -/

namespace Lox

/-- The method was bound to this receiver, and the scope made then is so many links away. -/
structure Receives (past : History) (m : Machine) (method : FunctionDecl) (distance : Nat)
    (this : Value) : Prop where
  bound : ∃ f before id, past (.bind f this) before ∧ f.declaration = method ∧
    m.active = some id ∧
    m.store.scopes.ancestor? distance id = some before.store.scopes.nextId
  slot : Eval.slotValue ⟨distance, 0⟩ m = .ok (some this) m

/-- This was the superclass when the class was declared, and the scope made then is so many links
away. -/
structure Inherited (past : History) (m : Machine) (owner : ClassDecl) (distance : Nat)
    (parent : ClassId) : Prop where
  declared : ∃ reference before id, past (.execute (.classDecl owner)) before ∧
    owner.superclass = some reference ∧
    Eval.readVariable reference before = .ok (.classRef parent) before ∧ m.active = some id ∧
    m.store.scopes.ancestor? distance id = some before.store.scopes.nextId
  slot : Eval.slotValue ⟨distance, 0⟩ m = .ok (some (.classRef parent)) m

section

variable {past : History} {w : Snapshot past} {context : Context} {distance : Nat}

theorem Snapshot.Stands.receives (stands : w.Stands context)
    (layers : context[distance]? = some (.receiver method)) :
    ∃ this, Receives past w.machine method distance this := by
  obtain ⟨id, target, scope, active, reached, found, -, here⟩ := stands.at layers
  obtain ⟨f, this, before, happened, same, new, slot⟩ := here
  refine ⟨this, ⟨f, before, id, happened, same, active, new ▸ reached⟩, ?_⟩
  rw [slotValue_eq ⟨distance, 0⟩ active reached, Scopes.slot?, found,
    Option.bind_some, slot]
  rfl

theorem Snapshot.Stands.inherited (stands : w.Stands context)
    (layers : context[distance]? = some (.superclass owner)) :
    ∃ parent, Inherited past w.machine owner distance parent := by
  obtain ⟨id, target, scope, active, reached, found, -, here⟩ := stands.at layers
  obtain ⟨reference, parent, before, happened, same, read, new, slot⟩ := here
  refine ⟨parent, ⟨reference, before, id, happened, same, read, active, new ▸ reached⟩, ?_⟩
  rw [slotValue_eq ⟨distance, 0⟩ active reached, Scopes.slot?, found,
    Option.bind_some, slot]
  rfl

/-- A `this` belongs to the innermost method around it, and reading it does not fail. -/
theorem Snapshot.this (known : Known past w.machine ⟨.expr (.thisRef keyword), context, r⟩)
    (stands : w.Stands context) : ∃ method distance this,
      keyword ∈ Reference.inFunction false method ∧
      Receives past w.machine method distance this ∧
      w.machine.registry.addresses[keyword.id]? = some ⟨distance, 0⟩ := by
  obtain ⟨root, sited, kept⟩ := known.sited
  obtain ⟨method, distance, recorded, layers, inside⟩ := sited.this
  obtain ⟨this, receives⟩ := stands.receives layers
  exact ⟨method, distance, this, inside, receives,
    (kept keyword (List.mem_singleton_self keyword)).trans recorded⟩

/-- A `super` belongs to the class of the innermost method around it. -/
theorem Snapshot.super (known : Known past w.machine ⟨.expr (.superRef keyword name), context, r⟩)
    (stands : w.Stands context) : ∃ method owner distance this parent,
      keyword ∈ Reference.inFunction false method ∧ method ∈ owner.members ∧
      Receives past w.machine method distance this ∧
      Inherited past w.machine owner (distance + 1) parent ∧
      w.machine.registry.addresses[keyword.id]? = some ⟨distance + 1, 0⟩ := by
  obtain ⟨root, sited, kept⟩ := known.sited
  obtain ⟨method, owner, distance, recorded, receiver, superclass, inside, member⟩ := sited.super
  obtain ⟨this, receives⟩ := stands.receives receiver
  obtain ⟨parent, inherited⟩ := stands.inherited superclass
  exact ⟨method, owner, distance, this, parent, inside, member, receives, inherited,
    (kept keyword (List.mem_singleton_self keyword)).trans recorded⟩

end

section

variable {m : Machine} {keyword : Reference} {distance : Nat}

theorem Receives.read (receives : Receives past m method distance this)
    (recorded : m.registry.addresses[keyword.id]? = some ⟨distance, 0⟩) :
    Eval.readVariable keyword m = .ok this m := by
  unfold Eval.readVariable
  rw [Eval.bind_of_ok (address?_eq recorded)]
  exact Eval.bind_of_ok receives.slot

/-- The method is looked up in the superclass and read from the receiver. -/
theorem Inherited.superMethod (inherited : Inherited past m owner (distance + 1) parent)
    (receives : Receives past m method distance this)
    (recorded : m.registry.addresses[keyword.id]? = some ⟨distance + 1, 0⟩) (engine : Engine)
    (name : Token) : engine.superMethod keyword name m =
      (match m.store.method? name.lexeme parent with
        | some found => engine.readMethod found this
        | none => Eval.fail name.line (.undefinedProperty name.lexeme)) m := by
  have both : Engine.superAndThis keyword.name.line (distance + 1) m = .ok (parent, this) m := by
    unfold Engine.superAndThis
    rw [Eval.bind_of_ok inherited.slot]
    exact Eval.bind_of_ok receives.slot
  unfold Engine.superMethod
  rw [Eval.bind_of_ok (address?_eq recorded)]
  exact Eval.bind_of_ok both

end

end Lox
