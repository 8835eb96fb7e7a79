import Lox.Proofs.CoherentRuns

/-! What resolution promises about sessions: a resolved variable is found under its own name, no
session breaks the contract between resolution and evaluation, and `this` and `super` stand for
what the text of the program says. -/

namespace Lox

/-- An initializer around a reference has been entered and has not come to a normal end: the scope
has no slot for its variable, which its declaration would have given it. -/
structure Unfinished (depth : Nat) (world : World) (steps : List HostStep) (reference : Reference)
    (target : ScopeId) (index : Nat) (name : Token) (value : Expr) (before : Machine) : Prop where
  named : name.lexeme = reference.name.lexeme
  inside : reference ∈ Reference.inExpr true value
  entered : Happens depth world steps (.execute (.varDecl name (some value))) before
  active : before.active = some target
  next : before.store.scopes.nextSlot target = index
  finishes : ∀ depth' after,
    execute depth' (.varDecl name (some value)) before = .ok .normal after →
    after.store.scopes.nextSlot target = index + 1

/-- What an access through an address does: it reaches the slot that bears its name, or it fails
because the variable has no slot yet. -/
inductive Access (depth : Nat) (world : World) (steps : List HostStep) (m : Machine)
    (reference : Reference) (target : ScopeId) (index : Nat) (scope : Scope) : Prop where
  | slot (slot : Slot) (found : scope.slots[index]? = some slot)
      (named : slot.name = reference.name.lexeme)
      (reads : Eval.readVariable reference m = .ok slot.value m)
      (writes : ∀ value, Eval.writeVariable reference value m =
        Eval.modifyScopes (·.put target index value) m)
  | unfinished (size : scope.slots.size = index)
      (declaration : ∃ name value before,
        Unfinished depth world steps reference target index name value before)
      (reads : Eval.readVariable reference m =
        Eval.fail reference.name.line (.undefinedVariable reference.name.lexeme) m)
      (writes : ∀ value, Eval.writeVariable reference value m =
        Eval.fail reference.name.line (.undefinedVariable reference.name.lexeme) m)

section

variable {depth : Nat} {world : World} {steps : List HostStep} {event : Event} {m : Machine}
  {reference : Reference} {address : Address}

theorem Happens.located (happens : Happens depth world steps event m)
    (accesses : event = .read reference ∨ ∃ value, event = .write reference value)
    (recorded : m.registry.addresses[reference.id]? = some address) :
    ∃ target scope, Located (Happens depth world steps) m.store.scopes m.active reference address
      target scope := by
  have placed : Placed (Happens depth world steps) m (.read reference) := by
    obtain rfl | ⟨value, rfl⟩ := accesses
    · exact happens.placed
    · exact happens.placed
  obtain ⟨w, p, rfl, known, stands, own⟩ := placed
  exact w.located known stands own recorded

/-- A declaration that ends normally has given its scope one more slot. -/
theorem Happens.declares
    (happens : Happens depth world steps (.execute (.varDecl name value)) before)
    (active : before.active = some target)
    (ends : execute depth' (.varDecl name value) before = .ok .normal after) :
    after.store.scopes.nextSlot target = before.store.scopes.nextSlot target + 1 := by
  obtain ⟨w, context, rfl, within, outcome⟩ := happens.placed.executes depth'
  have outcome := outcome .noScope
  rw [ends] at outcome
  obtain ⟨w', rfl, later, after⟩ := outcome
  obtain ⟨names, outer, rfl⟩ := within.nextSlot active
  obtain ⟨names', outer', same⟩ := (after rfl).nextSlot (later.active.trans active)
  exact (Layer.scope.inj (List.cons.inj same).1).2.1.symm

/-- A variable that is reached through a recorded address is the one that its token names, or it
is still to be declared and its initializer is running. -/
theorem resolved_access_agrees (happens : Happens depth world steps event m)
    (accesses : event = .read reference ∨ ∃ value, event = .write reference value)
    (recorded : m.registry.addresses[reference.id]? = some address) :
    ∃ id target scope, m.active = some id ∧
      m.store.scopes.ancestor? address.distance id = some target ∧
      m.store.scopes.get? target = some scope ∧
      Access depth world steps m reference target address.index scope := by
  obtain ⟨target, scope, ⟨id, active, reached⟩, found, slot⟩ := happens.located accesses recorded
  refine ⟨id, target, scope, active, reached, found, ?_⟩
  have reads := readVariable_address recorded active reached
  have writes := writeVariable_address recorded active reached
  rw [Scopes.slot?, found, Option.bind_some] at reads writes
  obtain ⟨slot, there, named⟩ | ⟨size, name, value, named, awaited, inside⟩ := slot
  · rw [there] at reads writes
    exact .slot slot there named reads writes
  · obtain ⟨before, entered, here, next⟩ := awaited
    have absent : scope.slots[address.index]? = none :=
      Array.getElem?_eq_none (Nat.le_of_eq size)
    rw [absent] at reads writes
    refine .unfinished size ⟨name, value, before, named, inside, entered, here, next, ?_⟩ reads
      writes
    intro depth' after ends
    rw [entered.declares here ends, next]

/-- A lambda in the initializer of `a` reads `a`, one scope further out. -/
def lambdaInInitializer : List HostStep :=
  [.run "\x7b var a = (fun () \x7b return a; \x7d)(); \x7d"]

theorem resolved_access_in_initializer : ∃ reference m,
    Happens 12 {} lambdaInInitializer (.read reference) m ∧
    m.registry.addresses[reference.id]? = some ⟨1, 0⟩ ∧
    ∃ id target scope, m.active = some id ∧ m.store.scopes.ancestor? 1 id = some target ∧
      m.store.scopes.get? target = some scope ∧
      Access 12 {} lambdaInInitializer m reference target 0 scope := by
  obtain ⟨event, m, passes, happens⟩ := happens_of_detects
    (show detects 12 {} lambdaInInitializer
      (fun
        | .read r, m => m.registry.addresses[r.id]? == some ⟨1, 0⟩
        | _, _ => false) = true by decide +kernel)
  cases event with
  | read reference =>
    have recorded : m.registry.addresses[reference.id]? = some ⟨1, 0⟩ := beq_iff_eq.mp passes
    exact ⟨reference, m, happens, recorded, resolved_access_agrees happens (.inl rfl) recorded⟩
  | evaluate | execute | write | bind | enter => cases passes

end

/-- So many scopes lie around one another, from the active one outwards. -/
inductive Scopes.Chain (s : Scopes) : Option ScopeId → Nat → Prop where
  | outermost : s.Chain none 0
  | inside {id : ScopeId} (found : s.get? id = some scope) (around : s.Chain scope.parent count) :
      s.Chain (some id) (count + 1)

theorem Fits.chain {context : Context} (fits : Fits past plan scopes context active) :
    scopes.Chain active context.length := by
  induction context generalizing active with
  | nil =>
    rw [show active = none from fits]
    exact .outermost
  | cons layer outer ih =>
    obtain ⟨id, scope, rfl, found, -, -, rest⟩ := fits
    exact .inside found (ih rest)

/-- The pass has as many scopes on its stack as there are around the place. -/
theorem Known.frames (known : Known past m p) (node : p.part.event? = some event) :
    p.resolver.frames.length = p.context.length := by
  obtain ⟨root, sited, -⟩ := known.sited
  obtain ⟨part, context, r⟩ := p
  have names : r.names = context.visible := by
    cases part with
    | expr e => exact sited.situated.1.names
    | stmt s => exact sited.situated.1.names
    | _ => cases node
  simpa [Resolver.names, Context.visible] using congrArg List.length names

section

variable {depth : Nat} {world : World} {steps : List HostStep} {event : Event} {m : Machine}

/-- An expression or a statement that is run has a place, and the active scope fits it. -/
theorem Happens.site (happens : Happens depth world steps event m)
    (node : (∃ e, event = .evaluate e) ∨ ∃ s, event = .execute s) :
    ∃ (w : Snapshot (Happens depth world steps)) (p : Site), w.machine = m ∧
      Known (Happens depth world steps) m p ∧ p.part.event? = some event ∧ w.Stands p.context := by
  obtain ⟨e, rfl⟩ | ⟨s, rfl⟩ := node
  · obtain ⟨w, context, r, same, known, stands⟩ := happens.placed
    exact ⟨w, _, same, known, rfl, stands⟩
  · obtain ⟨w, context, r, same, known, within⟩ := happens.placed
    exact ⟨w, _, same, known, rfl, within.fits⟩

end

/-- No session breaks the contract between resolution and evaluation, and whatever is run has as
many scopes around it as the pass had on its stack at that place. -/
theorem session_keeps_contract (depth : Nat) (world : World) (steps : List HostStep) :
    (∀ v m, (engine depth).session steps (.fresh world) ≠ .error (.violation v) m) ∧
    ∀ event m, Happens depth world steps event m →
      ((∃ e, event = .evaluate e) ∨ ∃ s, event = .execute s) →
      ∃ p, Known (Happens depth world steps) m p ∧ p.part.event? = some event ∧
        m.store.scopes.Chain m.active p.resolver.frames.length := by
  refine ⟨fun v m => ?_, fun event m happens node => ?_⟩
  · exact Outcome.not_violation fun complaint => (session_steps depth world steps complaint).2
  · obtain ⟨w, p, rfl, known, same, stands⟩ := happens.site node
    refine ⟨p, known, same, ?_⟩
    rw [known.frames same]
    exact stands.chain

/-- A `super` in a lambda in a method, four scopes deep. -/
def superInLambda : List HostStep :=
  [.run "class A \x7b m() \x7b return this; \x7d \x7d",
   .run "class B < A \x7b m() \x7b return fun () \x7b return super.m(); \x7d; \x7d \x7d",
   .evaluate "B().m()()"]

theorem superInLambda_happens : ∃ keyword name m,
    Happens 12 {} superInLambda (.evaluate (.superRef keyword name)) m := by
  obtain ⟨event, m, passes, happens⟩ := happens_of_detects
    (show detects 12 {} superInLambda
      (fun
        | .evaluate (.superRef _ _), _ => true
        | _, _ => false) = true by decide +kernel)
  split at passes
  · exact ⟨_, _, m, happens⟩
  · cases passes

theorem session_keeps_contract_in_lambda : ∃ keyword name m,
    Happens 12 {} superInLambda (.evaluate (.superRef keyword name)) m ∧
    ∃ p, Known (Happens 12 {} superInLambda) m p ∧
      p.part.event? = some (.evaluate (.superRef keyword name)) ∧
      m.store.scopes.Chain m.active p.resolver.frames.length := by
  obtain ⟨keyword, name, m, happens⟩ := superInLambda_happens
  exact ⟨keyword, name, m, happens,
    (session_keeps_contract 12 {} superInLambda).2 _ m happens (.inl ⟨_, rfl⟩)⟩

/-- A `this` stands for the receiver of the method that it is written in. A `super` names the class
that was the superclass when the class that it is written in was declared, and its method is read
from the same receiver. Nothing that is run changes what either of them stands for. -/
theorem this_and_super_are_static {depth : Nat} {world : World} {steps : List HostStep}
    {event : Event} {m : Machine} (happens : Happens depth world steps event m) :
    (∀ keyword, event = .evaluate (.thisRef keyword) → ∃ method distance this,
      keyword ∈ Reference.inFunction false method ∧
      Receives (Happens depth world steps) m method distance this ∧
      ∀ depth', evaluate (depth' + 1) (.thisRef keyword) m = .ok this m) ∧
    (∀ keyword name, event = .evaluate (.superRef keyword name) →
      ∃ method owner distance this parent,
        keyword ∈ Reference.inFunction false method ∧ method ∈ owner.members ∧
        Receives (Happens depth world steps) m method distance this ∧
        Inherited (Happens depth world steps) m owner (distance + 1) parent ∧
        ∀ depth', evaluate (depth' + 1) (.superRef keyword name) m =
          (match m.store.method? name.lexeme parent with
            | some found => (engine depth').readMethod found this
            | none => Eval.fail name.line (.undefinedProperty name.lexeme)) m) ∧
    (∀ e depth', event = .evaluate e → m.KeepsKeywords (left (evaluate depth' e m))) ∧
    ∀ s depth', event = .execute s → m.KeepsKeywords (left (execute depth' s m)) := by
  refine ⟨?_, ?_, ?_, ?_⟩
  · rintro keyword rfl
    obtain ⟨w, context, r, rfl, known, stands⟩ := happens.placed
    obtain ⟨method, distance, this, inside, receives, recorded⟩ := w.this known stands
    exact ⟨method, distance, this, inside, receives, fun _ => receives.read recorded⟩
  · rintro keyword name rfl
    obtain ⟨w, context, r, rfl, known, stands⟩ := happens.placed
    obtain ⟨method, owner, distance, this, parent, inside, member, receives, inherited, recorded⟩ :=
      w.super known stands
    exact ⟨method, owner, distance, this, parent, inside, member, receives, inherited,
      fun depth' => inherited.superMethod receives recorded (engine depth') name⟩
  · rintro e depth' rfl
    obtain ⟨w, rfl, outcome⟩ := happens.placed.evaluates depth'
    exact Outcome.keepsKeywords outcome
  · rintro s depth' rfl
    obtain ⟨w, context, rfl, -, outcome⟩ := happens.placed.executes depth'
    exact Outcome.keepsKeywords outcome

/-- The `super` in a lambda is that of the method around the lambda. -/
theorem super_in_lambda_is_static : ∃ keyword name m,
    Happens 12 {} superInLambda (.evaluate (.superRef keyword name)) m ∧
    ∃ method owner distance this parent,
      keyword ∈ Reference.inFunction false method ∧ method ∈ owner.members ∧
      Receives (Happens 12 {} superInLambda) m method distance this ∧
      Inherited (Happens 12 {} superInLambda) m owner (distance + 1) parent ∧
      ∀ depth', evaluate (depth' + 1) (.superRef keyword name) m =
        (match m.store.method? name.lexeme parent with
          | some found => (engine depth').readMethod found this
          | none => Eval.fail name.line (.undefinedProperty name.lexeme)) m := by
  obtain ⟨keyword, name, m, happens⟩ := superInLambda_happens
  exact ⟨keyword, name, m, happens, (this_and_super_are_static happens).2.1 keyword name rfl⟩

end Lox
