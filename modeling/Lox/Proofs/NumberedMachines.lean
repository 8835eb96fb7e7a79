import Lox.Proofs.CoherentRuns

/-! The references that a machine of a session holds have been numbered by it, and no other number
has an address. -/

namespace Lox

/-- All references that a machine holds have been numbered, and only they have addresses. -/
structure Machine.Numbered (m : Machine) : Prop where
  functions : ∀ f ∈ m.store.functions, ∀ r ∈ Reference.inFunction true f.declaration,
    r.id < m.nextNode
  methods : ∀ method, m.store.Has method →
    ∀ r ∈ Reference.inFunction true method.closure.declaration, r.id < m.nextNode
  unused : ∀ id, m.nextNode ≤ id → m.registry.addresses[id]? = none

theorem Known.counted (known : Known past m p) :
    ∀ r ∈ p.part.references true, r.id < m.nextNode := by
  obtain ⟨root, top, loaded, path, -, inner⟩ := known
  exact fun r member => loaded.counted r ((path.trans inner).fewer member)

theorem Coherent.numbered (coherent : Coherent past plan m) : m.Numbered := by
  refine ⟨fun f member => ?_, fun method has => ?_, coherent.unused⟩
  · obtain ⟨kind, context, r, known, -⟩ := coherent.functions f member
    exact known.counted
  · obtain ⟨⟨kind, context, r, known, -⟩, -⟩ := coherent.methods method has
    exact known.counted

/-- A host never sees a machine in any other state. -/
theorem session_numbered (ran : (engine depth).session steps (.fresh world) = .ok () m) :
    m.Numbered := by
  have outcome := (session_steps depth world steps .noScope).2
  rw [ran] at outcome
  obtain ⟨w, rfl, -⟩ := outcome
  exact w.coherent.numbered

end Lox
