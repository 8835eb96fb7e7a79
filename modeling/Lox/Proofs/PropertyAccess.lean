import Lox.Proofs.MethodOrder

/-! Access to properties is a lookup in two lists: what has been assigned to the object, the latest
first, and what its class offers, in order. Every run adds to the first list what is assigned in it,
one entry for each assignment to a property that is carried out, and leaves the second alone. -/

namespace Lox

/-- One property of one object has been set. -/
structure Store.Sets (object : Value) (name : String) (value : Value) (s s' : Store) : Prop where
  fields : ∀ other name', s'.field? other name' =
    if object = other ∧ name = name' then some value else s.field? other name'
  descriptors : ∀ other, s'.descriptor? other = s.descriptor? other
  methods : ∀ name' descriptor, s'.methodOf? name' descriptor = s.methodOf? name' descriptor

theorem Store.method?_setField (s : Store) (object : Value) (name : String) (value : Value)
    (method : String) (id : ClassId) :
    (s.setField object name value).method? method id = s.method? method id := by
  fun_induction Store.method? s method id with
  | case1 id absent =>
    obtain ⟨f, same⟩ := s.classAt?_setField object name value id
    rw [Store.method?, same, absent]
    rfl
  | case2 id c there ih =>
    obtain ⟨f, same⟩ := s.classAt?_setField object name value id
    have mixed : (s.setField object name value).traitMethod? c.traits method =
        s.traitMethod? c.traits method := by
      unfold Store.traitMethod?
      simp only [Store.traitAt?_setField]
    rw [Store.method?, same, there, Option.map_some]
    dsimp only
    rw [mixed]
    cases inherits : c.superclass with
    | none => rfl
    | some parent =>
      dsimp only
      split
      · next older => rw [ih parent older]
      · rfl

theorem Store.sets_setField {s : Store} (present : s.descriptor? object ≠ none) (name : String)
    (value : Value) : Store.Sets object name value s (s.setField object name value) where
  fields := Store.field?_setField present name value
  descriptors := s.descriptor?_setField object name value
  methods name' descriptor := by
    cases descriptor with
    | ofClass id => exact s.method?_setField object name value name' id
    | ofMetaclass id =>
      obtain ⟨f, same⟩ := s.classAt?_setField object name value id
      rw [Store.methodOf?, Store.methodOf?, same, Option.bind_map]
      rfl

/-- First the object is evaluated and has to have properties, then the value. -/
theorem setProperty_ok (ran : evaluate n (.setProperty object name value) m = .ok v m') :
    ∃ depth o m₁ m₂, n = depth + 1 ∧ evaluate depth object m = .ok o m₁ ∧
      m₁.store.descriptor? o ≠ none ∧ evaluate depth value m₁ = .ok v m₂ ∧
      m' = { m₂ with store := m₂.store.setField o name.lexeme v } := by
  cases n with
  | zero => cases ran
  | succ depth =>
    obtain ⟨o, m₁, first, ran₁⟩ := Eval.bind_eq_ok ran
    unfold Engine.setProperty at ran₁
    rw [Eval.bind_get] at ran₁
    cases present : m₁.store.descriptor? o with
    | none =>
      rw [present] at ran₁
      cases ran₁
    | some descriptor =>
      rw [present] at ran₁
      obtain ⟨w, m₂, second, ran₂⟩ := Eval.bind_eq_ok ran₁
      obtain ⟨_, m₃, sets, ends⟩ := Eval.bind_eq_ok ran₂
      cases sets
      cases ends
      refine ⟨depth, o, m₁, m₂, rfl, first, ?_, second, rfl⟩
      rw [present]
      exact Option.some_ne_none descriptor

/-- Whatever is evaluated, no object goes away. -/
theorem evaluate_grows (linked : m.Linked) (ran : evaluate depth e m = .ok v m') :
    m'.Linked ∧ m.store.Grows m'.store := by
  have upholds := upholds_engine (fun _ _ => True) depth
  obtain ⟨log, ends, -⟩ := upholds.evaluate e linked fun _ _ _ => trivial
  change (links _).Ends log m _ (evaluate depth e m) at ends
  rw [ran] at ends
  exact ⟨ends.1, ends.2.1.toGrows⟩

theorem Visited.sets (visited : Visited depth world calls m)
    (ran : evaluate n (.setProperty object name value) m = .ok v m') :
    ∃ depth' o m₁ m₂, evaluate depth' object m = .ok o m₁ ∧ evaluate depth' value m₁ = .ok v m₂ ∧
      Store.Sets o name.lexeme v m₂.store m'.store ∧
      (Occurs depth world calls (.evaluate (.setProperty object name value)) m →
        ∀ log, Chronicle (Occurs depth world calls) log m₂.store →
          Chronicle (Occurs depth world calls) (⟨o, name.lexeme, v⟩ :: log) m'.store) := by
  obtain ⟨depth', o, m₁, m₂, -, first, present, second, rfl⟩ := setProperty_ok ran
  obtain ⟨linked, -⟩ := evaluate_grows visited.grows.1 first
  obtain ⟨-, grows⟩ := evaluate_grows linked second
  have still := grows.present present
  refine ⟨depth', o, m₁, m₂, first, second, Store.sets_setField still name.lexeme v, ?_⟩
  intro occurs log chronicle
  exact chronicle.assigned occurs first second still

/-- The log of a run, the latest entry first. Whatever happens in the run has its own part of the
log, and that of an assignment to a property begins with the entry for it. -/
structure Watched.Logs (c : Watched α) (log : List Assignment) (m : Machine) : Prop where
  course : Course (c.Meets m) m.store log (left (c none m)).store
  parts : ∀ event k, c.Meets m event k → ∃ before inside after last,
    log = after ++ (inside ++ before) ∧ Course (c.Meets m) m.store before k.store ∧
    event.Logs (c.Meets m) inside k last ∧
    Course (c.Meets m) last.store after (left (c none m)).store

/-- In every state the methods of a class have the order that they have at the end. -/
theorem Visited.ordered (depth : Nat) (world : World) (calls : List HostCall) :
    ∃ order : Descriptor → List Offer, ∀ m, Visited depth world calls m →
      ∀ d, d.In m.store → Ordered (Occurs depth world calls) m.store d (order d) := by
  have atEnd : Visited depth world calls (left ((engine depth).hosted calls (.fresh world))) :=
    .between (List.append_nil calls)
  obtain ⟨log, chronicle⟩ := atEnd.chronicle
  obtain ⟨linked, last⟩ := atEnd.grows
  have chosen (d : Descriptor) : ∃ order,
      d.In (left ((engine depth).hosted calls (.fresh world))).store →
        Ordered (Occurs depth world calls)
          (left ((engine depth).hosted calls (.fresh world))).store d order := by
    by_cases present : d.In (left ((engine depth).hosted calls (.fresh world))).store
    · obtain ⟨order, ordered⟩ := Ordered.exists_of_present chronicle.declared linked.store present
      exact ⟨order, fun _ => ordered⟩
    · exact ⟨[], fun here => absurd here present⟩
  obtain ⟨order, ordered⟩ := Classical.axiomOfChoice chosen
  refine ⟨order, fun m visited d present => ?_⟩
  obtain ⟨linked', grows⟩ := visited.grows
  exact (ordered d (grows.descriptor present)).of_sameLinks (last.sameLinks grows) linked'.store
    present

end Lox
