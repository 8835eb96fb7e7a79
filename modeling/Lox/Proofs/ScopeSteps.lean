import Lox.Proofs.Coherence

/-! What it does to the scopes of a program to open one, to define a slot and to overwrite one. -/

namespace Lox.Scopes

theorem eq_nextId_iff {s : Scopes} {id : ScopeId} : id = s.nextId ↔ id.index = s.entries.size := by
  obtain ⟨index⟩ := id
  simp [nextId]

/-- The next scope is a new one. -/
theorem get?_nextId (s : Scopes) : s.get? s.nextId = none := by
  simp [get?, nextId]

theorem get?_create (s : Scopes) (parent : Option ScopeId) (id : ScopeId) :
    (s.create parent).get? id = if id = s.nextId then some { parent } else s.get? id := by
  simp only [get?, create, Array.getElem?_push, eq_nextId_iff]

theorem get?_define (s : Scopes) (id : ScopeId) (name : String) (value : Value) (other : ScopeId) :
    (s.define id name value).get? other =
      if other = id then
        (s.get? id).map fun scope => { scope with slots := scope.slots.push ⟨name, value⟩ }
      else s.get? other := by
  obtain ⟨index⟩ := id
  obtain ⟨other⟩ := other
  simp only [get?, define, Array.getElem?_modify, ScopeId.mk.injEq, eq_comm (a := other)]
  split
  · rename_i same
    rw [same]
  · rfl

theorem get?_put (s : Scopes) (id : ScopeId) (index : Nat) (value : Value) (other : ScopeId) :
    (s.put id index value).get? other =
      if other = id then (s.get? id).map fun scope =>
        { scope with slots := scope.slots.modify index ({ · with value }) }
      else s.get? other := by
  obtain ⟨position⟩ := id
  obtain ⟨other⟩ := other
  simp only [get?, put, Array.getElem?_modify, ScopeId.mk.injEq, eq_comm (a := other)]
  split
  · rename_i same
    rw [same]
  · rfl

@[simp] theorem size_create (s : Scopes) (parent : Option ScopeId) :
    (s.create parent).entries.size = s.entries.size + 1 := by
  simp [create]

@[simp] theorem size_define (s : Scopes) (id : ScopeId) (name : String) (value : Value) :
    (s.define id name value).entries.size = s.entries.size := by
  simp [define]

@[simp] theorem size_put (s : Scopes) (id : ScopeId) (index : Nat) (value : Value) :
    (s.put id index value).entries.size = s.entries.size := by
  simp [put]

def slotsOf (slots : List (String × Value)) : Array Slot :=
  (slots.map fun slot => ⟨slot.1, slot.2⟩).toArray

/-- The scopes with a new one that holds the given slots. -/
def opened (s : Scopes) (parent : Option ScopeId) (slots : List (String × Value)) : Scopes :=
  slots.foldl (fun s' slot => s'.define s.nextId slot.1 slot.2) (s.create parent)

theorem get?_foldl_define (slots : List (String × Value)) (id other : ScopeId) (s : Scopes) :
    (slots.foldl (fun s slot => s.define id slot.1 slot.2) s).get? other =
      if other = id then (s.get? id).map fun scope =>
        { scope with slots := scope.slots ++ slotsOf slots }
      else s.get? other := by
  induction slots generalizing s with
  | nil =>
    split
    · rename_i same
      rw [same]
      simp [slotsOf]
    · rfl
  | cons slot slots ih =>
    rw [List.foldl_cons, ih]
    by_cases same : other = id
    · rw [if_pos same, if_pos same, get?_define, if_pos rfl, Option.map_map]
      congr 1
      funext scope
      simp [slotsOf]
    · rw [if_neg same, if_neg same, get?_define, if_neg same]

theorem get?_opened (s : Scopes) (parent : Option ScopeId) (slots : List (String × Value))
    (id : ScopeId) : (s.opened parent slots).get? id =
      if id = s.nextId then some ⟨slotsOf slots, parent⟩ else s.get? id := by
  rw [opened, get?_foldl_define, get?_create, get?_create, if_pos rfl]
  split <;> simp [slotsOf]

theorem size_opened (s : Scopes) (parent : Option ScopeId) (slots : List (String × Value)) :
    (s.opened parent slots).entries.size = s.entries.size + 1 := by
  have defined (s : Scopes) (id : ScopeId) :
      (slots.foldl (fun s slot => s.define id slot.1 slot.2) s).entries.size = s.entries.size := by
    induction slots generalizing s with
    | nil => rfl
    | cons slot slots ih => rw [List.foldl_cons, ih, size_define]
  rw [opened, defined, size_create]

theorem opened_grow (s : Scopes) (parent : Option ScopeId) (slots : List (String × Value)) :
    s.Grow none (s.opened parent slots) := by
  intro id scope found
  have old : id ≠ s.nextId := by
    rintro rfl
    rw [get?_nextId] at found
    cases found
  refine ⟨scope, ?_, .refl scope⟩
  rw [get?_opened, if_neg old, found]

theorem define_grow (s : Scopes) (id : ScopeId) (name : String) (value : Value) :
    s.Grow (some id) (s.define id name value) := by
  intro other scope found
  rw [get?_define]
  by_cases same : other = id
  · subst same
    rw [if_pos rfl, found]
    refine ⟨_, rfl, rfl, ?_, fun no => (no rfl).elim, ?_⟩
    · simp [Scope.names]
    · intro index slot found _
      have bound := (Array.getElem?_eq_some_iff.mp found).1
      rw [Array.getElem?_push, if_neg (Nat.ne_of_lt bound)]
      exact found
  · rw [if_neg same]
    exact ⟨scope, found, .refl scope⟩

theorem names_modify (slots : Array Slot) (index : Nat) (value : Value) :
    (slots.modify index ({ · with value })).toList.map Slot.name = slots.toList.map Slot.name := by
  refine List.ext_getElem? fun position => ?_
  simp only [List.getElem?_map, Array.getElem?_toList, Array.getElem?_modify]
  split
  · rw [Option.map_map]
    rfl
  · rfl

/-- A slot may be overwritten if it is not that of `this` or `super`. -/
theorem put_grow {s : Scopes} {id : ScopeId} {index : Nat}
    (plain : ∀ slot, s.slot? id index = some slot → Plain slot.name)
    (value : Value) : s.Grow none (s.put id index value) := by
  intro other scope found
  rw [get?_put]
  by_cases same : other = id
  · subst same
    rw [if_pos rfl, found]
    refine ⟨_, rfl, rfl, ?_, fun _ => Array.size_modify, ?_⟩
    · exact ⟨[], (List.append_nil _).trans (names_modify scope.slots index value).symm⟩
    · intro position slot there bound
      have other : position ≠ index := by
        rintro rfl
        refine bound (plain slot ?_)
        rw [slot?, found]
        exact there
      rw [Array.getElem?_modify, if_neg other.symm]
      exact there
  · rw [if_neg same]
    exact ⟨scope, found, .refl scope⟩

end Lox.Scopes
