import Lox.Proofs.ScopeSteps

/-!
Scopes as one flat store. Scopes share their outer scopes, so a slot is reached along many paths.
What is read from it is still only a matter of the calls made so far: a slot is a scope and a
position, and it holds what was last written there.
-/

namespace Lox.Scopes

inductive Call where
  | create (parent : Option ScopeId)
  | define (id : ScopeId) (name : String) (value : Value)
  | read (id : ScopeId) (address : Address)
  | assign (id : ScopeId) (address : Address) (value : Value)
  | ancestor (id : ScopeId) (distance : Nat)

inductive Answer where
  | scope (id : ScopeId)
  | slot (index : Nat)
  | value (value : Option Value)
  | assigned (done : Bool)
  | violation (v : Violation)
deriving DecidableEq

namespace Call

/-- The scopes that a call names. -/
def scopes : Call → List ScopeId
  | create parent => parent.toList
  | define id .. | read id .. | assign id .. | ancestor id .. => [id]

/-- The scope from which a call goes outwards, and how far. -/
def outward? : Call → Option (ScopeId × Nat)
  | create .. | define .. => none
  | read id address | assign id address _ => some (id, address.distance)
  | ancestor id distance => some (id, distance)

/-- The name of the slot that a call adds to a scope. -/
def added (id : ScopeId) : Call → List String
  | define target name _ => if target = id then [name] else []
  | _ => []

end Call

def perform (s : Scopes) : Call → Answer × Scopes
  | .create parent => (.scope s.nextId, s.create parent)
  | .define id name value => (.slot (s.nextSlot id), s.define id name value)
  | .read id address => match s.read id address with
    | .ok value => (.value value, s)
    | .error v => (.violation v, s)
  | .assign id address value => match s.assign id address value with
    | .ok (some s') => (.assigned true, s')
    | .ok none => (.assigned false, s)
    | .error v => (.violation v, s)
  | .ancestor id distance => match s.reach distance id with
    | .ok target => (.scope target, s)
    | .error v => (.violation v, s)

section Parts

variable (s : Scopes) (id other : ScopeId) (index position : Nat)

@[simp] theorem parent?_create (parent : Option ScopeId) :
    (s.create parent).parent? id = if id.index = s.entries.size then parent else s.parent? id := by
  simp only [parent?, get?_create, eq_nextId_iff]
  split <;> rfl

@[simp] theorem slot?_create (parent : Option ScopeId) :
    (s.create parent).slot? id index = s.slot? id index := by
  simp only [slot?, get?_create]
  split
  · rename_i new
    rw [new, get?_nextId]
    rfl
  · rfl

@[simp] theorem nextSlot_create (parent : Option ScopeId) :
    (s.create parent).nextSlot id = s.nextSlot id := by
  by_cases new : id = s.nextId
  · rw [new, nextSlot, nextSlot, get?_create, if_pos rfl, get?_nextId]
    rfl
  · simp [nextSlot, get?_create, new]

@[simp] theorem parent?_define (name : String) (value : Value) :
    (s.define id name value).parent? other = s.parent? other := by
  simp only [parent?, get?_define]
  split
  · rename_i same
    cases found : s.get? id <;> simp [same, found]
  · rfl

/-- A scope that was made has its next slot to define. -/
theorem slot?_define (made : id.index < s.entries.size) (name : String) (value : Value) :
    (s.define id name value).slot? other index =
      if (other, index) = (id, s.nextSlot id) then some ⟨name, value⟩
      else s.slot? other index := by
  have found : s.get? id = some s.entries[id.index] := Array.getElem?_eq_getElem made
  by_cases same : other = id
  · subst same
    simp [slot?, get?_define, nextSlot, found, Array.getElem?_push]
  · simp [slot?, get?_define, same]

theorem nextSlot_define (made : id.index < s.entries.size) (name : String) (value : Value) :
    (s.define id name value).nextSlot other =
      if other = id then s.nextSlot id + 1 else s.nextSlot other := by
  have found : s.get? id = some s.entries[id.index] := Array.getElem?_eq_getElem made
  by_cases same : other = id
  · simp [nextSlot, get?_define, found, same]
  · simp [nextSlot, get?_define, same]

@[simp] theorem parent?_put (value : Value) :
    (s.put id index value).parent? other = s.parent? other := by
  simp only [parent?, get?_put]
  split
  · rename_i same
    cases found : s.get? id <;> simp [same, found]
  · rfl

@[simp] theorem nextSlot_put (value : Value) :
    (s.put id index value).nextSlot other = s.nextSlot other := by
  by_cases same : other = id
  · cases found : s.get? id <;> simp [nextSlot, get?_put, same, found]
  · simp [nextSlot, get?_put, same]

theorem slot?_put (value : Value) :
    (s.put id index value).slot? other position =
      if (other, position) = (id, index) then (s.slot? id index).map ({ · with value })
      else s.slot? other position := by
  by_cases same : other = id
  · subst same
    cases found : s.get? other <;>
      simp [slot?, get?_put, found, Array.getElem?_modify, eq_comm (a := index)]
    split
    · rename_i same
      rw [same]
    · rfl
  · simp [slot?, get?_put, same]

/-- The slots of a scope are those before its next one. -/
theorem slot?_eq_none_iff : s.slot? id index = none ↔ ¬ index < s.nextSlot id := by
  cases found : s.get? id <;> simp [slot?, nextSlot, found]

/-- Overwriting ends in one of three ways, and only the first leaves other scopes. -/
theorem perform_assign_cases (address : Address) (value : Value) :
    (∃ target slot, s.ancestor? address.distance id = some target ∧
      s.slot? target address.index = some slot ∧
      s.perform (.assign id address value) =
        (.assigned true, s.put target address.index value)) ∨
    (∃ target, s.ancestor? address.distance id = some target ∧
      s.slot? target address.index = none ∧
      s.perform (.assign id address value) = (.assigned false, s)) ∨
    (s.ancestor? address.distance id = none ∧
      s.perform (.assign id address value) = (.violation .pastOutermost, s)) := by
  cases reached : s.ancestor? address.distance id with
  | none => simp [perform, assign, reach, reached, bind, Except.bind]
  | some target =>
    cases found : s.slot? target address.index <;>
      simp [perform, assign, reach, reached, found, bind, Except.bind, pure, Except.pure]

end Parts

/-- The calls made so far, the latest first. -/
abbrev History := List Call

/-- The scopes that a history leaves. -/
def after : History → Scopes
  | [] => {}
  | call :: past => ((after past).perform call).2

namespace History

/-- How many scopes were made. -/
def made : History → Nat
  | [] => 0
  | .create _ :: past => made past + 1
  | _ :: past => made past

/-- A scope can be named once it is made. -/
def Proper : History → Prop
  | [] => True
  | call :: past => (∀ id ∈ call.scopes, id.index < made past) ∧ Proper past

instance decidableProper : (past : History) → Decidable (Proper past)
  | [] => .isTrue trivial
  | _ :: past => have := decidableProper past; inferInstanceAs (Decidable (_ ∧ _))

def parent? : History → ScopeId → Option ScopeId
  | [], _ => none
  | .create parent :: past, id => if id.index = made past then parent else parent? past id
  | _ :: past, id => parent? past id

/-- How many scopes lie around a scope. -/
def around : History → ScopeId → Nat
  | [], _ => 0
  | .create (some parent) :: past, id =>
    if id.index = made past then around past parent + 1 else around past id
  | .create none :: past, id => if id.index = made past then 0 else around past id
  | _ :: past, id => around past id

def outward (past : History) : Nat → ScopeId → Option ScopeId
  | 0, id => some id
  | distance + 1, id => (past.parent? id).bind (past.outward distance)

/-- The names defined in a scope, in this order. -/
def names (past : History) (id : ScopeId) : List String :=
  past.reverse.flatMap (Call.added id)

/-- The flat store: what was written to which slot of which scope, the latest first. -/
def writes : History → List ((ScopeId × Nat) × Value)
  | [] => []
  | .define id _ value :: past => ((id, (names past id).length), value) :: writes past
  | .assign id address value :: past =>
    match outward past address.distance id with
    | some target =>
      if address.index < (names past target).length then
        ((target, address.index), value) :: writes past
      else writes past
    | none => writes past
  | _ :: past => writes past

def answer (past : History) : Call → Answer
  | .create _ => .scope ⟨past.made⟩
  | .define id _ _ => .slot (past.names id).length
  | .read id address => match past.outward address.distance id with
    | some target => .value (past.writes.lookup (target, address.index))
    | none => .violation .pastOutermost
  | .assign id address _ => match past.outward address.distance id with
    | some target => .assigned (address.index < (past.names target).length)
    | none => .violation .pastOutermost
  | .ancestor id distance => match past.outward distance id with
    | some target => .scope target
    | none => .violation .pastOutermost

@[simp] theorem names_nil (id : ScopeId) : names [] id = [] := rfl

@[simp] theorem names_cons (call : Call) (past : History) (id : ScopeId) :
    names (call :: past) id = names past id ++ call.added id := by
  simp [names]

/-- A later call changes the place of no scope that was made before it. -/
theorem parent?_cons {past : History} {id : ScopeId} (made : id.index < past.made) (call : Call) :
    parent? (call :: past) id = past.parent? id := by
  cases call with
  | create parent => exact if_neg (Nat.ne_of_lt made)
  | _ => rfl

theorem made_le_cons (past : History) (call : Call) : past.made ≤ made (call :: past) := by
  cases call <;> simp [made]

/-- The scope around another was made before some call that the history holds. -/
theorem Proper.parent_lt {past : History} (proper : Proper past) {id parent : ScopeId}
    (found : past.parent? id = some parent) : parent.index < past.made := by
  induction past with
  | nil => cases found
  | cons call past ih =>
    refine Nat.lt_of_lt_of_le ?_ (made_le_cons past call)
    cases call with
    | create around =>
      simp only [parent?] at found
      split at found
      · exact proper.1 parent (by simp [Call.scopes, found])
      · exact ih proper.2 found
    | _ => exact ih proper.2 found

theorem Proper.outward_cons {past : History} (proper : Proper past) {id : ScopeId}
    (made : id.index < past.made) (call : Call) (distance : Nat) :
    outward (call :: past) distance id = past.outward distance id := by
  induction distance generalizing id with
  | zero => rfl
  | succ distance ih =>
    rw [outward, outward, parent?_cons made]
    cases found : past.parent? id with
    | none => rfl
    | some parent => exact ih (proper.parent_lt found)

/-- The way outwards ends with the outermost scope. -/
theorem Proper.outward_eq_none_iff {past : History} (proper : Proper past) {id : ScopeId}
    (named : id.index < past.made) (distance : Nat) :
    past.outward distance id = none ↔ past.around id < distance := by
  induction past generalizing id distance with
  | nil => exact absurd named (Nat.not_lt_zero _)
  | cons call past ih =>
    -- only the scope that the call makes is not one of those before it
    by_cases old : id.index < made past
    · have same : around (call :: past) id = around past id := by
        rcases call with ⟨_ | parent⟩ | _ | _ | _ | _
        · exact if_neg (Nat.ne_of_lt old)
        · exact if_neg (Nat.ne_of_lt old)
        all_goals rfl
      rw [proper.2.outward_cons old, same]
      exact ih proper.2 old distance
    · cases call with
      | create parent =>
        have new : id.index = made past := by
          simp only [made] at named
          omega
        cases distance with
        | zero => simp [outward]
        | succ distance =>
          cases parent with
          | none => simp [outward, parent?, around, new]
          | some parent =>
            have made : parent.index < made past := proper.1 parent (by simp [Call.scopes])
            have above := proper.2.outward_cons made (.create (some parent)) distance
            simp [outward, parent?, around, new, above, ih proper.2 made distance]
      | _ => exact absurd named old

end History

/-- The scopes are what the history says they are. -/
structure Represents (s : Scopes) (past : History) : Prop where
  size : s.entries.size = past.made
  parent : ∀ id, s.parent? id = past.parent? id
  count : ∀ id, s.nextSlot id = (past.names id).length
  name : ∀ id index, (s.slot? id index).map Slot.name = (past.names id)[index]?
  value : ∀ id index, (s.slot? id index).map Slot.value = past.writes.lookup (id, index)

namespace Represents

variable {s : Scopes} {past : History}

theorem ancestor (represents : Represents s past) (distance : Nat) (id : ScopeId) :
    s.ancestor? distance id = past.outward distance id := by
  induction distance generalizing id with
  | zero => rfl
  | succ distance ih =>
    rw [ancestor?, History.outward, represents.parent]
    cases past.parent? id with
    | none => rfl
    | some parent => exact ih parent

theorem not_lt_of_slot (represents : Represents s past) {id : ScopeId} {index : Nat}
    (missing : s.slot? id index = none) : ¬ index < (past.names id).length := by
  rw [← represents.count]
  exact (s.slot?_eq_none_iff id index).mp missing

theorem lt_of_slot (represents : Represents s past) {id : ScopeId} {index : Nat}
    (found : s.slot? id index = some slot) : index < (past.names id).length := by
  apply Decidable.byContradiction
  intro beyond
  rw [← represents.count] at beyond
  rw [(s.slot?_eq_none_iff id index).mpr beyond] at found
  cases found

/-- What is answered is what the history says. -/
theorem answers (represents : Represents s past) (call : Call) :
    (s.perform call).1 = past.answer call := by
  cases call with
  | create parent => simp [perform, History.answer, nextId, represents.size]
  | define id name value => simp [perform, History.answer, represents.count]
  | read id address =>
    have reached := represents.ancestor address.distance id
    cases outward : past.outward address.distance id with
    | none => simp [perform, History.answer, read, reach, reached, outward, bind, Except.bind]
    | some target =>
      simp [perform, History.answer, read, reach, reached, outward, bind, Except.bind, pure,
        Except.pure, represents.value]
  | assign id address value =>
    have reached := represents.ancestor address.distance id
    rcases s.perform_assign_cases id address value with
      ⟨target, slot, found, there, same⟩ | ⟨target, found, there, same⟩ | ⟨found, same⟩
    · have bound := represents.lt_of_slot there
      simp [same, History.answer, ← reached, found, bound]
    · have bound := represents.not_lt_of_slot there
      simp [same, History.answer, ← reached, found, bound]
    · simp [same, History.answer, ← reached, found]
  | ancestor id distance =>
    have reached := represents.ancestor distance id
    cases outward : past.outward distance id <;>
      simp [perform, History.answer, reach, reached, outward]

theorem create (represents : Represents s past) (parent : Option ScopeId) :
    Represents (s.create parent) (.create parent :: past) where
  size := by simp [represents.size, History.made]
  parent id := by simp [History.parent?, represents.size, represents.parent]
  count id := by simp [represents.count, Call.added]
  name id index := by simp [represents.name, Call.added]
  value id index := by simp [represents.value, History.writes]

theorem define (represents : Represents s past) {id : ScopeId} (made : id.index < past.made)
    (name : String) (value : Value) :
    Represents (s.define id name value) (.define id name value :: past) := by
  rw [← represents.size] at made
  have count := represents.count id
  constructor
  · simp [represents.size, History.made]
  · intro other
    simp [represents.parent, History.parent?]
  · intro other
    rw [nextSlot_define s id other made]
    by_cases same : other = id
    · simp [same, count, Call.added]
    · simp [same, Ne.symm same, represents.count, Call.added]
  · intro other index
    rw [slot?_define s id other index made, History.names_cons]
    by_cases same : other = id
    · subst same
      by_cases next : index = s.nextSlot other
      · simp [next, count, Call.added]
      · rw [if_neg (by simp [next]), represents.name, List.getElem?_append]
        split
        · rfl
        · have one : (Call.added other (.define other name value)).length = 1 := by
            simp [Call.added]
          rw [List.getElem?_eq_none (by omega), List.getElem?_eq_none (by omega)]
    · simp [same, Ne.symm same, represents.name, Call.added]
  · intro other index
    rw [slot?_define s id other index made, History.writes, List.lookup_cons, ← count,
      ← represents.value]
    by_cases next : (other, index) = (id, s.nextSlot id)
    · rw [if_pos next, beq_iff_eq.mpr next]
      rfl
    · rw [if_neg next, beq_eq_false_iff_ne.mpr next]

theorem put (represents : Represents s past) {id : ScopeId} {address : Address}
    (reached : s.ancestor? address.distance id = some target)
    (found : s.slot? target address.index = some slot) (value : Value) :
    Represents (s.put target address.index value) (.assign id address value :: past) := by
  have outward := (represents.ancestor address.distance id).symm.trans reached
  have bound := represents.lt_of_slot found
  constructor
  · simp [represents.size, History.made]
  · intro other
    simp [represents.parent, History.parent?]
  · intro other
    simp [represents.count, Call.added]
  · intro other index
    have names : History.names (.assign id address value :: past) other = past.names other := by
      simp [Call.added]
    rw [slot?_put, names, ← represents.name]
    by_cases written : (other, index) = (target, address.index)
    · cases written
      simp [found]
    · rw [if_neg written]
  · intro other index
    rw [slot?_put, History.writes, outward]
    simp only [if_pos bound, List.lookup_cons, ← represents.value]
    by_cases written : (other, index) = (target, address.index)
    · rw [if_pos written, beq_iff_eq.mpr written, found]
      rfl
    · rw [if_neg written, beq_eq_false_iff_ne.mpr written]

/-- A call that writes nothing leaves the scopes as they are. -/
theorem unchanged (represents : Represents s past) {call : Call}
    (made : History.made (call :: past) = past.made)
    (parent : ∀ id, History.parent? (call :: past) id = past.parent? id)
    (added : ∀ id, call.added id = [])
    (writes : History.writes (call :: past) = past.writes) : Represents s (call :: past) := by
  constructor
  · rw [made, represents.size]
  · intro id
    rw [parent, represents.parent]
  · intro id
    simp [added, represents.count]
  · intro id index
    simp [added, represents.name]
  · intro id index
    rw [writes, represents.value]

/-- One call keeps the scopes and the history together. -/
theorem step (represents : Represents s past) {call : Call}
    (proper : ∀ id ∈ call.scopes, id.index < past.made) :
    Represents (s.perform call).2 (call :: past) := by
  cases call with
  | create parent => exact represents.create parent
  | define id name value => exact represents.define (proper id (by simp [Call.scopes])) name value
  | read id address =>
    have same : (s.perform (.read id address)).2 = s := by
      simp only [perform]
      split <;> rfl
    rw [same]
    exact represents.unchanged rfl (fun _ => rfl) (fun _ => rfl) rfl
  | assign id address value =>
    have reached := represents.ancestor address.distance id
    rcases s.perform_assign_cases id address value with
      ⟨target, slot, found, there, same⟩ | ⟨target, found, there, same⟩ | ⟨found, same⟩
    · rw [same]
      exact represents.put found there value
    · have bound := represents.not_lt_of_slot there
      rw [same]
      apply represents.unchanged rfl (fun _ => rfl) (fun _ => rfl)
      simp [History.writes, ← reached, found, bound]
    · rw [same]
      apply represents.unchanged rfl (fun _ => rfl) (fun _ => rfl)
      simp [History.writes, ← reached, found]
  | ancestor id distance =>
    have same : (s.perform (.ancestor id distance)).2 = s := by
      simp only [perform]
      split <;> rfl
    rw [same]
    exact represents.unchanged rfl (fun _ => rfl) (fun _ => rfl) rfl

theorem empty : Represents {} [] where
  size := rfl
  parent _ := rfl
  count _ := rfl
  name id index := by simp [slot?, get?]
  value id index := by simp [slot?, get?, History.writes]

end Represents

/-- The scopes that a run of calls leaves are those of its history. -/
theorem represents_after {past : History} (proper : past.Proper) : Represents (after past) past := by
  induction past with
  | nil => exact .empty
  | cons call past ih => exact (ih proper.2).step proper.1

/-- The parts of a scope change only in their places. -/
theorem kept_after {call : Call} {past : History} (proper : History.Proper (call :: past)) :
    (∀ id, id.index < past.made → (after (call :: past)).parent? id = (after past).parent? id) ∧
    ∀ id, (after (call :: past)).nextSlot id = (after past).nextSlot id + (call.added id).length ∧
      ∀ index, index < (after past).nextSlot id →
        ((after (call :: past)).slot? id index).map Slot.name =
          ((after past).slot? id index).map Slot.name := by
  have before := represents_after proper.2
  have now := represents_after proper
  constructor
  · intro id made
    rw [now.parent, before.parent, History.parent?_cons made]
  · intro id
    constructor
    · rw [now.count, before.count, History.names_cons, List.length_append]
    · intro index bound
      rw [before.count] at bound
      rw [now.name, before.name, History.names_cons, List.getElem?_append_left bound]

theorem assign_changes (s : Scopes) (start : ScopeId) (address : Address) (value : Value) :
    ((s.perform (.assign start address value)).1 = .assigned true ∧ ∃ target slot,
      s.ancestor? address.distance start = some target ∧
      s.slot? target address.index = some slot ∧
      ∀ id index, (s.perform (.assign start address value)).2.slot? id index =
        if (id, index) = (target, address.index) then some { slot with value }
        else s.slot? id index) ∨
    ((s.perform (.assign start address value)).1 ≠ .assigned true ∧
      (s.perform (.assign start address value)).2 = s) := by
  rcases s.perform_assign_cases start address value with
    ⟨target, slot, found, there, same⟩ | ⟨target, found, there, same⟩ | ⟨found, same⟩
  · left
    rw [same]
    refine ⟨rfl, target, slot, found, there, fun id index => ?_⟩
    rw [slot?_put, there]
    rfl
  · simp [same]
  · simp [same]

theorem slot?_of_not_assign (s : Scopes) {call : Call}
    (other : ∀ start address value, call ≠ .assign start address value)
    (named : ∀ id ∈ call.scopes, id.index < s.entries.size)
    {id : ScopeId} {index : Nat} (bound : index < s.nextSlot id) :
    (s.perform call).2.slot? id index = s.slot? id index := by
  cases call with
  | create parent => simp [perform]
  | define target name value =>
    have old : (id, index) ≠ (target, s.nextSlot target) := by
      rintro ⟨⟩
      exact Nat.lt_irrefl _ bound
    simp only [perform]
    rw [slot?_define s target id index (named target (by simp [Call.scopes])), if_neg old]
  | assign start address value => exact absurd rfl (other start address value)
  | read =>
    simp only [perform]
    split <;> rfl
  | ancestor =>
    simp only [perform]
    split <;> rfl

/-- A slot that was never defined is one that nothing was written to. -/
theorem Represents.lookup_eq_none_iff (represents : Represents s past) (id : ScopeId) (index : Nat) :
    past.writes.lookup (id, index) = none ↔ (past.names id).length ≤ index := by
  rw [← represents.value, ← represents.count, Option.map_eq_none_iff, slot?_eq_none_iff, Nat.not_lt]

theorem History.answer_violation {call : Call} (past : History) {id : ScopeId} {distance : Nat}
    (goes : call.outward? = some (id, distance)) :
    (∃ v, past.answer call = .violation v) ↔ past.outward distance id = none := by
  cases call with
  | create | define => cases goes
  | read | assign | ancestor =>
    cases goes
    simp only [answer]
    split <;> simp_all

/-- A call fails just where it goes outwards past the outermost scope. -/
theorem History.Proper.violation_iff {call : Call} {past : History}
    (proper : History.Proper (call :: past)) :
    (∃ v, past.answer call = .violation v) ↔
      ∃ id distance, call.outward? = some (id, distance) ∧ past.around id < distance := by
  cases goes : call.outward? with
  | none => cases call <;> simp_all [answer, Call.outward?]
  | some place =>
    obtain ⟨id, distance⟩ := place
    have named : id ∈ call.scopes := by
      cases call <;> simp_all [Call.outward?, Call.scopes]
    rw [answer_violation past goes, proper.2.outward_eq_none_iff (proper.1 id named)]
    constructor
    · intro far
      exact ⟨id, distance, rfl, far⟩
    · rintro ⟨_, _, same, far⟩
      cases same
      exact far

/-- For every history of calls the scopes answer as a store does that is keyed by scope and position:
a scope numbers its slots in the order of their definitions, and a slot is read as what was last
written to it, along whatever path. The only calls that fail are those that go past the outermost
scope. A parent, a name or a number of slots is never changed but by a definition, which adds one,
and overwriting changes the value of one slot or, where it is refused, nothing. -/
theorem scopes_refine_flat_store {call : Call} {past : History}
    (proper : History.Proper (call :: past)) :
    ((after past).perform call).1 = past.answer call ∧
    (∀ id index, past.writes.lookup (id, index) = none ↔ (past.names id).length ≤ index) ∧
    ((∃ v, ((after past).perform call).1 = .violation v) ↔
      ∃ id distance, call.outward? = some (id, distance) ∧ past.around id < distance) ∧
    (∀ id, id.index < past.made → (after (call :: past)).parent? id = (after past).parent? id) ∧
    (∀ id, (after (call :: past)).nextSlot id = (after past).nextSlot id + (call.added id).length ∧
      ∀ index, index < (after past).nextSlot id →
        ((after (call :: past)).slot? id index).map Slot.name =
          ((after past).slot? id index).map Slot.name) ∧
    (∀ start address value, call = .assign start address value →
      (((after past).perform call).1 = .assigned true ∧ ∃ target slot,
        past.outward address.distance start = some target ∧
        (after past).slot? target address.index = some slot ∧
        ∀ id index, (after (call :: past)).slot? id index =
          if (id, index) = (target, address.index) then some { slot with value }
          else (after past).slot? id index) ∨
      (((after past).perform call).1 ≠ .assigned true ∧ after (call :: past) = after past)) ∧
    ((∀ start address value, call ≠ .assign start address value) →
      ∀ id index, index < (after past).nextSlot id →
        (after (call :: past)).slot? id index = (after past).slot? id index) := by
  have represents := represents_after proper.2
  have answer := represents.answers call
  obtain ⟨parents, slots⟩ := kept_after proper
  refine ⟨answer, represents.lookup_eq_none_iff, ?_, parents, slots, ?_, ?_⟩
  · rw [answer]
    exact proper.violation_iff
  · rintro start address value rfl
    rw [← represents.ancestor]
    exact assign_changes (after past) start address value
  · intro other id index bound
    exact slot?_of_not_assign (after past) other (represents.size ▸ proper.1) bound

/-- A slot is written from one of the two scopes that share it. -/
def sharedSlot : History :=
  [.assign ⟨1⟩ ⟨1, 0⟩ (.bool true), .create (some ⟨0⟩), .create (some ⟨0⟩),
   .define ⟨0⟩ "x" .nil, .create none]

/-- It is read from the other one, and no scope lies around the one that holds it. -/
theorem sharedSlot_read :
    History.Proper (.read ⟨2⟩ ⟨1, 0⟩ :: sharedSlot) ∧
    ((after sharedSlot).perform (.read ⟨2⟩ ⟨1, 0⟩)).1 = .value (some (.bool true)) ∧
    ∃ v, ((after sharedSlot).perform (.read ⟨2⟩ ⟨2, 0⟩)).1 = .violation v := by
  have near : History.Proper (.read ⟨2⟩ ⟨1, 0⟩ :: sharedSlot) := by decide
  have far : History.Proper (.read ⟨2⟩ ⟨2, 0⟩ :: sharedSlot) := by decide
  exact ⟨near, (scopes_refine_flat_store near).1,
    (scopes_refine_flat_store far).2.2.1.mpr ⟨_, _, rfl, by decide⟩⟩

end Lox.Scopes
