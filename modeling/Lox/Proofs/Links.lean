import Lox.Proofs.CoherentSteps

/-! Links between objects. A scope lies inside an older scope, a class has an older superclass, and
whatever a value, a closure or a table of methods refers to exists. Steps that add an object or
overwrite a variable or a field keep this, and they change no link of what is already there. -/

namespace Lox

/-- What the value refers to exists. -/
def Value.In (s : Store) : Value → Prop
  | .functionRef id => s.functionAt? id ≠ none
  | .classRef id => s.classAt? id ≠ none
  | .instanceRef id => s.instanceAt? id ≠ none
  | .traitRef id => s.traitAt? id ≠ none
  | .nil | .bool _ | .number _ | .string _ | .native _ => True

/-- The scope exists, if there is one. -/
def Scopes.Has (s : Scopes) (parent : Option ScopeId) : Prop :=
  ∀ id, parent = some id → s.get? id ≠ none

theorem Scopes.has_none (s : Scopes) : s.Has none := by
  intro _ same
  cases same

/-- The scope around the function exists. -/
def Closure.In (s : Store) (f : Closure) : Prop := s.scopes.Has f.parent

def Methods.In (s : Store) (methods : Methods) : Prop :=
  ∀ (name : String) (method : Method), methods[name]? = some method → method.closure.In s

def Fields.In (s : Store) (fields : Fields) : Prop :=
  ∀ (name : String) (value : Value), fields[name]? = some value → value.In s

theorem Fields.in_empty (s : Store) : Fields.In s {} := by
  intro name value found
  rw [Std.TreeMap.getElem?_emptyc] at found
  cases found

def Descriptor.In (s : Store) : Descriptor → Prop
  | .ofClass id | .ofMetaclass id => s.classAt? id ≠ none

structure Scope.Linked (s : Store) (id : ScopeId) (scope : Scope) : Prop where
  older : ∀ parent, scope.parent = some parent → parent.index < id.index
  slots : ∀ (index : Nat) (slot : Slot), scope.slots[index]? = some slot → slot.value.In s

structure Class.Linked (s : Store) (id : ClassId) (c : Class) : Prop where
  older : ∀ parent, c.superclass = some parent → parent.index < id.index
  traits : ∀ t ∈ c.traits, s.traitAt? t ≠ none
  methods : c.methods.In s
  statics : c.statics.In s
  fields : c.fields.In s

structure Instance.Linked (s : Store) (i : Instance) : Prop where
  descriptor : i.descriptor.In s
  fields : i.fields.In s

structure Store.Linked (s : Store) : Prop where
  scopes : ∀ id scope, s.scopes.get? id = some scope → scope.Linked s id
  functions : ∀ id f, s.functionAt? id = some f → f.In s
  classes : ∀ id c, s.classAt? id = some c → c.Linked s id
  traits : ∀ id t, s.traitAt? id = some t → t.methods.In s
  instances : ∀ id i, s.instanceAt? id = some i → i.Linked s

structure Machine.Linked (m : Machine) : Prop where
  store : m.store.Linked
  active : m.store.scopes.Has m.active
  globals : ∀ (name : String) (value : Value), m.globals[name]? = some value → value.In m.store

/-- Objects are only added, and of those that exist nothing changes but slots and fields. -/
structure Store.Grows (s s' : Store) : Prop where
  scopes : ∀ id scope, s.scopes.get? id = some scope →
    ∃ slots, s'.scopes.get? id = some { scope with slots }
  functions : ∀ id f, s.functionAt? id = some f → s'.functionAt? id = some f
  classes : ∀ id c, s.classAt? id = some c → ∃ fields, s'.classAt? id = some { c with fields }
  traits : ∀ id t, s.traitAt? id = some t → s'.traitAt? id = some t
  instances : ∀ id i, s.instanceAt? id = some i →
    ∃ fields, s'.instanceAt? id = some { i with fields }

namespace Store.Grows

theorem refl (s : Store) : s.Grows s where
  scopes _ scope found := ⟨scope.slots, found⟩
  functions _ _ found := found
  classes _ c found := ⟨c.fields, found⟩
  traits _ _ found := found
  instances _ i found := ⟨i.fields, found⟩

theorem trans (first : Store.Grows s s') (second : Store.Grows s' s'') : s.Grows s'' where
  scopes id scope found := by
    obtain ⟨_, later⟩ := first.scopes id scope found
    obtain ⟨slots, last⟩ := second.scopes id _ later
    exact ⟨slots, last⟩
  functions id f found := second.functions id f (first.functions id f found)
  classes id c found := by
    obtain ⟨_, later⟩ := first.classes id c found
    obtain ⟨fields, last⟩ := second.classes id _ later
    exact ⟨fields, last⟩
  traits id t found := second.traits id t (first.traits id t found)
  instances id i found := by
    obtain ⟨_, later⟩ := first.instances id i found
    obtain ⟨fields, last⟩ := second.instances id _ later
    exact ⟨fields, last⟩

variable {s s' : Store} (grows : s.Grows s')
include grows

theorem has {parent : Option ScopeId} (has : s.scopes.Has parent) : s'.scopes.Has parent := by
  intro id same
  obtain ⟨scope, found⟩ := Option.ne_none_iff_exists'.mp (has id same)
  obtain ⟨slots, found⟩ := grows.scopes id scope found
  rw [found]
  exact Option.some_ne_none _

theorem hasClass {id : ClassId} (has : s.classAt? id ≠ none) : s'.classAt? id ≠ none := by
  obtain ⟨c, found⟩ := Option.ne_none_iff_exists'.mp has
  obtain ⟨fields, found⟩ := grows.classes id c found
  rw [found]
  exact Option.some_ne_none _

theorem hasTrait {id : TraitId} (has : s.traitAt? id ≠ none) : s'.traitAt? id ≠ none := by
  obtain ⟨t, found⟩ := Option.ne_none_iff_exists'.mp has
  rw [grows.traits id t found]
  exact Option.some_ne_none _

theorem value {v : Value} (has : v.In s) : v.In s' := by
  cases v with
  | functionRef id =>
    obtain ⟨f, found⟩ := Option.ne_none_iff_exists'.mp has
    intro missing
    cases (grows.functions id f found).symm.trans missing
  | classRef id => exact grows.hasClass has
  | instanceRef id =>
    obtain ⟨i, found⟩ := Option.ne_none_iff_exists'.mp has
    obtain ⟨fields, found⟩ := grows.instances id i found
    intro missing
    cases found.symm.trans missing
  | traitRef id => exact grows.hasTrait has
  | nil | bool | number | string | native => trivial

/-- What has properties goes on to have them. -/
theorem present {object : Value} (has : s.descriptor? object ≠ none) :
    s'.descriptor? object ≠ none := by
  cases object with
  | classRef id =>
    rw [Store.descriptor?, ne_eq, Option.map_eq_none_iff] at has ⊢
    exact grows.hasClass has
  | instanceRef id =>
    obtain ⟨i, found⟩ : ∃ i, s.instanceAt? id = some i := by
      cases found : s.instanceAt? id <;> simp_all [Store.descriptor?]
    obtain ⟨fields, found'⟩ := grows.instances id i found
    simp [Store.descriptor?, found']
  | _ => exact has

theorem closure {f : Closure} (has : f.In s) : f.In s' := grows.has has

theorem methods {methods : Methods} (has : methods.In s) : methods.In s' :=
  fun name method found => grows.closure (has name method found)

theorem fields {fields : Fields} (has : fields.In s) : fields.In s' :=
  fun name value found => grows.value (has name value found)

theorem descriptor {d : Descriptor} (has : d.In s) : d.In s' := by
  cases d with
  | ofClass id | ofMetaclass id => exact grows.hasClass has

end Store.Grows

/-- It is enough to look at what is new. -/
theorem Store.Linked.next {s s' : Store} (linked : s.Linked) (grows : s.Grows s')
    (scopes : ∀ id scope, s'.scopes.get? id = some scope →
      s.scopes.get? id = some scope ∨ scope.Linked s' id)
    (functions : ∀ id f, s'.functionAt? id = some f → s.functionAt? id = some f ∨ f.In s')
    (classes : ∀ id c, s'.classAt? id = some c → s.classAt? id = some c ∨ c.Linked s' id)
    (traits : ∀ id t, s'.traitAt? id = some t → s.traitAt? id = some t ∨ t.methods.In s')
    (instances : ∀ id i, s'.instanceAt? id = some i → s.instanceAt? id = some i ∨ i.Linked s') :
    s'.Linked where
  scopes id scope found := by
    obtain old | new := scopes id scope found
    · have before := linked.scopes id scope old
      exact ⟨before.older, fun index slot found => grows.value (before.slots index slot found)⟩
    · exact new
  functions id f found := by
    obtain old | new := functions id f found
    · exact grows.closure (linked.functions id f old)
    · exact new
  classes id c found := by
    obtain old | new := classes id c found
    · have before := linked.classes id c old
      exact ⟨before.older, fun t member => grows.hasTrait (before.traits t member),
        grows.methods before.methods, grows.methods before.statics, grows.fields before.fields⟩
    · exact new
  traits id t found := by
    obtain old | new := traits id t found
    · exact grows.methods (linked.traits id t old)
    · exact new
  instances id i found := by
    obtain old | new := instances id i found
    · have before := linked.instances id i old
      exact ⟨grows.descriptor before.descriptor, grows.fields before.fields⟩
    · exact new

theorem getElem?_push_of_some {xs : Array α} {index : Nat} (found : xs[index]? = some x) :
    (xs.push y)[index]? = some x := by
  have bound := (Array.getElem?_eq_some_iff.mp found).1
  rw [Array.getElem?_push, if_neg (Nat.ne_of_lt bound), found]

theorem of_getElem?_push {xs : Array α} {index : Nat}
    (found : (xs.push y)[index]? = some x) : xs[index]? = some x ∨ index = xs.size ∧ y = x := by
  rw [Array.getElem?_push] at found
  split at found
  · rename_i last
    exact .inr ⟨last, Option.some.inj found⟩
  · exact .inl found

namespace Store

theorem grows_function (s : Store) (f : Closure) :
    s.Grows { s with functions := s.functions.push f } :=
  { Grows.refl s with functions := fun _ _ => getElem?_push_of_some }

theorem Linked.newFunction {s : Store} (linked : s.Linked) (closed : f.In s) :
    ({ s with functions := s.functions.push f } : Store).Linked := by
  have grows := s.grows_function f
  refine linked.next grows (fun _ _ => .inl) (fun _ _ found => ?_) (fun _ _ => .inl)
    (fun _ _ => .inl) (fun _ _ => .inl)
  obtain old | ⟨-, rfl⟩ := of_getElem?_push found
  · exact .inl old
  · exact .inr (grows.closure closed)

theorem grows_class (s : Store) (c : Class) : s.Grows { s with classes := s.classes.push c } :=
  { Grows.refl s with
    classes := fun _ c' found => ⟨c'.fields, getElem?_push_of_some found⟩ }

theorem Linked.newClass {s : Store} {c : Class} (linked : s.Linked)
    (superclass : ∀ parent, c.superclass = some parent → s.classAt? parent ≠ none)
    (traits : ∀ t ∈ c.traits, s.traitAt? t ≠ none) (methods : c.methods.In s)
    (statics : c.statics.In s) (fields : c.fields.In s) :
    ({ s with classes := s.classes.push c } : Store).Linked := by
  have grows := s.grows_class c
  refine linked.next grows (fun _ _ => .inl) (fun _ _ => .inl) (fun id _ found => ?_)
    (fun _ _ => .inl) (fun _ _ => .inl)
  obtain old | ⟨last, rfl⟩ := of_getElem?_push found
  · exact .inl old
  · refine .inr ⟨fun parent same => ?_, traits, methods, statics, grows.fields fields⟩
    obtain ⟨_, found⟩ := Option.ne_none_iff_exists'.mp (superclass parent same)
    rw [last]
    exact (Array.getElem?_eq_some_iff.mp found).1

theorem grows_trait (s : Store) (t : Trait) : s.Grows { s with traits := s.traits.push t } :=
  { Grows.refl s with traits := fun _ _ => getElem?_push_of_some }

theorem Linked.newTrait {s : Store} {t : Trait} (linked : s.Linked) (methods : t.methods.In s) :
    ({ s with traits := s.traits.push t } : Store).Linked := by
  refine linked.next (s.grows_trait t) (fun _ _ => .inl) (fun _ _ => .inl) (fun _ _ => .inl)
    (fun _ _ found => ?_) (fun _ _ => .inl)
  obtain old | ⟨-, rfl⟩ := of_getElem?_push found
  · exact .inl old
  · exact .inr methods

theorem grows_instance (s : Store) (i : Instance) :
    s.Grows { s with instances := s.instances.push i } :=
  { Grows.refl s with
    instances := fun _ i' found => ⟨i'.fields, getElem?_push_of_some found⟩ }

theorem Linked.newInstance {s : Store} {i : Instance} (linked : s.Linked) (new : i.Linked s) :
    ({ s with instances := s.instances.push i } : Store).Linked := by
  have grows := s.grows_instance i
  refine linked.next grows (fun _ _ => .inl) (fun _ _ => .inl) (fun _ _ => .inl)
    (fun _ _ => .inl) (fun _ _ found => ?_)
  obtain old | ⟨-, rfl⟩ := of_getElem?_push found
  · exact .inl old
  · exact .inr ⟨grows.descriptor new.descriptor, grows.fields new.fields⟩

theorem grows_opened (s : Store) (parent : Option ScopeId) (slots : List (String × Value)) :
    s.Grows { s with scopes := s.scopes.opened parent slots } := by
  refine { Grows.refl s with scopes := fun id scope found => ⟨scope.slots, ?_⟩ }
  have old : id ≠ s.scopes.nextId := by
    rintro rfl
    rw [Scopes.get?_nextId] at found
    cases found
  change (s.scopes.opened parent slots).get? id = some scope
  rw [Scopes.get?_opened, if_neg old, found]

theorem Linked.opened {s : Store} {parent : Option ScopeId} {slots : List (String × Value)}
    (linked : s.Linked) (has : s.scopes.Has parent) (values : ∀ slot ∈ slots, slot.2.In s) :
    ({ s with scopes := s.scopes.opened parent slots } : Store).Linked := by
  have grows := s.grows_opened parent slots
  refine linked.next grows (fun id scope found => ?_) (fun _ _ => .inl) (fun _ _ => .inl)
    (fun _ _ => .inl) (fun _ _ => .inl)
  change (s.scopes.opened parent slots).get? id = some scope at found
  rw [Scopes.get?_opened] at found
  split at found
  · rename_i new
    cases found
    refine .inr ⟨fun outer same => ?_, fun index slot found => ?_⟩
    · obtain ⟨_, found⟩ := Option.ne_none_iff_exists'.mp (has outer same)
      rw [new]
      exact (Array.getElem?_eq_some_iff.mp found).1
    · simp only [Scopes.slotsOf, List.getElem?_toArray, List.getElem?_map] at found
      obtain ⟨entry, there, rfl⟩ := Option.map_eq_some_iff.mp found
      exact grows.value (values entry (List.mem_of_getElem? there))
  · exact .inl found

theorem grows_define (s : Store) (id : ScopeId) (name : String) (value : Value) :
    s.Grows { s with scopes := s.scopes.define id name value } := by
  refine { Grows.refl s with scopes := fun other scope found => ?_ }
  change ∃ slots, (s.scopes.define id name value).get? other = some { scope with slots }
  rw [Scopes.get?_define]
  split
  · rename_i same
    rw [← same, found]
    exact ⟨_, rfl⟩
  · exact ⟨scope.slots, found⟩

theorem Linked.define {s : Store} (linked : s.Linked) (id : ScopeId) (name : String)
    (has : value.In s) : ({ s with scopes := s.scopes.define id name value } : Store).Linked := by
  have grows := s.grows_define id name value
  refine linked.next grows (fun other scope found => ?_) (fun _ _ => .inl) (fun _ _ => .inl)
    (fun _ _ => .inl) (fun _ _ => .inl)
  change (s.scopes.define id name value).get? other = some scope at found
  rw [Scopes.get?_define] at found
  split at found
  · rename_i same
    obtain ⟨before, there, rfl⟩ := Option.map_eq_some_iff.mp found
    have was := linked.scopes id before there
    refine .inr ⟨same ▸ was.older, fun index slot found => ?_⟩
    obtain old | ⟨-, rfl⟩ := of_getElem?_push found
    · exact grows.value (was.slots index slot old)
    · exact grows.value has
  · exact .inl found

theorem grows_put (s : Store) (id : ScopeId) (index : Nat) (value : Value) :
    s.Grows { s with scopes := s.scopes.put id index value } := by
  refine { Grows.refl s with scopes := fun other scope found => ?_ }
  change ∃ slots, (s.scopes.put id index value).get? other = some { scope with slots }
  rw [Scopes.get?_put]
  split
  · rename_i same
    rw [← same, found]
    exact ⟨_, rfl⟩
  · exact ⟨scope.slots, found⟩

theorem Linked.put {s : Store} (linked : s.Linked) (id : ScopeId) (index : Nat)
    (has : value.In s) : ({ s with scopes := s.scopes.put id index value } : Store).Linked := by
  have grows := s.grows_put id index value
  refine linked.next grows (fun other scope found => ?_) (fun _ _ => .inl) (fun _ _ => .inl)
    (fun _ _ => .inl) (fun _ _ => .inl)
  change (s.scopes.put id index value).get? other = some scope at found
  rw [Scopes.get?_put] at found
  split at found
  · rename_i same
    obtain ⟨before, there, rfl⟩ := Option.map_eq_some_iff.mp found
    have was := linked.scopes id before there
    refine .inr ⟨same ▸ was.older, fun position slot found => ?_⟩
    rw [Array.getElem?_modify] at found
    split at found
    · obtain ⟨_, -, rfl⟩ := Option.map_eq_some_iff.mp found
      exact grows.value has
    · exact grows.value (was.slots position slot found)
  · exact .inl found

end Store

theorem Fields.In.insert {fields : Fields} (inside : fields.In s) (name : String)
    (has : value.In s) : Fields.In s (fields.insert name value) := by
  intro other v found
  rw [Std.TreeMap.getElem?_insert] at found
  split at found
  · cases found
    exact has
  · exact inside other v found

namespace Store

theorem grows_setField (s : Store) (object : Value) (name : String) (value : Value) :
    s.Grows (s.setField object name value) := by
  cases object with
  | instanceRef id =>
    refine { Grows.refl s with instances := fun other i found => ?_ }
    change ∃ fields, (s.instances.modify id.index _)[other.index]? = some { i with fields }
    replace found : s.instances[other.index]? = some i := found
    rw [Array.getElem?_modify, found]
    split
    · exact ⟨_, rfl⟩
    · exact ⟨i.fields, rfl⟩
  | classRef id =>
    refine { Grows.refl s with classes := fun other c found => ?_ }
    change ∃ fields, (s.classes.modify id.index _)[other.index]? = some { c with fields }
    replace found : s.classes[other.index]? = some c := found
    rw [Array.getElem?_modify, found]
    split
    · exact ⟨_, rfl⟩
    · exact ⟨c.fields, rfl⟩
  | nil | bool | number | string | functionRef | native | traitRef => exact .refl s

theorem Linked.setField {s : Store} (linked : s.Linked) (object : Value) (name : String)
    (has : value.In s) : (s.setField object name value).Linked := by
  have grows := s.grows_setField object name value
  cases object with
  | instanceRef id =>
    refine linked.next grows (fun _ _ => .inl) (fun _ _ => .inl) (fun _ _ => .inl)
      (fun _ _ => .inl) (fun other i found => ?_)
    change (s.instances.modify id.index _)[other.index]? = some i at found
    rw [Array.getElem?_modify] at found
    split at found
    · obtain ⟨before, there, rfl⟩ := Option.map_eq_some_iff.mp found
      have was := linked.instances other before there
      exact .inr ⟨grows.descriptor was.descriptor,
        (grows.fields was.fields).insert name (grows.value has)⟩
    · exact .inl found
  | classRef id =>
    refine linked.next grows (fun _ _ => .inl) (fun _ _ => .inl) (fun other c found => ?_)
      (fun _ _ => .inl) (fun _ _ => .inl)
    change (s.classes.modify id.index _)[other.index]? = some c at found
    rw [Array.getElem?_modify] at found
    split at found
    · obtain ⟨before, there, rfl⟩ := Option.map_eq_some_iff.mp found
      have was := linked.classes other before there
      exact .inr ⟨was.older, fun t member => grows.hasTrait (was.traits t member),
        grows.methods was.methods, grows.methods was.statics,
        (grows.fields was.fields).insert name (grows.value has)⟩
    · exact .inl found
  | nil | bool | number | string | functionRef | native | traitRef => exact linked

theorem Linked.slot {s : Store} {id : ScopeId} {slot : Slot} (linked : s.Linked)
    (found : s.scopes.slot? id index = some slot) : slot.value.In s := by
  obtain ⟨scope, there, found⟩ := Option.bind_eq_some_iff.mp found
  exact (linked.scopes id scope there).slots index slot found

theorem Linked.field {s : Store} (linked : s.Linked)
    (found : s.field? object name = some value) : value.In s := by
  obtain ⟨fields, there, found⟩ := Option.bind_eq_some_iff.mp found
  cases object with
  | instanceRef id =>
    obtain ⟨i, object, rfl⟩ := Option.map_eq_some_iff.mp there
    exact (linked.instances id i object).fields name value found
  | classRef id =>
    obtain ⟨c, object, rfl⟩ := Option.map_eq_some_iff.mp there
    exact (linked.classes id c object).fields name value found
  | nil | bool | number | string | functionRef | native | traitRef => cases there

theorem Linked.method {s : Store} {method : Method} (linked : s.Linked) (has : s.Has method) :
    method.closure.In s := by
  obtain ⟨c, member, name, own | static⟩ | ⟨t, member, name, found⟩ := has
  · obtain ⟨index, there⟩ := Array.mem_iff_getElem?.mp member
    exact (linked.classes ⟨index⟩ c there).methods name method own
  · obtain ⟨index, there⟩ := Array.mem_iff_getElem?.mp member
    exact (linked.classes ⟨index⟩ c there).statics name method static
  · obtain ⟨index, there⟩ := Array.mem_iff_getElem?.mp member
    exact linked.traits ⟨index⟩ t there name method found

theorem Linked.callable {s : Store} {f : Closure} (linked : s.Linked)
    (found : s.callable? value = some (.function f)) : f.In s := by
  cases value with
  | functionRef id =>
    obtain ⟨f, there, same⟩ := Option.map_eq_some_iff.mp found
    cases same
    exact linked.functions id f there
  | classRef id =>
    obtain ⟨_, _, same⟩ := Option.map_eq_some_iff.mp found
    cases same
  | native => cases found
  | nil | bool | number | string | instanceRef | traitRef => cases found

theorem hasClass_of_callable {s : Store} {id : ClassId}
    (found : s.callable? value = some (.classRef id)) : s.classAt? id ≠ none := by
  cases value with
  | functionRef id =>
    obtain ⟨_, _, same⟩ := Option.map_eq_some_iff.mp found
    cases same
  | classRef id =>
    obtain ⟨c, there, same⟩ := Option.map_eq_some_iff.mp found
    cases same
    rw [there]
    exact Option.some_ne_none c
  | native => cases found
  | nil | bool | number | string | instanceRef | traitRef => cases found

/-- Whoever follows the links outwards comes to an end. -/
theorem Linked.outwards {s : Store} (linked : s.Linked) :
    WellFounded fun outer scope : ScopeId => s.scopes.parent? scope = some outer := by
  refine Subrelation.wf (fun {outer scope} link => ?_) (measure ScopeId.index).wf
  obtain ⟨entry, found, parent⟩ := Option.bind_eq_some_iff.mp link
  exact (linked.scopes scope entry found).older outer parent

/-- Whoever goes from superclass to superclass comes to an end. -/
theorem Linked.upwards {s : Store} (linked : s.Linked) :
    WellFounded fun parent id : ClassId => (s.classAt? id).bind Class.superclass = some parent := by
  refine Subrelation.wf (fun {parent id} link => ?_) (measure ClassId.index).wf
  obtain ⟨c, found, superclass⟩ := Option.bind_eq_some_iff.mp link
  exact (linked.classes id c found).older parent superclass

/-- The search for a method goes on in the superclass whenever there is one. -/
theorem Linked.method_eq {s : Store} (linked : s.Linked) (name : String) (id : ClassId) :
    s.method? name id = (s.classAt? id).bind fun c =>
      c.methods[name]? <|> s.traitMethod? c.traits name <|>
        c.superclass.bind (s.method? name) := by
  rw [Store.method?]
  cases found : s.classAt? id with
  | none => rfl
  | some c =>
    cases superclass : c.superclass with
    | none => simp [superclass]
    | some parent =>
      have older := (linked.classes id c found).older parent superclass
      simp [superclass, older]

end Store

end Lox
