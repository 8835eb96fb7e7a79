import Lox.Proofs.CoherentSteps

/-! What opening scopes, declaring variables and reaching them does to a coherent state. -/

namespace Lox

variable {past : History}

/-- The scope that a layer of the context describes is as many links away as there are layers
before it. -/
theorem Fits.at {context : Context} {distance : Nat} (fits : Fits past plan scopes context active)
    (layers : context[distance]? = some layer) : ∃ id target scope, active = some id ∧
      scopes.ancestor? distance id = some target ∧ scopes.get? target = some scope ∧
      plan[target.index]? = some layer.all ∧ layer.Fits past target scope := by
  induction context generalizing active distance with
  | nil => cases layers
  | cons first outer ih =>
    obtain ⟨id, scope, same, found, planned, here, rest⟩ := fits
    cases distance with
    | zero =>
      cases layers
      exact ⟨id, id, scope, same, rfl, found, planned, here⟩
    | succ distance =>
      obtain ⟨parent, target, scope', parent_eq, reached, rest⟩ := ih rest layers
      refine ⟨id, target, scope', same, ?_, rest⟩
      rw [Scopes.ancestor?, Scopes.parent?, found, Option.bind_some, parent_eq]
      exact reached

/-- The active scope and those around it are the ones that the context describes. -/
abbrev Snapshot.Stands (w : Snapshot past) (context : Context) : Prop :=
  Fits past w.plan w.machine.store.scopes context w.machine.active

theorem Later.stands {w w' : Snapshot past} (later : Later may w w') (stands : w.Stands context) :
    w'.Stands context := by
  rw [Snapshot.Stands, later.active]
  exact later.fits stands

theorem Context.WellFormed.pending {context : Context} {distance : Nat} {names : List String}
    (wellFormed : context.WellFormed)
    (layers : context[distance]? = some (.scope names count (some (name, value)))) :
    ∃ index, count = index + 1 ∧ names[index]? = some name.lexeme := by
  induction context generalizing distance with
  | nil => cases layers
  | cons first outer ih =>
    cases distance with
    | zero =>
      cases layers
      exact wellFormed.1.2.2 name value rfl
    | succ distance =>
      cases first with
      | scope | receiver => exact ih wellFormed.2 layers
      | superclass => exact ih wellFormed layers

theorem Scope.slot_of_names {scope : Scope} {names : List String} (held : scope.names <+: names)
    (name : names[index]? = some lexeme) (enough : index < scope.slots.size) :
    ∃ slot, scope.slots[index]? = some slot ∧ slot.name = lexeme := by
  have here : scope.names[index]? = some lexeme := by
    obtain ⟨more, rfl⟩ := held
    rwa [List.getElem?_append_left (by simpa [Scope.names] using enough)] at name
  rw [Scope.names, List.getElem?_map, Array.getElem?_toList] at here
  exact Option.map_eq_some_iff.mp here

/-- The slot of a name that is visible in a scope: it is there, or it is the next one, and the
initializer of its variable has not come to an end. -/
theorem Layer.Fits.slot {layer : Layer} {id : ScopeId} {scope : Scope}
    (fits : layer.Fits past id scope)
    (held : scope.names <+: layer.all) (visible : layer.visible[index]? = some lexeme) :
    (∃ slot, scope.slots[index]? = some slot ∧ slot.name = lexeme) ∨
      scope.slots.size = index ∧ ∃ names name value,
        layer = .scope names (index + 1) (some (name, value)) ∧ names[index]? = some lexeme ∧
        Awaited past id index name value := by
  cases layer with
  | scope names count pending =>
    change (names.take count)[index]? = some lexeme at visible
    rw [List.getElem?_take] at visible
    obtain ⟨bound, name⟩ := Option.ite_none_right_eq_some.mp visible
    obtain enough | ⟨same, token, value, rfl, awaited⟩ := fits
    · exact .inl (Scope.slot_of_names held name (Nat.lt_of_lt_of_le bound enough))
    · by_cases last : index = scope.slots.size
      · subst last same
        exact .inr ⟨rfl, names, token, value, rfl, name, awaited⟩
      · exact .inl (Scope.slot_of_names held name (by omega))
  | receiver method =>
    obtain ⟨f, receiver, m, -, -, -, slot⟩ := fits
    obtain ⟨rfl, rfl⟩ : index = 0 ∧ "this" = lexeme := by
      simpa [Layer.visible, List.getElem?_singleton] using visible
    exact .inl ⟨_, slot, rfl⟩
  | superclass owner =>
    obtain ⟨reference, parent, m, -, -, -, -, slot⟩ := fits
    obtain ⟨rfl, rfl⟩ : index = 0 ∧ "super" = lexeme := by
      simpa [Layer.visible, List.getElem?_singleton] using visible
    exact .inl ⟨_, slot, rfl⟩

/-- The state after a new scope has been opened. -/
structure Opened (w : Snapshot past) (parent : Option ScopeId) (slots : List (String × Value))
    (names : List String) (id : ScopeId) (w' : Snapshot past) : Prop where
  new : id = w.machine.store.scopes.nextId
  found : w'.machine.store.scopes.get? id = some ⟨Scopes.slotsOf slots, parent⟩
  planned : w'.plan[id.index]? = some names

theorem Opened.absent {id : ScopeId} {w' : Snapshot past}
    (opened : Opened w parent slots names id w') :
    w.machine.store.scopes.get? id = none := by
  rw [opened.new]
  exact Scopes.get?_nextId _

theorem names_slotsOf (slots : List (String × Value)) (parent : Option ScopeId) :
    (⟨Scopes.slotsOf slots, parent⟩ : Scope).names = slots.map Prod.fst := by
  simp [Scope.names, Scopes.slotsOf]

theorem newScope_steps (parent : Option ScopeId) (slots : List (String × Value))
    (fits : slots.map Prod.fst <+: names) :
    Steps complaint may (Eval.newScope parent slots) (Eval.newScope parent slots) w
      (Opened w parent slots names) := by
  let scopes := w.machine.store.scopes
  let m := { w.machine with store :=
    { w.machine.store with scopes := scopes.opened parent slots } }
  have length : w.plan.length = scopes.entries.size := w.coherent.planned
  have last : (w.plan ++ [names])[scopes.nextId.index]? = some names := by
    simp [Scopes.nextId, ← length]
  have planned : (w.plan ++ [names]).length = (scopes.opened parent slots).entries.size := by
    rw [Scopes.size_opened, List.length_append, length]
    rfl
  obtain ⟨w', ends, plan, later⟩ := w.next (m := m) rfl (List.prefix_append w.plan [names])
    (Scopes.opened_grow scopes parent slots).weaken ⟨Nat.le_refl _, fun _ _ => rfl⟩ planned
    (fun id scope found => by
      change (scopes.opened parent slots).get? id = some scope at found
      rw [Scopes.get?_opened] at found
      split at found
      · rename_i new
        cases found
        rw [names_slotsOf]
        exact ⟨names, new ▸ last, fits⟩
      · obtain ⟨names', planned, held⟩ := w.coherent.names id scope found
        have bound := (List.getElem?_eq_some_iff.mp planned).1
        exact ⟨names', by rw [List.getElem?_append_left bound, planned], held⟩)
    (fun _ member => .inl member) (fun _ has => .inl has) w.coherent.unused
  refine .of_ok rfl ⟨w', ends, later, rfl, ?_, plan ▸ last⟩
  rw [ends]
  change (scopes.opened parent slots).get? scopes.nextId = _
  rw [Scopes.get?_opened, if_pos rfl]

theorem Part.own_subset (part : Part) : part.ownReferences ⊆ part.references true := by
  unfold Part.ownReferences
  split
  · exact List.subset_append_right ..
  · exact List.Subset.refl _
  · exact List.Subset.refl _
  · exact List.Subset.refl _
  · rename_i c
    cases c
    intro reference member
    simp only [Part.references, Reference.inStmt, Reference.inClass]
    exact List.append_assoc .. ▸ List.mem_append_left _ member
  · exact List.nil_subset _

/-- Where an address leads that is used at a place of a running program. -/
structure Located (past : History) (scopes : Scopes) (active : Option ScopeId)
    (reference : Reference) (address : Address) (target : ScopeId) (scope : Scope) : Prop where
  reached : ∃ id, active = some id ∧ scopes.ancestor? address.distance id = some target
  found : scopes.get? target = some scope
  slot : (∃ slot, scope.slots[address.index]? = some slot ∧ slot.name = reference.name.lexeme) ∨
    scope.slots.size = address.index ∧ ∃ name value, name.lexeme = reference.name.lexeme ∧
      Awaited past target address.index name value ∧ reference ∈ Reference.inExpr true value

theorem Snapshot.located (w : Snapshot past) (known : Known past w.machine p)
    (stands : w.Stands p.context)
    (own : reference ∈ p.part.ownReferences)
    (recorded : w.machine.registry.addresses[reference.id]? = some address) :
    ∃ target scope,
      Located past w.machine.store.scopes w.machine.active reference address target scope := by
  obtain ⟨root, sited, kept⟩ := known.sited
  have member := p.part.own_subset own
  rw [kept reference member] at recorded
  obtain ⟨layer, layers, visible⟩ := sited.found own recorded
  obtain ⟨id, target, scope, active, reached, found, planned, here⟩ := stands.at layers
  obtain ⟨names, same, held⟩ := w.coherent.names target scope found
  rw [planned] at same
  cases same
  refine ⟨target, scope, ⟨id, active, reached⟩, found, ?_⟩
  obtain slot | ⟨size, names, name, value, rfl, named, awaited⟩ := here.slot held visible
  · exact .inl slot
  · obtain ⟨index, last, spelled⟩ := sited.wellFormed.pending layers
    cases last
    have covered := sited.covers _ (List.mem_of_getElem? layers) name value rfl
    exact .inr ⟨size, name, value, Option.some.inj (spelled.symm.trans named), awaited,
      covered member⟩

section

variable {m : Machine} {reference : Reference} {address : Address} {id : ScopeId}

theorem activeScope_eq (active : m.active = some id) : Eval.activeScope m = .ok id m := by
  unfold Eval.activeScope
  rw [Eval.bind_get, active]
  rfl

theorem address?_eq (recorded : m.registry.addresses[reference.id]? = found) :
    Eval.address? reference m = .ok found m := by
  rw [← recorded]
  rfl

theorem slotValue_eq (address : Address) (active : m.active = some id)
    (reached : m.store.scopes.ancestor? address.distance id = some target) :
    Eval.slotValue address m =
      .ok ((m.store.scopes.slot? target address.index).map Slot.value) m := by
  have read : m.store.scopes.read id address =
      .ok ((m.store.scopes.slot? target address.index).map Slot.value) := by
    rw [Scopes.read, Scopes.reach, reached]
    rfl
  unfold Eval.slotValue
  rw [Eval.bind_of_ok (activeScope_eq active), Eval.bind_get, read]
  rfl

theorem readVariable_address (recorded : m.registry.addresses[reference.id]? = some address)
    (active : m.active = some id)
    (reached : m.store.scopes.ancestor? address.distance id = some target) :
    Eval.readVariable reference m = Eval.orUndefined reference.name
      ((m.store.scopes.slot? target address.index).map Slot.value) m := by
  unfold Eval.readVariable
  rw [Eval.bind_of_ok (address?_eq recorded)]
  exact Eval.bind_of_ok (slotValue_eq address active reached)

theorem readVariable_global (free : m.registry.addresses[reference.id]? = none) :
    Eval.readVariable reference m =
      Eval.orUndefined reference.name m.globals[reference.name.lexeme]? m := by
  unfold Eval.readVariable
  rw [Eval.bind_of_ok (address?_eq free)]
  rfl

/-- Reading a variable leaves the machine as it is. -/
theorem readVariable_steps {w : Snapshot past} (known : Known past w.machine p)
    (stands : w.Stands p.context)
    (own : reference ∈ p.part.ownReferences) :
    Steps complaint none (Eval.readVariable reference) (Eval.readVariable reference) w
      fun value w' => w' = w ∧ Eval.readVariable reference w.machine = .ok value w.machine := by
  have looked (value : Option Value)
      (same : Eval.readVariable reference w.machine =
        Eval.orUndefined reference.name value w.machine) :
      Steps complaint none (Eval.readVariable reference) (Eval.readVariable reference) w
        fun value w' => w' = w ∧
          Eval.readVariable reference w.machine = .ok value w.machine := by
    cases value with
    | none => exact .of_error same
    | some value => exact .of_ok same ⟨w, rfl, .refl w, rfl, same⟩
  cases recorded : w.machine.registry.addresses[reference.id]? with
  | none => exact looked _ (readVariable_global recorded)
  | some address =>
    obtain ⟨target, scope, located⟩ := w.located known stands own recorded
    obtain ⟨id, active, reached⟩ := located.reached
    exact looked _ (readVariable_address recorded active reached)

theorem put_steps {w : Snapshot past} (plain : ∀ slot,
      w.machine.store.scopes.slot? id index = some slot → Plain slot.name) (value : Value) :
    Steps complaint may (Eval.modifyScopes (·.put id index value))
      (Eval.modifyScopes (·.put id index value)) w Any := by
  let scopes := w.machine.store.scopes
  let m := { w.machine with store :=
    { w.machine.store with scopes := scopes.put id index value } }
  obtain ⟨w', ends, _, later⟩ := w.next (m := m) rfl List.prefix_rfl
    (Scopes.put_grow plain value).weaken ⟨Nat.le_refl _, fun _ _ => rfl⟩
    (w.coherent.planned.trans (Scopes.size_put ..).symm)
    (fun other scope found => by
      change (scopes.put id index value).get? other = some scope at found
      rw [Scopes.get?_put] at found
      split at found
      · rename_i same
        subst same
        obtain ⟨before, old, rfl⟩ := Option.map_eq_some_iff.mp found
        rw [Scope.names, Scopes.names_modify]
        exact w.coherent.names other before old
      · exact w.coherent.names other scope found)
    (fun _ member => .inl member) (fun _ has => .inl has) w.coherent.unused
  exact .of_modify ⟨w', ends, later, trivial⟩

theorem writeVariable_address (recorded : m.registry.addresses[reference.id]? = some address)
    (active : m.active = some id)
    (reached : m.store.scopes.ancestor? address.distance id = some target) (value : Value) :
    Eval.writeVariable reference value m = (do
      let _ ← Eval.orUndefined reference.name (m.store.scopes.slot? target address.index)
      Eval.modifyScopes (·.put target address.index value)) m := by
  unfold Eval.writeVariable
  rw [Eval.bind_of_ok (address?_eq recorded)]
  dsimp only
  rw [Eval.bind_of_ok (activeScope_eq active), Eval.bind_get,
    Scopes.reach, reached]
  rfl

theorem writeVariable_global (free : m.registry.addresses[reference.id]? = none)
    (value : Value) : Eval.writeVariable reference value m =
      (if m.globals.contains reference.name.lexeme then
        modify fun m => { m with globals := m.globals.insert reference.name.lexeme value }
      else Eval.fail reference.name.line (.undefinedVariable reference.name.lexeme) :
        Eval Unit) m := by
  unfold Eval.writeVariable
  rw [Eval.bind_of_ok (address?_eq free)]
  rfl

theorem orUndefined_steps {w : Snapshot past} (name : Token) (value : Option α) :
    Steps complaint may (Eval.orUndefined name value) (Eval.orUndefined name value) w
      fun _ w' => w' = w := by
  cases value with
  | none => exact .fail ..
  | some value => exact .pure rfl

/-- Only the slot of the variable itself is overwritten. -/
theorem writeVariable_steps {w : Snapshot past} (known : Known past w.machine p)
    (stands : w.Stands p.context)
    (own : reference ∈ p.part.ownReferences) (plain : Plain reference.name.lexeme)
    (value : Value) :
    Steps complaint none (Eval.writeVariable reference value)
      (Eval.writeVariable reference value) w Any := by
  unfold Steps
  cases recorded : w.machine.registry.addresses[reference.id]? with
  | none =>
    rw [writeVariable_global recorded]
    split
    · exact Steps.of_quiet (.of_store rfl rfl rfl rfl)
    · exact Steps.fail ..
  | some address =>
    obtain ⟨target, scope, located⟩ := w.located known stands own recorded
    obtain ⟨id, active, reached⟩ := located.reached
    rw [writeVariable_address recorded active reached]
    refine (orUndefined_steps ..).bind fun _ w' _ same => ?_
    subst same
    refine put_steps (fun slot there => ?_) value
    rw [Scopes.slot?, located.found, Option.bind_some] at there
    obtain ⟨slot', here, name⟩ | ⟨size, -⟩ := located.slot
    · cases there.symm.trans here
      exact name ▸ plain
    · have bound := (Array.getElem?_eq_some_iff.mp there).1
      exact (Nat.ne_of_lt bound size.symm).elim

end

/-- The innermost scope holds just the names declared so far. -/
def Exact (scopes : Scopes) (active : Option ScopeId) : Context → Prop
  | [] => True
  | .scope _ count none :: _ =>
    ∃ id scope, active = some id ∧ scopes.get? id = some scope ∧ scope.slots.size = count
  | _ => False

theorem Exact.grow {context : Context} (exact : Exact scopes active context)
    (grow : scopes.Grow none scopes') : Exact scopes' active context := by
  unfold Exact at exact ⊢
  split at exact
  · trivial
  · obtain ⟨id, scope, same, found, size⟩ := exact
    obtain ⟨scope', found', grows⟩ := grow id scope found
    exact ⟨id, scope', same, found', (grows.size nofun).trans size⟩
  · exact exact.elim

theorem Fits.advance {context : Context} (fits : Fits past plan scopes context active)
    (exact : Exact scopes active (context.advance count)) :
    Fits past plan scopes (context.advance count) active := by
  unfold Context.advance at exact ⊢
  split at exact
  · rename_i names before pending outer
    cases pending with
    | some pending => exact exact.elim
    | none =>
      obtain ⟨id, scope, same, found, planned, -, rest⟩ := fits
      obtain ⟨id', scope', same', found', size⟩ := exact
      cases same.symm.trans same'
      cases found.symm.trans found'
      exact ⟨id, scope, same, found, planned, .inl (Nat.le_of_eq size.symm), rest⟩
  · exact fits

/-- The scopes after a declaration in the active one. -/
def Scopes.declared (s : Scopes) (active : Option ScopeId) (name : String) (value : Value) :
    Scopes :=
  match active with
  | some id => s.define id name value
  | none => s

theorem Scopes.size_declared (s : Scopes) (active : Option ScopeId) (name : String)
    (value : Value) : (s.declared active name value).entries.size = s.entries.size := by
  cases active with
  | none => rfl
  | some id => exact size_define ..

theorem Scopes.declared_grow (s : Scopes) (active : Option ScopeId) (name : String)
    (value : Value) : s.Grow active (s.declared active name value) := by
  cases active with
  | none => exact .refl s
  | some id => exact define_grow s id name value

theorem Exact.declared {context : Context} (exact : Exact scopes active context)
    (name : String) (value : Value) :
    Exact (scopes.declared active name value) active (context.advance 1) := by
  unfold Exact at exact
  split at exact
  · trivial
  · obtain ⟨id, scope, rfl, found, size⟩ := exact
    refine ⟨id, { scope with slots := scope.slots.push ⟨name, value⟩ }, rfl, ?_, ?_⟩
    · rw [Scopes.declared, Scopes.get?_define, if_pos rfl, found]
      rfl
    · rw [Array.size_push, size]
  · exact exact.elim

theorem Fits.declared {context : Context} (fits : Fits past plan scopes context active)
    (exact : Exact scopes active context) (name : String) (value : Value) :
    Fits past plan (scopes.declared active name value) (context.advance 1) active :=
  (fits.grow (scopes.declared_grow active name value) List.prefix_rfl).advance
    (exact.declared name value)

/-- A name that comes next in the plan of the active scope may be declared. -/
theorem Coherent.declared_names {context : Context} {m : Machine}
    (coherent : Coherent past plan m)
    (fits : Fits past plan m.store.scopes context m.active)
    (exact : Exact m.store.scopes m.active context) (next : context.Next ([name] <+: ·))
    (value : Value) (other : ScopeId) (scope : Scope)
    (found : (m.store.scopes.declared m.active name value).get? other = some scope) :
    ∃ names, plan[other.index]? = some names ∧ scope.names <+: names := by
  unfold Exact at exact
  split at exact
  · change m.active = none at fits
    rw [fits] at found
    exact coherent.names other scope found
  · rename_i names count outer
    obtain ⟨id, before, active, there, size⟩ := exact
    rw [active, Scopes.declared, Scopes.get?_define] at found
    split at found
    · rename_i same
      subst same
      rw [there] at found
      cases found
      obtain ⟨id, _, active', _, planned, -⟩ := fits
      cases active.symm.trans active'
      obtain ⟨names', planned', held⟩ := coherent.names other before there
      cases planned.symm.trans planned'
      refine ⟨names, planned, ?_⟩
      obtain ⟨rest, rfl⟩ : before.names <+: names := held
      obtain ⟨rest', next⟩ := next
      have length : before.names.length = count := by simp [Scope.names, size]
      rw [← length, List.drop_left] at next
      exact ⟨rest', by simp [Scope.names, ← next]⟩
    · exact coherent.names other scope found
  · exact exact.elim

/-- The state after a declaration. -/
def Machine.declared (m : Machine) (name : String) (value : Value) : Machine :=
  { m with
    globals := if m.active.isSome then m.globals else m.globals.insert name value
    store := { m.store with scopes := m.store.scopes.declared m.active name value } }

/-- The variable that a declaration has bound is where the binding says. -/
def Bound (m : Machine) (name : String) : Eval.Binding → Prop
  | .slot index => ∃ id scope, m.active = some id ∧ m.store.scopes.get? id = some scope ∧
      scope.names[index]? = some name
  | .global => True

theorem declare_eq {m : Machine} (live : ∀ id, m.active = some id → m.store.scopes.get? id ≠ none)
    (name : String) (value : Value) : ∃ binding,
      Eval.declare name value m = .ok binding (m.declared name value) ∧
      Bound (m.declared name value) name binding := by
  obtain ⟨active, globals, store, registry, nextNode, loaded, world⟩ := m
  cases active with
  | none => exact ⟨.global, rfl, trivial⟩
  | some id =>
    obtain ⟨scope, found⟩ := Option.ne_none_iff_exists'.mp (live id rfl)
    have defined : (store.scopes.define id name value).get? id =
        some { scope with slots := scope.slots.push ⟨name, value⟩ } := by
      rw [Scopes.get?_define, if_pos rfl]
      exact congrArg _ found
    refine ⟨.slot ((store.scopes.define id name value).nextSlot id - 1), rfl, id, _, rfl,
      defined, ?_⟩
    simp [Scopes.nextSlot, defined, Scope.names]

theorem Fits.live {context : Context} {id : ScopeId}
    (fits : Fits past plan scopes context (some id)) : scopes.get? id ≠ none := by
  cases context with
  | nil => cases fits
  | cons layer outer =>
    obtain ⟨_, scope, same, found, -⟩ := fits
    cases same
    rw [found]
    nofun

/-- The state is one between two statements of the innermost scope. -/
structure Snapshot.Within (w : Snapshot past) (context : Context) : Prop where
  fits : w.Stands context
  exact : Exact w.machine.store.scopes w.machine.active context

theorem Later.within {w w' : Snapshot past} (later : Later none w w') (within : w.Within context) :
    w'.Within context := by
  refine ⟨later.stands within.fits, ?_⟩
  rw [later.active]
  exact within.exact.grow later.scopes

theorem Snapshot.Within.nextSlot {w : Snapshot past} {id : ScopeId} (within : w.Within context)
    (active : w.machine.active = some id) : ∃ names outer,
      context = .scope names (w.machine.store.scopes.nextSlot id) none :: outer := by
  obtain ⟨fits, exact⟩ := within
  unfold Exact at exact
  split at exact
  · cases active.symm.trans fits
  · obtain ⟨id', scope, active', found, rfl⟩ := exact
    cases active.symm.trans active'
    rw [Scopes.nextSlot, found]
    exact ⟨_, _, rfl⟩
  · exact exact.elim

/-- While the initializer of a variable runs, its scope misses just the slot of the variable. -/
theorem Snapshot.Within.await {w : Snapshot past} {context : Context} (within : w.Within context)
    (happens : past (.execute (.varDecl name (some value))) w.machine) :
    w.Stands (context.await name value) := by
  obtain ⟨fits, exact⟩ := within
  unfold Exact at exact
  split at exact
  · exact fits
  · obtain ⟨id, scope, active, found, size⟩ := exact
    obtain ⟨id', scope', active', found', planned, -, rest⟩ := fits
    cases active.symm.trans active'
    cases found.symm.trans found'
    refine ⟨id, scope, active, found, planned, .inr ⟨size ▸ rfl, name, value, rfl, ?_⟩, rest⟩
    exact ⟨w.machine, happens, active, by rw [Scopes.nextSlot, found]⟩
  · exact exact.elim

/-- A declaration, perhaps of an object that has just been made: in the new state the object fits
the scope that it is declared in. -/
theorem Snapshot.declared (w : Snapshot past) {m : Machine} (within : w.Within context)
    (next : context.Next ([name] <+: ·)) (value : Value) (active : m.active = w.machine.active)
    (scopes : m.store.scopes = w.machine.store.scopes) (nextNode : m.nextNode = w.machine.nextNode)
    (registry : m.registry = w.machine.registry)
    (functions : ∀ f ∈ m.store.functions,
      f ∈ w.machine.store.functions ∨ Callable past w.plan (m.declared name value) f)
    (methods : ∀ method, m.store.Has method → w.machine.store.Has method ∨
      Bindable past w.plan (m.declared name value) method.closure ∧
        (method.isGetter = true → method.closure.declaration.params = [])) :
    ∃ w' : Snapshot past, w'.machine = m.declared name value ∧ Later w.machine.active w w' ∧
      w'.Within (context.advance 1) := by
  have after : (m.declared name value).store.scopes =
      w.machine.store.scopes.declared w.machine.active name value := by
    rw [← active, ← scopes]
    rfl
  have grow := w.machine.store.scopes.declared_grow w.machine.active name value
  obtain ⟨w', ends, plan, later⟩ := w.next (m := m.declared name value) active List.prefix_rfl
    (after ▸ grow) ⟨Nat.le_of_eq nextNode.symm, fun _ _ => by rw [← registry]; rfl⟩
    (by rw [after, Scopes.size_declared]; exact w.coherent.planned)
    (after ▸ w.coherent.declared_names within.fits within.exact next value) functions methods
    (fun number unused => by
      change m.nextNode ≤ number at unused
      change m.registry.addresses[number]? = none
      rw [registry]
      exact w.coherent.unused number (nextNode ▸ unused))
  refine ⟨w', ends, later, ?_, ?_⟩
  · rw [Snapshot.Stands, plan, later.active, ends, after]
    exact within.fits.declared within.exact name value
  · rw [later.active, ends, after]
    exact within.exact.declared name value

theorem Snapshot.Within.live {w : Snapshot past} (within : w.Within context) (id : ScopeId)
    (active : w.machine.active = some id) : w.machine.store.scopes.get? id ≠ none := by
  have fits := within.fits
  rw [Snapshot.Stands, active] at fits
  exact fits.live

section

variable {w : Snapshot past} {context : Context} {name : String}

theorem declare_steps (within : w.Within context) (next : context.Next ([name] <+: ·))
    (value : Value) :
    Steps complaint w.machine.active (Eval.declare name value) (Eval.declare name value) w
      fun binding w' => w'.Within (context.advance 1) ∧
        Bound w'.machine name binding ∧
        w'.machine.store.scopes.nextId = w.machine.store.scopes.nextId := by
  obtain ⟨w', ends, later, after⟩ := w.declared (m := w.machine) within next value rfl rfl rfl rfl
    (fun _ member => .inl member) (fun _ has => .inl has)
  obtain ⟨binding, ran, bound⟩ := declare_eq within.live name value
  refine .of_ok ran ⟨w', ends, later, after, ends ▸ bound, ?_⟩
  rw [ends]
  exact congrArg ScopeId.mk (Scopes.size_declared ..)

theorem Later.bound {w' : Snapshot past} {binding : Eval.Binding} (later : Later may w w')
    (bound : Bound w.machine name binding) : Bound w'.machine name binding := by
  cases binding with
  | global => trivial
  | slot index =>
    obtain ⟨id, scope, active, found, here⟩ := bound
    obtain ⟨scope', found', grows⟩ := later.scopes id scope found
    obtain ⟨more, same⟩ := grows.names
    refine ⟨id, scope', later.active.trans active, found', ?_⟩
    rw [← same, List.getElem?_append_left (List.getElem?_eq_some_iff.mp here).1, here]

theorem rebind_steps {binding : Eval.Binding} (bound : Bound w.machine name binding)
    (plain : Plain name) (value : Value) :
    Steps complaint may (Eval.rebind binding name value) (Eval.rebind binding name value) w
      Any := by
  cases binding with
  | global => exact .of_quiet (.of_store rfl rfl rfl rfl)
  | slot index =>
    obtain ⟨id, scope, active, found, here⟩ := bound
    have inside : Steps complaint may Eval.activeScope Eval.activeScope w
        fun id' w' => id' = id ∧ w' = w :=
      .of_ok (activeScope_eq active) ⟨w, rfl, .refl w, rfl, rfl⟩
    refine inside.bind fun _ _ _ same => ?_
    obtain ⟨rfl, rfl⟩ := same
    refine put_steps (fun slot there => ?_) value
    rw [Scopes.slot?, found, Option.bind_some, ← Array.getElem?_toList] at there
    rw [Scope.names, List.getElem?_map, there] at here
    cases here
    exact plain

/-- A function is bound to its name in the scope that it closes over. -/
theorem declareFunction_steps {f : FunctionDecl}
    (known : Known past w.machine ⟨.stmt (.functionDecl f), context, r⟩)
    (within : w.Within context) :
    Steps complaint w.machine.active (Engine.declareFunction f) (Engine.declareFunction f) w
      fun _ w' => w'.Within (context.advance 1) := by
  obtain ⟨root, sited, -⟩ := known.sited
  obtain ⟨name, params, body, line⟩ := f
  cases name with
  | none => exact sited.accepted.proper.elim
  | some name =>
    let f : Closure := ⟨⟨some name, params, body, line⟩, w.machine.active, false⟩
    let value : Value := .functionRef ⟨(w.machine.store.functions.push f).size - 1⟩
    let m := { w.machine with store :=
      { w.machine.store with functions := w.machine.store.functions.push f } }
    have callable : Callable past w.plan (m.declared name.lexeme value) f :=
      ⟨.function, context.advance 1, r.introduce name,
        (known.enter .function).stays ⟨Nat.le_refl _, fun _ _ => rfl⟩,
        within.fits.declared within.exact name.lexeme value⟩
    obtain ⟨w', ends, later, after⟩ := w.declared (m := m) within sited.situated.2 value rfl rfl
      rfl rfl
      (fun g member => by
        obtain old | rfl := Array.mem_push.mp member
        · exact .inl old
        · exact .inr callable)
      (fun _ has => .inl has)
    obtain ⟨binding, ran, -⟩ := declare_eq (m := m) within.live name.lexeme value
    exact .of_ok (a := ()) (Eval.bind_of_ok ran) ⟨w', ends, later, after⟩

theorem Methods.mem_of_foldl {entries : List (String × Method)} {table : Methods} {name : String}
    (found : (entries.foldl (fun table m => table.insert m.1 m.2) table)[name]? = some method) :
    table[name]? = some method ∨ ∃ entry ∈ entries, entry.2 = method := by
  induction entries generalizing table with
  | nil => exact .inl found
  | cons entry entries ih =>
    obtain old | ⟨entry', member, same⟩ := ih found
    · rw [Std.TreeMap.getElem?_insert] at old
      split at old
      · exact .inr ⟨entry, List.mem_cons_self .., Option.some.inj old⟩
      · exact .inl old
    · exact .inr ⟨entry', List.mem_cons_of_mem _ member, same⟩

theorem Methods.mem_of_ofList {entries : List (String × Method)} {name : String}
    (found : (Methods.ofList entries)[name]? = some method) :
    ∃ entry ∈ entries, entry.2 = method := by
  obtain none | some := mem_of_foldl found
  · cases none
  · exact some

theorem Reaches.method (member : m ∈ ms) : ∃ kind r',
    Reaches ⟨.methods owner ms required, context, r⟩
      ⟨.function kind m.function, .receiver m.function :: context, r'⟩ := by
  induction ms generalizing required r with
  | nil => cases member
  | cons first ms ih =>
    obtain ⟨f, isGetter⟩ := first
    obtain rfl | member := List.mem_cons.mp member
    · exact ⟨_, _, .step .refl .firstMethod⟩
    · obtain ⟨kind, r', path⟩ := ih member
      exact ⟨kind, r', (Reaches.refl.step .otherMethods).trans path⟩

theorem Reaches.function (member : f ∈ fs) : ∃ r',
    Reaches ⟨.functions kind fs, context, r⟩ ⟨.function kind f, .receiver f :: context, r'⟩ := by
  induction fs generalizing r with
  | nil => cases member
  | cons first fs ih =>
    obtain rfl | member := List.mem_cons.mp member
    · exact ⟨_, .step .refl .firstFunction⟩
    · obtain ⟨r', path⟩ := ih member
      exact ⟨r', (Reaches.refl.step .otherFunctions).trans path⟩

theorem Proper.getter (proper : Proper.methods ms) (member : m ∈ ms) (getter : m.isGetter = true) :
    m.function.params = [] := by
  induction ms with
  | nil => cases member
  | cons first ms ih =>
    obtain ⟨f, isGetter⟩ := first
    obtain rfl | member := List.mem_cons.mp member
    · exact proper.1.1 getter
    · exact ih proper.2 member

/-- The methods of a class close over the scope in which the class was declared. -/
theorem Table.methods (known : Known past m ⟨.methods owner ms required, context, r⟩)
    (fits : Fits past plan m.store.scopes context scope) :
    Table past plan m
      (.ofList (ms.map fun m => Engine.methodEntry scope m.function m.isGetter)) := by
  intro name method found
  obtain ⟨entry, listed, rfl⟩ := Methods.mem_of_ofList found
  obtain ⟨declaration, member, rfl⟩ := List.mem_map.mp listed
  obtain ⟨kind, r', path⟩ := Reaches.method member
  obtain ⟨root, sited, -⟩ := known.sited
  exact ⟨⟨kind, context, r', known.reach path, fits⟩,
    Proper.getter sited.accepted.proper member⟩

/-- Static methods and default methods do so too, and none of them is a getter. -/
theorem Table.functions (known : Known past m ⟨.functions kind fs, context, r⟩)
    (fits : Fits past plan m.store.scopes context scope) (entry : FunctionDecl → String × Method)
    (declares : ∀ f, (entry f).2.closure.declaration = f)
    (closes : ∀ f, (entry f).2.closure.parent = scope)
    (plain : ∀ f, (entry f).2.isGetter = false) :
    Table past plan m (.ofList (fs.map entry)) := by
  intro name method found
  obtain ⟨_, listed, rfl⟩ := Methods.mem_of_ofList found
  obtain ⟨declaration, member, rfl⟩ := List.mem_map.mp listed
  obtain ⟨r', path⟩ := Reaches.function member
  refine ⟨⟨kind, context, r', ?_, ?_⟩, fun getter => ?_⟩
  · rw [declares]
    exact known.reach path
  · rw [closes]
    exact fits
  · cases (plain declaration).symm.trans getter

/-- A trait is bound to its name in the scope that its default methods close over. -/
theorem declareTrait_steps {t : TraitDecl}
    (known : Known past w.machine ⟨.stmt (.traitDecl t), context, r⟩) (within : w.Within context) :
    Steps complaint w.machine.active (Engine.declareTrait t) (Engine.declareTrait t) w
      fun _ w' => w'.Within (context.advance 1) := by
  let methods : Methods := .ofList
    (t.defaults.map fun f => (f.title, ⟨⟨f, w.machine.active, false⟩, false⟩))
  let traits := w.machine.store.traits.push ⟨t.name.lexeme, methods⟩
  let value : Value := .traitRef ⟨traits.size - 1⟩
  let m := { w.machine with store := { w.machine.store with traits } }
  obtain ⟨root, sited, -⟩ := known.sited
  have defaults : Known past (m.declared t.name.lexeme value) _ :=
    (known.enter .defaults).stays ⟨Nat.le_refl _, fun _ _ => rfl⟩
  have table : Table past w.plan (m.declared t.name.lexeme value) methods :=
    .functions defaults (within.fits.declared within.exact t.name.lexeme value) _ (fun _ => rfl)
      (fun _ => rfl) fun _ => rfl
  obtain ⟨w', ends, later, after⟩ := w.declared (m := m) within sited.situated.2 value rfl rfl
    rfl rfl (fun _ member => .inl member)
    (fun method has => by
      obtain inClass | ⟨t', member, name, found⟩ := has
      · exact .inl (.inl inClass)
      · obtain old | rfl := Array.mem_push.mp member
        · exact .inl (.inr ⟨t', old, name, found⟩)
        · exact .inr (table name method found))
  obtain ⟨binding, ran, -⟩ := declare_eq (m := m) within.live t.name.lexeme value
  exact .of_ok (a := ()) (Eval.bind_of_ok ran) ⟨w', ends, later, after⟩

/-- The superclass of a class that is being declared. -/
def Inherits (past : History) (c : ClassDecl) (w : Snapshot past) : Option ClassId → Prop
  | none => c.superclass = none
  | some parent => ∃ reference m, past (.execute (.classDecl c)) m ∧
      c.superclass = some reference ∧ Eval.readVariable reference m = .ok (.classRef parent) m ∧
      m.store.scopes.nextId = w.machine.store.scopes.nextId

theorem methodScope_steps {c : ClassDecl} {parent : Option ClassId}
    (within : w.Within (context.advance 1)) (inherits : Inherits past c w parent) :
    Steps complaint none (Engine.methodScope parent) (Engine.methodScope parent) w
      fun scope w' => Fits past w'.plan w'.machine.store.scopes (context.ofClass c) scope := by
  cases parent with
  | none =>
    refine .bind_get (.pure ?_)
    rw [Context.ofClass, show c.superclass = none from inherits]
    exact within.fits
  | some parent =>
    obtain ⟨reference, m, happens, same, read, new⟩ := inherits
    refine .bind_get ((newScope_steps _ [("super", .classRef parent)]
      (List.prefix_refl ["super"])).bind fun id w' later opened => .pure ?_)
    rw [Context.ofClass, same]
    exact ⟨id, _, rfl, opened.found, opened.planned,
      ⟨reference, parent, m, happens, same, read, new.trans opened.new.symm, rfl⟩,
      later.fits within.fits⟩

/-- The scope of a call has a slot for each parameter, in their order, and nothing else. -/
theorem enterFunction_steps {f : Closure} (count : arguments.length = f.declaration.params.length) :
    Steps complaint none (Eval.enterFunction f arguments) (Eval.enterFunction f arguments) w
      (Opened w f.parent ((f.declaration.params.map Token.lexeme).zip arguments)
        (f.declaration.params.map Token.lexeme ++ declared f.declaration.body)) := by
  have names : ((f.declaration.params.map Token.lexeme).zip arguments).map Prod.fst =
      f.declaration.params.map Token.lexeme := List.map_fst_zip (by simp [count])
  refine newScope_steps _ _ ?_
  rw [names]
  exact List.prefix_append ..

/-- A method that has been bound to its receiver can be called. -/
theorem bindThis_steps {f : Closure} (bindable : Bindable past w.plan w.machine f)
    (happens : past (.bind f this) w.machine) :
    Steps complaint none (Eval.bindThis f this) (Eval.bindThis f this) w
      fun g w' => Callable past w'.plan w'.machine g ∧ g.declaration = f.declaration := by
  obtain ⟨kind, context, r, known, fits⟩ := bindable
  refine (newScope_steps f.parent [("this", this)] (List.prefix_refl ["this"])).bind
    fun id w' later opened => .pure ⟨⟨kind, .receiver f.declaration :: context, r, ?_, ?_⟩, rfl⟩
  · exact later.known known
  · exact ⟨id, _, rfl, opened.found, opened.planned,
      ⟨f, this, w.machine, happens, rfl, opened.new.symm, rfl⟩, later.fits fits⟩

end

end Lox
