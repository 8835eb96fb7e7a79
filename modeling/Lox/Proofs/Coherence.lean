import Lox.Proofs.Sources
import Lox.Proofs.Watch

/-! States of a machine that agree with the sources it runs. Every function and every method it
holds comes from a place in an accepted source, and the scopes that it closes over are those that
the resolution pass saw there. -/

namespace Lox

/-- The events of a run so far, each with the state in which it happened. -/
abbrev History := Event → Machine → Prop

/-- A source whose references a machine has numbered and resolved. -/
structure Loaded (root : Site) (m : Machine) : Prop where
  prepared : Prepared root
  sited : Sited root root
  counted : ∀ r ∈ root.part.references true, r.id < m.nextNode
  recorded : ∀ r ∈ root.part.references true,
    m.registry.addresses[r.id]? = root.final.registry.addresses[r.id]?

/-- What is asked of an engine at a part. -/
def Part.event? : Part → Option Event
  | expr e => some (.evaluate e)
  | stmt s => some (.execute s)
  | _ => none

/-- The part stands at top level and has been run there. -/
def Begun (past : History) (top : Site) : Prop :=
  top.context = [] ∧ ∃ event m, top.part.event? = some event ∧ past event m ∧ m.active = none

/-- A place inside a part that has been run at top level. -/
def Known (past : History) (m : Machine) (p : Site) : Prop :=
  ∃ root top, Loaded root m ∧ Reaches root top ∧ Begun past top ∧ Reaches top p

/-- A place that may be run next: a known one, or one at top level. -/
def Due (past : History) (m : Machine) (p : Site) : Prop :=
  Known past m p ∨ (p.context = [] ∧ m.active = none) ∧ ∃ root, Loaded root m ∧ Reaches root p

variable {past : History}

theorem Reaches.trans (first : Reaches p q) (second : Reaches q q') : Reaches p q' := by
  induction second with
  | refl => exact first
  | step _ enters ih => exact ih.step enters

theorem Known.reach (known : Known past m p) (path : Reaches p q) : Known past m q := by
  obtain ⟨root, top, loaded, outer, begun, inner⟩ := known
  exact ⟨root, top, loaded, outer, begun, inner.trans path⟩

theorem Known.enter (known : Known past m p) (enters : Enters p q) : Known past m q :=
  known.reach (.step .refl enters)

/-- A known place lies in its scopes, and the machine has recorded its addresses. -/
theorem Known.sited (known : Known past m p) : ∃ root, Sited root p ∧
    ∀ r ∈ p.part.references true,
      m.registry.addresses[r.id]? = root.final.registry.addresses[r.id]? := by
  obtain ⟨root, top, loaded, path, _, inner⟩ := known
  have whole := path.trans inner
  exact ⟨root, loaded.sited.reach whole, fun r member => loaded.recorded r (whole.fewer member)⟩

/-- A place that is run is known from then on. -/
theorem Due.begin (due : Due past m p) (event : p.part.event? = some happening)
    (happens : past happening m) : Known past m p := by
  obtain known | ⟨⟨top, inactive⟩, root, loaded, path⟩ := due
  · exact known
  · exact ⟨root, p, loaded, path, ⟨top, happening, m, event, happens, inactive⟩, .refl⟩

def Scope.names (scope : Scope) : List String := scope.slots.toList.map Slot.name

/-- A scope later on. Slots are never renamed, and those of `this` and `super` never change. -/
structure Scope.Grows (more : Prop) (scope scope' : Scope) : Prop where
  parent : scope'.parent = scope.parent
  names : scope.names <+: scope'.names
  size : ¬ more → scope'.slots.size = scope.slots.size
  bound : ∀ (index : Nat) slot, scope.slots[index]? = some slot → ¬ Plain slot.name →
    scope'.slots[index]? = some slot

/-- Scopes later on; only one of them, if any, has new slots. -/
def Scopes.Grow (may : Option ScopeId) (s s' : Scopes) : Prop :=
  ∀ id scope, s.get? id = some scope →
    ∃ scope', s'.get? id = some scope' ∧ scope.Grows (some id = may) scope'

theorem Scope.Grows.refl (scope : Scope) : scope.Grows more scope :=
  ⟨rfl, List.prefix_rfl, fun _ => rfl, fun _ _ found _ => found⟩

theorem Scope.Grows.trans (first : Scope.Grows more a b) (second : Scope.Grows more b c) :
    a.Grows more c :=
  ⟨second.parent.trans first.parent, first.names.trans second.names,
    fun same => (second.size same).trans (first.size same),
    fun index slot found bound =>
      second.bound index slot (first.bound index slot found bound) bound⟩

theorem Scope.Grows.mono (grows : Scope.Grows more a b) (weaker : more → more') :
    a.Grows more' b :=
  ⟨grows.parent, grows.names, fun no => grows.size (no ∘ weaker), grows.bound⟩

theorem Scope.Grows.size_le (grows : Scope.Grows more a b) : a.slots.size ≤ b.slots.size := by
  have shorter := grows.names.length_le
  simpa [Scope.names] using shorter

theorem Scopes.Grow.refl (s : Scopes) : s.Grow may s :=
  fun _ scope found => ⟨scope, found, .refl scope⟩

theorem Scopes.Grow.trans (first : Scopes.Grow may s s') (second : Scopes.Grow may s' s'') :
    s.Grow may s'' := by
  intro id scope found
  obtain ⟨middle, found, grows⟩ := first id scope found
  obtain ⟨final, found, grows'⟩ := second id middle found
  exact ⟨final, found, grows.trans grows'⟩

/-- A scope that is new may grow unseen. -/
theorem Scopes.Grow.fresh (first : Scopes.Grow none s s') (second : Scopes.Grow (some new) s' s'')
    (absent : s.get? new = none) : s.Grow none s'' := by
  intro id scope found
  have old : id ≠ new := by
    rintro rfl
    rw [absent] at found
    cases found
  obtain ⟨middle, found, grows⟩ := first id scope found
  obtain ⟨final, found, grows'⟩ := second id middle found
  exact ⟨final, found, grows.trans (grows'.mono fun same => absurd (Option.some.inj same) old)⟩

theorem Scopes.Grow.weaken (grow : Scopes.Grow none s s') : s.Grow may s' := by
  intro id scope found
  obtain ⟨scope', found, grows⟩ := grow id scope found
  exact ⟨scope', found, grows.mono nofun⟩

/-- The declaration of a variable whose initializer has been entered but has not come to an end:
it would become slot `index` of the scope. -/
def Awaited (past : History) (id : ScopeId) (index : Nat) (name : Token) (value : Expr) : Prop :=
  ∃ m, past (.execute (.varDecl name (some value))) m ∧ m.active = some id ∧
    m.store.scopes.nextSlot id = index

/-- The scope was made when a method was bound, and holds the receiver. -/
def HoldsReceiver (past : History) (id : ScopeId) (scope : Scope) (method : FunctionDecl) : Prop :=
  ∃ f receiver m, past (.bind f receiver) m ∧ f.declaration = method ∧
    m.store.scopes.nextId = id ∧ scope.slots[0]? = some ⟨"this", receiver⟩

/-- The scope was made when a class was declared, and holds the superclass. -/
def HoldsSuperclass (past : History) (id : ScopeId) (scope : Scope) (owner : ClassDecl) : Prop :=
  ∃ reference parent m, past (.execute (.classDecl owner)) m ∧
    owner.superclass = some reference ∧ Eval.readVariable reference m = .ok (.classRef parent) m ∧
    m.store.scopes.nextId = id ∧ scope.slots[0]? = some ⟨"super", .classRef parent⟩

/-- A scope that a layer of a context describes. -/
def Layer.Fits (past : History) (id : ScopeId) (scope : Scope) : Layer → Prop
  | .scope _ count pending => count ≤ scope.slots.size ∨ count = scope.slots.size + 1 ∧
      ∃ name value, pending = some (name, value) ∧ Awaited past id scope.slots.size name value
  | .receiver method => HoldsReceiver past id scope method
  | .superclass owner => HoldsSuperclass past id scope owner

/-- A chain of scopes that a context describes. The plan says for every scope which names it will
ever hold. -/
def Fits (past : History) (plan : List (List String)) (scopes : Scopes) :
    Context → Option ScopeId → Prop
  | [], active => active = none
  | layer :: outer, active => ∃ id scope, active = some id ∧ scopes.get? id = some scope ∧
      plan[id.index]? = some layer.all ∧ layer.Fits past id scope ∧
      Fits past plan scopes outer scope.parent

theorem Layer.Fits.grows {layer : Layer} {id : ScopeId} {before after : Scope}
    (fits : layer.Fits past id before) (grows : before.Grows more after) :
    layer.Fits past id after := by
  cases layer with
  | scope names count pending =>
    have larger := grows.size_le
    obtain enough | ⟨same, name, value, pending, awaited⟩ := fits
    · exact .inl (Nat.le_trans enough larger)
    · obtain equal | less := Nat.eq_or_lt_of_le larger
      · exact .inr ⟨equal ▸ same, name, value, pending, equal ▸ awaited⟩
      · exact .inl (same ▸ less)
  | receiver method =>
    obtain ⟨f, receiver, m, happened, same, new, slot⟩ := fits
    exact ⟨f, receiver, m, happened, same, new, grows.bound _ _ slot fun plain => plain.1 rfl⟩
  | superclass owner =>
    obtain ⟨reference, parent, m, happened, same, read, new, slot⟩ := fits
    exact ⟨reference, parent, m, happened, same, read, new,
      grows.bound _ _ slot fun plain => plain.2 rfl⟩

theorem Fits.grow {context : Context} (fits : Fits past plan scopes context active)
    (grow : scopes.Grow may scopes') (longer : plan <+: plan') :
    Fits past plan' scopes' context active := by
  induction context generalizing active with
  | nil => exact fits
  | cons layer outer ih =>
    obtain ⟨id, scope, same, found, planned, here, rest⟩ := fits
    obtain ⟨scope', found', grows⟩ := grow id scope found
    have planned' : plan'[id.index]? = some layer.all := by
      obtain ⟨more, rfl⟩ := longer
      rw [List.getElem?_append_left (List.getElem?_eq_some_iff.mp planned).1, planned]
    exact ⟨id, scope', same, found', planned', here.grows grows, grows.parent ▸ ih rest⟩

/-- A function whose body fits the scope it closes over. -/
def Callable (past : History) (plan : List (List String)) (m : Machine) (f : Closure) : Prop :=
  ∃ kind context r, Known past m ⟨.function kind f.declaration, context, r⟩ ∧
    Fits past plan m.store.scopes context f.parent

/-- A method that will fit once its receiver is known. -/
def Bindable (past : History) (plan : List (List String)) (m : Machine) (f : Closure) : Prop :=
  ∃ kind context r,
    Known past m ⟨.function kind f.declaration, .receiver f.declaration :: context, r⟩ ∧
    Fits past plan m.store.scopes context f.parent

/-- The method is in one of the method tables. -/
def Store.Has (s : Store) (method : Method) : Prop :=
  (∃ c ∈ s.classes, ∃ name : String,
    c.methods[name]? = some method ∨ c.statics[name]? = some method) ∨
  ∃ t ∈ s.traits, ∃ name : String, t.methods[name]? = some method

structure Coherent (past : History) (plan : List (List String)) (m : Machine) : Prop where
  planned : plan.length = m.store.scopes.entries.size
  names : ∀ id scope, m.store.scopes.get? id = some scope →
    ∃ names, plan[id.index]? = some names ∧ scope.names <+: names
  functions : ∀ f ∈ m.store.functions, Callable past plan m f
  methods : ∀ method, m.store.Has method → Bindable past plan m method.closure ∧
    (method.isGetter = true → method.closure.declaration.params = [])
  unused : ∀ id, m.nextNode ≤ id → m.registry.addresses[id]? = none

/-- A coherent state of a machine. -/
structure Snapshot (past : History) where
  machine : Machine
  plan : List (List String)
  coherent : Coherent past plan machine

/-- Numbers and addresses that a machine has given stay as they are. -/
structure Remembers (m m' : Machine) : Prop where
  nodes : m.nextNode ≤ m'.nextNode
  addresses : ∀ id < m.nextNode, m'.registry.addresses[id]? = m.registry.addresses[id]?

theorem Remembers.refl (m : Machine) : Remembers m m := ⟨Nat.le_refl _, fun _ _ => rfl⟩

theorem Remembers.trans (first : Remembers m m') (second : Remembers m' m'') : Remembers m m'' :=
  ⟨Nat.le_trans first.nodes second.nodes, fun id old =>
    (second.addresses id (Nat.lt_of_lt_of_le old first.nodes)).trans (first.addresses id old)⟩

theorem Loaded.stays (loaded : Loaded root m) (remembers : Remembers m m') : Loaded root m' :=
  ⟨loaded.prepared, loaded.sited,
    fun r member => Nat.lt_of_lt_of_le (loaded.counted r member) remembers.nodes,
    fun r member => (remembers.addresses r.id (loaded.counted r member)).trans
      (loaded.recorded r member)⟩

theorem Known.stays (known : Known past m p) (remembers : Remembers m m') : Known past m' p := by
  obtain ⟨root, top, loaded, rest⟩ := known
  exact ⟨root, top, loaded.stays remembers, rest⟩

/-- A later state with the same active scope, in which only one scope, if any, has new slots. -/
structure Later (may : Option ScopeId) (w w' : Snapshot past) : Prop where
  active : w'.machine.active = w.machine.active
  plan : w.plan <+: w'.plan
  scopes : w.machine.store.scopes.Grow may w'.machine.store.scopes
  remembers : Remembers w.machine w'.machine

namespace Later

variable {w w' w'' : Snapshot past}

theorem refl (w : Snapshot past) : Later may w w := ⟨rfl, List.prefix_rfl, .refl _, .refl _⟩

theorem trans (first : Later may w w') (second : Later may w' w'') : Later may w w'' :=
  ⟨second.active.trans first.active, first.plan.trans second.plan,
    first.scopes.trans second.scopes, first.remembers.trans second.remembers⟩

theorem weaken (later : Later none w w') : Later may w w' :=
  ⟨later.active, later.plan, later.scopes.weaken, later.remembers⟩

theorem fresh (first : Later none w w') (second : Later (some new) w' w'')
    (absent : w.machine.store.scopes.get? new = none) : Later none w w'' :=
  ⟨second.active.trans first.active, first.plan.trans second.plan,
    first.scopes.fresh second.scopes absent, first.remembers.trans second.remembers⟩

theorem fits (later : Later may w w')
    (fits : Fits past w.plan w.machine.store.scopes context scope) :
    Fits past w'.plan w'.machine.store.scopes context scope :=
  fits.grow later.scopes later.plan

theorem known (later : Later may w w') (known : Known past w.machine p) :
    Known past w'.machine p := known.stays later.remembers

end Later

/-- What is new in a state has to be coherent, what is old stays so. -/
theorem Snapshot.next (w : Snapshot past) {m : Machine} {plan : List (List String)}
    (active : m.active = w.machine.active) (longer : w.plan <+: plan)
    (scopes : w.machine.store.scopes.Grow may m.store.scopes) (remembers : Remembers w.machine m)
    (planned : plan.length = m.store.scopes.entries.size)
    (names : ∀ id scope, m.store.scopes.get? id = some scope →
      ∃ names, plan[id.index]? = some names ∧ scope.names <+: names)
    (functions : ∀ f ∈ m.store.functions,
      f ∈ w.machine.store.functions ∨ Callable past plan m f)
    (methods : ∀ method, m.store.Has method → w.machine.store.Has method ∨
      Bindable past plan m method.closure ∧
        (method.isGetter = true → method.closure.declaration.params = []))
    (unused : ∀ id, m.nextNode ≤ id → m.registry.addresses[id]? = none) :
    ∃ w' : Snapshot past, w'.machine = m ∧ w'.plan = plan ∧ Later may w w' := by
  refine ⟨⟨m, plan, planned, names, fun f member => ?_, fun method has => ?_, unused⟩, rfl, rfl,
    active, longer, scopes, remembers⟩
  · obtain old | new := functions f member
    · obtain ⟨kind, context, r, known, fits⟩ := w.coherent.functions f old
      exact ⟨kind, context, r, known.stays remembers, fits.grow scopes longer⟩
    · exact new
  · obtain old | new := methods method has
    · obtain ⟨⟨kind, context, r, known, fits⟩, getter⟩ := w.coherent.methods method old
      exact ⟨⟨kind, context, r, known.stays remembers, fits.grow scopes longer⟩, getter⟩
    · exact new

section

variable {past' : History} (more : ∀ event m, past event m → past' event m)
include more

theorem Layer.Fits.extend {layer : Layer} {id : ScopeId} {scope : Scope}
    (fits : layer.Fits past id scope) : layer.Fits past' id scope := by
  cases layer with
  | scope names count pending =>
    obtain enough | ⟨same, name, value, pending, m, happened, rest⟩ := fits
    · exact .inl enough
    · exact .inr ⟨same, name, value, pending, m, more _ _ happened, rest⟩
  | receiver method =>
    obtain ⟨f, receiver, m, happened, rest⟩ := fits
    exact ⟨f, receiver, m, more _ _ happened, rest⟩
  | superclass owner =>
    obtain ⟨reference, parent, m, happened, rest⟩ := fits
    exact ⟨reference, parent, m, more _ _ happened, rest⟩

theorem Fits.extend {context : Context} (fits : Fits past plan scopes context active) :
    Fits past' plan scopes context active := by
  induction context generalizing active with
  | nil => exact fits
  | cons layer outer ih =>
    obtain ⟨id, scope, same, found, planned, here, rest⟩ := fits
    exact ⟨id, scope, same, found, planned, here.extend more, ih rest⟩

theorem Known.extend (known : Known past m p) : Known past' m p := by
  obtain ⟨root, top, loaded, path, ⟨outermost, event, m', same, happened, inactive⟩, inner⟩ := known
  exact ⟨root, top, loaded, path, ⟨outermost, event, m', same, more _ _ happened, inactive⟩, inner⟩

theorem Coherent.extend (coherent : Coherent past plan m) : Coherent past' plan m := by
  refine ⟨coherent.planned, coherent.names, fun f member => ?_, fun method has => ?_,
    coherent.unused⟩
  · obtain ⟨kind, context, r, known, fits⟩ := coherent.functions f member
    exact ⟨kind, context, r, known.extend more, fits.extend more⟩
  · obtain ⟨⟨kind, context, r, known, fits⟩, getter⟩ := coherent.methods method has
    exact ⟨⟨kind, context, r, known.extend more, fits.extend more⟩, getter⟩

end

end Lox
