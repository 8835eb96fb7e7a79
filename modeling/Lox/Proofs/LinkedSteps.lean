import Lox.Proofs.ObjectHistories
import Lox.Proofs.SourceSteps
import Lox.Proofs.Upkeep
import Lox.Proofs.VariableSteps

/-! Every step of the machine keeps the links between objects, and what it does to objects is part of
a course of declarations, creations and assignments. -/

namespace Lox

/-- What is there stays, and all that has changed in objects comes from what happens. -/
structure Store.Develops (past : History) (log : List Assignment) (s s' : Store) : Prop
    extends s.Grows s' where
  course : Course past s log s'

/-- The state that an event leaves behind if an engine of this depth carries it out. -/
def Event.over (depth : Nat) : Event → Machine → Machine
  | .evaluate e, m => left (Lox.evaluate depth e m)
  | .execute s, m => left (Lox.execute depth s m)
  | .read reference, m => left (Eval.readVariable reference m)
  | .write reference value, m => left (Eval.writeVariable reference value m)
  | .bind method receiver, m => left (Eval.bindThis method receiver m)
  | .enter function arguments, m => left (Eval.enterFunction function arguments m)

/-- An assignment to a property that gives a value is the last entry of its log. Before it the log
is that of its object and its value. -/
def Recorded (past : History) (depth : Nat) (e : Expr) (m : Machine) (v : Value)
    (log : List Assignment) : Prop :=
  ∀ object name value, e = .setProperty object name value → ∃ o m₁ m₂ rest,
    evaluate depth object m = .ok o m₁ ∧ evaluate depth value m₁ = .ok v m₂ ∧
    Course past m.store rest m₂.store ∧ log = ⟨o, name.lexeme, v⟩ :: rest

/-- The event leads from one state to the other, and this is its log. -/
def Event.Logs (past : History) (event : Event) (log : List Assignment) (m m' : Machine) : Prop :=
  Course past m.store log m'.store ∧ ∃ depth, m' = event.over (depth + 1) m ∧
    ∀ e v, event = .evaluate e → Lox.evaluate (depth + 1) e m = .ok v m' →
      Recorded past depth e m v log

theorem Machine.Linked.withStore {m : Machine} (linked : m.Linked) (grows : m.store.Grows s)
    (next : s.Linked) : ({ m with store := s } : Machine).Linked :=
  ⟨next, grows.has linked.active, fun name v found => grows.value (linked.globals name v found)⟩

theorem Machine.Linked.at {m : Machine} (linked : m.Linked) {scope : Option ScopeId}
    (has : m.store.scopes.Has scope) : ({ m with active := scope } : Machine).Linked :=
  ⟨linked.store, has, linked.globals⟩

def links (past : History) : Upkeep Assignment where
  good := Machine.Linked
  grows log m m' := m.store.Develops past log m'.store
  spans event log m m' := m.store.Grows m'.store ∧ event.Logs past log m m'
  refl m := ⟨.refl m.store, .refl⟩
  trans first second := ⟨first.toGrows.trans second.toGrows, first.course.trans second.course⟩
  entered _ _ grows := grows
  resumed good good' grows := good'.at (grows.has good.active)
  spanned spans := ⟨spans.1, spans.2.1⟩

/-- A run that keeps the links. Nothing is promised about its log. -/
abbrev Keeps (past : History) (c : Watched α) (m : Machine) (post : α → Machine → Prop) : Prop :=
  (links past).Keeps past c m fun a _ => post a

namespace Keeps

variable {past : History} {m : Machine}

/-- Nothing is promised about the result. -/
def Anything (_ : α) (_ : Machine) : Prop := True

/-- The result is a value that exists. -/
def Present (value : Value) (m : Machine) : Prop := value.In m.store

/-- The step goes to a state with other objects. -/
theorem makes {p : Eval α} {post : α → List Assignment → Machine → Prop} (ran : p m = .ok a m')
    (grows : m.store.Grows m'.store) (linked : m.Linked → m'.Linked)
    (course : Course past m.store log m'.store) (holds : m.Linked → post a log m') :
    (links past).Keeps past (fun _ => p) m post := by
  refine Upkeep.Keeps.step log fun good => ?_
  rw [ran]
  exact ⟨linked good, ⟨grows, course⟩, holds good⟩

/-- A step that makes no object and sets no field. -/
theorem goes {p : Eval α} {post : α → Machine → Prop} (ran : p m = .ok a m')
    (grows : m.store.Grows m'.store) (linked : m.Linked → m'.Linked)
    (same : m.store.SameObjects m'.store) (holds : m.Linked → post a m') :
    Keeps past (fun _ => p) m post := makes ran grows linked (.other .refl same) holds

/-- A step that concerns neither scopes nor objects. -/
theorem quiet {p : Eval α} {post : α → Machine → Prop} (ran : p m = .ok a m')
    (store : m'.store = m.store) (active : m'.active = m.active)
    (globals : m'.globals = m.globals) (holds : m.Linked → post a m') :
    Keeps past (fun _ => p) m post := by
  refine goes ran (store ▸ .refl _) (fun linked => ?_) (store ▸ .refl _) holds
  exact ⟨store ▸ linked.store, by rw [store, active]; exact linked.active,
    by rw [store, globals]; exact linked.globals⟩

theorem bind_get {f : Option Watch → Machine → Eval β}
    {post : β → List Assignment → Machine → Prop}
    (next : m.Linked → (links past).Keeps past (fun i => f i m) m post) :
    (links past).Keeps past (fun i => get >>= f i) m post := by
  intro linked
  refine Upkeep.Keeps.wrap id ?_ (fun _ _ => id) id ((links past).refl m)
    (fun _ => (links past).refl _) (fun _ _ _ => id) (next linked) linked
  exact fun _ => rfl

theorem address? (reference : Reference) :
    Keeps past (fun _ => Eval.address? reference) m Anything :=
  quiet rfl rfl rfl rfl fun _ => trivial

theorem activeScope : Keeps past (fun _ => Eval.activeScope) m Anything := by
  refine bind_get fun _ => ?_
  cases m.active with
  | none => exact .throw _
  | some id => exact .pure trivial

theorem lift (result : Except Violation α) :
    Keeps past (fun _ => Eval.lift result) m fun a _ => result = .ok a := by
  cases result with
  | error v => exact .throw _
  | ok a => exact .pure rfl

theorem slotValue (address : Address) : Keeps past (fun _ => Eval.slotValue address) m
    fun found m' => ∀ value, found = some value → value.In m'.store := by
  refine .bind activeScope fun id m' _ _ => bind_get fun linked => ?_
  refine (lift _).mono fun found m'' _ grows read value same => ?_
  subst same
  unfold Scopes.read at read
  cases reached : m'.store.scopes.reach address.distance id with
  | error v =>
    rw [reached] at read
    cases read
  | ok target =>
    rw [reached] at read
    obtain ⟨slot, there, rfl⟩ := Option.map_eq_some_iff.mp (Except.ok.inj read)
    exact grows.value (linked.store.slot there)

theorem orUndefined (name : Token) {found : Option α} {post : α → Machine → Prop}
    (holds : ∀ a, found = some a → post a m) :
    Keeps past (fun _ => Eval.orUndefined name found) m post := by
  cases found with
  | none => exact .fail _ _
  | some a => exact .pure (holds a rfl)

theorem readVariable (reference : Reference) :
    Keeps past (fun _ => Eval.readVariable reference) m Present := by
  refine .bind (address? reference) fun found m' _ _ => ?_
  cases found with
  | some address =>
    exact .bind (slotValue address) fun found m'' _ holds => orUndefined _ holds
  | none => exact bind_get fun linked => orUndefined _ (linked.globals _)

theorem setGlobal (name : String) (has : value.In m.store) :
    Keeps past (fun _ => modify fun m => { m with globals := m.globals.insert name value }) m
      Anything := by
  refine goes rfl (.refl _) (fun linked => ⟨linked.store, linked.active, ?_⟩) (.refl _)
    fun _ => trivial
  intro other v found
  rw [Std.TreeMap.getElem?_insert] at found
  split at found
  · cases found
    exact has
  · exact linked.globals other v found

theorem put (id : ScopeId) (index : Nat) (has : value.In m.store) :
    Keeps past (fun _ => Eval.modifyScopes (·.put id index value)) m Anything := by
  have grows := m.store.grows_put id index value
  exact goes rfl grows (fun linked => linked.withStore grows (linked.store.put id index has))
    ⟨rfl, rfl, rfl⟩ fun _ => trivial

theorem writeVariable (reference : Reference) (has : value.In m.store) :
    Keeps past (fun _ => Eval.writeVariable reference value) m Anything := by
  refine .bind (address? reference) fun found m' grows _ => ?_
  replace has := grows.value has
  cases found with
  | some address =>
    refine .bind activeScope fun id m₁ grows₁ _ => bind_get fun _ => ?_
    refine .bind (lift _) fun target m₂ grows₂ _ => bind_get fun _ => ?_
    have undefined : Keeps past (fun _ => Eval.orUndefined reference.name
        (m₂.store.scopes.slot? target address.index)) m₂ Anything :=
      orUndefined _ fun _ _ => trivial
    refine .bind undefined fun _ m₃ grows₃ _ => put target address.index ?_
    exact grows₃.value (grows₂.value (grows₁.value has))
  | none =>
    refine bind_get fun _ => ?_
    split
    · exact setGlobal _ has
    · exact .fail _ _

theorem declare (name : String) (has : value.In m.store) :
    Keeps past (fun _ => Eval.declare name value) m Anything := by
  refine bind_get fun _ => ?_
  cases m.active with
  | some id =>
    have grows := m.store.grows_define id name value
    exact goes rfl grows (fun linked => linked.withStore grows (linked.store.define id name has))
      ⟨rfl, rfl, rfl⟩ fun _ => trivial
  | none => exact .bind (setGlobal name has) fun _ _ _ _ => .pure trivial

theorem rebind (binding : Eval.Binding) (name : String) (has : value.In m.store) :
    Keeps past (fun _ => Eval.rebind binding name value) m Anything := by
  cases binding with
  | slot index =>
    exact .bind activeScope fun id _ grows _ => put id index (grows.value has)
  | global => exact setGlobal name has

theorem newScope {parent : Option ScopeId} {slots : List (String × Value)}
    (has : m.store.scopes.Has parent) (values : ∀ slot ∈ slots, slot.2.In m.store) :
    Keeps past (fun _ => Eval.newScope parent slots) m
      fun id m' => m'.store.scopes.Has (some id) := by
  have grows := m.store.grows_opened parent slots
  refine goes rfl grows (fun linked => linked.withStore grows (linked.store.opened has values))
    ⟨rfl, rfl, rfl⟩ fun _ id same => ?_
  cases same
  change (m.store.scopes.opened parent slots).get? m.store.scopes.nextId ≠ none
  rw [Scopes.get?_opened, if_pos rfl]
  exact Option.some_ne_none _

theorem getElem?_pushed (xs : Array α) (x : α) : (xs.push x)[(xs.push x).size - 1]? ≠ none := by
  rw [Array.size_push, Nat.add_sub_cancel, Array.getElem?_push_size]
  exact Option.some_ne_none x

theorem newFunction {f : Closure} (closed : f.In m.store) :
    Keeps past (fun _ => Eval.newFunction f) m Present := by
  have grows := m.store.grows_function f
  exact goes rfl grows (fun linked => linked.withStore grows (linked.store.newFunction closed))
    ⟨rfl, rfl, rfl⟩ fun _ => getElem?_pushed m.store.functions f

/-- A class is new where its declaration has just been executed. -/
theorem newClass {k : Class} (made : k.MadeBy past c scope m₀)
    (place : m.store.classes = m₀.store.classes)
    (superclass : ∀ parent, k.superclass = some parent → m.store.classAt? parent ≠ none)
    (traits : ∀ t ∈ k.traits, m.store.traitAt? t ≠ none) (methods : k.methods.In m.store)
    (statics : k.statics.In m.store) (new : k.fields = {}) :
    Keeps past (fun _ => Eval.newClass k) m Present := by
  have grows := m.store.grows_class k
  refine makes rfl grows (fun linked => linked.withStore grows ?_)
    (.declaredClass .refl made (by rw [place]) new) fun _ => getElem?_pushed m.store.classes k
  refine linked.store.newClass superclass traits methods statics ?_
  rw [new]
  exact Fields.in_empty _

theorem newInstance {descriptor : Descriptor} (has : descriptor.In m.store) :
    Keeps past (fun _ => Eval.newInstance descriptor) m Present := by
  have grows := m.store.grows_instance { descriptor }
  have new : Instance.Linked m.store { descriptor } := ⟨has, Fields.in_empty _⟩
  exact makes rfl grows (fun linked => linked.withStore grows (linked.store.newInstance new))
    (.created .refl descriptor) fun _ => getElem?_pushed m.store.instances { descriptor }

/-- A trait is new where its declaration is executed. -/
theorem newTrait {t : Trait} (made : t.MadeBy past d scope m) (inside : t.methods.In m.store) :
    Keeps past (fun _ => Eval.newTrait t) m Present := by
  have grows := m.store.grows_trait t
  exact makes rfl grows (fun linked => linked.withStore grows (linked.store.newTrait inside))
    (.declaredTrait .refl made rfl) fun _ => getElem?_pushed m.store.traits t

/-- A field is set where an assignment to it has evaluated its object and its value. -/
theorem setField {object value : Expr} {name : Token}
    (happens : past (.evaluate (.setProperty object name value)) m₀)
    (first : evaluate depth object m₀ = .ok o m₁) (second : evaluate depth value m₁ = .ok v m)
    (present : m.store.descriptor? o ≠ none) (has : v.In m.store) :
    (links past).Keeps past (fun _ => Eval.modifyStore (·.setField o name.lexeme v)) m
      fun _ log _ => log = [⟨o, name.lexeme, v⟩] := by
  have grows := m.store.grows_setField o name.lexeme v
  refine makes rfl grows (fun linked => linked.withStore grows ?_)
    (.assigned .refl happens first second present) fun _ => rfl
  exact linked.store.setField o name.lexeme has

theorem bindThis {f : Closure} (closed : f.In m.store) (has : this.In m.store) :
    Keeps past (fun _ => Eval.bindThis f this) m fun bound m' => bound.In m'.store := by
  refine .bind (newScope closed fun slot member => ?_) fun id m' _ inside => .pure inside
  cases List.mem_singleton.mp member
  exact has

theorem enterFunction {f : Closure} (closed : f.In m.store)
    (values : ∀ value ∈ arguments, value.In m.store) :
    Keeps past (fun _ => Eval.enterFunction f arguments) m
      fun id m' => m'.store.scopes.Has (some id) :=
  newScope closed fun _ member => values _ (List.of_mem_zip member).2

theorem display (value : Value) : Keeps past (fun _ => Eval.display value) m Anything :=
  quiet rfl rfl rfl rfl fun _ => trivial

theorem print (line : Nat) (text : String) :
    Keeps past (fun _ => Eval.print line text) m Anything := by
  have written : Keeps past (fun _ => modify fun m : Machine =>
      { m with world := { m.world with out := m.world.out.write text } }) m Anything :=
    quiet rfl rfl rfl rfl fun _ => trivial
  refine bind_get fun _ => .bind written fun _ _ _ _ => ?_
  split
  · exact .fail _ _
  · exact .pure trivial

theorem report (text : String) : Keeps past (fun _ => Eval.report text) m Anything :=
  quiet rfl rfl rfl rfl fun _ => trivial

theorem reportWarnings (warnings : List Diagnostic) :
    Keeps past (fun _ => Eval.reportWarnings warnings) m Anything := by
  induction warnings generalizing m with
  | nil => exact .pure trivial
  | cons d ds ih => exact .bind (report _) fun _ _ _ _ => ih

theorem readClock : Keeps past (fun _ => Eval.readClock) m Present :=
  quiet rfl rfl rfl rfl fun _ => trivial

theorem readLine (line : Nat) : Keeps past (fun _ => Eval.readLine line) m Present := by
  refine bind_get fun _ => ?_
  dsimp only
  split
  · exact .pure trivial
  · have taken (rest) : Keeps past (fun _ => modify fun m : Machine =>
        { m with world := { m.world with input := rest } }) m Anything :=
      quiet rfl rfl rfl rfl fun _ => trivial
    refine .bind (taken _) fun _ _ _ _ => ?_
    split
    · exact .pure trivial
    · exact .fail _ _

theorem remember (path : Path) : Keeps past (fun _ => Eval.remember path) m Anything := by
  have ran : Eval.remember path m = .ok ()
      (if m.loaded.any (Path.same path) then m else { m with loaded := m.loaded ++ [path] }) := rfl
  split at ran
  · exact quiet ran rfl rfl rfl fun _ => trivial
  · exact quiet ran rfl rfl rfl fun _ => trivial

theorem prepare (parser : List Token → NodeId → Except ParseError α × Cursor)
    (pass : Eval.Pass α) (source : String) :
    Keeps past (fun _ => Eval.prepare parser pass source) m Anything := by
  cases scanned : scan source with
  | error e => exact quiet (prepare_unscanned scanned) rfl rfl rfl fun _ => trivial
  | ok tokens =>
    cases outcome : parser tokens m.nextNode with
    | mk parsed cursor =>
      cases parsed with
      | error e => exact quiet (prepare_unparsed scanned outcome) rfl rfl rfl fun _ => trivial
      | ok tree => exact quiet (prepare_parsed scanned outcome) rfl rfl rfl fun _ => trivial

end Keeps

end Lox
