import Lox.Proofs.MethodOrder

/-! What a call of a method named `init` gives back. If a class declares it, for its instances or as
a static method, it is the receiver, whatever the body returns. If it is the default of a trait, it
is what the body returns. -/

namespace Lox

section

variable {past : History} {complaint : Violation}

/-- Events that have happened, in coherent states. -/
def Coherently (past : History) : History :=
  fun event m => past event m ∧ ∃ w : Snapshot past, w.machine = m

theorem admits_coherently (past : History) : Admits past (Coherently past) :=
  ⟨fun _ _ => And.left, fun _ w happens _ => ⟨happens, w, rfl⟩⟩

theorem Agree.hosted {E F : Engine} (agree : Agree past complaint E F) {w : Snapshot past}
    (calls : List HostCall) : Steps complaint none (E.hosted calls) (F.hosted calls) w Any := by
  induction calls generalizing w with
  | nil => exact .pure trivial
  | cons call calls ih =>
    have served : Steps complaint none (E.serve call) (F.serve call) w Any := by
      cases call with
      | step step => exact agree.perform step
      | metaclass name =>
        apply Steps.bind_get
        cases w.machine.global? name with
        | none => exact .pure trivial
        | some value =>
          cases value with
          | classRef id =>
            exact (newInstance_steps (.ofMetaclass id)).bind fun _ _ _ _ => .pure trivial
          | _ => exact .pure trivial
    exact served.bind fun _ _ _ _ => ih

end

theorem faithful_hosted (depth : Nat) (calls : List HostCall) :
    (Watched.hosted depth calls).Faithful := by
  induction calls with
  | nil => exact Watched.faithful_const _
  | cons call calls ih =>
    have served : Watched.Faithful fun i => (Watched.engineOf depth i).serve call := by
      cases call with
      | step step =>
        have ran := faithful_session depth [step]
        simp only [Engine.session, bind_pure_unit] at ran
        exact ran
      | metaclass name => exact Watched.faithful_const _
    exact served.bind fun _ => ih

/-- A session does not notice a watch that allows all that occurs in it. -/
theorem hosted_watched (depth : Nat) (world : World) (calls : List HostCall)
    (complaint : Violation) :
    ((⟨Occurs depth world calls, complaint⟩ : Watch).engine depth).hosted calls (.fresh world) =
      (engine depth).hosted calls (.fresh world) := by
  obtain unseen | ⟨event, m, silent, ended⟩ :=
    faithful_hosted depth calls (Occurs depth world calls) (.fresh world)
  · exact (unseen complaint).1
  · exact (silent (Watched.Sees.meets fun complaint => (ended complaint).2)).elim

theorem hosted_coherent (depth : Nat) (world : World) (calls : List HostCall)
    (complaint : Violation) :
    ((⟨Coherently (Occurs depth world calls), complaint⟩ : Watch).engine depth).hosted calls
        (.fresh world) = (engine depth).hosted calls (.fresh world) ∧
      Outcome complaint none (.fresh (Occurs depth world calls) world) Any
        ((engine depth).hosted calls (.fresh world)) := by
  have agree := (admits_coherently (Occurs depth world calls)).agree complaint depth
  obtain ⟨same, outcome⟩ := agree.hosted (w := .fresh _ world) calls
  rw [← hosted_watched depth world calls complaint]
  exact ⟨same, outcome⟩

theorem Outcome.coherent {past : History} {w : Snapshot past} {post : α → Snapshot past → Prop}
    {r : EStateM.Result Halt Machine α}
    (outcome : ∀ complaint, Outcome complaint may w post r) :
    ∃ w' : Snapshot past, w'.machine = left r := by
  have ended := outcome .noScope
  rcases r with ⟨a, m⟩ | ⟨halt, m⟩
  · obtain ⟨w', same, -⟩ := ended
    exact ⟨w', same⟩
  · cases halt with
    | error e =>
      obtain ⟨w', same, -⟩ := ended
      exact ⟨w', same⟩
    | exhausted =>
      obtain ⟨w', same, -⟩ := ended
      exact ⟨w', same⟩
    | violation v => exact (Outcome.not_violation outcome rfl).elim

/-- Every state of a session is coherent. -/
theorem Visited.coherent (visited : Visited depth world calls m) :
    ∃ w : Snapshot fun _ _ => True, w.machine = m := by
  cases visited with
  | @during event _ occurs =>
    obtain unseen | ⟨_, _, _, ended⟩ :=
      faithful_hosted depth calls (Coherently (Occurs depth world calls)) (.fresh world)
    · by_cases allowed : Coherently (Occurs depth world calls) event m
      · obtain ⟨-, w, same⟩ := allowed
        exact ⟨w.unwatched, same⟩
      · exact (occurs fun complaint => (unseen complaint).2 event m allowed).elim
    · refine (not_stopped ((engine depth).hosted calls (.fresh world)) fun complaint => ?_).elim
      rw [← (hosted_coherent depth world calls complaint).1]
      exact (ended complaint).1
  | @between before after parts =>
    obtain ⟨w, same⟩ := Outcome.coherent fun complaint =>
      (hosted_coherent depth world before complaint).2
    exact ⟨w.unwatched, same⟩

/-- A watch that allows everything does not matter. -/
theorem callClosure_unwatched (depth : Nat) (complaint : Violation) (f : Closure)
    (arguments : List Value) (m : Machine) :
    ((⟨fun _ _ => True, complaint⟩ : Watch).engine depth).callClosure f arguments m =
      (engine depth).callClosure f arguments m := by
  have related := (Watched.engineOf_related depth).callClosure f arguments
  obtain unseen | ⟨_, _, forbidden, _⟩ := related (fun _ _ => True) m
  · exact (unseen complaint).1
  · exact (forbidden trivial).elim

/-- No call changes the receiver of a method. -/
theorem Callable.keepsKeywords {w : Snapshot fun _ _ => True}
    (callable : Callable (fun _ _ => True) w.plan w.machine f)
    (count : arguments.length = f.declaration.params.length) (depth : Nat) :
    w.machine.KeepsKeywords (left ((engine depth).callClosure f arguments w.machine)) := by
  have outcome (complaint) : Outcome complaint none w Any
      ((engine depth).callClosure f arguments w.machine) := by
    rw [← callClosure_unwatched depth complaint]
    exact ((agree_engine _ complaint depth).callClosure callable count).2
  exact Outcome.keepsKeywords outcome

/-- An initializer gives back what its scope holds, any other function its own result. -/
theorem receiver_or_ok (ran : (if f.isInitializer = true then Engine.receiver f else pure value) m =
      .ok v m') : m = m' ∧
    (f.isInitializer = true →
      v = ((f.parent.bind (m.store.scopes.slot? · 0)).map Slot.value).getD .nil) ∧
    (f.isInitializer = false → v = value) := by
  cases initial : f.isInitializer with
  | true =>
    rw [if_pos initial] at ran
    cases ran
    exact ⟨rfl, fun _ => rfl, (fun other => by cases other)⟩
  | false =>
    rw [if_neg (by simp [initial])] at ran
    cases ran
    exact ⟨rfl, (fun other => by cases other), fun _ => rfl⟩

/-- How a call that ends has run, and what it gives back. -/
theorem callClosure_ok (ran : (engine depth).callClosure f arguments m = .ok v m') :
    ∃ scope m₁ completion, Eval.enterFunction f arguments m = .ok scope m₁ ∧
      Eval.within (some scope) ((engine depth).executeAll f.declaration.body) m₁ =
        .ok completion m' ∧
      (f.isInitializer = true →
        v = ((f.parent.bind (m'.store.scopes.slot? · 0)).map Slot.value).getD .nil) ∧
      (f.isInitializer = false → completion = .normal ∧ v = .nil ∨ completion = .returned v) := by
  obtain ⟨scope, m₁, enters, ran₁⟩ := Eval.bind_eq_ok ran
  obtain ⟨completion, m₂, body, ends⟩ := Eval.bind_eq_ok ran₁
  have entered : Eval.enterFunction f arguments m = .ok scope m₁ := by
    cases depth <;> exact enters
  cases completion with
  | flow signal line => cases ends
  | normal =>
    obtain ⟨rfl, initial, other⟩ := receiver_or_ok ends
    exact ⟨scope, m₁, .normal, entered, body, initial, fun plain => .inl ⟨rfl, other plain⟩⟩
  | returned value =>
    obtain ⟨rfl, initial, other⟩ := receiver_or_ok ends
    refine ⟨scope, m₁, .returned value, entered, body, initial, fun plain => .inr ?_⟩
    rw [other plain]

/-- The function is the method, bound to the receiver. -/
structure Closure.BoundTo (f : Closure) (s : Store) (method : Closure) (this : Value) : Prop where
  declaration : f.declaration = method.declaration
  initial : f.isInitializer = method.isInitializer
  receiver : ∃ id, f.parent = some id ∧ s.scopes.parent? id = method.parent ∧
    s.scopes.slot? id 0 = some ⟨"this", this⟩

theorem bindThis_boundTo (ran : Eval.bindThis method this m = .ok f m') :
    f.BoundTo m'.store method this := by
  cases ran
  refine ⟨rfl, rfl, m.store.scopes.nextId, rfl, ?_, ?_⟩
  · change (m.store.scopes.opened method.parent [("this", this)]).parent? _ = _
    rw [Scopes.parent?, Scopes.get?_opened, if_pos rfl]
    rfl
  · change (m.store.scopes.opened method.parent [("this", this)]).slot? _ 0 = _
    rw [Scopes.slot?, Scopes.get?_opened, if_pos rfl]
    rfl

/-- What a call of a bound method gives back. While it runs, its scope keeps the receiver. -/
theorem Closure.BoundTo.result {w : Snapshot fun _ _ => True} {f : Closure}
    (bound : f.BoundTo w.machine.store method this)
    (callable : Callable (fun _ _ => True) w.plan w.machine f)
    (count : arguments.length = f.arity)
    (ran : (engine depth).callClosure f arguments w.machine = .ok v m') :
    (method.isInitializer = true → v = this) ∧
    (method.isInitializer = false → ∃ scope m₁ completion,
      Eval.enterFunction f arguments w.machine = .ok scope m₁ ∧
      Eval.within (some scope) ((engine depth).executeAll f.declaration.body) m₁ =
        .ok completion m' ∧
      (completion = .normal ∧ v = .nil ∨ completion = .returned v)) := by
  obtain ⟨scope, m₁, completion, enters, body, initial, other⟩ := callClosure_ok ran
  rw [bound.initial] at initial other
  constructor
  · intro initializer
    obtain ⟨id, parent, -, slot⟩ := bound.receiver
    have kept := callable.keepsKeywords count depth
    rw [ran] at kept
    have held : m'.store.scopes.slot? id 0 = some ⟨"this", this⟩ := kept id 0 _ slot (.inl rfl)
    have given := initial initializer
    rw [parent, Option.bind_some, held] at given
    exact given
  · intro plain
    exact ⟨scope, m₁, completion, enters, body, other plain⟩

/-- A method that has just been bound can be called, and so can any function that exists. -/
theorem Snapshot.callable_of_bound (w : Snapshot fun _ _ => True)
    (finds : w.machine.store.methodOf? name descriptor = some method)
    (bound : Eval.bindThis method.closure object w.machine = .ok f m ∨
      m = w.machine ∧ f ∈ w.machine.store.functions ∧
        f.BoundTo w.machine.store method.closure object) :
    ∃ w' : Snapshot fun _ _ => True, w'.machine = m ∧
      Callable (fun _ _ => True) w'.plan w'.machine f ∧
      f.BoundTo w'.machine.store method.closure object := by
  rcases bound with ran | ⟨rfl, member, bound⟩
  · have bindable := (w.coherent.methods method (Store.has_methodOf finds)).1
    have steps : Steps .noScope none (Eval.bindThis method.closure object)
        (Eval.bindThis method.closure object) w _ := bindThis_steps bindable trivial
    have outcome := steps.2
    rw [ran] at outcome
    obtain ⟨w', rfl, -, callable, -⟩ := outcome
    exact ⟨w', rfl, callable, bindThis_boundTo ran⟩
  · exact ⟨w, rfl, w.coherent.functions f member, bound⟩

def Offer.isMixed : Offer → Bool
  | .mixed _ _ => true
  | .own _ _ | .static _ _ => false

/-- Of the methods with this name only a default of a trait is no initializer. -/
theorem Offer.isInitializer_of_title {offer : Offer} (named : offer.title = "init") :
    offer.closure.isInitializer = !offer.isMixed := by
  cases offer with
  | own m scope => exact decide_eq_true named
  | mixed f scope => rfl
  | static f scope => exact decide_eq_true named

/-- In every state of a session, a method that is found for the name `init` of an object, is bound
to the object and is called with as many arguments as it has parameters gives back the object,
whatever its body returns, if a class declares it. A default of a trait gives back what its body
returns. The method may have been bound just now or earlier. -/
theorem init_gives_back_receiver_unless_mixed (visited : Visited depth world calls m)
    (present : m.store.descriptor? object = some descriptor)
    (finds : m.store.methodOf? "init" descriptor = some method) :
    ∃ order offer, Ordered (Occurs depth world calls) m.store descriptor order ∧
      Offer.first? order "init" = some offer ∧ offer.method = method ∧
      ∀ f m₁, (Eval.bindThis method.closure object m = .ok f m₁ ∨
          m₁ = m ∧ f ∈ m.store.functions ∧ f.BoundTo m.store method.closure object) →
        ∀ depth' arguments v m', arguments.length = f.arity →
          (engine depth').callClosure f arguments m₁ = .ok v m' →
          (offer.isMixed = false → v = object) ∧
          (offer.isMixed = true → ∃ scope m₂ completion,
            Eval.enterFunction f arguments m₁ = .ok scope m₂ ∧
            Eval.within (some scope) ((engine depth').executeAll f.declaration.body) m₂ =
              .ok completion m' ∧
            (completion = .normal ∧ v = .nil ∨ completion = .returned v)) := by
  obtain ⟨log, chronicle⟩ := visited.chronicle
  have linked := visited.grows.1.store
  obtain ⟨order, ordered⟩ := Ordered.exists_of_present chronicle.declared linked
    (linked.described present)
  have looked := ordered.methodOf? linked "init"
  rw [finds] at looked
  obtain ⟨offer, first, rfl⟩ := Option.map_eq_some_iff.mp looked.symm
  have initial := Offer.isInitializer_of_title (Offer.title_of_first? first)
  refine ⟨order, offer, ordered, first, rfl, ?_⟩
  intro f m₁ bound depth' arguments v m' count ran
  obtain ⟨w, rfl⟩ := visited.coherent
  obtain ⟨w', rfl, callable, bound⟩ := w.callable_of_bound finds bound
  obtain ⟨own, mixed⟩ := bound.result callable count ran
  constructor
  · intro plain
    apply own
    change offer.closure.isInitializer = true
    rw [initial, plain]
    rfl
  · intro default
    apply mixed
    change offer.closure.isInitializer = false
    rw [initial, default]
    rfl

/-- The instance `a` has an initializer from a trait, and `c` has one from its superclass. Both
bodies return something else. -/
def twoInitializers : List HostCall :=
  [.step (.run ("trait T \x7b init() \x7b return \"x\"; \x7d \x7d class A with T \x7b\x7d " ++
    "class B \x7b init() \x7b return; \x7d \x7d class C < B \x7b\x7d var a = A(); var c = C();"))]

def afterTwoInitializers : Machine := left ((engine 16).hosted twoInitializers (.fresh {}))

/-- The value that the method named `init` gives back when it is called without arguments. -/
def initialized (depth : Nat) (object : Value) (m : Machine) : Option Value :=
  (m.store.descriptor? object).bind fun descriptor =>
    (m.store.methodOf? "init" descriptor).bind fun method =>
      match (Eval.bindThis method.closure object >>= ((engine depth).callClosure · [])) m with
      | .ok value _ => if method.closure.arity = 0 then some value else none
      | .error _ _ => none

theorem ok_of_initialized (given : initialized depth object m = some v) :
    ∃ descriptor method f m₁ m', m.store.descriptor? object = some descriptor ∧
      m.store.methodOf? "init" descriptor = some method ∧
      Eval.bindThis method.closure object m = .ok f m₁ ∧ f.arity = 0 ∧
      (engine depth).callClosure f [] m₁ = .ok v m' := by
  obtain ⟨descriptor, present, given⟩ := Option.bind_eq_some_iff.mp given
  obtain ⟨method, finds, given⟩ := Option.bind_eq_some_iff.mp given
  cases ran : (Eval.bindThis method.closure object >>= ((engine depth).callClosure · [])) m with
  | error halt m' =>
    rw [ran] at given
    cases given
  | ok value m' =>
    rw [ran] at given
    obtain ⟨count, given⟩ := Option.ite_none_right_eq_some.mp given
    cases given
    obtain ⟨f, m₁, binds, calls⟩ := Eval.bind_eq_ok ran
    have declared := (bindThis_boundTo binds).declaration
    refine ⟨descriptor, method, f, m₁, m', present, finds, binds, ?_, calls⟩
    rw [Closure.arity, declared]
    exact count

/-- The one gives back what its body returns, the other its receiver. -/
theorem mixedInitializer_gives_its_own :
    (∃ descriptor order offer,
      afterTwoInitializers.store.descriptor? (.instanceRef ⟨0⟩) = some descriptor ∧
      Ordered (Occurs 16 {} twoInitializers) afterTwoInitializers.store descriptor order ∧
      Offer.first? order "init" = some offer ∧ offer.isMixed = true) ∧
    initialized 16 (.instanceRef ⟨0⟩) afterTwoInitializers = some (.string "x") ∧
    initialized 16 (.instanceRef ⟨1⟩) afterTwoInitializers = some (.instanceRef ⟨1⟩) := by
  have results : initialized 16 (.instanceRef ⟨0⟩) afterTwoInitializers = some (.string "x") ∧
      initialized 16 (.instanceRef ⟨1⟩) afterTwoInitializers = some (.instanceRef ⟨1⟩) := by
    decide +kernel
  refine ⟨?_, results⟩
  have atEnd : Visited 16 {} twoInitializers afterTwoInitializers := .between (List.append_nil _)
  obtain ⟨descriptor, method, f, m₁, m', present, finds, binds, count, ran⟩ :=
    ok_of_initialized results.1
  obtain ⟨order, offer, ordered, first, -, gives⟩ :=
    init_gives_back_receiver_unless_mixed atEnd present finds
  refine ⟨descriptor, order, offer, present, ordered, first, ?_⟩
  cases mixed : offer.isMixed with
  | true => rfl
  | false =>
    obtain ⟨own, -⟩ := gives f m₁ (.inl binds) 16 [] _ m' count.symm ran
    cases own mixed

end Lox
