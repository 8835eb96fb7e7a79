import Lox.Proofs.CoherentRuns

/-! Functions run with exactly their parameters. However a function comes to be called, it is
entered with one argument for each parameter, and so the scope of the call has one slot for each of
them. -/

namespace Lox

/-- The slots of the scope are the parameters of the function, in their order, and each holds the
argument in its place. -/
structure Scope.OfCall (scope : Scope) (f : Closure) (arguments : List Value) : Prop where
  names : scope.names = f.declaration.params.map Token.lexeme
  values : scope.slots.toList.map Slot.value = arguments
  parent : scope.parent = f.parent

/-- With as many arguments as parameters, no argument is dropped and no parameter goes without. -/
theorem Scope.ofCall_slots {f : Closure}
    (count : arguments.length = f.declaration.params.length) :
    Scope.OfCall ⟨Scopes.slotsOf ((f.declaration.params.map Token.lexeme).zip arguments), f.parent⟩
      f arguments where
  names := by
    rw [names_slotsOf]
    exact List.map_fst_zip (by simp [count])
  values := by
    have values : ((f.declaration.params.map Token.lexeme).zip arguments).map Prod.snd =
        arguments := List.map_snd_zip (by simp [count])
    rw [Scopes.slotsOf, List.toList_toArray, List.map_map]
    exact values
  parent := rfl

theorem enterFunction_opens (f : Closure) (arguments : List Value) (m : Machine) :
    ∃ id m', Eval.enterFunction f arguments m = .ok id m' ∧ m.store.scopes.get? id = none ∧
      m'.store.scopes.get? id = some
        ⟨Scopes.slotsOf ((f.declaration.params.map Token.lexeme).zip arguments), f.parent⟩ := by
  refine ⟨_, _, rfl, Scopes.get?_nextId _, ?_⟩
  change (m.store.scopes.opened f.parent _).get? m.store.scopes.nextId = _
  rw [Scopes.get?_opened, if_pos rfl]

/-- A watch that does not allow a function to be entered stops every call of it. -/
theorem Watch.stops_callClosure {w : Watch} (forbidden : ¬ w.allows (.enter f arguments) m)
    (depth : Nat) : Stopped w.complaint ((w.engine depth).callClosure f arguments m) := by
  have stops : (w.engine depth).enter f arguments m = .error (.violation w.complaint) m := by
    cases depth <;> exact Watch.guard_of_forbidden forbidden
  refine ⟨m, ?_⟩
  change EStateM.bind ((w.engine depth).enter f arguments) _ m = _
  unfold EStateM.bind
  rw [stops]

/-- To call a function is to enter it first. Whenever a session enters one, it does so with as many
arguments as the function has parameters, and in a new scope that holds these and nothing else. -/
theorem functions_run_with_their_parameters (depth : Nat) (world : World) (steps : List HostStep) :
    (∀ (w : Watch) depth' f arguments m, ¬ w.allows (.enter f arguments) m →
      Stopped w.complaint ((w.engine depth').callClosure f arguments m)) ∧
    ∀ f arguments m, Happens depth world steps (.enter f arguments) m →
      arguments.length = f.declaration.params.length ∧
      ∃ id m' scope, Eval.enterFunction f arguments m = .ok id m' ∧
        m.store.scopes.get? id = none ∧ m'.store.scopes.get? id = some scope ∧
        scope.OfCall f arguments := by
  refine ⟨fun w depth' f arguments m forbidden => w.stops_callClosure forbidden depth', ?_⟩
  intro f arguments m happens
  have count : arguments.length = f.declaration.params.length := happens.placed
  obtain ⟨id, m', entered, new, found⟩ := enterFunction_opens f arguments m
  exact ⟨count, id, m', _, entered, new, found, Scope.ofCall_slots count⟩

/-- An instance whose initializer is mixed into the superclass of its class, and a getter of it. -/
def mixedInitializer : List HostStep :=
  [.run "trait Pair \x7b init(a, b) \x7b this.a = a; this.b = b; \x7d \x7d",
   .run "class Name with Pair \x7b \x7d",
   .run "class FullName < Name \x7b both \x7b return this; \x7d \x7d",
   .evaluate "FullName(\"x\", \"y\").both"]

/-- The method of the trait is entered to make the instance, with the arguments of the call. -/
theorem mixedInitializer_happens : ∃ f arguments m,
    Happens 12 {} mixedInitializer (.enter f arguments) m ∧ f.declaration.title = "init" ∧
    arguments = [.string "x", .string "y"] := by
  obtain ⟨event, m, passes, happens⟩ := happens_of_detects
    (show detects 12 {} mixedInitializer
      (fun
        | .enter f arguments, _ =>
          f.declaration.title == "init" && arguments == [.string "x", .string "y"]
        | _, _ => false) = true by decide +kernel)
  cases event with
  | enter f arguments =>
    obtain ⟨title, values⟩ := (Bool.and_eq_true ..).mp passes
    exact ⟨f, arguments, m, happens, eq_of_beq title, eq_of_beq values⟩
  | evaluate | execute | read | write | bind => cases passes

theorem mixedInitializer_runs_with_its_parameters : ∃ f m,
    Happens 12 {} mixedInitializer (.enter f [.string "x", .string "y"]) m ∧
    f.declaration.title = "init" ∧ f.declaration.params.length = 2 ∧
    ∃ id m' scope, Eval.enterFunction f [.string "x", .string "y"] m = .ok id m' ∧
      m.store.scopes.get? id = none ∧ m'.store.scopes.get? id = some scope ∧
      scope.OfCall f [.string "x", .string "y"] := by
  obtain ⟨f, _, m, happens, title, rfl⟩ := mixedInitializer_happens
  obtain ⟨count, entered⟩ := (functions_run_with_their_parameters 12 {} mixedInitializer).2 f _ m
    happens
  exact ⟨f, m, happens, title, count.symm, entered⟩

end Lox
