import Lox.Proofs.TraitConformance
import Lox.Session

/-! Sessions in which a host also calls classes of classes, and so makes instances that no program
can make. In every state of such a session the objects are linked and have a chronicle. -/

namespace Lox

/-- What a host does with a machine: it takes a step of a session, or it calls the class of the
class that a global variable holds. -/
inductive HostCall where
  | step (step : HostStep)
  | metaclass (name : String)

namespace Engine

def serve (engine : Engine) : HostCall → Eval Unit
  | .step step => engine.perform step
  | .metaclass name => do
    match (← get).global? name with
    | some (.classRef id) => let _ ← Eval.callMetaclass id
    | _ => return ()

def hosted (engine : Engine) : List HostCall → Eval Unit
  | [] => pure ()
  | call :: calls => do
    engine.serve call
    engine.hosted calls

theorem hosted_append (engine : Engine) (before after : List HostCall) :
    engine.hosted (before ++ after) = engine.hosted before >>= fun _ => engine.hosted after := by
  induction before with
  | nil => rfl
  | cons call before ih =>
    change (engine.serve call >>= fun _ => engine.hosted (before ++ after)) =
      (engine.serve call >>= fun _ => engine.hosted before) >>= fun _ => engine.hosted after
    rw [ih, bind_assoc]

/-- Steps alone make a session. -/
theorem hosted_steps (engine : Engine) (steps : List HostStep) :
    engine.hosted (steps.map .step) = engine.session steps := by
  induction steps with
  | nil => rfl
  | cons step steps ih =>
    change (engine.perform step >>= fun _ => engine.hosted (steps.map .step)) =
      engine.perform step >>= fun _ => engine.session steps
    rw [ih]

end Engine

/-- A hosted session from its start, watched or not. -/
noncomputable abbrev Watched.hosted (depth : Nat) (calls : List HostCall) : Watched Unit :=
  fun i => (engineOf depth i).hosted calls

/-- The hosted session changes when the event is forbidden. -/
def Occurs (depth : Nat) (world : World) (calls : List HostCall) : History :=
  fun event m => ¬ (Watched.hosted depth calls).Misses (.fresh world) event m

/-- The states that a hosted session comes to. -/
inductive Visited (depth : Nat) (world : World) (calls : List HostCall) : Machine → Prop where
  | during (occurs : Occurs depth world calls event m) : Visited depth world calls m
  | between (parts : before ++ after = calls) :
      Visited depth world calls (left ((engine depth).hosted before (.fresh world)))

/-- Without calls of classes of classes these are the states of a session. -/
theorem Reached.visited (reached : Reached depth world steps m) :
    Visited depth world (steps.map .step) m := by
  cases reached with
  | @during event _ happens =>
    obtain ⟨complaint, differs⟩ := happens
    apply Visited.during
    intro missed
    have same := missed complaint
    simp only [Watched.hosted, Engine.hosted_steps] at same
    exact differs same
  | @between before after parts =>
    rw [← Engine.hosted_steps]
    have parts : before.map HostCall.step ++ after.map .step = steps.map .step := by
      rw [← List.map_append, parts]
    exact .between parts

/-- A session in two parts. -/
theorem Watched.hosted_append (depth : Nat) (before after : List HostCall) :
    Watched.hosted depth (before ++ after) = fun i =>
      Watched.hosted depth before i >>= fun _ => Watched.hosted depth after i :=
  funext fun i => (engineOf depth i).hosted_append before after

/-- A condition and an order that hosted sessions keep, as seen in the states that such a session
comes to. -/
theorem Upkeep.visited {Entry : Type} {U : Upkeep Entry} (fresh : U.good (.fresh world))
    (belongs : ∀ event m, Occurs depth world calls event m → past event m)
    (keeps : ∀ calls m, U.Keeps past (Watched.hosted depth calls) m fun _ _ _ => True)
    (visited : Visited depth world calls m) :
    U.good m ∧ (∃ log, U.grows log (.fresh world) m) ∧
      ∃ log, U.grows log m (left ((engine depth).hosted calls (.fresh world))) := by
  cases visited with
  | during occurs =>
    obtain ⟨_, -, met⟩ := keeps calls _ fresh fun _ _ seen => belongs _ _ seen.meets
    have here := (met _ _).resolve_left occurs
    obtain ⟨before, after, -, first, second⟩ := here.after
    exact ⟨here.good, ⟨before, first⟩, after, second⟩
  | @between before after parts =>
    subst parts
    have apart := Watched.hosted_append depth before after
    have within (event last) (seen : Watched.Sees (fun i => Watched.hosted depth before i >>=
        fun _ => Watched.hosted depth after i) (.fresh world) event last) : past event last := by
      rw [← apart] at seen
      exact belongs event last seen.meets
    rw [Engine.hosted_append]
    exact (keeps before _).between (fun _ => keeps after) fresh within

theorem Upholds.serve {E : Option Watch → Engine} (upholds : Upholds past E limit)
    (call : HostCall) : Keeps past (fun i => (E i).serve call) m Keeps.Anything := by
  cases call with
  | step step => exact upholds.perform step
  | metaclass name =>
    apply Keeps.bind_get
    intro linked
    cases found : m.global? name with
    | none => exact .pure trivial
    | some value =>
      cases value with
      | classRef id =>
        have inside : (Descriptor.ofMetaclass id).In m.store := linked.globals name _ found
        exact .bind (Keeps.newInstance inside) fun _ _ _ _ => .pure trivial
      | _ => exact .pure trivial

theorem Upholds.hosted {E : Option Watch → Engine} (upholds : Upholds past E limit)
    (calls : List HostCall) : Keeps past (fun i => (E i).hosted calls) m fun _ _ => True := by
  induction calls generalizing m with
  | nil => exact .pure trivial
  | cons call calls ih => exact .bind (upholds.serve call) fun _ _ _ _ => ih

/-- In every state of a session objects are linked and have come about by what occurred in the
session, and whatever is there is there until its end. -/
theorem Visited.develops (visited : Visited depth world calls m) : m.Linked ∧
    (∃ log, Chronicle (Occurs depth world calls) log m.store) ∧
    m.store.Grows (left ((engine depth).hosted calls (.fresh world))).store := by
  have upholds := upholds_engine (Occurs depth world calls) depth
  obtain ⟨linked, ⟨log, before⟩, _, after⟩ := Upkeep.visited (Machine.linked_fresh world)
    (fun _ _ occurs => occurs) (fun calls _ => upholds.hosted calls) visited
  exact ⟨linked, ⟨log, before.course⟩, after.toGrows⟩

theorem Visited.grows (visited : Visited depth world calls m) : m.Linked ∧
    m.store.Grows (left ((engine depth).hosted calls (.fresh world))).store :=
  ⟨visited.develops.1, visited.develops.2.2⟩

theorem Visited.chronicle (visited : Visited depth world calls m) :
    ∃ log, Chronicle (Occurs depth world calls) log m.store := visited.develops.2.1

end Lox
