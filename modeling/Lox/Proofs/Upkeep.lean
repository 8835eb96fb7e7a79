import Lox.Proofs.CoherentRuns

/-! What a run keeps. A condition on states and an order between them are followed through all
states that a run comes to: those in which something happens, and the one it leaves behind. On the
way a log is kept, to which every stretch of the run adds its part. -/

namespace Lox

namespace Watched

/-- The run is ended by whoever forbids the event. -/
def Sees (c : Watched α) (m : Machine) (event : Event) (m' : Machine) : Prop :=
  ∀ complaint, Stopped complaint (c (some (.forbid event m' complaint)) m)

/-- The run does not notice whether the event is forbidden. -/
def Misses (c : Watched α) (m : Machine) (event : Event) (m' : Machine) : Prop :=
  ∀ complaint, c (some (.forbid event m' complaint)) m = c none m

/-- The events that the run comes by. -/
def Meets (c : Watched α) (m : Machine) : History := fun event m' => ¬ c.Misses m event m'

theorem Sees.meets {c : Watched α} (seen : c.Sees m event m') : c.Meets m event m' := by
  intro missed
  apply not_stopped (c none m)
  intro complaint
  have stopped := seen complaint
  rw [missed complaint] at stopped
  exact stopped

/-- The run is asked before it starts whether the event is allowed. -/
noncomputable def guarded (event : Event) (c : Watched α) : Watched α
  | none => c none
  | some w => w.guard event (c (some w))

theorem Sees.bind {c : Watched α} (seen : Sees c m event m') (f : Option Watch → α → Eval β) :
    Sees (fun i => c i >>= f i) m event m' := by
  intro complaint
  obtain ⟨left, stopped⟩ := seen complaint
  exact ⟨left, Eval.bind_of_error stopped⟩

/-- What is seen only in the second part of a run does not end the first. -/
theorem Sees.later {c : Watched α} {f : Option Watch → α → Eval β}
    (first : c.Misses m event m' ∨ c.Sees m event m') (ran : c none m = .ok a m₁)
    (seen : Sees (fun i => f i a) m₁ event m') : Sees (fun i => c i >>= f i) m event m' := by
  rcases first with missed | seen'
  · intro complaint
    obtain ⟨last, stopped⟩ := seen complaint
    exact ⟨last, (Eval.bind_of_ok ((missed complaint).trans ran)).trans stopped⟩
  · exact seen'.bind f

end Watched

/-- A condition on states and an order between them, with a log of the way from one to the other,
the latest entry first. Which scope is active is no matter of the order, and the scope that was
active may become active again. What an event does is one such way. -/
structure Upkeep (Entry : Type) where
  good : Machine → Prop
  grows : List Entry → Machine → Machine → Prop
  spans : Event → List Entry → Machine → Machine → Prop
  refl : ∀ m, grows [] m m
  trans : ∀ {log new m m' m''}, grows log m m' → grows new m' m'' → grows (new ++ log) m m''
  entered : ∀ {log} {m m' : Machine} (a b : Option ScopeId), grows log m m' →
    grows log { m with active := a } { m' with active := b }
  resumed : ∀ {log} {m m' : Machine}, good m → good m' → grows log m m' →
    good { m' with active := m.active }
  spanned : ∀ {event log m m'}, spans event log m m' → grows log m m'

namespace Upkeep

variable {Entry : Type} (U : Upkeep Entry) (past : History)

/-- How a run from `m` ends. -/
def Ends (log : List Entry) (m : Machine) (post : α → List Entry → Machine → Prop) :
    EStateM.Result Halt Machine α → Prop
  | .ok a m' => U.good m' ∧ U.grows log m m' ∧ post a log m'
  | .error _ m' => U.good m' ∧ U.grows log m m'

/-- An event of a run. The log of the run has three parts, for what comes before the event, for the
event and for what comes after it. -/
structure Met (log : List Entry) (c : Watched α) (m : Machine) (event : Event) (m' : Machine) :
    Prop where
  seen : c.Sees m event m'
  good : U.good m'
  parts : ∃ before inside after last, log = after ++ (inside ++ before) ∧ U.grows before m m' ∧
    U.spans event inside m' last ∧ U.grows after last (left (c none m))

/-- Started in a good state, the run stays in good states that grow, and its result is as
promised. All that happens in it belongs to the given history. -/
def Keeps (c : Watched α) (m : Machine) (post : α → List Entry → Machine → Prop) : Prop :=
  U.good m → (∀ event m', c.Sees m event m' → past event m') →
    ∃ log, U.Ends log m post (c none m) ∧
      ∀ event m', c.Misses m event m' ∨ U.Met log c m event m'

variable {U past} {log new : List Entry}

theorem Ends.left {post : α → List Entry → Machine → Prop} (ends : U.Ends log m post r) :
    U.good (Lox.left r) ∧ U.grows log m (Lox.left r) := by
  cases r with
  | ok a m' => exact ⟨ends.1, ends.2.1⟩
  | error halt m' => exact ends

theorem Ends.mono {post post' : α → List Entry → Machine → Prop} (ends : U.Ends log m post r)
    (implies : ∀ a m', U.good m' → U.grows log m m' → post a log m' → post' a log m') :
    U.Ends log m post' r := by
  cases r with
  | ok a m' => exact ⟨ends.1, ends.2.1, implies a m' ends.1 ends.2.1 ends.2.2⟩
  | error halt m' => exact ends

theorem Ends.trans {post : α → List Entry → Machine → Prop} (grows : U.grows log m m')
    (ends : U.Ends new m' (fun a new => post a (new ++ log)) r) :
    U.Ends (new ++ log) m post r := by
  cases r with
  | ok a m'' => exact ⟨ends.1, U.trans grows ends.2.1, ends.2.2⟩
  | error halt m'' => exact ⟨ends.1, U.trans grows ends.2⟩

/-- The way from an event to the end of the run. -/
theorem Met.after {c : Watched α} (met : U.Met log c m event m') :
    ∃ before after, log = after ++ before ∧ U.grows before m m' ∧
      U.grows after m' (Lox.left (c none m)) := by
  obtain ⟨before, inside, after, last, rfl, first, second, third⟩ := met.parts
  exact ⟨before, after ++ inside, (List.append_assoc ..).symm, first,
    U.trans (U.spanned second) third⟩

/-- A longer run has the event too. -/
theorem Met.longer {c : Watched α} {d : Watched β} (met : U.Met log c m event m')
    (seen : d.Sees m event m') (grows : U.grows new (Lox.left (c none m)) (Lox.left (d none m))) :
    U.Met (new ++ log) d m event m' := by
  obtain ⟨before, inside, after, last, rfl, first, second, third⟩ := met.parts
  exact ⟨seen, met.good, before, inside, new ++ after, last, (List.append_assoc ..).symm, first,
    second, U.trans third grows⟩

/-- A run that starts earlier has the event too. -/
theorem Met.earlier {c : Watched α} {d : Watched β} {m₀ : Machine} (met : U.Met new c m event m')
    (seen : d.Sees m₀ event m') (grows : U.grows log m₀ m)
    (same : Lox.left (c none m) = Lox.left (d none m₀)) :
    U.Met (new ++ log) d m₀ event m' := by
  obtain ⟨before, inside, after, last, rfl, first, second, third⟩ := met.parts
  refine ⟨seen, met.good, before ++ log, inside, after, last, ?_, U.trans grows first, second,
    same ▸ third⟩
  rw [List.append_assoc, List.append_assoc]

namespace Keeps

theorem mono {c : Watched α} {post post' : α → List Entry → Machine → Prop}
    (keeps : U.Keeps past c m post)
    (implies : ∀ {log} a m', U.good m' → U.grows log m m' → post a log m' → post' a log m') :
    U.Keeps past c m post' := by
  intro good belongs
  obtain ⟨log, ends, met⟩ := keeps good belongs
  exact ⟨log, ends.mono implies, met⟩

/-- The promise may mention the run itself and its log. -/
theorem ran {c : Watched α} {post : α → List Entry → Machine → Prop}
    (keeps : U.Keeps past c m post) :
    U.Keeps past c m fun a log m' =>
      post a log m' ∧ c none m = .ok a m' ∧ U.grows log m m' := by
  intro good belongs
  obtain ⟨log, ends, met⟩ := keeps good belongs
  refine ⟨log, ?_, met⟩
  cases ran : c none m with
  | ok a m' =>
    rw [ran] at ends
    exact ⟨ends.1, ends.2.1, ends.2.2, rfl, ends.2.1⟩
  | error halt m' =>
    rw [ran] at ends
    exact ends

/-- From a good state all that a run comes by lies in good states. -/
theorem meets {c : Watched α} {post : α → List Entry → Machine → Prop}
    (keeps : U.Keeps (c.Meets m) c m post) (good : U.good m) :
    ∃ log, U.Ends log m post (c none m) ∧
      ∀ event m', c.Meets m event m' → U.Met log c m event m' := by
  obtain ⟨log, ends, met⟩ := keeps good fun _ _ seen => seen.meets
  exact ⟨log, ends, fun event m' meets => (met event m').resolve_left meets⟩

/-- A step that no watch notices. -/
theorem step {p : Eval α} {post : α → List Entry → Machine → Prop} (log : List Entry)
    (ends : U.good m → U.Ends log m post (p m)) : U.Keeps past (fun _ => p) m post :=
  fun good _ => ⟨log, ends good, fun _ _ => .inl fun _ => rfl⟩

theorem pure {post : α → List Entry → Machine → Prop} (holds : post a [] m) :
    U.Keeps past (fun _ => Pure.pure a) m post :=
  step [] fun good => ⟨good, U.refl m, holds⟩

theorem throw {post : α → List Entry → Machine → Prop} (halt : Halt) :
    U.Keeps past (fun _ => (throw halt : Eval α)) m post :=
  step [] fun good => ⟨good, U.refl m⟩

theorem fail {post : α → List Entry → Machine → Prop} (line : Nat) (cause : RuntimeError.Cause) :
    U.Keeps past (fun _ => (Eval.fail line cause : Eval α)) m post := throw _

theorem bind {c : Watched α} {f : Option Watch → α → Eval β}
    {mid : α → List Entry → Machine → Prop} {post : β → List Entry → Machine → Prop}
    (first : U.Keeps past c m mid)
    (second : ∀ {log} a m', U.grows log m m' → mid a log m' →
      U.Keeps past (fun i => f i a) m' fun b new => post b (new ++ log)) :
    U.Keeps past (fun i => c i >>= f i) m post := by
  intro good belongs
  obtain ⟨log, ends, met⟩ := first good fun event m' seen => belongs event m' (seen.bind f)
  cases ran : c none m with
  | error halt m₁ =>
    have whole : (c none >>= f none) m = .error halt m₁ := Eval.bind_of_error ran
    rw [ran] at ends
    refine ⟨log, ?_, fun event m' => ?_⟩
    · change U.Ends log m post ((c none >>= f none) m)
      rw [whole]
      exact ends
    · rcases met event m' with missed | met
      · exact .inl fun complaint =>
          (Eval.bind_of_error ((missed complaint).trans ran)).trans whole.symm
      · have same : Lox.left (c none m) = Lox.left ((c none >>= f none) m) := by
          rw [ran, whole]
          rfl
        exact .inr ⟨met.seen.bind f, met.good, same ▸ met.parts⟩
  | ok a m₁ =>
    have whole : (c none >>= f none) m = f none a m₁ := Eval.bind_of_ok ran
    rw [ran] at ends
    obtain ⟨good₁, grows₁, holds⟩ := ends
    have later (event m') (seen : Watched.Sees (fun i => f i a) m₁ event m') :
        Watched.Sees (fun i => c i >>= f i) m event m' :=
      .later ((met event m').imp_right Met.seen) ran seen
    obtain ⟨new, ends', met'⟩ := second a m₁ grows₁ holds good₁
      fun event m' seen => belongs event m' (later event m' seen)
    refine ⟨new ++ log, ?_, fun event m' => ?_⟩
    · change U.Ends (new ++ log) m post ((c none >>= f none) m)
      rw [whole]
      exact ends'.trans grows₁
    · rcases met event m' with missed | met
      · rcases met' event m' with missed' | met'
        · exact .inl fun complaint => (Eval.bind_of_ok ((missed complaint).trans ran)).trans
            ((missed' complaint).trans whole.symm)
        · exact .inr (met'.earlier (later event m' met'.seen) grows₁ (congrArg _ whole.symm))
      · refine .inr (met.longer (met.seen.bind f) ?_)
        rw [ran, whole]
        exact ends'.left.2

/-- The state between the two parts of a run. -/
theorem between {c : Watched α} {f : Option Watch → α → Eval β}
    {mid : α → List Entry → Machine → Prop} {post : α → β → List Entry → Machine → Prop}
    (first : U.Keeps past c m mid) (second : ∀ a m', U.Keeps past (fun i => f i a) m' (post a))
    (good : U.good m)
    (belongs : ∀ event m', Watched.Sees (fun i => c i >>= f i) m event m' → past event m') :
    U.good (Lox.left (c none m)) ∧ (∃ log, U.grows log m (Lox.left (c none m))) ∧
      ∃ log, U.grows log (Lox.left (c none m)) (Lox.left ((c none >>= f none) m)) := by
  obtain ⟨log, ends, met⟩ := first good fun event m' seen => belongs event m' (seen.bind f)
  refine ⟨ends.left.1, ⟨log, ends.left.2⟩, ?_⟩
  cases ran : c none m with
  | error halt m₁ =>
    rw [Eval.bind_of_error ran]
    exact ⟨[], U.refl _⟩
  | ok a m₁ =>
    rw [ran] at ends
    rw [Eval.bind_of_ok ran]
    obtain ⟨new, ends', -⟩ := second a m₁ ends.1 fun event m' seen =>
      belongs event m' (.later ((met event m').imp_right Met.seen) ran seen)
    exact ⟨new, ends'.left.2⟩

/-- A run from another state, whose outcome is then changed in a way that no watch notices. -/
theorem wrap {c : Watched α} {d : Watched β} {mid : α → List Entry → Machine → Prop}
    {post : β → List Entry → Machine → Prop} {m₀ : Machine}
    (after : EStateM.Result Halt Machine α → EStateM.Result Halt Machine β)
    (same : ∀ i, d i m = after (c i m₀))
    (handsOn : ∀ complaint r, Stopped complaint r → Stopped complaint (after r))
    (enter : U.good m → U.good m₀) (enters : U.grows [] m m₀)
    (leaves : ∀ r : EStateM.Result Halt Machine α, U.grows [] (Lox.left r) (Lox.left (after r)))
    (ends : ∀ log r, U.good m → U.Ends log m₀ mid r → U.Ends log m post (after r))
    (body : U.Keeps past c m₀ mid) : U.Keeps past d m post := by
  intro good belongs
  have sees {event m'} (seen : c.Sees m₀ event m') : d.Sees m event m' := by
    intro complaint
    rw [same]
    exact handsOn complaint _ (seen complaint)
  obtain ⟨log, ends', met⟩ := body (enter good) fun event m' seen => belongs event m' (sees seen)
  refine ⟨log, same none ▸ ends log _ good ends', fun event m' => ?_⟩
  rcases met event m' with missed | met
  · refine .inl fun complaint => ?_
    rw [same, same, missed complaint]
  · obtain ⟨before, inside, after', last, rfl, first, second, third⟩ := met.parts
    refine .inr ⟨sees met.seen, met.good, before ++ [], inside, [] ++ after', last, ?_,
      U.trans enters first, second, ?_⟩
    · rw [List.append_nil, List.nil_append]
    · rw [same]
      exact U.trans third (leaves _)

theorem within {c : Watched α} {post : α → List Entry → Machine → Prop} (scope : Option ScopeId)
    (enter : U.good m → U.good { m with active := scope })
    (body : U.Keeps past c { m with active := scope }
      fun a log m' => post a log { m' with active := m.active }) :
    U.Keeps past (fun i => Eval.within scope (c i)) m post := by
  refine body.wrap (Watched.backTo m.active) (fun _ => rfl) ?_ enter
    (U.entered m.active scope (U.refl m)) ?_ ?_
  · rintro complaint _ ⟨last, rfl⟩
    exact ⟨_, rfl⟩
  · intro r
    cases r with
    | ok a last => exact U.entered last.active m.active (U.refl last)
    | error halt last => exact U.entered last.active m.active (U.refl last)
  · intro log r good ends
    cases r with
    | ok a last =>
      obtain ⟨good', grows, holds⟩ := ends
      have grows := U.entered m.active last.active grows
      exact ⟨U.resumed good good' grows, U.entered _ _ grows, holds⟩
    | error halt last =>
      obtain ⟨good', grows⟩ := ends
      have grows := U.entered m.active last.active grows
      exact ⟨U.resumed good good' grows, U.entered _ _ grows⟩

theorem attempt {c : Watched α} {post : α → List Entry → Machine → Prop}
    (body : U.Keeps past c m post) :
    U.Keeps past (fun i => Eval.attempt (c i)) m
      fun result log m' => ∀ a, result = .ok a → post a log m' := by
  refine body.wrap Watched.caught (fun _ => rfl) ?_ id (U.refl m) ?_ ?_
  · rintro complaint _ ⟨last, rfl⟩
    exact ⟨_, rfl⟩
  · intro r
    obtain ⟨a, last⟩ | ⟨halt, last⟩ := r
    · exact U.refl last
    · cases halt <;> exact U.refl last
  · intro log r good ends
    obtain ⟨a, last⟩ | ⟨halt, last⟩ := r
    · refine ⟨ends.1, ends.2.1, fun b same => ?_⟩
      cases same
      exact ends.2.2
    · cases halt with
      | error e =>
        refine ⟨ends.1, ends.2, fun _ same => ?_⟩
        cases same
      | violation v | exhausted => exact ends

theorem guard {c : Watched α} {post : α → List Entry → Machine → Prop} (event : Event)
    (spans : ∀ log, U.Ends log m post (c none m) → U.spans event log m (Lox.left (c none m)))
    (body : past event m → U.Keeps past c m post) :
    U.Keeps past (c.guarded event) m post := by
  intro good belongs
  have here (complaint) : Stopped complaint
      ((Watch.forbid event m complaint).guard event (c (some (.forbid event m complaint))) m) :=
    ⟨m, Watch.guard_of_forbidden fun free => free ⟨rfl, rfl⟩⟩
  have passes {event' m'} (other : ¬ (event = event' ∧ m = m')) (complaint) :
      (Watch.forbid event' m' complaint).guard event (c (some (.forbid event' m' complaint))) m =
        c (some (.forbid event' m' complaint)) m := Watch.guard_of_allowed other
  have stops {event' m'} (seen : c.Sees m event' m') (complaint) : Stopped complaint
      ((Watch.forbid event' m' complaint).guard event
        (c (some (.forbid event' m' complaint))) m) := by
    by_cases same : event = event' ∧ m = m'
    · obtain ⟨rfl, rfl⟩ := same
      exact here complaint
    · rw [passes same complaint]
      exact seen complaint
  obtain ⟨log, ends, met⟩ := body (belongs event m here) good fun event' m' seen =>
    belongs event' m' (stops seen)
  refine ⟨log, ends, fun event' m' => ?_⟩
  by_cases same : event = event' ∧ m = m'
  · obtain ⟨rfl, rfl⟩ := same
    exact .inr ⟨here, good, [], log, [], _, (List.append_nil log).symm, U.refl m, spans log ends,
      U.refl _⟩
  · rcases met event' m' with missed | met
    · exact .inl fun complaint => (passes same complaint).trans (missed complaint)
    · exact .inr ⟨stops met.seen, met.good, met.parts⟩

end Keeps

end Upkeep

end Lox
