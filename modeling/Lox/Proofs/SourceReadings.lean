import Lox.Proofs.Bookkeeping

/-! The sources that a session reads. They are read one after the other: each is read in a state that
continues the one in which the source before it was made ready. -/

namespace Lox

/-- A source that is read as a program or as one expression. -/
inductive Reading where
  | program (source : String)
  | expression (source : String)

/-- The state after the source has been made ready, or has been rejected. -/
def Reading.after : Reading → Machine → Machine
  | program source, m => left (Eval.prepare parse resolve source m)
  | expression source, m => left (Eval.prepare parseExpression resolveExpression source m)

theorem Reading.after_kept (x : Reading) (m : Machine) : m.Kept (x.after m) := by
  cases x with
  | program source => exact prepare_kept reads_program source m
  | expression source => exact prepare_kept reads_expression source m

/-- One source must not be read in one state. -/
structure Refusal where
  reading : Reading
  state : Machine
  complaint : Violation

open Classical in
noncomputable def Refusal.guard (refusal : Refusal) (x : Reading) (body : Eval α) : Eval α :=
  fun m => if x = refusal.reading ∧ m = refusal.state then .error (.violation refusal.complaint) m
    else body m

/-- The supply of the machine itself, with one reading refused. -/
noncomputable def Supply.refusing (refusal : Refusal) : Supply :=
  { Supply.plain with
    program := fun source => refusal.guard (.program source) (Supply.plain.program source)
    expression := fun source =>
      refusal.guard (.expression source) (Supply.plain.expression source) }

/-- A source is read in a state of a session if the session changes when this is refused. -/
def IsRead (depth : Nat) (world : World) (steps : List HostStep) (x : Reading) (m : Machine) :
    Prop :=
  ∃ complaint, (engineFrom (.refusing ⟨x, m, complaint⟩) depth).sessionFrom
      (.refusing ⟨x, m, complaint⟩) steps (.fresh world) ≠
    (engine depth).session steps (.fresh world)

/-- Without an index nothing is refused. -/
abbrev Refused (α : Type) := Option Refusal → Eval α

namespace Refused

/-- The run is ended by whoever refuses the reading. -/
def Sees (c : Refused α) (m : Machine) (x : Reading) (a : Machine) : Prop :=
  ∀ complaint, Stopped complaint (c (some ⟨x, a, complaint⟩) m)

/-- The run does not notice whether the reading is refused. -/
def Misses (c : Refused α) (m : Machine) (x : Reading) (a : Machine) : Prop :=
  ∀ complaint, c (some ⟨x, a, complaint⟩) m = c none m

theorem Misses.not_sees {c : Refused α} (misses : c.Misses m x a) : ¬ c.Sees m x a := by
  intro sees
  refine not_stopped (c none m) fun complaint => ?_
  rw [← misses complaint]
  exact sees complaint

section

variable {c : Refused α} {f : Option Refusal → α → Eval β}

theorem Sees.bind (sees : c.Sees m x a) (f : Option Refusal → α → Eval β) :
    Sees (fun i => c i >>= f i) m x a := by
  intro complaint
  obtain ⟨last, stopped⟩ := sees complaint
  exact ⟨last, Eval.bind_of_error stopped⟩

theorem Misses.bind_error (misses : c.Misses m x a) (ran : c none m = .error halt m') :
    Misses (fun i => c i >>= f i) m x a := fun complaint =>
  (Eval.bind_of_error ((misses complaint).trans ran)).trans (Eval.bind_of_error ran).symm

theorem Misses.bind_ok (misses : c.Misses m x a) (ran : c none m = .ok v m')
    (misses' : Misses (fun i => f i v) m' x a) : Misses (fun i => c i >>= f i) m x a :=
  fun complaint => (Eval.bind_of_ok ((misses complaint).trans ran)).trans
    ((misses' complaint).trans (Eval.bind_of_ok ran).symm)

/-- What the first part of a run misses belongs to the run if it belongs to the second part. -/
theorem Misses.sees_bind (misses : c.Misses m x a) (ran : c none m = .ok v m') :
    Sees (fun i => c i >>= f i) m x a ↔ Sees (fun i => f i v) m' x a := by
  have same (complaint : Violation) : (c (some ⟨x, a, complaint⟩) >>=
      f (some ⟨x, a, complaint⟩)) m = f (some ⟨x, a, complaint⟩) v m' :=
    Eval.bind_of_ok ((misses complaint).trans ran)
  constructor
  · intro sees complaint
    obtain ⟨last, stopped⟩ := sees complaint
    exact ⟨last, (same complaint).symm.trans stopped⟩
  · intro sees complaint
    obtain ⟨last, stopped⟩ := sees complaint
    exact ⟨last, (same complaint).trans stopped⟩

end

/-- The reading belongs to the run and lies between its first and its last state. -/
structure Meets (c : Refused α) (m : Machine) (x : Reading) (a : Machine) : Prop where
  sees : c.Sees m x a
  orderly : a.Orderly
  before : m.Continues a
  after : (x.after a).Continues (left (c none m))

/-- The run keeps the books, and of two readings in it one comes after the other. -/
structure InTurn (c : Refused α) (m : Machine) : Prop where
  orderly : (left (c none m)).Orderly
  continues : m.Continues (left (c none m))
  met : ∀ x a, c.Misses m x a ∨ c.Meets m x a
  turns : ∀ x a y b, c.Sees m x a → c.Sees m y b →
    (x = y ∧ a = b) ∨ (x.after a).Continues b ∨ (y.after b).Continues a

theorem InTurn.meets {c : Refused α} (inTurn : c.InTurn m) (sees : c.Sees m x a) :
    c.Meets m x a := by
  obtain missed | meets := inTurn.met x a
  · exact (missed.not_sees sees).elim
  · exact meets

namespace InTurn

/-- A step that reads nothing. -/
theorem const {p : Eval α} (orderly : m.Orderly) (kept : m.Kept (left (p m))) :
    InTurn (fun _ => p) m := by
  obtain ⟨orderly', continues⟩ := kept orderly
  have missed (x a) : Misses (fun _ => p) m x a := fun _ => rfl
  exact ⟨orderly', continues, fun x a => .inl (missed x a),
    fun x a _ _ sees => ((missed x a).not_sees sees).elim⟩

/-- The step that reads a source. -/
theorem reading {c : Refused α} {p : Eval α} (x : Reading) (free : c none = p)
    (guarded : ∀ refusal, c (some refusal) = refusal.guard x p) (ends : left (p m) = x.after m)
    (orderly : m.Orderly) : InTurn c m := by
  subst free
  obtain ⟨orderly', continues⟩ := x.after_kept m orderly
  have met (y a) : c.Misses m y a ∨ (x = y ∧ m = a) := by
    by_cases here : x = y ∧ m = a
    · exact .inr here
    · refine .inl fun complaint => ?_
      rw [guarded]
      exact if_neg here
  refine ⟨ends ▸ orderly', ends ▸ continues, fun y a => ?_, fun y a z b sees sees' => .inl ?_⟩
  · obtain missed | ⟨rfl, rfl⟩ := met y a
    · exact .inl missed
    · refine .inr ⟨fun complaint => ⟨m, ?_⟩, orderly, .refl m, ends ▸ .refl _⟩
      rw [guarded]
      exact if_pos ⟨rfl, rfl⟩
  · obtain missed | ⟨rfl, rfl⟩ := met y a
    · exact (missed.not_sees sees).elim
    · obtain missed | here := met z b
      · exact (missed.not_sees sees').elim
      · exact here

theorem bind {c : Refused α} {f : Option Refusal → α → Eval β} (first : InTurn c m)
    (second : ∀ a m', m'.Orderly → InTurn (fun i => f i a) m') :
    InTurn (fun i => c i >>= f i) m := by
  cases ran : c none m with
  | error halt m₁ =>
    have ends : left ((c none >>= f none) m) = left (c none m) := by
      rw [Eval.bind_of_error ran, ran]
      rfl
    have back {x a} (sees : Sees (fun i => c i >>= f i) m x a) : c.Sees m x a := by
      obtain misses | meets := first.met x a
      · exact ((misses.bind_error ran).not_sees sees).elim
      · exact meets.sees
    refine ⟨ends ▸ first.orderly, ends ▸ first.continues, fun x a => ?_,
      fun x a y b sees sees' => first.turns x a y b (back sees) (back sees')⟩
    obtain misses | ⟨sees, orderly, before, after⟩ := first.met x a
    · exact .inl (misses.bind_error ran)
    · exact .inr ⟨sees.bind f, orderly, before, ends ▸ after⟩
  | ok v m₁ =>
    have ends : left ((c none >>= f none) m) = left (f none v m₁) := by rw [Eval.bind_of_ok ran]
    have middle : left (c none m) = m₁ := by rw [ran]; rfl
    have later := second v m₁ (middle ▸ first.orderly)
    have continues : m.Continues m₁ := middle ▸ first.continues
    refine ⟨ends ▸ later.orderly, ends ▸ continues.trans later.continues, fun x a => ?_,
      fun x a y b sees sees' => ?_⟩
    · obtain misses | ⟨sees, orderly, before, after⟩ := first.met x a
      · obtain misses' | ⟨sees, orderly, before, after⟩ := later.met x a
        · exact .inl (misses.bind_ok ran misses')
        · exact .inr ⟨(misses.sees_bind ran).mpr sees, orderly, continues.trans before,
            ends ▸ after⟩
      · rw [middle] at after
        exact .inr ⟨sees.bind f, orderly, before, ends ▸ after.trans later.continues⟩
    · -- Each of the two readings belongs to the first part or to the second.
      have parts {x a} (sees : Sees (fun i => c i >>= f i) m x a) :
          c.Sees m x a ∨ Sees (fun i => f i v) m₁ x a := by
        obtain misses | meets := first.met x a
        · exact .inr ((misses.sees_bind ran).mp sees)
        · exact .inl meets.sees
      have across {x a y b} (early : c.Sees m x a) (late : Sees (fun i => f i v) m₁ y b) :
          (x.after a).Continues b :=
        (middle ▸ (first.meets early).after).trans (later.meets late).before
      obtain early | late := parts sees
      · obtain early' | late' := parts sees'
        · exact first.turns x a y b early early'
        · exact .inr (.inl (across early late'))
      · obtain early' | late' := parts sees'
        · exact .inr (.inr (across early' late))
        · exact later.turns x a y b late late'

/-- A run from a state with the same books, whose outcome is then changed in a way that nobody who
refuses a reading notices. -/
theorem wrap {c : Refused α} {d : Refused β} {m₀ : Machine} (body : InTurn c m₀)
    (change : EStateM.Result Halt Machine α → EStateM.Result Halt Machine β)
    (same : ∀ i, d i m = change (c i m₀))
    (handsOn : ∀ complaint r, Stopped complaint r → Stopped complaint (change r))
    (entered : m.Kept m₀) (resumed : ∀ r, (left r).Kept (left (change r))) (orderly : m.Orderly) :
    InTurn d m := by
  have enters := (entered orderly).2
  obtain ⟨orderly', leaves⟩ := resumed (c none m₀) body.orderly
  rw [← same none] at orderly' leaves
  have missed {x a} (misses : c.Misses m₀ x a) : d.Misses m x a := by
    intro complaint
    rw [same, same, misses complaint]
  have back {x a} (sees : d.Sees m x a) : c.Sees m₀ x a := by
    obtain misses | meets := body.met x a
    · exact ((missed misses).not_sees sees).elim
    · exact meets.sees
  refine ⟨orderly', enters.trans (body.continues.trans leaves), fun x a => ?_,
    fun x a y b sees sees' => body.turns x a y b (back sees) (back sees')⟩
  obtain misses | ⟨sees, orderly, before, after⟩ := body.met x a
  · exact .inl (missed misses)
  · refine .inr ⟨fun complaint => ?_, orderly, enters.trans before, after.trans leaves⟩
    rw [same]
    exact handsOn complaint _ (sees complaint)

theorem within {c : Refused α} (scope : Option ScopeId) (orderly : m.Orderly)
    (body : InTurn c { m with active := scope }) :
    InTurn (fun i => Eval.within scope (c i)) m := by
  refine body.wrap (Watched.backTo m.active) (fun _ => rfl) ?_ (.of_same rfl rfl rfl) ?_ orderly
  · rintro complaint _ ⟨last, rfl⟩
    exact ⟨_, rfl⟩
  · intro r
    cases r <;> exact .of_same rfl rfl rfl

theorem attempt {c : Refused α} (orderly : m.Orderly) (body : InTurn c m) :
    InTurn (fun i => Eval.attempt (c i)) m := by
  refine body.wrap Watched.caught (fun _ => rfl) ?_ (.of_same rfl rfl rfl) ?_ orderly
  · rintro complaint _ ⟨last, rfl⟩
    exact ⟨_, rfl⟩
  · intro r
    obtain ⟨a, last⟩ | ⟨halt, last⟩ := r
    · exact .of_same rfl rfl rfl
    · cases halt <;> exact .of_same rfl rfl rfl

end InTurn

def congruence : Congruence (Option Refusal) where
  holds c := ∀ m : Machine, m.Orderly → InTurn c m
  step sourceless m orderly := .const orderly (sourceless.kept m)
  bind first later _ orderly := (first _ orderly).bind later
  within scope body _ orderly :=
    .within scope orderly (body _ ⟨orderly.unused, orderly.apart⟩)
  attempt body m orderly := .attempt orderly (body m orderly)

/-- The supply of the machine itself, with what is refused. -/
noncomputable def supply : Option Refusal → Supply
  | none => .plain
  | some refusal => .refusing refusal

instance : congruence.Supplied supply where
  program source m orderly := .reading (.program source) rfl (fun _ => rfl) rfl orderly
  expression source m orderly := .reading (.expression source) rfl (fun _ => rfl) rfl orderly
  remember path m orderly := by
    have same : (fun i => (supply i).remember path) = fun _ => Eval.remember path := by
      funext i
      cases i <;> rfl
    rw [same]
    exact .const orderly (remember_kept path m)
  remembered m orderly := by
    have same : (fun i => (supply i).remembered) = fun _ => Supply.plain.remembered := by
      funext i
      cases i <;> rfl
    rw [same]
    exact .const orderly (.of_same rfl rfl rfl)
  report _ m orderly := .const orderly (.of_same rfl rfl rfl)

theorem session_inTurn (depth : Nat) (world : World) (steps : List HostStep) :
    InTurn (fun i => (engineFrom (supply i) depth).sessionFrom (supply i) steps)
      (.fresh world) :=
  (congruence.engineFrom supply depth).sessionFrom
    (fun _ _ orderly => .const orderly (.of_same rfl rfl rfl)) steps _ (Machine.orderly_fresh world)

theorem session_free (depth : Nat) (steps : List HostStep) :
    (engineFrom (supply none) depth).sessionFrom (supply none) steps =
      (engine depth).session steps := by
  change (engineFrom .plain depth).sessionFrom .plain steps = _
  rw [engineFrom_plain, Engine.sessionFrom_plain]

end Refused

section

variable {depth : Nat} {world : World} {steps : List HostStep} {x y : Reading} {m m' : Machine}

/-- A session that refuses a reading differs from the session itself just if it is ended by this. -/
theorem isRead_iff_sees : IsRead depth world steps x m ↔
    Refused.Sees (fun i => (engineFrom (Refused.supply i) depth).sessionFrom (Refused.supply i) steps)
      (.fresh world) x m := by
  constructor
  · rintro ⟨complaint, differs⟩
    obtain misses | meets := (Refused.session_inTurn depth world steps).met x m
    · refine (differs ?_).elim
      rw [← Refused.session_free]
      exact misses complaint
    · exact meets.sees
  · intro sees
    refine Classical.byContradiction fun unread =>
      not_stopped ((engine depth).session steps (.fresh world)) fun complaint => ?_
    rw [← Classical.not_not.mp (not_exists.mp unread complaint)]
    exact sees complaint

/-- A session keeps the books from its beginning up to a reading, and from there to its end. -/
theorem IsRead.continues (read : IsRead depth world steps x m) :
    m.Orderly ∧ (x.after m).Continues (left ((engine depth).session steps (.fresh world))) := by
  have meets := (Refused.session_inTurn depth world steps).meets (isRead_iff_sees.mp read)
  refine ⟨meets.orderly, ?_⟩
  have after := meets.after
  rw [Refused.session_free] at after
  exact after

/-- Of two readings in a session one comes after the other. -/
theorem IsRead.turns (first : IsRead depth world steps x m)
    (second : IsRead depth world steps y m') :
    (x = y ∧ m = m') ∨ (x.after m).Continues m' ∨ (y.after m').Continues m :=
  (Refused.session_inTurn depth world steps).turns x m y m' (isRead_iff_sees.mp first)
    (isRead_iff_sees.mp second)

/-- The source that a step of the host hands over. -/
def HostStep.reading? : HostStep → Option Reading
  | .run source => some (.program source)
  | .evaluate source => some (.expression source)
  | .runFile _ | .surround _ => none

/-- A source that a host hands over is read in the state in which it finds the machine. -/
theorem isRead_step {step : HostStep} (before : List HostStep)
    (ran : (engine depth).session before (.fresh world) = .ok () m)
    (handed : step.reading? = some x) (after : List HostStep) :
    IsRead depth world (before ++ step :: after) x m := by
  rw [isRead_iff_sees]
  simp only [Engine.sessionFrom_append]
  have here : Refused.Sees (fun i => (engineFrom (Refused.supply i) depth).sessionFrom
      (Refused.supply i) (step :: after)) m x m := by
    intro complaint
    refine ⟨m, ?_⟩
    cases step with
    | run source | evaluate source =>
      cases handed
      apply Eval.bind_of_error
      apply Eval.bind_of_error
      apply Eval.bind_of_error
      exact if_pos ⟨rfl, rfl⟩
    | runFile path | surround world => cases handed
  obtain misses | meets := (Refused.session_inTurn depth world before).met x m
  · rw [← Refused.session_free] at ran
    exact (misses.sees_bind ran).mpr here
  · exact meets.sees.bind _

end

end Lox
