import Lox.Proofs.ScopeSteps

/-! Runs from one coherent state to another, and what every step of a machine that runs no code of
the program does to a coherent state. -/

namespace Lox

variable {past : History}

theorem Eval.bind_of_ok {p : Eval α} {f : α → Eval β} (ran : p m = .ok a m') :
    (p >>= f) m = f a m' := by
  change EStateM.bind p f m = _
  unfold EStateM.bind
  rw [ran]

theorem Eval.bind_of_error {p : Eval α} {f : α → Eval β} (failed : p m = .error halt m') :
    (p >>= f) m = .error halt m' := by
  change EStateM.bind p f m = _
  unfold EStateM.bind
  rw [failed]

theorem Eval.bind_eq_ok {p : Eval α} {f : α → Eval β} (ran : (p >>= f) m = .ok b m') :
    ∃ a middle, p m = .ok a middle ∧ f a middle = .ok b m' := by
  change EStateM.bind p f m = _ at ran
  unfold EStateM.bind at ran
  cases first : p m with
  | ok a middle =>
    rw [first] at ran
    exact ⟨a, middle, rfl, ran⟩
  | error halt middle =>
    rw [first] at ran
    cases ran

theorem Eval.bind_get {f : Machine → Eval β} : (get >>= f) m = f m m := rfl

/-- The outcome of a run that has left a coherent state behind. Only with the complaint of a watch
can it be a violation. -/
def Outcome (complaint : Violation) (may : Option ScopeId) (w : Snapshot past)
    (post : α → Snapshot past → Prop) : EStateM.Result Halt Machine α → Prop
  | .ok a m => ∃ w' : Snapshot past, w'.machine = m ∧ Later may w w' ∧ post a w'
  | .error (.error _) m => ∃ w' : Snapshot past, w'.machine = m ∧ Later may w w'
  | .error .exhausted m => ∃ w' : Snapshot past, w'.machine = m ∧ Later may w w'
  | .error (.violation v) _ => v = complaint

/-- Two computations that have the same outcome in a coherent state, and leave one behind. -/
def Steps (complaint : Violation) (may : Option ScopeId) (p q : Eval α) (w : Snapshot past)
    (post : α → Snapshot past → Prop) : Prop :=
  p w.machine = q w.machine ∧ Outcome complaint may w post (q w.machine)

/-- An outcome seen from an earlier state. -/
theorem Outcome.mono {w v : Snapshot past} {post post' : α → Snapshot past → Prop}
    {r : EStateM.Result Halt Machine α} (outcome : Outcome complaint may w post r)
    (onwards : ∀ w', Later may w w' → Later may' v w')
    (weaker : ∀ a w', Later may w w' → post a w' → post' a w') :
    Outcome complaint may' v post' r := by
  match r with
  | .ok a m =>
    obtain ⟨w', ends, later, holds⟩ := outcome
    exact ⟨w', ends, onwards w' later, weaker a w' later holds⟩
  | .error (.error _) m | .error .exhausted m =>
    obtain ⟨w', ends, later⟩ := outcome
    exact ⟨w', ends, onwards w' later⟩
  | .error (.violation v) m => exact outcome

namespace Steps

variable {complaint : Violation} {may : Option ScopeId} {w w' : Snapshot past}

theorem of_ok {p : Eval α} {post : α → Snapshot past → Prop} (ran : p w.machine = .ok a m)
    (next : ∃ w' : Snapshot past, w'.machine = m ∧ Later may w w' ∧ post a w') :
    Steps complaint may p p w post := by
  refine ⟨rfl, ?_⟩
  rw [ran]
  exact next

theorem of_error {p : Eval α} {post : α → Snapshot past → Prop}
    (failed : p w.machine = .error (.error e) w.machine) : Steps complaint may p p w post := by
  refine ⟨rfl, ?_⟩
  rw [failed]
  exact ⟨w, rfl, .refl w⟩

theorem pure {post : α → Snapshot past → Prop} (holds : post a w) :
    Steps complaint may (pure a) (pure a) w post :=
  of_ok rfl ⟨w, rfl, .refl w, holds⟩

theorem fail {post : α → Snapshot past → Prop} (line : Nat) (cause : RuntimeError.Cause) :
    Steps complaint may (Eval.fail line cause) (Eval.fail line cause) w post :=
  of_error rfl

theorem exhausted {post : α → Snapshot past → Prop} :
    Steps complaint may Eval.exhausted Eval.exhausted w post := ⟨rfl, w, rfl, .refl w⟩

theorem mono {p q : Eval α} {post post' : α → Snapshot past → Prop}
    (steps : Steps complaint may p q w post)
    (weaker : ∀ a w', Later may w w' → post a w' → post' a w') :
    Steps complaint may p q w post' :=
  ⟨steps.1, steps.2.mono (fun _ later => later) weaker⟩

theorem weaken {p q : Eval α} {post : α → Snapshot past → Prop}
    (steps : Steps complaint none p q w post) : Steps complaint may p q w post :=
  ⟨steps.1, steps.2.mono (fun _ later => later.weaken) fun _ _ _ holds => holds⟩

/-- Sequencing, where the parts may run under other conditions than the whole. -/
theorem andThen {p q : Eval α} {f g : α → Eval β} {mid : α → Snapshot past → Prop}
    {post : β → Snapshot past → Prop} (first : Steps complaint may' p q w mid)
    (before : ∀ w', Later may' w w' → Later may w w')
    (rest : ∀ a w', Later may' w w' → mid a w' → ∃ may'',
      Steps complaint may'' (f a) (g a) w' post ∧ ∀ w'', Later may'' w' w'' → Later may w w'') :
    Steps complaint may (p >>= f) (q >>= g) w post := by
  obtain ⟨same, outcome⟩ := first
  change EStateM.bind p f _ = EStateM.bind q g _ ∧ Outcome _ _ _ _ (EStateM.bind q g _)
  unfold EStateM.bind
  rw [same]
  cases ran : q w.machine with
  | ok a m =>
    rw [ran] at outcome
    obtain ⟨w', rfl, later, holds⟩ := outcome
    obtain ⟨may', ⟨same', outcome'⟩, onwards⟩ := rest a w' later holds
    exact ⟨same', outcome'.mono onwards fun _ _ _ holds => holds⟩
  | error halt m =>
    rw [ran] at outcome
    refine ⟨rfl, ?_⟩
    cases halt with
    | violation v => exact outcome
    | error e | exhausted =>
      obtain ⟨w', ends, later⟩ := outcome
      exact ⟨w', ends, before w' later⟩

theorem bind {p q : Eval α} {f g : α → Eval β} {mid : α → Snapshot past → Prop}
    {post : β → Snapshot past → Prop} (first : Steps complaint may p q w mid)
    (rest : ∀ a w', Later may w w' → mid a w' → Steps complaint may (f a) (g a) w' post) :
    Steps complaint may (p >>= f) (q >>= g) w post :=
  first.andThen (fun _ later => later) fun a w' later holds =>
    ⟨may, rest a w' later holds, fun _ later' => later.trans later'⟩

/-- Only the second part may give a scope new slots. -/
theorem bindQuiet {p q : Eval α} {f g : α → Eval β} {mid : α → Snapshot past → Prop}
    {post : β → Snapshot past → Prop} (first : Steps complaint none p q w mid)
    (rest : ∀ a w', Later none w w' → mid a w' → Steps complaint may (f a) (g a) w' post) :
    Steps complaint may (p >>= f) (q >>= g) w post :=
  first.andThen (fun _ later => later.weaken) fun a w' later holds =>
    ⟨may, rest a w' later holds, fun _ later' => later.weaken.trans later'⟩

/-- After a new scope is opened, only that scope may have new slots. -/
theorem bindNew {p q : Eval ScopeId} {f g : ScopeId → Eval β}
    {mid : ScopeId → Snapshot past → Prop} {post : β → Snapshot past → Prop}
    (first : Steps complaint none p q w mid)
    (absent : ∀ id w', mid id w' → w.machine.store.scopes.get? id = none)
    (rest : ∀ id w', Later none w w' → mid id w' →
      Steps complaint (some id) (f id) (g id) w' post) :
    Steps complaint none (p >>= f) (q >>= g) w post :=
  first.andThen (fun _ later => later) fun id w' later holds =>
    ⟨some id, rest id w' later holds, fun _ later' => later.fresh later' (absent id w' holds)⟩

theorem bind_get {f g : Machine → Eval β} {post : β → Snapshot past → Prop}
    (rest : Steps complaint may (f w.machine) (g w.machine) w post) :
    Steps complaint may (get >>= f) (get >>= g) w post := rest

theorem attempt {p q : Eval α} {post : α → Snapshot past → Prop}
    (body : Steps complaint may p q w post) :
    Steps complaint may (Eval.attempt p) (Eval.attempt q) w
      fun result w' => ∀ a, result = .ok a → post a w' := by
  obtain ⟨same, outcome⟩ := body
  unfold Steps Eval.attempt
  rw [same]
  refine ⟨rfl, ?_⟩
  match q w.machine, outcome with
  | .ok a m, ⟨w', ends, later, holds⟩ =>
    refine ⟨w', ends, later, ?_⟩
    rintro _ ⟨⟩
    exact holds
  | .error (.error e) m, ⟨w', ends, later⟩ => exact ⟨w', ends, later, nofun⟩
  | .error (.violation v) m, outcome => exact outcome
  | .error .exhausted m, outcome => exact outcome

end Steps

/-- Nothing is said about the end of a run but that it is coherent. -/
def Any (_ : α) (_ : Snapshot past) : Prop := True

/-- The same state with another active scope. -/
def Snapshot.at (w : Snapshot past) (scope : Option ScopeId) : Snapshot past where
  machine := { w.machine with active := scope }
  plan := w.plan
  coherent := by
    have remembers : Remembers w.machine { w.machine with active := scope } :=
      ⟨Nat.le_refl _, fun _ _ => rfl⟩
    refine ⟨w.coherent.planned, w.coherent.names, fun f member => ?_, fun method has => ?_,
      w.coherent.unused⟩
    · obtain ⟨kind, context, r, known, fits⟩ := w.coherent.functions f member
      exact ⟨kind, context, r, known.stays remembers, fits⟩
    · obtain ⟨⟨kind, context, r, known, fits⟩, getter⟩ := w.coherent.methods method has
      exact ⟨⟨kind, context, r, known.stays remembers, fits⟩, getter⟩

theorem Later.at {w w' : Snapshot past} (later : Later may (w.at scope) w') :
    Later may w (w'.at w.machine.active) :=
  ⟨rfl, later.plan, later.scopes, later.remembers.nodes, later.remembers.addresses⟩

theorem Steps.within {p q : Eval α} {w : Snapshot past} (scope : Option ScopeId)
    (body : Steps complaint may p q (w.at scope) Any) :
    Steps complaint may (Eval.within scope p) (Eval.within scope q) w Any := by
  obtain ⟨same, outcome⟩ := body
  unfold Steps Eval.within
  dsimp only
  change p { w.machine with active := scope } = q { w.machine with active := scope } at same
  change Outcome _ _ _ _ (q { w.machine with active := scope }) at outcome
  rw [same]
  refine ⟨rfl, ?_⟩
  match q { w.machine with active := scope }, outcome with
  | .ok a m, ⟨w', ends, later, _⟩ => exact ⟨w'.at w.machine.active, ends ▸ rfl, later.at, trivial⟩
  | .error (.error _) m, ⟨w', ends, later⟩ | .error .exhausted m, ⟨w', ends, later⟩ =>
    exact ⟨w'.at w.machine.active, ends ▸ rfl, later.at⟩
  | .error (.violation v) m, outcome => exact outcome

/-- Two watches of which the one allows what the other allows and is met in this state. -/
theorem Steps.guard {p q : Eval α} {w : Snapshot past} {allows : History}
    {post : α → Snapshot past → Prop} (stricter : allows event w.machine → past event w.machine)
    (body : past event w.machine →
      allows event w.machine ∧ Steps complaint may p q w post) :
    Steps complaint may ((⟨allows, complaint⟩ : Watch).guard event p)
      ((⟨past, complaint⟩ : Watch).guard event q) w post := by
  by_cases happens : past event w.machine
  · obtain ⟨allowed, same, outcome⟩ := body happens
    unfold Steps
    rw [Watch.guard_of_allowed (w := ⟨allows, complaint⟩) allowed,
      Watch.guard_of_allowed (w := ⟨past, complaint⟩) happens]
    exact ⟨same, outcome⟩
  · unfold Steps
    rw [Watch.guard_of_forbidden (w := ⟨allows, complaint⟩) (happens ∘ stricter),
      Watch.guard_of_forbidden (w := ⟨past, complaint⟩) happens]
    exact ⟨rfl, rfl⟩

/-- A change that coherence does not depend on. -/
structure Quiet (m m' : Machine) : Prop where
  active : m'.active = m.active
  scopes : m'.store.scopes = m.store.scopes
  functions : m'.store.functions = m.store.functions
  methods : ∀ method, m'.store.Has method → m.store.Has method
  nextNode : m'.nextNode = m.nextNode
  registry : m'.registry = m.registry

theorem Snapshot.quiet (w : Snapshot past) (quiet : Quiet w.machine m) :
    ∃ w' : Snapshot past, w'.machine = m ∧ Later may w w' := by
  have remembers : Remembers w.machine m :=
    ⟨Nat.le_of_eq quiet.nextNode.symm, fun _ _ => by rw [quiet.registry]⟩
  have grow : w.machine.store.scopes.Grow may m.store.scopes := by
    rw [quiet.scopes]
    exact .refl _
  obtain ⟨w', ends, _, later⟩ := w.next quiet.active List.prefix_rfl grow remembers
    (by rw [quiet.scopes]; exact w.coherent.planned)
    (by rw [quiet.scopes]; exact w.coherent.names)
    (fun f member => .inl (quiet.functions ▸ member))
    (fun method has => .inl (quiet.methods method has))
    (by rw [quiet.nextNode, quiet.registry]; exact w.coherent.unused)
  exact ⟨w', ends, later⟩

theorem Steps.of_modify {w : Snapshot past} {f : Machine → Machine}
    {post : Unit → Snapshot past → Prop}
    (next : ∃ w' : Snapshot past, w'.machine = f w.machine ∧ Later may w w' ∧ post () w') :
    Steps complaint may (modify f) (modify f) w post :=
  .of_ok rfl next

theorem Steps.of_quiet {w : Snapshot past} {f : Machine → Machine}
    (quiet : Quiet w.machine (f w.machine)) : Steps complaint may (modify f) (modify f) w Any := by
  obtain ⟨w', ends, later⟩ := w.quiet quiet
  exact .of_modify ⟨w', ends, later, trivial⟩

section

variable {complaint : Violation} {may : Option ScopeId} {w : Snapshot past}

theorem Quiet.of_store {m m' : Machine} (active : m'.active = m.active) (store : m'.store = m.store)
    (nextNode : m'.nextNode = m.nextNode) (registry : m'.registry = m.registry) : Quiet m m' :=
  ⟨active, by rw [store], by rw [store], fun _ has => store ▸ has, nextNode, registry⟩

theorem report_steps (text : String) :
    Steps complaint may (Eval.report text) (Eval.report text) w Any :=
  .of_quiet (.of_store rfl rfl rfl rfl)

theorem reportWarnings_steps (warnings : List Diagnostic) :
    Steps complaint may (Eval.reportWarnings warnings) (Eval.reportWarnings warnings) w Any := by
  induction warnings generalizing w with
  | nil => exact .pure trivial
  | cons d ds ih => exact (report_steps d.message).bind fun _ _ _ _ => ih

theorem print_steps (line : Nat) (text : String) :
    Steps complaint may (Eval.print line text) (Eval.print line text) w Any := by
  refine .bind_get ((Steps.of_quiet (.of_store rfl rfl rfl rfl)).bind fun _ w' _ _ => ?_)
  split
  · exact .fail ..
  · exact .pure trivial

theorem readClock_steps : Steps complaint may Eval.readClock Eval.readClock w Any :=
  (Steps.of_quiet (.of_store rfl rfl rfl rfl)).bind fun _ _ _ _ => .bind_get (.pure trivial)

theorem readLine_steps (line : Nat) :
    Steps complaint may (Eval.readLine line) (Eval.readLine line) w Any := by
  refine .bind_get ?_
  dsimp only
  split
  · exact .pure trivial
  · refine (Steps.of_quiet (.of_store rfl rfl rfl rfl)).bind fun _ w' _ _ => ?_
    split
    · exact .pure trivial
    · exact .fail ..

theorem remember_steps (path : Path) :
    Steps complaint may (Eval.remember path) (Eval.remember path) w Any := by
  refine .of_quiet ?_
  split
  · exact .of_store rfl rfl rfl rfl
  · exact .of_store rfl rfl rfl rfl

theorem newInstance_steps (descriptor : Descriptor) :
    Steps complaint may (Eval.newInstance descriptor) (Eval.newInstance descriptor) w
      fun _ w' => w'.machine.store.classes = w.machine.store.classes ∧
        w'.machine.store.traits = w.machine.store.traits := by
  obtain ⟨w', ends, later⟩ := w.quiet (m := { w.machine with store :=
    { w.machine.store with instances := w.machine.store.instances.push { descriptor } } })
    ⟨rfl, rfl, rfl, fun _ has => has, rfl, rfl⟩
  exact .of_ok rfl ⟨w', ends, later, ends ▸ rfl, ends ▸ rfl⟩

/-- A field of a class is none of its methods. -/
theorem Store.has_of_setField {s : Store} (has : (s.setField object name value).Has method) :
    s.Has method := by
  unfold Store.setField at has
  split at has
  · exact has
  · obtain ⟨c, member, key, found⟩ | inTrait := has
    · refine .inl ?_
      obtain ⟨position, bound, rfl⟩ := Array.mem_iff_getElem.mp member
      rw [Array.getElem_modify] at found
      rw [Array.size_modify] at bound
      refine ⟨s.classes[position], Array.getElem_mem _, key, ?_⟩
      split at found
      · exact found
      · exact found
    · exact .inr inTrait
  · exact has

theorem setField_steps (object : Value) (name : String) (value : Value) :
    Steps complaint may (Eval.modifyStore (·.setField object name value))
      (Eval.modifyStore (·.setField object name value)) w Any := by
  refine .of_quiet ⟨rfl, ?_, ?_, fun _ => Store.has_of_setField, rfl, rfl⟩
  · unfold Store.setField
    split <;> rfl
  · unfold Store.setField
    split <;> rfl

theorem newFunction_steps (callable : Callable past w.plan w.machine f) :
    Steps complaint may (Eval.newFunction f) (Eval.newFunction f) w Any := by
  obtain ⟨kind, context, r, known, fits⟩ := callable
  let m := { w.machine with store :=
    { w.machine.store with functions := w.machine.store.functions.push f } }
  have remembers : Remembers w.machine m := ⟨Nat.le_refl _, fun _ _ => rfl⟩
  obtain ⟨w', ends, _, later⟩ := w.next (m := m) rfl List.prefix_rfl (.refl _) remembers
    w.coherent.planned w.coherent.names
    (fun g member => by
      obtain old | rfl := Array.mem_push.mp member
      · exact .inl old
      · exact .inr ⟨kind, context, r, known.stays remembers, fits⟩)
    (fun _ has => .inl has) w.coherent.unused
  exact .of_ok rfl ⟨w', ends, later, trivial⟩

/-- What a new method table holds. -/
def Table (past : History) (plan : List (List String)) (m : Machine) (methods : Methods) : Prop :=
  ∀ (name : String) method, methods[name]? = some method →
    Bindable past plan m method.closure ∧
      (method.isGetter = true → method.closure.declaration.params = [])

theorem Table.stays {m m' : Machine} (table : Table past plan m methods)
    (remembers : Remembers m m') (scopes : m'.store.scopes = m.store.scopes) :
    Table past plan m' methods := by
  intro name method found
  obtain ⟨⟨kind, context, r, known, fits⟩, getter⟩ := table name method found
  exact ⟨⟨kind, context, r, known.stays remembers, scopes ▸ fits⟩, getter⟩

theorem newClass_steps {c : Class} (methods : Table past w.plan w.machine c.methods)
    (statics : Table past w.plan w.machine c.statics) :
    Steps complaint may (Eval.newClass c) (Eval.newClass c) w Any := by
  let m := { w.machine with store :=
    { w.machine.store with classes := w.machine.store.classes.push c } }
  have remembers : Remembers w.machine m := ⟨Nat.le_refl _, fun _ _ => rfl⟩
  obtain ⟨w', ends, _, later⟩ := w.next (m := m) rfl List.prefix_rfl (.refl _) remembers
    w.coherent.planned w.coherent.names (fun _ member => .inl member)
    (fun method has => by
      obtain ⟨c', member, name, found⟩ | inTrait := has
      · obtain old | rfl := Array.mem_push.mp member
        · exact .inl (.inl ⟨c', old, name, found⟩)
        · obtain found | found := found
          · exact .inr (methods.stays remembers rfl name method found)
          · exact .inr (statics.stays remembers rfl name method found)
      · exact .inl (.inr inTrait)) w.coherent.unused
  exact .of_ok rfl ⟨w', ends, later, trivial⟩

end

theorem Store.some_of_orElse {a b : Option α} (found : (a <|> b) = some x) :
    a = some x ∨ b = some x := by
  cases a with
  | none => exact .inr found
  | some _ => exact .inl found

theorem Store.has_traitMethod {s : Store} {traits : List TraitId}
    (found : s.traitMethod? traits name = some method) : s.Has method := by
  obtain ⟨id, _, found⟩ := List.exists_of_findSome?_eq_some found
  obtain ⟨t, there, found⟩ := Option.bind_eq_some_iff.mp found
  exact .inr ⟨t, Array.mem_of_getElem? there, name, found⟩

/-- A method that is found is in one of the method tables. -/
theorem Store.has_method {s : Store} {id : ClassId} (found : s.method? name id = some method) :
    s.Has method := by
  fun_induction Store.method? s name id with
  | case1 id absent => cases found
  | case2 id c there ih =>
    obtain own | found := Store.some_of_orElse found
    · exact .inl ⟨c, Array.mem_of_getElem? there, name, .inl own⟩
    obtain mixed | found := Store.some_of_orElse found
    · exact has_traitMethod mixed
    split at found
    · cases found
    · split at found
      · rename_i parent _ older
        exact ih parent older found
      · cases found

theorem Store.has_methodOf {s : Store} {descriptor : Descriptor}
    (found : s.methodOf? name descriptor = some method) : s.Has method := by
  cases descriptor with
  | ofClass id => exact has_method found
  | ofMetaclass id =>
    obtain ⟨c, there, found⟩ := Option.bind_eq_some_iff.mp found
    exact .inl ⟨c, Array.mem_of_getElem? there, name, .inr found⟩

/-- Methods are found in classes and traits alone. -/
theorem Store.method?_congr {s s' : Store} (classes : s'.classes = s.classes)
    (traits : s'.traits = s.traits) (name : String) (id : ClassId) :
    s'.method? name id = s.method? name id := by
  fun_induction Store.method? s name id with
  | case1 id absent =>
    rw [Store.method?, Store.classAt?, classes, show s.classes[id.index]? = none from absent]
  | case2 id c there ih =>
    have mixed : s'.traitMethod? c.traits name = s.traitMethod? c.traits name := by
      unfold Store.traitMethod? Store.traitAt?
      rw [traits]
    rw [Store.method?, Store.classAt?, classes, show s.classes[id.index]? = some c from there]
    dsimp only
    rw [mixed]
    split
    · rfl
    · rename_i parent _
      by_cases older : parent.index < id.index
      · rw [if_pos older, if_pos older, ih parent older]
      · rw [if_neg older, if_neg older]
end Lox
