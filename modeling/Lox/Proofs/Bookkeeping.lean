import Lox.Proofs.LinkedRuns

/-! What a machine keeps about its sources: the numbers and the addresses of references, and the
files that it remembers. Whatever runs, nothing of it is ever taken back. -/

namespace Lox

/-- Only numbers that have been given out have addresses, and no file is remembered twice. -/
structure Machine.Orderly (m : Machine) : Prop where
  unused : ∀ id, m.nextNode ≤ id → m.registry.addresses[id]? = none
  apart : m.loaded.Pairwise fun a b => Path.same a b = false

/-- Numbers are only given out, addresses stay as they are, and files are only remembered. -/
structure Machine.Continues (m m' : Machine) : Prop where
  remembers : Remembers m m'
  loaded : m.loaded <+: m'.loaded

theorem Machine.Continues.refl (m : Machine) : m.Continues m := ⟨.refl m, List.prefix_rfl⟩

theorem Machine.Continues.trans {m m' m'' : Machine} (first : m.Continues m')
    (second : m'.Continues m'') : m.Continues m'' :=
  ⟨first.remembers.trans second.remembers, first.loaded.trans second.loaded⟩

theorem Machine.orderly_fresh (world : World) : (Machine.fresh world).Orderly :=
  ⟨fun _ _ => Std.TreeMap.getElem?_emptyc, .nil⟩

section

variable {m m' : Machine}

/-- The outcome of a step that keeps the books. -/
def Machine.Kept (m m' : Machine) : Prop := m.Orderly → m'.Orderly ∧ m.Continues m'

theorem Machine.Kept.of_same (registry : m'.registry = m.registry)
    (nextNode : m'.nextNode = m.nextNode) (loaded : m'.loaded = m.loaded) : m.Kept m' := by
  intro orderly
  refine ⟨⟨fun id bound => ?_, loaded ▸ orderly.apart⟩, ⟨?_, fun id _ => ?_⟩, ?_⟩
  · rw [registry]
    exact orderly.unused id (nextNode ▸ bound)
  · exact Nat.le_of_eq nextNode.symm
  · rw [registry]
  · exact loaded ▸ List.prefix_rfl

theorem Sourceless.kept {p : Eval α} (sourceless : Sourceless p) (m : Machine) :
    m.Kept (left (p m)) :=
  have untouched := sourceless.untouched m
  .of_same untouched.registry untouched.nextNode (sourceless.loaded m)

/-- Making a source ready gives out numbers, and addresses to some of them. -/
theorem prepare_kept {parser : List Token → NodeId → Except ParseError α × Cursor}
    {pass : Eval.Pass α} {part : α → Part} (reads : Reads parser pass part) (source : String)
    (m : Machine) : m.Kept (left (Eval.prepare parser pass source m)) := by
  have registered {n : NodeId} {registry : Registry} (ordered : m.nextNode ≤ n)
      (kept : ∀ number : NodeId, number < m.nextNode ∨ n ≤ number →
        registry.addresses[number]? = m.registry.addresses[number]?) :
      m.Kept { m with nextNode := n, registry } := fun orderly =>
    ⟨⟨fun id bound => (kept id (.inr bound)).trans (orderly.unused id (Nat.le_trans ordered bound)),
      orderly.apart⟩, ⟨ordered, fun id old => kept id (.inl old)⟩, List.prefix_rfl⟩
  cases scanned : scan source with
  | error e =>
    rw [prepare_unscanned scanned]
    exact .of_same rfl rfl rfl
  | ok tokens =>
    have counted := reads.counts tokens m.nextNode
    cases outcome : parser tokens m.nextNode with
    | mk parsed cursor =>
      rw [outcome] at counted
      cases parsed with
      | error e =>
        rw [prepare_unparsed scanned outcome]
        exact registered counted fun _ _ => rfl
      | ok tree =>
        rw [prepare_parsed scanned outcome, reads.resolves]
        have numbered := (reads.proper scanned outcome).2
        exact registered counted fun number outside =>
          (Site.top (part tree) m.registry).final_kept numbered outside

theorem Path.same_comm (a b : Path) : Path.same a b = Path.same b a :=
  decide_eq_decide.mpr eq_comm

theorem remember_kept (path : Path) (m : Machine) : m.Kept (left (Eval.remember path m)) := by
  change m.Kept (if m.loaded.any (Path.same path) then m
    else { m with loaded := m.loaded ++ [path] })
  split
  · exact .of_same rfl rfl rfl
  · rename_i absent
    rintro ⟨unused, apart⟩
    refine ⟨⟨unused, ?_⟩, ⟨Nat.le_refl _, fun _ _ => rfl⟩, List.prefix_append ..⟩
    rw [List.pairwise_append]
    refine ⟨apart, List.pairwise_singleton .., fun a known b last => ?_⟩
    obtain rfl := List.mem_singleton.mp last
    rw [Path.same_comm]
    exact Bool.eq_false_iff.mpr fun same => absent (List.any_eq_true.mpr ⟨a, known, same⟩)

end

/-- The books have no log. -/
def bookkeeping : Upkeep Empty where
  good := Machine.Orderly
  grows _ := Machine.Continues
  spans _ _ := Machine.Continues
  refl := .refl
  trans first second := first.trans second
  entered _ _ continues := ⟨⟨continues.remembers.nodes, continues.remembers.addresses⟩,
    continues.loaded⟩
  resumed _ orderly _ := ⟨orderly.unused, orderly.apart⟩
  spanned continues := continues

namespace Bookkeeping

/-- Watched or not, the run keeps the books. -/
def Keeps (c : Watched α) : Prop :=
  ∀ m, bookkeeping.Keeps (fun _ _ => True) c m fun _ _ _ => True

theorem keeps_const {p : Eval α} (kept : ∀ m : Machine, m.Kept (left (p m))) :
    Keeps fun _ => p := by
  intro m
  refine .step [] fun orderly => ?_
  obtain ⟨orderly', continues⟩ := kept m orderly
  cases ran : p m with
  | ok a m' =>
    rw [ran] at orderly' continues
    exact ⟨orderly', continues, trivial⟩
  | error halt m' =>
    rw [ran] at orderly' continues
    exact ⟨orderly', continues⟩

theorem Keeps.bind {c : Watched α} {f : Option Watch → α → Eval β} (first : Keeps c)
    (later : ∀ a, Keeps fun i => f i a) : Keeps fun i => c i >>= f i :=
  fun m => (first m).bind fun a m' _ _ => later a m'

theorem Keeps.attempt {c : Watched α} (body : Keeps c) : Keeps fun i => Eval.attempt (c i) :=
  fun m => (body m).attempt.mono fun _ _ _ _ _ => trivial

def congruence : Congruence (Option Watch) where
  holds := Keeps
  step sourceless := keeps_const sourceless.kept
  bind := Keeps.bind
  within scope body _ := .within scope (fun orderly => ⟨orderly.unused, orderly.apart⟩) (body _)
  attempt := Keeps.attempt

instance : congruence.Supplied fun _ => .plain where
  program source := keeps_const (prepare_kept reads_program source)
  expression source := keeps_const (prepare_kept reads_expression source)
  remember path := keeps_const (remember_kept path)
  remembered := keeps_const fun _ => .of_same rfl rfl rfl
  report _ := keeps_const fun _ => .of_same rfl rfl rfl

theorem Keeps.guard {c : Watched α} (event : Event) (body : Keeps c) :
    Keeps (c.guarded event) :=
  fun m => .guard event (fun _ ends => ends.left.2) fun _ => body m

theorem engineOf_related (depth : Nat) : congruence.Relates (Watched.engineOf depth) depth := by
  have reads (depth r) : Keeps fun i => (Watched.engineOf depth i).read r := by
    rw [Watched.engineOf_read]
    exact (keeps_const (Sourceless.readVariable r).kept).guard _
  have writes (depth r v) : Keeps fun i => (Watched.engineOf depth i).write r v := by
    rw [Watched.engineOf_write]
    exact (keeps_const (Sourceless.writeVariable r v).kept).guard _
  have binds (depth f v) : Keeps fun i => (Watched.engineOf depth i).bind f v := by
    rw [Watched.engineOf_bind]
    exact (keeps_const (Sourceless.bindThis f v).kept).guard _
  have enters (depth f vs) : Keeps fun i => (Watched.engineOf depth i).enter f vs := by
    rw [Watched.engineOf_enter]
    exact (keeps_const (Sourceless.enterFunction f vs).kept).guard _
  induction depth with
  | zero =>
    refine ⟨fun e => ?_, fun s => ?_, reads 0, writes 0, binds 0, enters 0,
      fun i => by cases i <;> rfl⟩
    · rw [Watched.engineOf_evaluate_zero]
      exact congruence.step .exhausted
    · rw [Watched.engineOf_execute_zero]
      exact congruence.step .exhausted
  | succ depth ih =>
    refine ⟨fun e => ?_, fun s => ?_, reads _, writes _, binds _, enters _,
      fun i => by cases i <;> rfl⟩
    · rw [Watched.engineOf_evaluate]
      exact Keeps.guard _ (ih.evaluateRule e)
    · rw [Watched.engineOf_execute]
      exact Keeps.guard _ (ih.executeRule s)

theorem session (depth : Nat) (steps : List HostStep) :
    Keeps fun i => (Watched.engineOf depth i).session steps :=
  (engineOf_related depth).session (fun _ => keeps_const fun _ => .of_same rfl rfl rfl) steps

/-- A run that is not watched. -/
theorem Keeps.left {c : Watched α} (keeps : Keeps c) (m : Machine) : m.Kept (left (c none m)) :=
  fun orderly => by
    obtain ⟨_, ends, -⟩ := keeps m orderly fun _ _ _ => trivial
    exact ends.left

end Bookkeeping

/-- A session keeps the books from any state that it comes to. -/
theorem Reached.continues (reached : Reached depth world steps m) :
    m.Orderly ∧ m.Continues (left ((engine depth).session steps (.fresh world))) := by
  obtain ⟨orderly, _, continues⟩ :=
    bookkeeping.reached (Machine.orderly_fresh world) (Bookkeeping.session depth) reached
  exact ⟨orderly, continues⟩

end Lox
