import Lox.Proofs.Bookkeeping
import Lox.Proofs.LoadedScripts

/-! The files that a machine remembers. They are those that have been read, in the order of their
first readings: a machine that noted every reading, repeated ones included, would do the same and
have these files in its notes. -/

namespace Lox

/-- Paths without those that are the same as one before them. -/
def firsts : List Path → List Path
  | [] => []
  | path :: paths => path :: (firsts paths).filter fun other => !Path.same path other

theorem Path.same_of_same {a b c : Path} (first : Path.same a b = true)
    (second : Path.same b c = true) : Path.same a c = true := by
  unfold Path.same at *
  exact decide_eq_true ((of_decide_eq_true first).trans (of_decide_eq_true second))

theorem firsts_concat (paths : List Path) (path : Path) :
    firsts (paths ++ [path]) =
      if (firsts paths).any (Path.same path) then firsts paths else firsts paths ++ [path] := by
  induction paths with
  | nil => rfl
  | cons first rest ih =>
    change first :: (firsts (rest ++ [path])).filter _ = _
    rw [ih]
    cases near : Path.same first path with
    | true =>
      -- Whether or not the path occurs later on, it is the same as the first one.
      have known : (firsts (first :: rest)).any (Path.same path) = true := by
        simp [firsts, Path.same_comm path first, near]
      rw [if_pos known]
      split <;> simp [firsts, near]
    | false =>
      have apart (other : Path) (same : Path.same path other = true) :
          Path.same first other = false := by
        refine Bool.eq_false_iff.mpr fun alike => ?_
        rw [Path.same_comm] at same
        exact Bool.false_ne_true (near.symm.trans (Path.same_of_same alike same))
      have known : (firsts (first :: rest)).any (Path.same path) =
          (firsts rest).any (Path.same path) := by
        rw [Bool.eq_iff_iff]
        simp only [firsts, List.any_cons, Path.same_comm path first, near, Bool.false_or,
          List.any_eq_true, List.mem_filter, Bool.not_eq_true']
        exact ⟨fun ⟨other, found, same⟩ => ⟨other, found.1, same⟩,
          fun ⟨other, found, same⟩ => ⟨other, ⟨found, apart other same⟩, same⟩⟩
      rw [known]
      split <;> simp [firsts, near]

/-- Every file that is read is noted, and the first readings are recalled. -/
def Supply.noting : Supply :=
  { Supply.plain with
    remember := fun path => modify fun m => { m with loaded := m.loaded ++ [path] }
    remembered := do return firsts (← get).loaded }

/-- Where the second of two runs starts with the first readings in the notes of the first, both do
the same, and the second ends with the first readings in the notes of the first. -/
def Noted (p q : Eval α) : Prop :=
  ∀ (m : Machine) notes, m.loaded = firsts notes →
    ∃ notes', p (m.recalling notes) = recalling notes' (q m) ∧
      (left (q m)).loaded = firsts notes'

namespace Noted

/-- A step that does not depend on the files that are remembered. -/
theorem of_blind {p : Eval α}
    (blind : ∀ (m : Machine) paths, p (m.recalling paths) = recalling paths (p m)) :
    Noted p p := by
  intro m notes same
  refine ⟨notes, blind m notes, ?_⟩
  have kept : p m = recalling m.loaded (p m) := blind m m.loaded
  rw [kept, ← same]
  cases p m <;> rfl

theorem bind {p q : Eval α} {f g : α → Eval β} (first : Noted p q)
    (later : ∀ a, Noted (f a) (g a)) : Noted (p >>= f) (q >>= g) := by
  intro m notes same
  obtain ⟨notes', run, ends⟩ := first m notes same
  cases ran : q m with
  | ok a m' =>
    rw [ran] at run ends
    obtain ⟨notes'', run', ends'⟩ := later a m' notes' ends
    rw [Eval.bind_of_ok run, Eval.bind_of_ok ran]
    exact ⟨notes'', run', ends'⟩
  | error halt m' =>
    rw [ran] at run ends
    rw [Eval.bind_of_error run, Eval.bind_of_error ran]
    exact ⟨notes', rfl, ends⟩

theorem within {p q : Eval α} (scope : Option ScopeId) (body : Noted p q) :
    Noted (Eval.within scope p) (Eval.within scope q) := by
  intro m notes same
  obtain ⟨notes', run, ends⟩ := body { m with active := scope } notes same
  refine ⟨notes', ?_, ?_⟩
  · change p { m.recalling notes with active := scope } = _ at run
    unfold Eval.within
    dsimp only
    rw [run]
    cases q { m with active := scope } <;> rfl
  · rw [left_within]
    exact ends

theorem attempt {p q : Eval α} (body : Noted p q) : Noted (Eval.attempt p) (Eval.attempt q) := by
  intro m notes same
  obtain ⟨notes', run, ends⟩ := body m notes same
  refine ⟨notes', ?_, ?_⟩
  · unfold Eval.attempt
    rw [run]
    cases q m with
    | ok a n => rfl
    | error halt n => cases halt <;> rfl
  · rw [left_attempt]
    exact ends

/-- The run that takes notes is the first of the two. -/
def congruence : Congruence Bool where
  holds p := Noted (p true) (p false)
  step sourceless := .of_blind sourceless.blind
  bind := bind
  within := within
  attempt := attempt

theorem prepare_blind (parser : List Token → NodeId → Except ParseError α × Cursor)
    (pass : Eval.Pass α) (source : String) (m : Machine) (paths : List Path) :
    Eval.prepare parser pass source (m.recalling paths) =
      recalling paths (Eval.prepare parser pass source m) := by
  cases scanned : scan source with
  | error e =>
    rw [prepare_unscanned scanned, prepare_unscanned scanned]
    rfl
  | ok tokens =>
    cases outcome : parser tokens m.nextNode with
    | mk parsed cursor =>
      have outcome' : parser tokens (m.recalling paths).nextNode = (parsed, cursor) := outcome
      cases parsed with
      | error e =>
        rw [prepare_unparsed scanned outcome, prepare_unparsed scanned outcome']
        rfl
      | ok tree =>
        rw [prepare_parsed scanned outcome, prepare_parsed scanned outcome']
        rfl

/-- A file is noted and remembered. -/
theorem remember (path : Path) :
    Noted (Supply.noting.remember path) (Supply.plain.remember path) := by
  intro m notes same
  refine ⟨notes ++ [path], ?_, ?_⟩
  · change EStateM.Result.ok () (m.recalling (notes ++ [path])) =
      .ok () ((m.remembering path).recalling (notes ++ [path]))
    unfold Machine.remembering
    split <;> rfl
  · change (m.remembering path).loaded = _
    rw [firsts_concat, ← same]
    unfold Machine.remembering
    split <;> rfl

/-- What is recalled from the notes is what is remembered. -/
theorem remembered : Noted Supply.noting.remembered Supply.plain.remembered := by
  intro m notes same
  refine ⟨notes, ?_, same⟩
  change EStateM.Result.ok (firsts notes) (m.recalling notes) = .ok m.loaded (m.recalling notes)
  rw [same]

instance : congruence.Supplied fun i => cond i .noting .plain where
  program source := .of_blind (prepare_blind parse resolve source)
  expression source := .of_blind (prepare_blind parseExpression resolveExpression source)
  remember := remember
  remembered := remembered
  report _ := .of_blind fun _ _ => rfl

/-- A machine that takes notes takes the same course as one that does not. -/
theorem session (depth : Nat) (world : World) (steps : List HostStep) :
    ∃ notes, (engineFrom .noting depth).sessionFrom .noting steps (.fresh world) =
        recalling notes ((engine depth).session steps (.fresh world)) ∧
      (left ((engine depth).session steps (.fresh world))).loaded = firsts notes := by
  have related := congruence.engineFrom (fun i => cond i .noting .plain) depth
  have noted : Noted ((engineFrom .noting depth).sessionFrom .noting steps)
      ((engineFrom .plain depth).sessionFrom .plain steps) :=
    related.sessionFrom (S := fun i => cond i .noting .plain)
      (fun _ => .of_blind fun _ _ => rfl) steps
  rw [engineFrom_plain, Engine.sessionFrom_plain] at noted
  exact noted (.fresh world) [] rfl

end Noted

/-- What becomes of files that a program loads one after the other: each is loaded in the state that
the one before it has left, as long as there is one. -/
inductive Engine.LoadsAll (E : Engine) (line : Nat) :
    List Path → Machine → EStateM.Result Halt Machine Unit → Prop where
  | done : LoadsAll E line [] m (.ok () m)
  | next (loads : E.Loads line path m (.ok () m')) (rest : LoadsAll E line paths m' r) :
      LoadsAll E line (path :: paths) m r
  | stopped (loads : E.Loads line path m (.error halt m')) :
      LoadsAll E line (path :: paths) m (.error halt m')

namespace Engine

theorem loadAll_loads (E : Engine) (line : Nat) (paths : List Path) (m : Machine) :
    E.LoadsAll line paths m (E.loadAll line paths m) := by
  induction paths generalizing m with
  | nil => exact .done
  | cons path paths ih =>
    have loads := E.load_loads line path m
    cases ran : E.load line path m with
    | ok value m' =>
      rw [ran] at loads
      have run : E.loadAll line (path :: paths) m = E.loadAll line paths m' := Eval.bind_of_ok ran
      rw [run]
      exact .next loads (ih m')
    | error halt m' =>
      rw [ran] at loads
      have run : E.loadAll line (path :: paths) m = .error halt m' := Eval.bind_of_error ran
      rw [run]
      exact .stopped loads

/-- Loading ends early only at a file that cannot be read. -/
theorem LoadsAll.stopped_at {E : Engine} {m m' : Machine}
    (loads : E.LoadsAll line paths m (.error (.error e) m')) :
    ∃ before path after fault, paths = before ++ path :: after ∧
      E.LoadsAll line before m (.ok () m') ∧ m'.world.disk.readText path = .error fault ∧
      e = ⟨line, .unreadable path fault⟩ := by
  generalize ended : EStateM.Result.error (Halt.error e) m' = r at loads
  induction loads with
  | done => cases ended
  | next first _ ih =>
    obtain ⟨before, path, after, fault, rfl, loads, unreadable⟩ := ih ended
    exact ⟨_ :: before, path, after, fault, rfl, .next first loads, unreadable⟩
  | stopped loads =>
    cases ended
    obtain ⟨fault, unreadable, rfl, rfl⟩ := loads.error_iff.mp rfl
    exact ⟨[], _, _, fault, rfl, .done, unreadable, rfl⟩

theorem callNative_reload (E : Engine) (line : Nat) (m : Machine) :
    E.callNative .reload line [] m = giving .nil (E.loadAll line m.loaded m) := by
  change EStateM.bind (E.loadAll line m.loaded) (fun _ => pure Value.nil) m = _
  unfold EStateM.bind
  cases E.loadAll line m.loaded m <;> rfl

end Engine

/-- A session remembers the files that have been read, in the order of their first readings and
whatever came of them: a machine that notes all readings takes the same course. The files that are
remembered stay, and no two are the same. To reload is to run those that are remembered when it
starts, one after the other, up to one that cannot be read. -/
theorem loaded_files_are_first_readings (depth : Nat) :
    (∀ world steps, ∃ notes,
      (engineFrom .noting depth).sessionFrom .noting steps (.fresh world) =
        recalling notes ((engine depth).session steps (.fresh world)) ∧
      (left ((engine depth).session steps (.fresh world))).loaded = firsts notes) ∧
    (∀ steps, (engineFrom .plain depth).sessionFrom .plain steps = (engine depth).session steps) ∧
    (∀ world steps m, Reached depth world steps m →
      m.loaded <+: (left ((engine depth).session steps (.fresh world))).loaded ∧
      m.loaded.Pairwise fun a b => Path.same a b = false) ∧
    (∀ callee paren m m', evaluate depth callee m = .ok (.native .reload) m' →
      ∃ r, (engine depth).LoadsAll paren.line m'.loaded m' r ∧
        evaluate (depth + 1) (.call callee paren []) m = Engine.giving .nil r ∧
        ∀ e n, r = .error (.error e) n → ∃ before path after fault,
          m'.loaded = before ++ path :: after ∧
          (engine depth).LoadsAll paren.line before m' (.ok () n) ∧
          n.world.disk.readText path = .error fault ∧
          e = ⟨paren.line, .unreadable path fault⟩) := by
  refine ⟨Noted.session depth, fun steps => ?_, fun world steps m reached => ?_,
    fun callee paren m m' named => ?_⟩
  · rw [engineFrom_plain, Engine.sessionFrom_plain]
  · obtain ⟨orderly, continues⟩ := reached.continues
    exact ⟨continues.loaded, orderly.apart⟩
  · refine ⟨_, (engine depth).loadAll_loads paren.line m'.loaded m', ?_, fun e n failed => ?_⟩
    · have given : (engine depth).evaluateAll [] m' = .ok [] m' := rfl
      exact (Engine.evaluateRule_call (E := engine depth) named given).trans
        ((engine depth).callNative_reload paren.line m')
    · have loads := (engine depth).loadAll_loads paren.line m'.loaded m'
      rw [failed] at loads
      exact loads.stopped_at

/-- A machine that has lost the second of the two files it remembers. -/
def secondFileGone : Machine :=
  { Machine.fresh { disk := (Disk.mk []).insert "a" (.file "print 1;".toUTF8.data.toList) } with
    loaded := ["a", "b"] }

/-- A call of `reload` at line 5. -/
def reloadCall : Expr := .call (.varRef ⟨0, ⟨.identifier, "reload", 5⟩⟩) ⟨.rightParen, ")", 5⟩ []

theorem secondFileGone_reload :
    (∃ r, (engine 2).LoadsAll 5 ["a", "b"] secondFileGone r ∧
      evaluate 3 reloadCall secondFileGone = Engine.giving .nil r ∧
      ∀ e n, r = .error (.error e) n → ∃ before path after fault,
        ["a", "b"] = before ++ path :: after ∧
        (engine 2).LoadsAll 5 before secondFileGone (.ok () n) ∧
        n.world.disk.readText path = .error fault ∧ e = ⟨5, .unreadable path fault⟩) ∧
    Reached 2 {} [.runFile "a"] (.fresh {}) ∧
    [] <+: (left ((engine 2).session [.runFile "a"] (.fresh {}))).loaded := by
  obtain ⟨-, -, states, reloads⟩ := loaded_files_are_first_readings 2
  have reached : Reached 2 {} [.runFile "a"] (left ((engine 2).session [] (.fresh {}))) :=
    .between (List.nil_append _)
  exact ⟨reloads _ ⟨.rightParen, ")", 5⟩ secondFileGone secondFileGone rfl, reached,
    (states {} [.runFile "a"] _ reached).1⟩

end Lox
