import Lox.Proofs.AcceptedSources
import Lox.Proofs.CoherentRuns
import Lox.Proofs.ConfinedRuns
import Lox.Proofs.FailingSteps

/-! Scripts that a program loads. All that the program sees of a script is whether its file can be
read: whatever else becomes of it is reported, and the program goes on. -/

namespace Lox

/-- Only an error of the program is caught. -/
theorem Eval.attempt_halts {body : Eval α} {m n : Machine} (ran : body m = .error halt n)
    (noError : ∀ e, halt ≠ .error e) : Eval.attempt body m = .error halt n := by
  unfold Eval.attempt
  rw [ran]
  cases halt with
  | error e => exact (noError e rfl).elim
  | violation v => rfl
  | exhausted => rfl

/-- A source is rejected or accepted. -/
theorem Machine.rejects_or_accepts (source : String) (m : Machine) :
    (∃ failure m', Eval.prepare parse resolve source m = .ok (.error failure) m' ∧
      failure.isStatic = true) ∨
    ∃ program warnings next known, m.Accepts source program warnings next known := by
  cases scanned : scan source with
  | error e => exact .inl ⟨_, _, prepare_unscanned scanned, rfl⟩
  | ok tokens =>
    cases outcome : parse tokens m.nextNode with
    | mk parsed cursor =>
      cases parsed with
      | error e => exact .inl ⟨_, _, prepare_unparsed scanned outcome, rfl⟩
      | ok program =>
        have prepared : Eval.prepare parse resolve source m = _ := prepare_parsed scanned outcome
        cases verdict : (resolve program m.registry).1 with
        | ok warnings =>
          exact .inr ⟨program, warnings, _, _, .of scanned outcome (Prod.ext verdict rfl)⟩
        | error diagnostics =>
          rw [verdict] at prepared
          exact .inl ⟨_, _, prepared, rfl⟩

section

variable {E : Engine} {m n : Machine}

/-- A program that has no outcome leaves its source without one. -/
theorem Machine.Accepts.runSource_endless
    (accepts : m.Accepts source program warnings next known)
    (ran : E.interpret program (m.ready warnings next known) = .error halt n)
    (noError : ∀ e, halt ≠ .error e) :
    E.runSource source m = .error halt { n with active := m.active } := by
  obtain ⟨scanned, parsed, resolved⟩ := accepts
  have prepared : Eval.prepare parse resolve source m = _ := prepare_parsed scanned parsed
  rw [resolved] at prepared
  refine (Eval.bind_of_ok prepared).trans
    ((Eval.bind_of_ok (reportWarnings_eq warnings _)).trans ?_)
  apply Eval.bind_of_error
  apply Eval.bind_of_error
  exact Eval.attempt_halts (Eval.within_eq_error.mpr ⟨n, ran, rfl⟩) noError

/-- A source leaves the state behind that its program leaves behind, at the scope of its caller. -/
theorem Machine.Accepts.left_runSource (accepts : m.Accepts source program warnings next known) :
    left (E.runSource source m) =
      { left (E.interpret program (m.ready warnings next known)) with active := m.active } := by
  cases ran : E.interpret program (m.ready warnings next known) with
  | ok a n => rw [accepts.runSource_iff.mpr ⟨_, _, .ok ran, rfl, rfl⟩]; rfl
  | error halt n =>
    cases halt with
    | error e => rw [accepts.runSource_iff.mpr ⟨_, _, .error ran, rfl, rfl⟩]; rfl
    | violation v => rw [accepts.runSource_endless ran nofun]; rfl
    | exhausted => rw [accepts.runSource_endless ran nofun]; rfl

end

namespace Machine

/-- The file is remembered. -/
def remembering (path : Path) (m : Machine) : Machine :=
  if m.loaded.any (Path.same path) then m else { m with loaded := m.loaded ++ [path] }

/-- The text has been sent to the diagnostic sink. -/
def sending (text : String) (m : Machine) : Machine :=
  { m with world := { m.world with err := m.world.err.write text } }

theorem remembering_world (path : Path) (m : Machine) : (m.remembering path).world = m.world := by
  unfold remembering
  split <;> rfl

theorem remembering_active (path : Path) (m : Machine) :
    (m.remembering path).active = m.active := by
  unfold remembering
  split <;> rfl

end Machine

/-- What becomes of a file that a program loads. -/
inductive Engine.Loads (E : Engine) (line : Nat) (path : Path) (m : Machine) :
    EStateM.Result Halt Machine Unit → Prop where
  /-- The file cannot be read, and nothing has happened. -/
  | unreadable (read : m.world.disk.readText path = .error fault) :
      Loads E line path m (.error (.error ⟨line, .unreadable path fault⟩) m)
  /-- The script does not start. Until this is reported, nothing but numbers and the registry has
  changed. -/
  | rejected (read : m.world.disk.readText path = .ok source)
      {failure : Failure} (static : failure.isStatic = true)
      (prepared : Eval.prepare parse resolve source (m.remembering path) = .ok (.error failure) m')
      (rest : m' = { m.remembering path with registry := m'.registry, nextNode := m'.nextNode }) :
      Loads E line path m (.ok () (m'.sending (failure.message ++ "\n")))
  /-- The script runs to its end. -/
  | ended (read : m.world.disk.readText path = .ok source)
      (accepts : (m.remembering path).Accepts source program warnings next known)
      (ran : E.interpret program ((m.remembering path).ready warnings next known) = .ok () n) :
      Loads E line path m (.ok () { n with active := m.active })
  /-- The script fails with an error, which is reported. -/
  | failed (read : m.world.disk.readText path = .ok source)
      (accepts : (m.remembering path).Accepts source program warnings next known)
      (ran : E.interpret program ((m.remembering path).ready warnings next known) =
        .error (.error e) n) :
      Loads E line path m
        (.ok () (Machine.sending (e.message ++ "\n") { n with active := m.active }))
  /-- The script has no outcome. -/
  | endless (read : m.world.disk.readText path = .ok source)
      (accepts : (m.remembering path).Accepts source program warnings next known)
      (ran : E.interpret program ((m.remembering path).ready warnings next known) = .error halt n)
      (noError : ∀ e, halt ≠ .error e) :
      Loads E line path m (.error halt { n with active := m.active })

namespace Engine

variable {E : Engine} {m m' : Machine}

theorem runFile_unreadable (read : m.world.disk.readText path = .error fault) :
    E.runFile path m = .ok (.error (.unreadable fault)) m := by
  unfold Engine.runFile
  rw [Eval.bind_get, read]
  rfl

theorem runFile_read (read : m.world.disk.readText path = .ok source) :
    E.runFile path m = E.runSource source (m.remembering path) := by
  unfold Engine.runFile
  rw [Eval.bind_get, read]
  rfl

/-- Whatever fails after the file has been read is reported. -/
theorem load_of_failure {failure : Failure} (begun : ∀ fault, failure ≠ .unreadable fault)
    (ran : E.runFile path m = .ok (.error failure) m') :
    E.load line path m = .ok () (m'.sending (failure.message ++ "\n")) := by
  refine (Eval.bind_of_ok ran).trans ?_
  cases failure with
  | unreadable fault => exact (begun fault rfl).elim
  | lex | parse | resolve | runtime => rfl

theorem load_loads (E : Engine) (line : Nat) (path : Path) (m : Machine) :
    E.Loads line path m (E.load line path m) := by
  cases read : m.world.disk.readText path with
  | error fault =>
    have failed : E.load line path m = .error (.error ⟨line, .unreadable path fault⟩) m :=
      Eval.bind_of_ok (runFile_unreadable read)
    rw [failed]
    exact .unreadable read
  | ok source =>
    have file := runFile_read read (E := E)
    have outer := m.remembering_active path
    obtain ⟨failure, m', prepared, static⟩ | ⟨program, warnings, next, known, accepts⟩ :=
      (m.remembering path).rejects_or_accepts source
    · have ran : E.runFile path m = .ok (.error failure) m' :=
        file.trans (Eval.bind_of_ok prepared)
      rw [load_of_failure (fun fault same => by cases same; cases static) ran]
      refine .rejected read static prepared ?_
      exact (rejected_of_prepare reads_program resolve_registers prepared).rest
    · cases ran : E.interpret program ((m.remembering path).ready warnings next known) with
      | ok a n =>
        have ends : E.load line path m = .ok () _ := Eval.bind_of_ok
          (file.trans (accepts.runSource_iff.mpr ⟨_, _, .ok ran, rfl, rfl⟩))
        rw [ends, outer]
        exact .ended read accepts ran
      | error halt n =>
        by_cases error : ∃ e, halt = .error e
        · obtain ⟨e, rfl⟩ := error
          have failed : E.runFile path m = .ok (.error (.runtime e)) _ :=
            file.trans (accepts.runSource_iff.mpr ⟨_, _, .error ran, rfl, rfl⟩)
          rw [load_of_failure (fun _ same => by cases same) failed, outer]
          exact .failed read accepts ran
        · have noError := not_exists.mp error
          have ends : E.load line path m = .error halt _ := Eval.bind_of_error
            (file.trans (accepts.runSource_endless ran noError))
          rw [ends, outer]
          exact .endless read accepts ran noError

/-- The only error that a program sees is that the file cannot be read. -/
theorem Loads.error_iff (loads : E.Loads line path m r) :
    r = .error (.error e) m' ↔ ∃ fault, m.world.disk.readText path = .error fault ∧
      e = ⟨line, .unreadable path fault⟩ ∧ m' = m := by
  constructor
  · rintro rfl
    cases loads with
    | unreadable read => exact ⟨_, read, rfl, rfl⟩
    | endless _ _ _ noError => exact (noError e rfl).elim
  · rintro ⟨fault, missing, rfl, rfl⟩
    cases loads with
    | unreadable read =>
      cases read.symm.trans missing
      rfl
    | rejected read | ended read | failed read | endless read => cases read.symm.trans missing

/-- A program that loads a file sees no signal. -/
theorem Loads.silent (loads : E.Loads line path m (.error halt m')) : halt.signal? = none := by
  cases loads with
  | unreadable read => rfl
  | endless _ _ _ noError =>
    cases halt with
    | error e => exact (noError e rfl).elim
    | violation v => rfl
    | exhausted => rfl

/-- The outcome of a call that gives the value when it has run. -/
def giving (value : Value) :
    EStateM.Result Halt Machine Unit → EStateM.Result Halt Machine Value
  | .ok () m => .ok value m
  | .error halt m => .error halt m

theorem giving_eq_error : giving value r = .error halt m ↔ r = .error halt m := by
  cases r <;> simp [giving]

theorem callNative_loadFile (E : Engine) (line : Nat) (path : Path) (m : Machine) :
    E.callNative .loadFile line [.string path] m = giving .nil (E.load line path m) := by
  change EStateM.bind (E.load line path) (fun _ => pure Value.nil) m = _
  unfold EStateM.bind
  cases E.load line path m <;> rfl

theorem evaluateRule_call {m₁ m₂ : Machine} (named : E.evaluate callee m = .ok f m₁)
    (given : E.evaluateAll arguments m₁ = .ok values m₂) :
    E.evaluateRule (.call callee paren arguments) m = E.call f paren.line values m₂ :=
  (Eval.bind_of_ok named).trans (Eval.bind_of_ok given)

end Engine

/-- Nothing is written to the diagnostic sink. -/
def Discreet (p : Unit → Eval α) : Prop := ∀ m, (left (p () m)).world.err = m.world.err

namespace Discreet

theorem bind {p : Unit → Eval α} {f : Unit → α → Eval β} (first : Discreet p)
    (later : ∀ a, Discreet fun i => f i a) : Discreet fun i => p i >>= f i := by
  intro m
  have before := first m
  change (left (EStateM.bind (p ()) (f ()) m)).world.err = _
  unfold EStateM.bind
  cases ran : p () m with
  | ok a m₁ =>
    rw [ran] at before
    exact (later a m₁).trans before
  | error halt m₁ =>
    rw [ran] at before
    exact before

def congruence : Congruence Unit where
  holds := Discreet
  step sourceless m := (sourceless.untouched m).err
  bind := bind
  within {_ p} scope body m := by
    rw [left_within]
    exact body { m with active := scope }
  attempt {_ p} body m := by
    rw [left_attempt]
    exact body m

end Discreet

/-- A program that runs no other source reports nothing but the warnings about it. -/
theorem Machine.Accepts.err_eq (accepts : m.Accepts source program warnings next known)
    (contained : SelfContained depth source m) :
    (left ((engine depth).interpret program (m.ready warnings next known))).world.err =
      m.world.err.reporting warnings := by
  have alone := (Discreet.congruence.confined depth).interpret program (m.ready warnings next known)
  have same := congrArg left contained
  rw [accepts.left_runSource, accepts.left_runSource] at same
  exact (congrArg (fun n => n.world.err) same).symm.trans alone

/-- A program that loads a file sees nothing of the script in it. The call fails only if the file
cannot be read, and then nothing else has happened. Otherwise it gives nil, after what went wrong
has been reported, once. No signal comes out of it, and in a session nothing goes wrong inside the
machine. -/
theorem loaded_script_cannot_raise (depth : Nat) (paren : Token) {m m₁ m₂ : Machine}
    (named : evaluate depth callee m = .ok (.native .loadFile) m₁)
    (given : (engine depth).evaluateAll arguments m₁ = .ok [.string path] m₂) :
    (∃ r, (engine depth).Loads paren.line path m₂ r ∧
      evaluate (depth + 1) (.call callee paren arguments) m = Engine.giving .nil r) ∧
    (∀ e m', evaluate (depth + 1) (.call callee paren arguments) m = .error (.error e) m' ↔
      ∃ fault, m₂.world.disk.readText path = .error fault ∧
        e = ⟨paren.line, .unreadable path fault⟩ ∧ m' = m₂) ∧
    (∀ halt m', evaluate (depth + 1) (.call callee paren arguments) m = .error halt m' →
      halt.signal? = none) ∧
    (∀ source program warnings next known, m₂.world.disk.readText path = .ok source →
      (m₂.remembering path).Accepts source program warnings next known →
      SelfContained depth source (m₂.remembering path) →
      (left ((engine depth).interpret program
        ((m₂.remembering path).ready warnings next known))).world.err =
          m₂.world.err.reporting warnings) ∧
    (∀ depth' world steps, Happens depth' world steps (.evaluate (.call callee paren arguments)) m →
      ∀ v m', evaluate (depth + 1) (.call callee paren arguments) m ≠ .error (.violation v) m') := by
  have loads := (engine depth).load_loads paren.line path m₂
  have call : evaluate (depth + 1) (.call callee paren arguments) m =
      Engine.giving .nil ((engine depth).load paren.line path m₂) :=
    (Engine.evaluateRule_call (E := engine depth) named given).trans
      (Engine.callNative_loadFile (engine depth) paren.line path m₂)
  refine ⟨⟨_, loads, call⟩, fun e m' => ?_, fun halt m' failed => ?_,
    fun source program warnings next known read accepts contained => ?_,
    fun depth' world steps happens v m' => ?_⟩
  · rw [call, Engine.giving_eq_error]
    exact loads.error_iff
  · rw [call, Engine.giving_eq_error] at failed
    rw [failed] at loads
    exact loads.silent
  · rw [accepts.err_eq contained, m₂.remembering_world path]
  · obtain ⟨w, -, outcome⟩ := happens.placed.evaluates (depth + 1)
    exact Outcome.not_violation outcome

/-- A function that breaks out of a loop it has outlived. -/
def strayBreak : String :=
  "var g; while (true) \x7b fun f() \x7b break; \x7d g = f; break; \x7d g();"

/-- A machine beside a file with this script. -/
def besideStrayBreak : Machine :=
  .fresh { disk := (Disk.mk []).insert "a" (.file strayBreak.toUTF8.data.toList) }

theorem Disk.readText_of_content {d : Disk} (located : d.locate path = .ok place)
    (stored : d.content place = .ok bytes) (decoded : Text.Utf8.decode? bytes = some text) :
    d.readText path = .ok text := by
  have read : d.readBytes path = .ok bytes := by
    unfold readBytes
    rw [located]
    exact stored
  unfold readText
  rw [read]
  dsimp only [bind, Except.bind]
  rw [decoded]
  rfl

theorem besideStrayBreak_read : besideStrayBreak.world.disk.readText "a" = .ok strayBreak := by
  have split : Path.split "a" = ["a"] := by
    change String.splitOnAux "a" "/" 0 0 0 [] = _
    rw [String.splitOnAux, if_neg (by decide +kernel), if_neg (by decide +kernel),
      String.splitOnAux]
    decide +kernel
  have stored : besideStrayBreak.world.disk =
      ⟨[(["a"], .file strayBreak.toUTF8.data.toList)]⟩ := by
    change Disk.insert _ _ _ = _
    unfold Disk.insert Place.ofPath
    rw [split]
    rfl
  have located : besideStrayBreak.world.disk.locate "a" = .ok ["a"] := by
    change Disk.walk _ [] (Path.split "a") = _
    rw [stored, split]
    rfl
  rw [stored] at located ⊢
  exact Disk.readText_of_content located rfl (by decide +kernel)

/-- A call of `loadFile` at line 3. -/
def loadsStrayBreak : Expr :=
  .call (.varRef ⟨0, ⟨.identifier, "loadFile", 3⟩⟩) ⟨.rightParen, ")", 3⟩ [.literal (.string "a")]

/-- The failure of a source that has run. -/
def failure? : EStateM.Result Halt Machine (Except Failure α) → Option Failure
  | .ok (.error failure) _ => some failure
  | _ => none

theorem strayBreak_stays_inside :
    besideStrayBreak.world.disk.readText "a" = .ok strayBreak ∧
    (failure? ((engine 12).runSource strayBreak (besideStrayBreak.remembering "a"))).map
      Failure.message = some "Flow statement outside of loop.\n[line 1]" ∧
    (∃ r, (engine 12).Loads 3 "a" besideStrayBreak r ∧
      evaluate 13 loadsStrayBreak besideStrayBreak = Engine.giving .nil r) ∧
    (∀ e m', evaluate 13 loadsStrayBreak besideStrayBreak ≠ .error (.error e) m') ∧
    ∀ halt m', evaluate 13 loadsStrayBreak besideStrayBreak = .error halt m' →
      halt.signal? = none := by
  obtain ⟨loads, raises, silent, -⟩ := loaded_script_cannot_raise 12 ⟨.rightParen, ")", 3⟩
    (show evaluate 12 (.varRef ⟨0, ⟨.identifier, "loadFile", 3⟩⟩) besideStrayBreak =
      .ok (.native .loadFile) besideStrayBreak from rfl)
    (show (engine 12).evaluateAll [.literal (.string "a")] besideStrayBreak =
      .ok [.string "a"] besideStrayBreak from rfl)
  refine ⟨besideStrayBreak_read, by decide +kernel, loads, fun e m' raised => ?_, silent⟩
  obtain ⟨fault, unreadable, -⟩ := (raises e m').mp raised
  cases besideStrayBreak_read.symm.trans unreadable

end Lox
