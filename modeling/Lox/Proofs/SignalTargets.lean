import Lox.Proofs.JumpAgreement

/-! A `break` or a `continue` reaches the innermost loop whose body is running, through whatever
lies between, and no other loop. -/

namespace Lox.Jump

/-- A loop comes from one machine to another in a number of full turns. -/
inductive Turns (turn : Eval (Option α)) : Nat → Machine → Machine → Prop where
  | zero (m : Machine) : Turns turn 0 m m
  | next {count : Nat} {m m₁ m₂ : Machine} (first : turn m = .ok none m₁)
      (later : Turns turn count m₁ m₂) : Turns turn (count + 1) m m₂

namespace Turns

variable {turn : Eval (Option α)} {count turns : Nat} {m m₁ m₂ : Machine}

/-- The turns that are behind do not matter for those that are left. -/
theorem repeatUntil_eq (turned : Turns turn count m m₁) (bound : count < turns) :
    ∃ rest, Engine.repeatUntil turn turns m = Engine.repeatUntil turn (rest + 1) m₁ := by
  induction turned generalizing turns with
  | zero m =>
    obtain ⟨rest, rfl⟩ := Nat.exists_eq_add_one.mpr bound
    exact ⟨rest, rfl⟩
  | next first later ih =>
    obtain ⟨turns, rfl⟩ := Nat.exists_eq_add_one.mpr (Nat.zero_lt_of_lt bound)
    obtain ⟨rest, same⟩ := ih (Nat.lt_of_succ_lt_succ bound)
    exact ⟨rest, (Eval.bind_of_ok first).trans same⟩

theorem ends (turned : Turns turn count m m₁) (bound : count < turns)
    (last : turn m₁ = .ok (some result) m₂) :
    Engine.repeatUntil turn turns m = .ok result m₂ := by
  obtain ⟨rest, same⟩ := turned.repeatUntil_eq bound
  exact same.trans (Eval.bind_of_ok last)

theorem fails (turned : Turns turn count m m₁) (bound : count < turns)
    (last : turn m₁ = .error halt m₂) : Engine.repeatUntil turn turns m = .error halt m₂ := by
  obtain ⟨rest, same⟩ := turned.repeatUntil_eq bound
  exact same.trans (Eval.bind_of_error last)

end Turns

/-- By induction on the turns that are left. -/
theorem repeatUntil_result {turn : Eval (Option α)} {P : α → Prop}
    (results : ∀ {m result m'}, turn m = .ok (some result) m' → P result)
    (ended : Engine.repeatUntil turn turns m = .ok result m') : P result := by
  induction turns generalizing m with
  | zero => cases ended
  | succ turns ih =>
    obtain ⟨last, middle, turned, rest⟩ := Eval.bind_eq_ok ended
    cases last with
    | none => exact ih rest
    | some result' =>
      cases rest
      exact results turned

theorem turn_result (depth : Nat) (condition : Expr) (body : Stmt) (increment : Option Expr)
    (ended : (engine depth).turn condition body increment m = .ok (some completion) m') :
    ∀ signal line, completion ≠ .flow signal line := by
  have turned := (agrees depth).turn condition body increment [] (rfl : m = m)
  rw [ended] at turned
  generalize (interpreter depth).turn condition body increment [] m = result at turned
  intro signal line
  cases turned with
  | ok values states =>
    cases values with
    | normal => exact Completion.noConfusion
    | returned value => exact Completion.noConfusion

/-- A loop never ends with a signal. -/
theorem loop_result {condition : Expr} {body : Stmt} {increment : Option Expr}
    (ended : execute depth (.loop condition body increment) m = .ok completion m') :
    ∀ signal line, completion ≠ .flow signal line := by
  cases depth with
  | zero => cases ended
  | succ depth => exact repeatUntil_result (turn_result depth condition body increment) ended

/-- A jump to the loop whose body is run is what the loop catches. -/
theorem catchSignal_of_jump {body : Stmt} {stack : List Activity}
    (jumped : (interpreter depth).execute body (.body :: stack) m =
      .error (.jump stack.length signal line) m') :
    Engine.catchSignal (execute depth body) m = .ok (.flow signal line) m' := by
  have ran := (agrees depth).execute body (.body :: stack) m
  rw [jumped] at ran
  cases ended : execute depth body m with
  | ok completion m₁ =>
    rw [ended] at ran
    cases completion with
    | normal => cases ran
    | returned value => cases ran
    | flow signal line =>
      cases ran
      exact catchSignal_ok ended
  | error halt m₁ =>
    rw [ended] at ran
    rcases signal_or_silent halt with ⟨signal, line, rfl⟩ | silent
    · cases ran
      exact catchSignal_signal ended
    · simp only [completed, unwound_silent silent] at ran
      cases ran

section Turn

variable {depth : Nat} {condition : Expr} {body : Stmt} {increment : Option Expr}
  {m m₁ m₂ : Machine} {value : Value}

theorem turn_leaves (tested : evaluate depth condition m = .ok value m₁) (holds : value.isTruthy)
    (caught : Engine.catchSignal (execute depth body) m₁ = .ok (.flow .exitLoop line) m₂) :
    (engine depth).turn condition body increment m = .ok (some .normal) m₂ := by
  refine (Eval.bind_of_ok tested).trans ?_
  rw [holds]
  exact Eval.bind_of_ok caught

theorem turn_fails (tested : evaluate depth condition m = .ok value m₁) (holds : value.isTruthy)
    (failed : Engine.catchSignal (execute depth body) m₁ = .error halt m₂) :
    (engine depth).turn condition body increment m = .error halt m₂ := by
  refine (Eval.bind_of_ok tested).trans ?_
  rw [holds]
  exact Eval.bind_of_error failed

/-- The body has come to its end, or a `continue` has ended it. -/
def BodyOver (depth : Nat) (body : Stmt) (m m' : Machine) : Prop :=
  execute depth body m = .ok .normal m' ∨
    ∃ stack line, (interpreter depth).execute body (.body :: stack) m =
      .error (.jump stack.length .nextTurn line) m'

/-- Then it is the increment's turn. -/
theorem turn_increment (tested : evaluate depth condition m = .ok value m₁)
    (holds : value.isTruthy) (ended : BodyOver depth body m₁ m₂) :
    (engine depth).turn condition body increment m =
      ((engine depth).betweenTurns increment >>= fun _ => pure none) m₂ := by
  refine (Eval.bind_of_ok tested).trans ?_
  rw [holds]
  rcases ended with normal | ⟨stack, line, jumped⟩
  · exact Eval.bind_of_ok (catchSignal_ok normal)
  · exact Eval.bind_of_ok (catchSignal_of_jump jumped)

end Turn

/-- What the next turn makes of a loop that began in `m` and has come to `m₁`. -/
structure TakesTurn (depth : Nat) (condition : Expr) (body : Stmt) (increment : Option Expr)
    (m m₁ : Machine) : Prop where
  /-- What stops the condition stops the loop, a signal as well. -/
  condition_fails : ∀ halt m₂, evaluate depth condition m₁ = .error halt m₂ →
    execute (depth + 1) (.loop condition body increment) m = .error halt m₂
  /-- A `break` that reaches the loop ends it as it is, without its increment. -/
  leaves : ∀ value m₂ stack line m₃, evaluate depth condition m₁ = .ok value m₂ →
    value.isTruthy → (interpreter depth).execute body (.body :: stack) m₂ =
      .error (.jump stack.length .exitLoop line) m₃ →
    execute (depth + 1) (.loop condition body increment) m = .ok .normal m₃
  /-- A `continue` that reaches the loop goes on with its increment. -/
  goes_on : ∀ value m₂ m₃ m₄, evaluate depth condition m₁ = .ok value m₂ → value.isTruthy →
    BodyOver depth body m₂ m₃ → (engine depth).betweenTurns increment m₃ = .ok () m₄ →
    (engine depth).turn condition body increment m₁ = .ok none m₄
  /-- What stops the increment stops the loop, a signal as well. -/
  increment_fails : ∀ value m₂ m₃ halt m₄, evaluate depth condition m₁ = .ok value m₂ →
    value.isTruthy → BodyOver depth body m₂ m₃ →
    (engine depth).betweenTurns increment m₃ = .error halt m₄ →
    execute (depth + 1) (.loop condition body increment) m = .error halt m₄
  /-- An error of the body that is no signal stops the loop. -/
  body_fails : ∀ value m₂ halt m₃, evaluate depth condition m₁ = .ok value m₂ →
    value.isTruthy → execute depth body m₂ = .error halt m₃ → halt.signal? = none →
    execute (depth + 1) (.loop condition body increment) m = .error halt m₃

theorem Turns.takesTurn {condition : Expr} {body : Stmt} {increment : Option Expr}
    (turned : Turns ((engine depth).turn condition body increment) count m m₁)
    (bound : count < depth) : TakesTurn depth condition body increment m m₁ where
  condition_fails _ _ failed := turned.fails bound (Eval.bind_of_error failed)
  leaves _ _ _ _ _ tested holds jumped :=
    turned.ends bound (turn_leaves tested holds (catchSignal_of_jump jumped))
  goes_on _ _ _ _ tested holds ended between :=
    (turn_increment tested holds ended).trans (Eval.bind_of_ok between)
  increment_fails _ _ _ _ _ tested holds ended failed :=
    turned.fails bound ((turn_increment tested holds ended).trans (Eval.bind_of_error failed))
  body_fails _ _ _ _ tested holds failed silent :=
    turned.fails bound (turn_fails tested holds (catchSignal_silent failed silent))

theorem head?_append {text : String} {c : Char} (starts : text.toList.head? = some c)
    (rest : String) : (text ++ rest).toList.head? = some c := by
  rw [String.toList_append, List.head?_append, starts]
  rfl

/-- No other message begins with this letter. -/
theorem signal_of_message {cause : RuntimeError.Cause}
    (first : cause.message.toList.head? = some 'F') : ∃ signal, cause = .escaped signal := by
  have apart {c : Char} (starts : cause.message.toList.head? = some c) : c = 'F' :=
    Option.some.inj (starts.symm.trans first)
  cases cause with
  | escaped signal => exact ⟨signal, rfl⟩
  | undefinedVariable name | undefinedProperty name =>
    exact absurd (apart (c := 'U') (head?_append (head?_append (by decide) _) _)) (by decide)
  | invalidUnary operator | invalidBinary operator =>
    exact absurd (apart (c := 'I') (head?_append (head?_append (by decide) _) _)) (by decide)
  | superNotClass text =>
    exact absurd (apart (c := Char.ofNat 39) (head?_append (head?_append (by decide) _) _))
      (by decide)
  | output fault =>
    exact absurd (apart (c := 'O') (head?_append (by decide) _)) (by decide)
  | unreadable path fault =>
    have starts := head?_append (by decide : "Could not read file '".toList.head? = some 'C') path
    exact absurd (apart (head?_append (head?_append starts _) _)) (by decide)
  | argumentCount expected actual =>
    have starts := head?_append (by decide : "Expected ".toList.head? = some 'E')
      (toString expected)
    exact absurd (apart (head?_append (head?_append (head?_append starts _) _) _)) (by decide)
  | _ => exact absurd first (by decide)

theorem message_eq_iff (cause : RuntimeError.Cause) :
    cause.message = "Flow statement outside of loop." ↔ ∃ signal, cause = .escaped signal := by
  constructor
  · intro same
    apply signal_of_message
    rw [same]
    decide
  · rintro ⟨signal, rfl⟩
    rfl

theorem carried_stray {result : EStateM.Result Halt Machine α} :
    carried [] result = .error (.stray signal line) m ↔
      result = .error (.error ⟨line, .escaped signal⟩) m := by
  constructor
  · intro strayed
    cases result with
    | ok value m₁ => cases strayed
    | error halt m₁ =>
      rcases signal_or_silent halt with ⟨signal, line, rfl⟩ | silent
      · cases strayed
        rfl
      · simp only [carried, unwound_silent silent] at strayed
        cases strayed
  · rintro rfl
    rfl

/-- Both semantics agree on everything that runs, a source is a unit of its own, and loops do with
the signals that reach them what they are for. -/
theorem signals_reach_innermost_body (depth : Nat) :
    (∀ e stack m, (interpreter depth).evaluate e stack m = carried stack (evaluate depth e m)) ∧
    (∀ s stack m, (interpreter depth).execute s stack m = completed stack (execute depth s m)) ∧
    (∀ callee line arguments stack m, (interpreter depth).call callee line arguments stack m =
      carried stack ((engine depth).call callee line arguments m)) ∧
    (∀ program stack m, (interpreter depth).interpret program stack m =
      carried stack ((engine depth).interpret program m)) ∧
    (∀ source stack m, (interpreter depth).runSource source stack m =
      carried stack ((engine depth).runSource source m)) ∧
    (∀ source stack m, (interpreter depth).evaluateSource source stack m =
      carried stack ((engine depth).evaluateSource source m)) ∧
    (∀ path stack m, (interpreter depth).runFile path stack m =
      carried stack ((engine depth).runFile path m)) ∧
    (∀ program m m' line,
      (∃ e, (engine depth).interpret program m = .error (.error e) m' ∧ e.line = line ∧
        e.cause.message = "Flow statement outside of loop.") ↔
      ∃ signal, (interpreter depth).interpret program [] m = .error (.stray signal line) m') ∧
    (∀ condition body increment m signal line m',
      execute depth (.loop condition body increment) m ≠ .ok (.flow signal line) m') ∧
    (∀ condition body increment count m m₁, count < depth →
      Turns ((engine depth).turn condition body increment) count m m₁ →
      TakesTurn depth condition body increment m m₁) := by
  have agree := agrees depth
  refine ⟨fun e => (agree.evaluate e).eq, agree.execute,
    fun callee line arguments => (agree.call callee line arguments).eq,
    fun program => (agree.interpret program).eq, fun source => (agree.runSource source).eq,
    fun source => (agree.evaluateSource source).eq, fun path => (agree.runFile path).eq, ?_, ?_, ?_⟩
  · intro program m m' line
    simp only [(agree.interpret program).eq, carried_stray]
    constructor
    · rintro ⟨⟨line, cause⟩, failed, rfl, text⟩
      obtain ⟨signal, rfl⟩ := (message_eq_iff cause).mp text
      exact ⟨signal, failed⟩
    · rintro ⟨signal, failed⟩
      exact ⟨_, failed, rfl, rfl⟩
  · intro condition body increment m signal line m' ended
    exact loop_result ended signal line rfl
  · exact fun _ _ _ _ _ _ bound turned => turned.takesTurn bound

/-- An inner loop whose condition raises a `break` in a function, in the body of an outer loop. -/
def breakInCondition : Stmt :=
  .loop (.call (.lambda ⟨none, [], [.block [.flow .exitLoop 2]], 2⟩) ⟨.rightParen, ")", 2⟩ [])
    (.block []) none

/-- It is the outer loop that ends. -/
theorem breakInCondition_leaves_outer :
    ∃ m, (interpreter 8).execute breakInCondition [.body] (.fresh {}) =
        .error (.jump 0 .exitLoop 2) m ∧
      execute 9 (.loop (.literal (.bool true)) breakInCondition none) (.fresh {}) =
        .ok .normal m := by
  have turns := (signals_reach_innermost_body 8).2.2.2.2.2.2.2.2.2 (.literal (.bool true))
    breakInCondition none 0 (.fresh {}) (.fresh {}) (by decide) (.zero _)
  exact ⟨_, rfl, turns.leaves (.bool true) _ [] 2 _ rfl rfl rfl⟩

end Lox.Jump
