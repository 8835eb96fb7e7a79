import Lox.Proofs.TemperedRuns
import Lox.Proofs.Upkeep
import Lox.Proofs.WellFormedTrees

/-! Whatever a session runs is a node of a parsed tree. Since these are well formed, no run comes
upon an operator out of place, and every signal is that of a `break` or a `continue` in a source. -/

namespace Lox

/-- A list of all nodes of a part, given what lies around it. -/
def Part.Lists (places : List (Node × Around)) : Part → Prop
  | expr e => ∃ around, places = Node.inExpr e around
  | exprs es => ∃ around, places = Node.inExprs es around
  | function _ f => ∃ kind around, places = Node.inFunction kind f around
  | functions _ fs => ∃ kind around, places = Node.inFunctions kind fs around
  | methods _ ms _ => ∃ parent around, places = Node.inMethods parent ms around
  | stmt s => ∃ around, places = Node.inStmt s around
  | stmts ss => ∃ around, places = Node.inStmts ss around

/-- The nodes of a part are nodes of the part around it. -/
theorem Enters.lists {places : List (Node × Around)} (enters : Enters p q)
    (lists : p.part.Lists places) : ∃ places', q.part.Lists places' ∧ places' ⊆ places := by
  cases enters
  -- Functions
  case body kind f context r =>
    obtain ⟨name, params, ss, line⟩ := f
    obtain ⟨kind, around, rfl⟩ := lists
    refine ⟨_, ⟨kind :: around, rfl⟩, ?_⟩
    simp [Node.inFunction]
  case firstFunction | otherFunctions =>
    obtain ⟨kind, around, rfl⟩ := lists
    refine ⟨_, ⟨kind, around, rfl⟩, ?_⟩
    simp [Node.inFunctions]
  case firstMethod f _ _ _ _ _ =>
    obtain ⟨parent, around, rfl⟩ := lists
    refine ⟨_, ⟨.method parent f.title, around, rfl⟩, ?_⟩
    simp [Node.inMethods]
  case otherMethods =>
    obtain ⟨parent, around, rfl⟩ := lists
    refine ⟨_, ⟨parent, around, rfl⟩, ?_⟩
    simp [Node.inMethods]
  all_goals obtain ⟨around, rfl⟩ := lists
  case lambda =>
    refine ⟨_, ⟨.function, around, rfl⟩, ?_⟩
    simp [Node.inExpr]
  case function =>
    refine ⟨_, ⟨.function, around, rfl⟩, ?_⟩
    simp [Node.inStmt]
  case methods c _ _ =>
    obtain ⟨name, parent, traits, ms, statics⟩ := c
    refine ⟨_, ⟨parent, around, rfl⟩, ?_⟩
    intro place member
    simp [Node.inStmt, member]
  case statics c _ _ =>
    obtain ⟨name, parent, traits, ms, statics⟩ := c
    refine ⟨_, ⟨.static, around, rfl⟩, ?_⟩
    intro place member
    simp [Node.inStmt, member]
  case defaults t _ _ =>
    obtain ⟨name, signatures, defaults⟩ := t
    refine ⟨_, ⟨.default, around, rfl⟩, ?_⟩
    simp [Node.inStmt]
  case block =>
    refine ⟨_, ⟨.block :: around, rfl⟩, ?_⟩
    simp [Node.inStmt]
  -- A branch or an increment may be missing.
  case ifCondition elseBranch _ _ | thenBranch elseBranch _ _ =>
    refine ⟨_, ⟨around, rfl⟩, ?_⟩
    intro place member
    cases elseBranch <;> simp [Node.inStmt, member]
  case loopCondition increment _ _ | loopBody increment _ _ =>
    refine ⟨_, ⟨around, rfl⟩, ?_⟩
    intro place member
    cases increment <;> simp [Node.inStmt, member]
  all_goals
    refine ⟨_, ⟨around, rfl⟩, ?_⟩
    intro place member
    simp [Node.inExpr, Node.inExprs, Node.inStmt, Node.inStmts, member]

theorem Reaches.lists {places : List (Node × Around)} (path : Reaches p q)
    (lists : p.part.Lists places) : ∃ places', q.part.Lists places' ∧ places' ⊆ places := by
  induction path with
  | refl => exact ⟨places, lists, List.Subset.refl places⟩
  | step _ enters ih =>
    obtain ⟨middle, lists', among⟩ := ih
    obtain ⟨last, lists'', among'⟩ := enters.lists lists'
    exact ⟨last, lists'', List.Subset.trans among' among⟩

/-- The node that an expression or a statement is itself. -/
def Part.node? : Part → Option Node
  | expr e => some (.expr e)
  | stmt s => some (.stmt s)
  | _ => none

theorem Part.Lists.own {part : Part} {places : List (Node × Around)} (lists : part.Lists places)
    (found : part.node? = some node) : ∃ around, (node, around) ∈ places := by
  cases part with
  | expr e =>
    obtain ⟨around, rfl⟩ := lists
    cases found
    refine ⟨around, ?_⟩
    unfold Node.inExpr
    split <;> exact List.mem_cons_self ..
  | stmt s =>
    obtain ⟨around, rfl⟩ := lists
    cases found
    refine ⟨around, ?_⟩
    unfold Node.inStmt
    split <;> exact List.mem_cons_self ..
  | _ => cases found

/-- The part is a whole tree that was parsed from these tokens. -/
def Part.ParsedFrom (tokens : List Token) : Part → Prop
  | stmts program => ∃ n cursor, parse tokens n = (.ok program, cursor)
  | expr e => ∃ n cursor, parseExpression tokens n = (.ok e, cursor)
  | _ => False

theorem Part.ParsedFrom.lists {part : Part} (parsed : part.ParsedFrom tokens) :
    ∃ places, part.Lists places ∧ ∀ place ∈ places, place.1.WellFormed tokens := by
  cases part with
  | stmts program =>
    obtain ⟨n, cursor, parsed⟩ := parsed
    exact ⟨_, ⟨[], rfl⟩, parse_formed parsed []⟩
  | expr e =>
    obtain ⟨n, cursor, parsed⟩ := parsed
    exact ⟨_, ⟨[], rfl⟩, parseExpression_formed parsed []⟩
  | _ => exact parsed.elim

theorem Prepared.parsedFrom (prepared : Prepared root) : ∃ tokens, root.part.ParsedFrom tokens := by
  cases prepared with
  | program scanned parsed resolved => exact ⟨_, _, _, parsed⟩
  | expression scanned parsed resolved => exact ⟨_, _, _, parsed⟩

/-- The part belongs to a source that the machine has loaded, with these tokens. -/
def Sourced (m : Machine) (part : Part) (tokens : List Token) : Prop :=
  ∃ root context r, Loaded root m ∧ root.part.ParsedFrom tokens ∧ Reaches root ⟨part, context, r⟩

theorem Sourced.wellFormed (sourced : Sourced m part tokens) (own : part.node? = some node) :
    node.WellFormed tokens := by
  obtain ⟨root, context, r, -, parsed, path⟩ := sourced
  obtain ⟨places, lists, formed⟩ := parsed.lists
  obtain ⟨places', lists', among⟩ := path.lists lists
  obtain ⟨around, member⟩ := lists'.own own
  exact formed _ (among member)

theorem Known.sourced {past : History} {context : Context} {r : Resolver}
    (known : Known past m ⟨part, context, r⟩) : ∃ tokens, Sourced m part tokens := by
  obtain ⟨root, top, loaded, outer, -, path⟩ := known
  obtain ⟨tokens, parsed⟩ := loaded.prepared.parsedFrom
  exact ⟨tokens, ⟨root, context, r, loaded, parsed, outer.trans path⟩⟩

/-- The error is the complaint about an operator that is none. -/
def RuntimeError.BlamesOperator (e : RuntimeError) : Prop :=
  ∃ operator, e.cause = .invalidUnary operator ∨ e.cause = .invalidBinary operator

/-- A failure that is no complaint about an operator. -/
def Halt.Calm (halt : Halt) : Prop := ∀ e, halt = .error e → ¬ e.BlamesOperator

instance : Lenient Halt.Calm where
  common halt common := by
    rintro ⟨line, cause⟩ rfl ⟨operator, blames | blames⟩
    · cases blames
      cases common
    · cases blames
      cases common

/-- The failure is not this signal. -/
def Halt.Unlike (signal : Signal) (line : Nat) (halt : Halt) : Prop :=
  halt ≠ .error ⟨line, .escaped signal⟩

instance : Lenient (Halt.Unlike signal line) where
  common halt common := by
    rintro rfl
    cases common

section

variable {past : History} {event : Event} {m : Machine}

/-- The operators of known expressions are operators. -/
theorem everywhere_calm (complaint : Violation) (depth : Nat) :
    ((Watch.everywhere complaint).engine depth).Tempered Halt.Calm := by
  apply Watch.tempered
  · rintro e m ⟨-, w, context, r, rfl, known, -⟩
    obtain ⟨tokens, sourced⟩ := known.sourced
    have formed : (Node.expr e).WellFormed tokens := sourced.wellFormed rfl
    cases e with
    | unary operator right => exact fun odd => absurd formed odd
    | binary left operator right => exact fun odd => absurd formed odd
    | _ => trivial
  · intro s m _
    cases s with
    | flow signal line =>
      rintro _ ⟨⟩ ⟨operator, blames | blames⟩
      · cases blames
      · cases blames
    | _ => trivial

/-- A run that ends with a signal has executed the statement that asks for it. -/
theorem execute_origin {signal : Signal} {line : Nat}
    (ended : execute depth s m = .ok (.flow signal line) m' ∨
      execute depth s m = .error (.error ⟨line, .escaped signal⟩) m') :
    ∃ m₁, Watched.Sees (fun i => (Watched.engineOf depth i).execute s) m
      (.execute (.flow signal line)) m₁ := by
  obtain unseen | ⟨event, m₁, forbidden, stopped⟩ := (Watched.engineOf_related depth).execute s
    (fun event _ => event ≠ .execute (.flow signal line)) m
  · exfalso
    let w : Watch := ⟨fun event _ => event ≠ .execute (.flow signal line), .noScope⟩
    have same : (w.engine depth).execute s m = execute depth s m := (unseen .noScope).1
    have tempered : (w.engine depth).Tempered (Halt.Unlike signal line) := by
      apply Watch.tempered
      · intro e m _
        cases e with
        | unary operator right => exact fun _ same => by cases same
        | binary left operator right => exact fun _ same => by cases same
        | _ => trivial
      · intro s m other
        cases s with
        | flow signal' line' =>
          intro same
          cases same
          exact other rfl
        | _ => trivial
    rw [← same] at ended
    rcases ended with ended | ended
    · exact (tempered.execute s).results ended rfl
    · exact (tempered.execute s).raises ended rfl
  · obtain rfl := Classical.not_not.mp forbidden
    exact ⟨m₁, fun complaint => (stopped complaint).2⟩

/-- Whatever happens in the run of a known statement has a place too. -/
theorem Placed.sees (placed : Placed past m (.execute s))
    (sees : Watched.Sees (fun i => (Watched.engineOf depth i).execute s) m event m₁) :
    Placed (fun _ _ => True) m₁ event := by
  obtain ⟨w, _, rfl, _, steps⟩ := placed.execute_steps depth
  apply Classical.byContradiction
  intro nowhere
  obtain unseen | ⟨event', m₂, -, stopped⟩ := (Watched.engineOf_related depth).execute s
    (fun event m => True ∧ Placed (fun _ _ => True) m event) w.machine
  · apply not_stopped (execute depth s w.machine)
    intro complaint
    have same := (unseen complaint).2 event m₁ fun there => nowhere there.2
    have ended := sees complaint
    rw [same] at ended
    exact ended
  · apply not_stopped (execute depth s w.machine)
    intro complaint
    rw [← (steps complaint).1]
    exact (stopped complaint).1

end

/-- Parsed trees are well formed at every depth, whatever the tokens are. Hence nothing that a
session evaluates or executes ends with a complaint about an operator, and a statement that ends
with a signal, as a loop may find its body, has executed a `break` or a `continue` that stands in a
loaded source. -/
theorem parsed_code_is_well_formed :
    (∀ tokens n program cursor, parse tokens n = (.ok program, cursor) →
      ∀ place ∈ Node.inStmts program [], place.1.WellFormed tokens) ∧
    (∀ tokens n e cursor, parseExpression tokens n = (.ok e, cursor) →
      ∀ place ∈ Node.inExpr e [], place.1.WellFormed tokens) ∧
    ∀ depth world steps event m, Happens depth world steps event m → ∀ depth',
      (∀ e error m', event = .evaluate e → evaluate depth' e m = .error (.error error) m' →
        ¬ error.BlamesOperator) ∧
      (∀ s error m', event = .execute s → execute depth' s m = .error (.error error) m' →
        ¬ error.BlamesOperator) ∧
      ∀ s signal line m', event = .execute s →
        (execute depth' s m = .ok (.flow signal line) m' ∨
          execute depth' s m = .error (.error ⟨line, .escaped signal⟩) m') →
        ∃ m₁ tokens, Watched.Sees (fun i => (Watched.engineOf depth' i).execute s) m
            (.execute (.flow signal line)) m₁ ∧
          Sourced m₁ (.stmt (.flow signal line)) tokens ∧
          ∃ token ∈ tokens, token.kind = Grammar.keyword signal ∧ token.line = line := by
  refine ⟨fun tokens n program cursor parsed => parse_formed parsed [],
    fun tokens n e cursor parsed => parseExpression_formed parsed [], ?_⟩
  intro depth world steps event m happens depth'
  refine ⟨?_, ?_, ?_⟩
  · rintro e error m' rfl failed
    obtain ⟨w, rfl, steps⟩ := happens.placed.evaluate_steps depth'
    rw [← (steps .noScope).1] at failed
    exact (everywhere_calm .noScope depth').evaluate e failed error rfl
  · rintro s error m' rfl failed
    obtain ⟨w, _, rfl, _, steps⟩ := happens.placed.execute_steps depth'
    rw [← (steps .noScope).1] at failed
    exact ((everywhere_calm .noScope depth').execute s).raises failed error rfl
  · rintro s signal line m' rfl ended
    obtain ⟨m₁, sees⟩ := execute_origin ended
    obtain ⟨w, context, r, rfl, known, -⟩ := happens.placed.sees sees
    obtain ⟨tokens, sourced⟩ := known.sourced
    have formed : (Node.stmt (.flow signal line)).WellFormed tokens := sourced.wellFormed rfl
    exact ⟨w.machine, tokens, sees, sourced, formed⟩

/-- The loop is left by a function that it calls. -/
def breakInFunction : String :=
  "fun f() \x7b if (!false) break; \x7d while (f == f) \x7b f(); \x7d"

/-- The run has failed with the `break`. -/
def broke : EStateM.Result Halt Machine α → Bool
  | .error halt _ => halt == .error ⟨1, .escaped .exitLoop⟩
  | .ok _ _ => false

theorem eq_of_broke {r : EStateM.Result Halt Machine α} (failed : broke r = true) :
    ∃ m, r = .error (.error ⟨1, .escaped .exitLoop⟩) m := by
  cases r with
  | ok a m => cases failed
  | error halt m =>
    obtain rfl := eq_of_beq failed
    exact ⟨m, rfl⟩

def evaluationBreaks : Event → Machine → Bool
  | .evaluate e, m => broke (evaluate 8 e m)
  | _, _ => false

def executionBreaks : Event → Machine → Bool
  | .execute s, m => broke (execute 8 s m)
  | _, _ => false

theorem evaluationBreaks_happens : ∃ e m m',
    Happens 12 {} [.run breakInFunction] (.evaluate e) m ∧
    evaluate 8 e m = .error (.error ⟨1, .escaped .exitLoop⟩) m' := by
  obtain ⟨event, m, passes, happens⟩ := happens_of_detects
    (show detects 12 {} [.run breakInFunction] evaluationBreaks = true by decide +kernel)
  cases event with
  | evaluate e =>
    obtain ⟨m', failed⟩ := eq_of_broke passes
    exact ⟨e, m, m', happens, failed⟩
  | _ => cases passes

theorem executionBreaks_happens : ∃ s m m',
    Happens 12 {} [.run breakInFunction] (.execute s) m ∧
    execute 8 s m = .error (.error ⟨1, .escaped .exitLoop⟩) m' := by
  obtain ⟨event, m, passes, happens⟩ := happens_of_detects
    (show detects 12 {} [.run breakInFunction] executionBreaks = true by decide +kernel)
  cases event with
  | execute s =>
    obtain ⟨m', failed⟩ := eq_of_broke passes
    exact ⟨s, m, m', happens, failed⟩
  | _ => cases passes

theorem breakInFunction_is_well_formed :
    (∃ tokens cursor, parse tokens 0 = (.ok (programOf breakInFunction), cursor) ∧
      ∀ place ∈ Node.inStmts (programOf breakInFunction) [], place.1.WellFormed tokens) ∧
    (∃ tokens e cursor, parseExpression tokens 0 = (.ok e, cursor) ∧
      ∀ place ∈ Node.inExpr e [], place.1.WellFormed tokens) ∧
    (∃ e m m', Happens 12 {} [.run breakInFunction] (.evaluate e) m ∧
      evaluate 8 e m = .error (.error ⟨1, .escaped .exitLoop⟩) m' ∧
      ¬ RuntimeError.BlamesOperator ⟨1, .escaped .exitLoop⟩) ∧
    ∃ s m m', Happens 12 {} [.run breakInFunction] (.execute s) m ∧
      execute 8 s m = .error (.error ⟨1, .escaped .exitLoop⟩) m' ∧
      ¬ RuntimeError.BlamesOperator ⟨1, .escaped .exitLoop⟩ ∧
      ∃ m₁ tokens, Watched.Sees (fun i => (Watched.engineOf 8 i).execute s) m
          (.execute (.flow .exitLoop 1)) m₁ ∧
        Sourced m₁ (.stmt (.flow .exitLoop 1)) tokens ∧
        ∃ token ∈ tokens, token.kind = .kwBreak ∧ token.line = 1 := by
  obtain ⟨tokens, cursor, -, parsed⟩ :=
    parsed_of_nonempty (show (programOf breakInFunction).isEmpty = false by decide +kernel)
  have negated : parseExpression [⟨.bang, "!", 1⟩, ⟨.kwTrue, "true", 1⟩, .eof 1] 0 =
      (.ok (.unary ⟨.bang, "!", 1⟩ (.literal (.bool true))), ⟨[.eof 1], 0⟩) := rfl
  obtain ⟨programs, expressions, runs⟩ := parsed_code_is_well_formed
  obtain ⟨e, m, m', evaluated, failed⟩ := evaluationBreaks_happens
  obtain ⟨s, n, n', executed, ended⟩ := executionBreaks_happens
  refine ⟨⟨tokens, cursor, parsed, programs _ _ _ _ parsed⟩,
    ⟨_, _, _, negated, expressions _ _ _ _ negated⟩,
    ⟨e, m, m', evaluated, failed, (runs _ _ _ _ _ evaluated 8).1 e _ m' rfl failed⟩,
    ⟨s, n, n', executed, ended, (runs _ _ _ _ _ executed 8).2.1 s _ n' rfl ended, ?_⟩⟩
  exact (runs _ _ _ _ _ executed 8).2.2 s .exitLoop 1 n' rfl (.inr ended)

end Lox
