import Lox.Proofs.ResolvedSessions
import Lox.Proofs.StaticValidity
import Lox.Proofs.TemperedRuns

/-!
Where a `return` can come from. A statement that ends with a return holds a `return` which no function
of its own lies around. Since a resolution pass judges each `return` by the function nearest to it,
accepted top-level code never returns, and accepted initializers return nothing but `nil`.
-/

namespace Lox

namespace Node

/-- The nodes of a node, itself included. -/
def nodes : Node → Around → List (Node × Around)
  | .expr e, around => inExpr e around
  | .function f, around => [(.function f, around)]
  | .stmt s, around => inStmt s around

/-- With a node, all nodes inside it. -/
def Closed (places : List (Node × Around)) : Prop :=
  ∀ place ∈ places, place.1.nodes place.2 ⊆ places

namespace Closed

theorem nil : Closed [] := by
  intro place member
  cases member

theorem append (first : Closed a) (second : Closed b) : Closed (a ++ b) := by
  intro place member
  rcases List.mem_append.mp member with before | after
  · exact List.Subset.trans (first place before) (List.subset_append_left a b)
  · exact List.Subset.trans (second place after) (List.subset_append_right a b)

theorem own (whole : node.nodes around ⊆ (node, around) :: rest) (closed : Closed rest) :
    Closed ((node, around) :: rest) := by
  intro place member
  rcases List.mem_cons.mp member with rfl | later
  · exact whole
  · exact List.Subset.trans (closed place later) (List.subset_cons_self _ rest)

end Closed

mutual

theorem inExpr_closed : (e : Expr) → (around : Around) → Closed (inExpr e around)
  | .assign _ value, around => .own (List.Subset.refl _) (inExpr_closed value around)
  | .binary left _ right, around | .logical left _ right, around =>
    .own (List.Subset.refl _) ((inExpr_closed left around).append (inExpr_closed right around))
  | .call callee _ arguments, around =>
    .own (List.Subset.refl _)
      ((inExpr_closed callee around).append (inExprs_closed arguments around))
  | .property object _, around => .own (List.Subset.refl _) (inExpr_closed object around)
  | .group inner, around => .own (List.Subset.refl _) (inExpr_closed inner around)
  | .lambda f, around => .own (List.Subset.refl _) (inFunction_closed .function f around)
  | .literal _, _ | .superRef _ _, _ | .thisRef _, _ | .varRef _, _ =>
    .own (List.Subset.refl _) .nil
  | .setProperty object _ value, around =>
    .own (List.Subset.refl _) ((inExpr_closed value around).append (inExpr_closed object around))
  | .ternary condition thenValue elseValue, around =>
    .own (List.Subset.refl _) ((inExpr_closed condition around).append
      ((inExpr_closed thenValue around).append (inExpr_closed elseValue around)))
  | .unary _ right, around => .own (List.Subset.refl _) (inExpr_closed right around)

theorem inExprs_closed : (es : List Expr) → (around : Around) → Closed (inExprs es around)
  | [], _ => .nil
  | e :: es, around => (inExpr_closed e around).append (inExprs_closed es around)

theorem inFunction_closed (kind : Enclosure) :
    (f : FunctionDecl) → (around : Around) → Closed (inFunction kind f around)
  | ⟨_, _, body, _⟩, around =>
    .own (List.cons_subset_cons _ (List.nil_subset _)) (inStmts_closed body (kind :: around))

theorem inFunctions_closed (kind : Enclosure) :
    (fs : List FunctionDecl) → (around : Around) → Closed (inFunctions kind fs around)
  | [], _ => .nil
  | f :: fs, around => (inFunction_closed kind f around).append (inFunctions_closed kind fs around)

theorem inMethods_closed (parent : Option Reference) :
    (ms : List MethodDecl) → (around : Around) → Closed (inMethods parent ms around)
  | [], _ => .nil
  | ⟨f, _⟩ :: ms, around =>
    (inFunction_closed (.method parent f.title) f around).append (inMethods_closed parent ms around)

theorem inStmt_closed : (s : Stmt) → (around : Around) → Closed (inStmt s around)
  | .block body, around => .own (List.Subset.refl _) (inStmts_closed body (.block :: around))
  | .classDecl ⟨_, parent, _, ms, statics⟩, around =>
    .own (List.Subset.refl _)
      ((inMethods_closed parent ms around).append (inFunctions_closed .static statics around))
  | .expression value, around | .print value, around | .returns _ (some value), around
  | .varDecl _ (some value), around => .own (List.Subset.refl _) (inExpr_closed value around)
  | .flow _ _, _ | .returns _ none, _ | .varDecl _ none, _ => .own (List.Subset.refl _) .nil
  | .functionDecl f, around => .own (List.Subset.refl _) (inFunction_closed .function f around)
  | .ifElse condition thenBranch none, around =>
    .own (List.Subset.refl _)
      ((inExpr_closed condition around).append (inStmt_closed thenBranch around))
  | .ifElse condition thenBranch (some elseBranch), around =>
    .own (List.Subset.refl _) ((inExpr_closed condition around).append
      ((inStmt_closed thenBranch around).append (inStmt_closed elseBranch around)))
  | .traitDecl ⟨_, _, defaults⟩, around =>
    .own (List.Subset.refl _) (inFunctions_closed .default defaults around)
  | .loop condition body none, around =>
    .own (List.Subset.refl _) ((inExpr_closed condition around).append (inStmt_closed body around))
  | .loop condition body (some increment), around =>
    .own (List.Subset.refl _) ((inExpr_closed condition around).append
      ((inStmt_closed body around).append (inExpr_closed increment around)))

theorem inStmts_closed : (ss : List Stmt) → (around : Around) → Closed (inStmts ss around)
  | [], _ => .nil
  | s :: ss, around => (inStmt_closed s around).append (inStmts_closed ss around)

end

end Node

/-- Any failure will do. -/
def Halt.Any (_ : Halt) : Prop := True

instance : Lenient Halt.Any := ⟨fun _ _ => trivial⟩

theorem Ends.any (p : Eval α) : Ends Halt.Any (fun _ => True) p := by
  intro m
  cases p m <;> trivial

theorem Ends.imp {p : Eval α} {Q R : α → Prop} (ends : Ends P Q p) (implies : ∀ a, Q a → R a) :
    Ends P R p := by
  intro m
  have ended := ends m
  cases ran : p m with
  | ok a m' =>
    rw [ran] at ended
    exact implies a ended
  | error halt m' =>
    rw [ran] at ended
    exact ended

/-- If this is a return, one of the nodes is the `return` that it comes from. No further function lies
around it, and without a value it returns `nil`. -/
def Completion.Found (places : Around → List (Node × Around)) (c : Completion) : Prop :=
  ∀ v, c = .returned v → ∀ around, ∃ keyword value outer,
    (.stmt (.returns keyword value), outer) ∈ places around ∧
      Around.nearest outer = Around.nearest around ∧ (value = none → v = .nil)

namespace Completion

variable {places places' : Around → List (Node × Around)}

theorem found_normal : Found places .normal := by
  intro v returned
  cases returned

theorem found_flow : Found places (.flow signal line) := by
  intro v returned
  cases returned

theorem Found.mono {c : Completion} (found : c.Found places)
    (among : ∀ around, places around ⊆ places' around) : c.Found places' := by
  intro v returned around
  obtain ⟨keyword, value, outer, member, same, bare⟩ := found v returned around
  exact ⟨keyword, value, outer, among around member, same, bare⟩

end Completion

namespace Engine

/-- Whatever the engine runs to a return holds the `return`. -/
def Returns (E : Engine) : Prop :=
  ∀ s, Ends Halt.Any (Completion.Found (Node.inStmt s)) (E.execute s)

/-- A caught signal is no return. -/
theorem catchSignal_found {body : Eval Completion}
    (ends : Ends Halt.Any (Completion.Found places) body) :
    Ends Halt.Any (Completion.Found places) (catchSignal body) := by
  apply ends.attempt.bind
  intro caught holds
  cases caught with
  | ok completion => exact .pure holds
  | error e =>
    dsimp only
    split
    · exact .pure Completion.found_flow
    · exact .throw trivial

namespace Returns

variable {E : Engine} (returns : E.Returns)
include returns

theorem executeAll (ss : List Stmt) :
    Ends Halt.Any (Completion.Found (Node.inStmts ss)) (E.executeAll ss) := by
  induction ss with
  | nil => exact .pure Completion.found_normal
  | cons s ss ih =>
    apply (returns s).bind
    intro completion found
    have here : completion.Found (Node.inStmts (s :: ss)) :=
      found.mono fun around => List.subset_append_left _ _
    cases completion with
    | normal => exact ih.imp fun _ later => later.mono fun around => List.subset_append_right _ _
    | returned value => exact .pure here
    | flow signal line => exact .pure here

theorem turn (condition : Expr) (body : Stmt) (increment : Option Expr) :
    Ends Halt.Any (fun result => ∀ completion ∈ result, completion.Found (Node.inStmt body))
      (E.turn condition body increment) := by
  have goOn : Ends Halt.Any
      (fun result => ∀ completion ∈ result, Completion.Found (Node.inStmt body) completion)
      (do E.betweenTurns increment; return none) := by
    apply (Ends.any _).bind
    intro _ _
    refine .pure ?_
    simp
  apply (Ends.any _).bind
  intro asked _
  split
  · refine .pure ?_
    simp [Completion.found_normal]
  · apply (catchSignal_found (returns body)).bind
    intro completion found
    cases completion with
    | normal => exact goOn
    | returned value =>
      refine .pure ?_
      simpa using found
    | flow signal line =>
      cases signal with
      | exitLoop =>
        refine .pure ?_
        simp [Completion.found_normal]
      | nextTurn => exact goOn

/-- One case for each form of statement. Only the body of a function is not looked into. -/
theorem executeRule (s : Stmt) :
    Ends Halt.Any (Completion.Found (Node.inStmt s)) (E.executeRule s) := by
  have normally {α : Type} {p : Eval α} :
      Ends Halt.Any (Completion.Found (Node.inStmt s)) (do let _ ← p; return .normal) :=
    (Ends.any p).bind fun _ _ => .pure Completion.found_normal
  cases s with
  | block body =>
    refine (Ends.any _).bind fun m _ => (Ends.any _).bind fun scope _ => ?_
    apply ((returns.executeAll body).within (some scope)).imp
    intro completion found v returned around
    obtain ⟨keyword, value, outer, member, same, bare⟩ := found v returned (.block :: around)
    exact ⟨keyword, value, outer, List.mem_cons_of_mem _ member, same, bare⟩
  | classDecl declaration => exact normally
  | expression value => exact normally
  | flow signal line => exact .pure Completion.found_flow
  | functionDecl declaration => exact normally
  | ifElse condition thenBranch elseBranch =>
    apply (Ends.any _).bind
    intro asked _
    split
    · apply (returns thenBranch).imp
      intro completion found
      apply found.mono
      intro around place member
      cases elseBranch <;> simp [Node.inStmt, member]
    · cases elseBranch with
      | some branch =>
        apply (returns branch).imp
        intro completion found
        apply found.mono
        intro around place member
        simp [Node.inStmt, member]
      | none => exact .pure Completion.found_normal
  | print value => exact (Ends.any _).bind fun _ _ => (Ends.any _).bind fun _ _ => normally
  | returns keyword value =>
    cases value with
    | none =>
      refine .pure fun v returned around => ?_
      cases returned
      exact ⟨keyword, none, around, by simp [Node.inStmt], rfl, fun _ => rfl⟩
    | some value =>
      refine (Ends.any _).bind fun _ _ => .pure fun v returned around => ?_
      exact ⟨keyword, some value, around, by simp [Node.inStmt], rfl, fun bare => by cases bare⟩
  | traitDecl declaration => exact normally
  | varDecl name value => cases value <;> exact (Ends.any _).bind fun _ _ => normally
  | loop condition body increment =>
    apply ((returns.turn condition body increment).repeatUntil E.turns).imp
    intro completion found
    apply found.mono
    intro around place member
    cases increment <;> simp [Node.inStmt, member]

end Returns

end Engine

/-- By induction on the depth. -/
theorem engine_returns (depth : Nat) : (engine depth).Returns := by
  induction depth with
  | zero => exact fun _ => .throw trivial
  | succ depth ih => exact fun s => ih.executeRule s

/-- In an accepted program no keyword is out of place. -/
theorem complaints_of_accepted (accepted : (resolve program registry).1 = .ok warnings) :
    complaints (Node.inStmts program []) = [] := by
  have said := Resolver.stmts_complains program (Resolver.top_faces registry)
    (Resolver.top_settled registry)
  have clean := (Resolver.verdict_accepts _).mp ⟨warnings, accepted⟩
  rw [Resolver.Says, List.filter_nil, List.nil_append] at said
  rw [← said, List.filter_eq_nil_iff]
  intro d member about
  cases d with
  | error token cause => cases clean _ member
  | unused name => cases about

/-- The places of the `return`s that are looked for. -/
def ReturnsValid (places : List (Node × Around)) : Prop :=
  ∀ keyword value outer, (.stmt (.returns keyword value), outer) ∈ places →
    (Node.stmt (.returns keyword value)).Valid outer

theorem returnsValid_of_accepted (accepted : (resolve program registry).1 = .ok warnings) :
    ReturnsValid (Node.inStmts program []) := by
  intro keyword value outer member
  have silent := List.filterMap_eq_nil_iff.mp (complaints_of_accepted accepted) _ member
  apply Classical.byContradiction
  intro broken
  simp only [Node.complaint?, if_neg broken] at silent
  cases silent

/-- What completes with a return has a function around it. -/
theorem Completion.Found.nearest {places : Around → List (Node × Around)} {v : Value}
    (found : (Completion.returned v).Found places) (valid : ReturnsValid (places around)) :
    ∃ f ∈ Around.nearest around, f.isInitializer = true → v = .nil := by
  obtain ⟨keyword, value, outer, member, same, bare⟩ := found v rfl around
  obtain ⟨f, nearest, plain⟩ := valid keyword value outer member
  refine ⟨f, same ▸ nearest, fun initial => ?_⟩
  cases value with
  | none => exact bare rfl
  | some value => rw [plain rfl] at initial; cases initial

theorem not_returned_of_valid (valid : ReturnsValid (Node.inStmt s [])) (depth : Nat) (m : Machine)
    (v : Value) (m' : Machine) : execute depth s m ≠ .ok (.returned v) m' := by
  intro returned
  obtain ⟨f, nearest, -⟩ := ((engine_returns depth s).results returned).nearest valid
  cases nearest

/-- Top-level statements, with something to be done about a return. -/
def Engine.interpretWith (E : Engine) (onReturn : Value → Eval Unit) : List Stmt → Eval Unit
  | [] => pure ()
  | s :: ss => do
    match ← E.execute s with
    | .flow signal line => Eval.fail line (.escaped signal)
    | .normal => E.interpretWith onReturn ss
    | .returned value => do
      onReturn value
      E.interpretWith onReturn ss

theorem Engine.interpretWith_eq {E : Engine} {ss : List Stmt} (onReturn : Value → Eval Unit)
    (never : ∀ s ∈ ss, ∀ m v m', E.execute s m ≠ .ok (.returned v) m') (m : Machine) :
    E.interpretWith onReturn ss m = E.interpret ss m := by
  induction ss generalizing m with
  | nil => rfl
  | cons s ss ih =>
    have later := ih fun s member => never s (List.mem_cons_of_mem _ member)
    cases ran : E.execute s m with
    | error halt m' =>
      exact (Eval.bind_of_error ran).trans (Eval.bind_of_error ran).symm
    | ok completion m' =>
      refine (Eval.bind_of_ok ran).trans (Eq.trans ?_ (Eval.bind_of_ok ran).symm)
      cases completion with
      | flow signal line => rfl
      | normal => exact later m'
      | returned v => exact absurd ran (never s List.mem_cons_self m v m')

theorem inStmt_subset {s : Stmt} {ss : List Stmt} (member : s ∈ ss) (around : Around) :
    Node.inStmt s around ⊆ Node.inStmts ss around := by
  induction ss with
  | nil => cases member
  | cons first rest ih =>
    rcases List.mem_cons.mp member with rfl | later
    · exact List.subset_append_left _ _
    · exact List.Subset.trans (ih later) (List.subset_append_right _ _)

theorem inFunction_subset {method : MethodDecl} {ms : List MethodDecl} (member : method ∈ ms)
    (parent : Option Reference) (around : Around) :
    Node.inFunction (.method parent method.function.title) method.function around ⊆
      Node.inMethods parent ms around := by
  induction ms with
  | nil => cases member
  | cons first rest ih =>
    obtain ⟨f, isGetter⟩ := first
    rcases List.mem_cons.mp member with rfl | later
    · exact List.subset_append_left _ _
    · exact List.Subset.trans (ih later) (List.subset_append_right _ _)

/-- The body of a method lies in the class, inside the method. -/
theorem body_subset {c : ClassDecl} {method : MethodDecl} (member : method ∈ c.methods)
    (around : Around) :
    Node.inStmts method.function.body (.method c.superclass method.function.title :: around) ⊆
      Node.inStmt (.classDecl c) around := by
  obtain ⟨name, parent, traits, ms, statics⟩ := c
  have whole := inFunction_subset member parent around
  obtain ⟨⟨title, params, body, line⟩, isGetter⟩ := method
  intro place inside
  apply List.mem_cons_of_mem
  apply List.mem_append_left
  apply whole
  exact List.mem_cons_of_mem _ inside

/-- The statements of a part that stands at top level are among those of the program. -/
def Part.TopIn (places : List (Node × Around)) : Part → Prop
  | stmt s => Node.inStmt s [] ⊆ places
  | stmts ss => Node.inStmts ss [] ⊆ places
  | _ => True

theorem Context.eq_nil_of_advance {context : Context} (top : context.advance count = []) :
    context = [] := by
  cases context with
  | nil => rfl
  | cons layer outer => cases layer <;> cases top

/-- A block or a function has a scope around what it holds, so at top level there is none. -/
theorem Enters.topIn (enters : Enters p q) (top : q.context = [])
    (topIn : p.context = [] → p.part.TopIn places) : q.part.TopIn places := by
  cases enters with
  | body | block => cases top
  | @thenBranch _ _ elseBranch =>
    apply List.Subset.trans _ (topIn top)
    intro place member
    cases elseBranch <;> simp [Node.inStmt, member]
  | elseBranch =>
    apply List.Subset.trans _ (topIn top)
    intro place member
    simp [Node.inStmt, member]
  | @loopBody _ _ increment =>
    apply List.Subset.trans _ (topIn top)
    intro place member
    cases increment <;> simp [Node.inStmt, member]
  | firstStmt => exact List.Subset.trans (List.subset_append_left _ _) (topIn top)
  | otherStmts =>
    exact List.Subset.trans (List.subset_append_right _ _) (topIn (Context.eq_nil_of_advance top))
  | _ => trivial

theorem Reaches.topIn (path : Reaches root p) (topIn : root.part.TopIn places)
    (top : p.context = []) : p.part.TopIn places := by
  induction path with
  | refl => exact topIn
  | step _ enters ih => exact enters.topIn top ih

theorem Prepared.topIn (prepared : Prepared root) :
    ∃ places, root.part.TopIn places ∧ ReturnsValid places := by
  cases prepared with
  | program scanned parsed resolved =>
    exact ⟨_, List.Subset.refl _, returnsValid_of_accepted resolved⟩
  | expression scanned parsed resolved =>
    refine ⟨[], trivial, fun _ _ _ member => ?_⟩
    cases member

/-- What is executed with no scope active stands at top level. -/
theorem Happens.returnsValid (happens : Happens depth world steps (.execute s) m)
    (inactive : m.active = none) : ReturnsValid (Node.inStmt s []) := by
  obtain ⟨w, p, rfl, known, event, stands⟩ := happens.site (.inr ⟨s, rfl⟩)
  obtain ⟨part, context, r⟩ := p
  have top : context = [] := by
    cases context with
    | nil => rfl
    | cons layer outer =>
      obtain ⟨id, scope, active, -⟩ := stands
      rw [inactive] at active
      cases active
  obtain ⟨root, begun, loaded, outer, -, path⟩ := known
  obtain ⟨places, topIn, valid⟩ := loaded.prepared.topIn
  have here := (outer.trans path).topIn topIn top
  cases part with
  | stmt s' =>
    cases event
    exact fun keyword value outer member => valid keyword value outer (here member)
  | _ => cases event

/-- Top-level code never returns. No statement of an accepted program completes with a return, in
whatever state it is executed, so what is done about a return at top level makes no difference; and
no session ever sees such a return, however its sources are run or loaded. The body of an accepted
initializer, wherever its class is declared, returns nothing but `nil`. -/
theorem top_level_never_returns :
    (∀ program registry warnings, (resolve program registry).1 = .ok warnings →
      (∀ s ∈ program, ∀ depth m v m', execute depth s m ≠ .ok (.returned v) m') ∧
      (∀ depth onReturn m,
        (engine depth).interpretWith onReturn program m = (engine depth).interpret program m) ∧
      ∀ c around, (.stmt (.classDecl c), around) ∈ Node.inStmts program [] →
        ∀ method ∈ c.methods, method.function.title = "init" → ∀ depth m v m',
          (engine depth).executeAll method.function.body m = .ok (.returned v) m' → v = .nil) ∧
    ∀ depth world steps s m, Happens depth world steps (.execute s) m → m.active = none →
      ∀ depth' v m', execute depth' s m ≠ .ok (.returned v) m' := by
  constructor
  · intro program registry warnings accepted
    have valid := returnsValid_of_accepted accepted
    have never (s) (member : s ∈ program) (depth m v m') :
        execute depth s m ≠ .ok (.returned v) m' := by
      apply not_returned_of_valid
      intro keyword value outer inside
      exact valid keyword value outer (inStmt_subset member [] inside)
    refine ⟨never, fun depth onReturn m => ?_, ?_⟩
    · exact Engine.interpretWith_eq onReturn (fun s member => never s member depth) m
    · intro c around declared method member initial depth m v m' returned
      have found := ((engine_returns depth).executeAll method.function.body).results returned
      have inside := List.Subset.trans (body_subset member around)
        (Node.inStmts_closed program [] _ declared)
      obtain ⟨f, nearest, bare⟩ := found.nearest fun keyword value outer there =>
        valid keyword value outer (inside there)
      cases nearest
      exact bare (decide_eq_true initial)
  · intro depth world steps s m happens inactive depth'
    exact not_returned_of_valid (happens.returnsValid inactive) depth' m

/-- An initializer that returns out of a block, in a class that is declared in a function. -/
def returningInitializer : String :=
  "fun f() \x7b class A \x7b init() \x7b if (true) \x7b return; \x7d \x7d \x7d return A; \x7d if (f) f();"

def endsByReturn : EStateM.Result Halt Machine Completion → Bool
  | .ok (.returned _) _ => true
  | _ => false

theorem returned_of_endsByReturn {r : EStateM.Result Halt Machine Completion}
    (returns : endsByReturn r = true) : ∃ v m', r = .ok (.returned v) m' := by
  obtain ⟨_ | v | _, m'⟩ | _ := r
  · cases returns
  · exact ⟨v, m', rfl⟩
  · cases returns
  · cases returns

/-- The method is an initializer whose body can return. -/
def MethodDecl.returnsInitially (method : MethodDecl) : Bool :=
  method.function.title = "init" &&
    endsByReturn ((engine 6).executeAll method.function.body (.fresh {}))

def Node.returnsInitially : Node → Bool
  | .stmt (.classDecl c) => c.methods.any MethodDecl.returnsInitially
  | _ => false

def atTopLevel : Event → Machine → Bool
  | .execute _, m => m.active.isNone
  | _, _ => false

theorem returningInitializer_returns_nil : ∃ warnings c around method m',
    (resolve (programOf returningInitializer) {}).1 = .ok warnings ∧
    (.stmt (.classDecl c), around) ∈ Node.inStmts (programOf returningInitializer) [] ∧
    method ∈ c.methods ∧ method.function.title = "init" ∧
    (engine 6).executeAll method.function.body (.fresh {}) = .ok (.returned .nil) m' ∧
    ∃ s m, Happens 12 {} [.run returningInitializer] (.execute s) m ∧ m.active = none ∧
      ∀ depth v m', execute depth s m ≠ .ok (.returned v) m' := by
  have accepted : (resolve (programOf returningInitializer) {}).1.isOk = true := by decide +kernel
  have declares : (Node.inStmts (programOf returningInitializer) []).any
      (·.1.returnsInitially) = true := by decide +kernel
  have runs : detects 12 {} [.run returningInitializer] atTopLevel = true := by decide +kernel
  cases verdict : (resolve (programOf returningInitializer) {}).1 with
  | error diagnostics =>
    rw [verdict] at accepted
    cases accepted
  | ok warnings =>
    obtain ⟨-, -, initializers⟩ := top_level_never_returns.1 _ _ _ verdict
    obtain ⟨⟨node, around⟩, member, found⟩ := List.any_eq_true.mp declares
    obtain ⟨event, m, top, happens⟩ := happens_of_detects runs
    rcases node with _ | _ | s
    · cases found
    · cases found
    cases s with
    | classDecl c =>
      obtain ⟨method, own, initial⟩ := List.any_eq_true.mp found
      obtain ⟨named, returns⟩ := Bool.and_eq_true_iff.mp initial
      obtain ⟨v, m', returned⟩ := returned_of_endsByReturn returns
      have named := of_decide_eq_true named
      obtain rfl := initializers c around member method own named 6 _ v m' returned
      refine ⟨warnings, c, around, method, m', rfl, member, own, named, returned, ?_⟩
      cases event with
      | execute s =>
        have inactive := Option.isNone_iff_eq_none.mp top
        exact ⟨s, m, happens, inactive,
          top_level_never_returns.2 12 {} _ s m happens inactive⟩
      | _ => cases top
    | _ => cases found

end Lox
