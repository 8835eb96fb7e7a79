import Lox.Proofs.DistinctNames
import Lox.Proofs.KeywordPlaces
import Lox.Proofs.Sources

/-! Which programs a resolution pass accepts. A program without mixins is accepted if and only if all
its nodes keep their rules. -/

namespace Lox

namespace Resolver

theorem bind_clean (reference : Reference) (r : Resolver) : (r.bind reference).Clean ↔ r.Clean := by
  unfold bind
  split <;> rfl

/-- Warnings are no errors. -/
theorem closeScope_clean (r : Resolver) : r.closeScope.Clean ↔ r.Clean := by
  refine ⟨(closeScope_extends r).clean, fun clean => ?_⟩
  unfold closeScope
  split
  · exact clean
  · intro d member
    obtain old | warning := List.mem_append.mp member
    · exact clean d old
    · obtain ⟨v, -, rfl⟩ := List.mem_map.mp warning
      rfl

theorem read_clean (reference : Reference) (r : Resolver) :
    (r.read reference).Clean ↔ r.Clean ∧ ¬ r.Awaits reference.name.lexeme := by
  unfold read Awaits
  rw [bind_clean]
  cases frames : r.frames with
  | nil => simp
  | cons frame outer =>
    simp only [List.head?_cons, Option.mem_some_iff, exists_eq_left', ← Frame.awaits_iff]
    split <;> simp [clean_error, *]

theorem Judges.clean {r : Resolver} (judges : Judges node around r usual r')
    (silent : usual.Clean ↔ r.Clean) : r'.Clean ↔ r.Clean ∧ node.Valid around := by
  obtain ⟨valid, rfl⟩ | ⟨broken, token, cause, -, -, rfl⟩ := judges
  · rw [silent, and_iff_left valid]
  · simp [clean_error, broken]

/-- A part that reads variables outside of functions is accepted if none of them awaits its
initializer and all nodes keep their rules. -/
def Admits (reads : List String) (nodes : List (Node × Around)) (r r' : Resolver) : Prop :=
  r'.Clean ↔ r.Clean ∧ (∀ name ∈ reads, ¬ r.Awaits name) ∧ AllValid nodes

/-- A part that declares names is accepted if the innermost scope can take them and all nodes keep
their rules. -/
def Accepts (new : List String) (nodes : List (Node × Around)) (r r' : Resolver) : Prop :=
  r'.Clean ↔ r.Clean ∧ Fresh new r ∧ AllValid nodes

section

variable {r r' r'' : Resolver}

theorem Admits.refl (r : Resolver) : Admits [] [] r r := by
  simp [Admits, AllValid]

theorem Admits.trans (first : Admits a m r r') (same : r'.standpoint = r.standpoint)
    (second : Admits b n r' r'') : Admits (a ++ b) (m ++ n) r r'' := by
  unfold Admits at *
  simp only [second, first, allValid_append, awaits_congr same, List.forall_mem_append]
  constructor
  · rintro ⟨⟨clean, readFirst, validFirst⟩, readSecond, validSecond⟩
    exact ⟨clean, ⟨readFirst, readSecond⟩, validFirst, validSecond⟩
  · rintro ⟨clean, ⟨readFirst, readSecond⟩, validFirst, validSecond⟩
    exact ⟨⟨clean, readFirst, validFirst⟩, readSecond, validSecond⟩

theorem Admits.skip (valid : node.Valid around) (rest : Admits a m r r') :
    Admits a ((node, around) :: m) r r' := by
  rw [Admits, allValid_cons, and_iff_right valid]
  exact rest

theorem Judges.admits (judges : Judges node around r usual r') (silent : usual.Clean ↔ r.Clean) :
    Admits [] [(node, around)] r r' := by
  simp [Admits, judges.clean silent, AllValid]

theorem read_admits (reference : Reference) (r : Resolver) :
    Admits [reference.name.lexeme] [] r (r.read reference) := by
  simp [Admits, read_clean, AllValid]

/-- A part without reads outside of functions. -/
theorem admits_nil : Admits [] m r r' ↔ (r'.Clean ↔ r.Clean ∧ AllValid m) := by
  simp [Admits]

/-- Between statements no initializer is awaited. -/
theorem Admits.accepts (admits : Admits a m r r') (settled : r.Settled) : Accepts [] m r r' := by
  unfold Admits at admits
  rw [Accepts, admits, and_iff_right (Fresh.nil r),
    and_iff_right fun name _ => settled.not_awaits name]

theorem Accepts.refl (r : Resolver) : Accepts [] [] r r := by
  simp [Accepts, AllValid, Fresh.nil]

theorem Accepts.skip (valid : node.Valid around) (rest : Accepts a m r r') :
    Accepts a ((node, around) :: m) r r' := by
  rw [Accepts, allValid_cons, and_iff_right valid]
  exact rest

theorem Accepts.trans (first : Accepts a m r r') (keeps : r'.Clean → Keeps a r r')
    (second : Accepts b n r' r'') : Accepts (a ++ b) (m ++ n) r r'' := by
  unfold Accepts at *
  rw [second, allValid_append]
  constructor
  · rintro ⟨clean, freshSecond, validSecond⟩
    obtain ⟨before, freshFirst, validFirst⟩ := first.mp clean
    have fresh := (fresh_append (keeps clean)).mpr ⟨freshFirst, freshSecond⟩
    exact ⟨before, fresh, validFirst, validSecond⟩
  · rintro ⟨before, fresh, validFirst, validSecond⟩
    have clean := first.mpr ⟨before, fresh.left, validFirst⟩
    exact ⟨clean, ((fresh_append (keeps clean)).mp fresh).2, validSecond⟩

theorem introduce_accepts (name : Token) (r : Resolver) :
    Accepts [name.lexeme] [] r (r.introduce name) := by
  simp [Accepts, introduce_clean, AllValid]

end

theorem superclass_clean {r : Resolver} (settled : r.Settled) (owner : Token)
    (parent : Option Reference) : (r.superclass owner parent).Clean ↔
      r.Clean ∧ ∀ p ∈ parent, p.name.lexeme ≠ owner.lexeme := by
  unfold superclass
  cases parent with
  | none =>
    simp only [Option.mem_def, reduceCtorEq, false_implies, implies_true, and_true]
    rfl
  | some parent =>
    simp only [Option.mem_some_iff, forall_eq', read_clean]
    split
    · rename_i same
      simp only [same, ne_eq, not_true_eq_false, and_false, iff_false, not_and]
      exact fun clean => (not_clean_error clean).elim
    · rename_i other
      rw [and_iff_left other, and_iff_left]
      · rfl
      · exact settled.not_awaits parent.name.lexeme

theorem enterClass_clean {r : Resolver} (settled : r.Settled) (name : Token)
    (parent : Option Reference) : (r.enterClass name parent []).2.Clean ↔
      r.Clean ∧ Fresh [name.lexeme] r ∧ ∀ p ∈ parent, p.name.lexeme ≠ name.lexeme := by
  have opened : (r.enterClass name parent []).2.Clean ↔
      ((r.superclass name parent).introduce name).Clean := by
    unfold enterClass openClass
    dsimp only
    split <;> rfl
  rw [opened, introduce_clean, superclass_clean settled,
    fresh_congr (superclass_keeps name parent r).1, and_assoc, and_comm (b := Fresh _ r)]

theorem provide_nothing (owner : Token) (f : FunctionDecl) (r : Resolver) :
    r.provide owner f {} = ({}, r) := by
  unfold provide
  rw [Std.TreeMap.getElem?_emptyc]
  split
  · rename_i absent
    cases absent
  · rfl

theorem enterStatics_clean (name : Token) (r : Resolver) :
    (r.enterStatics name {}).Clean ↔ r.Clean := Iff.rfl

theorem closeClass_clean (parent : Option Reference) (r : Resolver) :
    (r.closeClass parent).Clean ↔ r.Clean := by
  unfold closeClass
  split
  · rw [closeScope_clean, closeScope_clean]
  · exact closeScope_clean r

theorem declare_awaits {r : Resolver} (settled : r.Settled) (clean : (r.declare name).Clean) :
    (r.declare name).Awaits x ↔ r.frames ≠ [] ∧ x = name.lexeme := by
  unfold declare extend at *
  unfold Awaits
  cases frames : r.frames with
  | nil => simp [frames]
  | cons frame outer =>
    rw [frames] at clean
    dsimp only at clean ⊢
    have none : frame.awaited = [] := settled frame (by rw [frames]; rfl)
    split at clean
    · exact (not_clean_error clean).elim
    · rename_i absent
      simp [absent, Frame.awaited_append, none]

mutual

theorem expr_admits : (e : Expr) → {around : Around} → {r : Resolver} → Faces around r →
    Unmixed (Node.inExpr e around) → Admits e.reads (Node.inExpr e around) r (expr e r)
  | .assign target value, _, _, faces, unmixed =>
    .skip trivial <| (bind_clean target _).trans <|
      expr_admits value faces (unmixed_cons.mp unmixed).2
  | .binary left _ right, _, r, faces, unmixed | .logical left _ right, _, r, faces, unmixed => by
    obtain ⟨onLeft, onRight⟩ := unmixed_append.mp (unmixed_cons.mp unmixed).2
    have same := expr_standpoint left r
    exact .skip trivial <| (expr_admits left faces onLeft).trans same
      (expr_admits right (faces.of_eq same) onRight)
  | .call callee _ arguments, _, r, faces, unmixed => by
    obtain ⟨onCallee, onArguments⟩ := unmixed_append.mp (unmixed_cons.mp unmixed).2
    have same := expr_standpoint callee r
    exact .skip trivial <| (expr_admits callee faces onCallee).trans same
      (exprs_admits arguments (faces.of_eq same) onArguments)
  | .property object _, _, _, faces, unmixed =>
    .skip trivial (expr_admits object faces (unmixed_cons.mp unmixed).2)
  | .group inner, _, _, faces, unmixed =>
    .skip trivial (expr_admits inner faces (unmixed_cons.mp unmixed).2)
  | .lambda f, _, _, faces, unmixed =>
    .skip trivial <|
      function_admits .function rfl f (faces.enclosed rfl) (unmixed_cons.mp unmixed).2
  | .literal _, _, r, _, _ => .skip trivial (.refl r)
  | .setProperty object _ value, _, r, faces, unmixed => by
    obtain ⟨onValue, onObject⟩ := unmixed_append.mp (unmixed_cons.mp unmixed).2
    have same := expr_standpoint value r
    exact .skip trivial <| (expr_admits value faces onValue).trans same
      (expr_admits object (faces.of_eq same) onObject)
  | .superRef keyword method, _, r, faces, _ =>
    (readSuper_judges faces keyword method).admits (bind_clean keyword r)
  | .ternary condition thenValue elseValue, _, r, faces, unmixed => by
    obtain ⟨onCondition, rest⟩ := unmixed_append.mp (unmixed_cons.mp unmixed).2
    obtain ⟨onThen, onElse⟩ := unmixed_append.mp rest
    have asked := expr_standpoint condition r
    have taken := expr_standpoint thenValue (expr condition r)
    refine .skip trivial <| (expr_admits condition faces onCondition).trans asked ?_
    exact (expr_admits thenValue (faces.of_eq asked) onThen).trans taken
      (expr_admits elseValue (faces.of_eq (taken.trans asked)) onElse)
  | .thisRef keyword, _, r, faces, _ => (readThis_judges faces keyword).admits (bind_clean keyword r)
  | .unary _ right, _, _, faces, unmixed =>
    .skip trivial (expr_admits right faces (unmixed_cons.mp unmixed).2)
  | .varRef reference, _, r, _, _ => .skip trivial (read_admits reference r)

theorem exprs_admits : (es : List Expr) → {around : Around} → {r : Resolver} → Faces around r →
    Unmixed (Node.inExprs es around) →
    Admits (Expr.readsOf es) (Node.inExprs es around) r (exprs es r)
  | [], _, r, _, _ => .refl r
  | e :: es, _, r, faces, unmixed => by
    obtain ⟨onFirst, onRest⟩ := unmixed_append.mp unmixed
    have same := expr_standpoint e r
    exact (expr_admits e faces onFirst).trans same (exprs_admits es (faces.of_eq same) onRest)

/-- The parameters and the names of the body are all new in the scope of a function. -/
theorem function_admits (kind : Enclosure) (real : kind.isFunction = true) : (f : FunctionDecl) →
    {around : Around} → {r : Resolver} → r.classKind = Around.classKind (kind :: around) →
    Unmixed (Node.inFunction kind f around) →
    Admits [] (Node.inFunction kind f around) r (function kind.functionKind f r)
  | ⟨name, params, body, line⟩, around, r, inside, unmixed => by
    have faces := enterFunction_faces real inside params
    have entered : Accepts (params.map Token.lexeme) [] r.openScope
        (r.enterFunction kind.functionKind params) := by
      simp only [Accepts, AllValid, List.not_mem_nil, false_implies, implies_true, and_true]
      exact introduceAll_clean params { r with functionKind := kind.functionKind }.openScope
    have keeps (clean : (r.enterFunction kind.functionKind params).Clean) :
        Keeps (params.map Token.lexeme) r.openScope
          (r.enterFunction kind.functionKind params) :=
      ⟨enterFunction_names clean, enterFunction_classKind clean⟩
    have walked := entered.trans keeps <| stmts_accepts body faces
      (enterFunction_settled kind.functionKind params r) (unmixed_cons.mp unmixed).2
    have left : (function kind.functionKind ⟨name, params, body, line⟩ r).Clean ↔
        (stmts body (r.enterFunction kind.functionKind params)).Clean := closeScope_clean _
    simp only [Accepts, fresh_openScope, List.nil_append] at walked
    unfold Node.inFunction
    rw [admits_nil, left, walked, allValid_cons]
    rfl

theorem functions_admits (kind : Enclosure) (real : kind.isFunction = true) :
    (fs : List FunctionDecl) → {around : Around} → {r : Resolver} →
    r.classKind = Around.classKind (kind :: around) → Unmixed (Node.inFunctions kind fs around) →
    Admits [] (Node.inFunctions kind fs around) r (functions kind.functionKind fs r)
  | [], _, r, _, _ => .refl r
  | f :: fs, _, r, inside, unmixed => by
    obtain ⟨onFirst, onRest⟩ := unmixed_append.mp unmixed
    have same := function_standpoint kind.functionKind f r
    exact (function_admits kind real f inside onFirst).trans same
      (functions_admits kind real fs ((classKind_eq same).trans inside) onRest)

/-- Of a class without mixins no methods are asked for. -/
theorem methods_admits (owner : Token) (parent : Option Reference) : (ms : List MethodDecl) →
    {around : Around} → {r : Resolver} → r.classKind = kindOfClass parent →
    Unmixed (Node.inMethods parent ms around) → (methods owner ms {} r).1 = {} ∧
      Admits [] (Node.inMethods parent ms around) r (methods owner ms {} r).2
  | [], _, r, _, _ => ⟨rfl, .refl r⟩
  | ⟨f, _⟩ :: ms, around, r, inside, unmixed => by
    obtain ⟨onFirst, onRest⟩ := unmixed_append.mp unmixed
    have same := function_standpoint (methodKind f) f r
    have own : Admits [] (Node.inFunction (.method parent f.title) f around) r
        (function (methodKind f) f r) := function_admits (.method parent f.title) rfl f inside onFirst
    obtain ⟨nothing, rest⟩ :=
      methods_admits owner parent ms ((classKind_eq same).trans inside) onRest
    unfold methods
    rw [provide_nothing]
    exact ⟨nothing, own.trans same rest⟩

theorem stmt_accepts : (s : Stmt) → {around : Around} → {r : Resolver} → Faces around r →
    r.Settled → Unmixed (Node.inStmt s around) →
    Accepts s.declared (Node.inStmt s around) r (stmt s r)
  | .block body, around, r, faces, _, unmixed => by
    have walked := stmts_accepts body faces.openScope (openScope_settled r)
      (unmixed_cons.mp unmixed).2
    have left : (stmt (.block body) r).Clean ↔ (stmts body r.openScope).Clean := closeScope_clean _
    simp only [Accepts, fresh_openScope] at walked
    unfold Node.inStmt
    rw [Accepts, left, walked, Stmt.declared, and_iff_right (Fresh.nil r), allValid_cons]
    rfl
  | .classDecl ⟨name, parent, traits, ms, statics⟩, around, r, faces, settled, unmixed => by
    obtain ⟨none, members⟩ := unmixed_cons.mp unmixed
    obtain ⟨onMethods, onStatics⟩ := unmixed_append.mp members
    obtain rfl : traits = [] := none
    have entered := congrArg Standpoint.classKind (enterClass_standpoint settled name parent [])
    obtain ⟨nothing, provided⟩ := methods_admits name parent ms entered onMethods
    generalize body : methods name ms {} (r.enterClass name parent []).2 = walked at nothing provided
    obtain ⟨required, inside⟩ := walked
    obtain rfl : required = {} := nothing
    have left : (stmt (.classDecl ⟨name, parent, [], ms, statics⟩) r).Clean ↔
        (functions .method statics (inside.enterStatics name {})).Clean := by
      have closed := closeClass_clean parent (functions .method statics
        ((methods name ms {} (r.enterClass name parent []).2).2.enterStatics name
          (methods name ms {} (r.enterClass name parent []).2).1))
      rw [body] at closed
      rw [← closed, ← body]
      rfl
    have static : (functions .method statics (inside.enterStatics name {})).Clean ↔ _ :=
      admits_nil.mp <| functions_admits .static rfl statics
        (congrArg Standpoint.classKind (enterStatics_standpoint name {} inside)) onStatics
    unfold Node.inStmt
    rw [Accepts, left, static, enterStatics_clean, admits_nil.mp provided, enterClass_clean settled,
      allValid_cons, allValid_append]
    constructor
    · rintro ⟨⟨⟨clean, fresh, valid⟩, onMethods⟩, onStatics⟩
      exact ⟨clean, fresh, valid, onMethods, onStatics⟩
    · rintro ⟨clean, fresh, valid, onMethods, onStatics⟩
      exact ⟨⟨⟨clean, fresh, valid⟩, onMethods⟩, onStatics⟩
  | .expression value, _, _, faces, settled, unmixed
  | .print value, _, _, faces, settled, unmixed =>
    .skip trivial ((expr_admits value faces (unmixed_cons.mp unmixed).2).accepts settled)
  | .flow _ _, _, r, _, _, _ => .skip trivial (.refl r)
  | .functionDecl ⟨some name, params, body, line⟩, _, r, faces, settled, unmixed => by
    have same := introduce_standpoint settled name
    have own := function_admits .function rfl ⟨some name, params, body, line⟩
      ((faces.of_eq same).enclosed rfl) (unmixed_cons.mp unmixed).2
    exact .skip trivial <| (introduce_accepts name r).trans introduce_keeps
      (own.accepts (settled.of_eq same))
  | .functionDecl ⟨none, params, body, line⟩, _, _, faces, settled, unmixed =>
    .skip trivial <| (function_admits .function rfl ⟨none, params, body, line⟩ (faces.enclosed rfl)
      (unmixed_cons.mp unmixed).2).accepts settled
  | .ifElse condition thenBranch none, _, r, faces, settled, unmixed => by
    obtain ⟨onCondition, onThen⟩ := unmixed_append.mp (unmixed_cons.mp unmixed).2
    have asked := expr_standpoint condition r
    exact .skip trivial <| ((expr_admits condition faces onCondition).accepts settled).trans
      (expr_keeps condition r)
      (stmt_accepts thenBranch (faces.of_eq asked) (settled.of_eq asked) onThen)
  | .ifElse condition thenBranch (some elseBranch), _, r, faces, settled, unmixed => by
    obtain ⟨onCondition, rest⟩ := unmixed_append.mp (unmixed_cons.mp unmixed).2
    obtain ⟨onThen, onElse⟩ := unmixed_append.mp rest
    have asked := expr_standpoint condition r
    have taken := (stmt_standpoint thenBranch (settled.of_eq asked)).trans asked
    refine .skip trivial <| ((expr_admits condition faces onCondition).accepts settled).trans
      (expr_keeps condition r) ?_
    exact (stmt_accepts thenBranch (faces.of_eq asked) (settled.of_eq asked) onThen).trans
      (stmt_keeps thenBranch _)
      (stmt_accepts elseBranch (faces.of_eq taken) (settled.of_eq taken) onElse)
  | .returns keyword none, _, _, faces, settled, _ =>
    ((bareReturn_judges faces keyword).admits Iff.rfl).accepts settled
  | .returns keyword (some value), _, r, faces, settled, unmixed => by
    have same := checkReturn_standpoint keyword r
    have judged := (checkReturn_judges faces keyword value).admits Iff.rfl
    exact (judged.trans same
      (expr_admits value (faces.of_eq same) (unmixed_cons.mp unmixed).2)).accepts settled
  | .traitDecl ⟨name, signatures, defaults⟩, around, r, _, settled, unmixed => by
    have entered := congrArg Standpoint.classKind (enterTrait_standpoint settled name)
    have left : (stmt (.traitDecl ⟨name, signatures, defaults⟩) r).Clean ↔
        (functions .method defaults (r.enterTrait name)).Clean := closeScope_clean _
    have inside : (functions .method defaults (r.enterTrait name)).Clean ↔ _ :=
      admits_nil.mp <| functions_admits .default rfl defaults entered (unmixed_cons.mp unmixed).2
    have introduced : (r.enterTrait name).Clean ↔ r.Clean ∧ Fresh [name.lexeme] r :=
      introduce_clean name { r with classKind := .trait }
    refine .skip trivial ?_
    rw [Accepts, left, inside, introduced, and_assoc]
    rfl
  | .varDecl name none, _, r, _, _, _ => .skip trivial (introduce_accepts name r)
  | .varDecl name (some value), around, r, faces, settled, unmixed => by
    have inside := expr_admits value (faces.declare name) (unmixed_cons.mp unmixed).2
    have left : (stmt (.varDecl name (some value)) r).Clean ↔
        (expr value (r.declare name)).Clean := define_clean name _
    have allowed (clean : (r.declare name).Clean) :
        (∀ x ∈ value.reads, ¬ (r.declare name).Awaits x) ↔
          (Node.stmt (.varDecl name (some value))).Valid around := by
      simp only [declare_awaits settled clean, ne_eq, faces.top, not_and]
      exact ⟨fun free nested member => free _ member nested rfl,
        fun free x member nested same => free nested (same ▸ member)⟩
    unfold Node.inStmt Accepts
    unfold Admits at inside
    rw [left, inside, allValid_cons, Stmt.declared, ← and_assoc (c := _ ∧ _), ← declare_clean]
    exact and_congr_right fun clean => and_congr_left fun _ => allowed clean
  | .loop condition body none, _, r, faces, settled, unmixed => by
    obtain ⟨onCondition, onBody⟩ := unmixed_append.mp (unmixed_cons.mp unmixed).2
    have asked := expr_standpoint condition r
    exact .skip trivial <| ((expr_admits condition faces onCondition).accepts settled).trans
      (expr_keeps condition r)
      (stmt_accepts body (faces.of_eq asked) (settled.of_eq asked) onBody)
  | .loop condition body (some increment), _, r, faces, settled, unmixed => by
    obtain ⟨onCondition, rest⟩ := unmixed_append.mp (unmixed_cons.mp unmixed).2
    obtain ⟨onBody, onIncrement⟩ := unmixed_append.mp rest
    have asked := expr_standpoint condition r
    have turned := (stmt_standpoint body (settled.of_eq asked)).trans asked
    have body' := (stmt_accepts body (faces.of_eq asked) (settled.of_eq asked) onBody).trans
      (stmt_keeps body _)
      ((expr_admits increment (faces.of_eq turned) onIncrement).accepts (settled.of_eq turned))
    rw [List.append_nil] at body'
    exact .skip trivial <| ((expr_admits condition faces onCondition).accepts settled).trans
      (expr_keeps condition r) body'

theorem stmts_accepts : (ss : List Stmt) → {around : Around} → {r : Resolver} → Faces around r →
    r.Settled → Unmixed (Node.inStmts ss around) →
    Accepts (declared ss) (Node.inStmts ss around) r (stmts ss r)
  | [], _, r, _, _, _ => .refl r
  | s :: ss, _, r, faces, settled, unmixed => by
    obtain ⟨onFirst, onRest⟩ := unmixed_append.mp unmixed
    have same := stmt_standpoint s settled
    exact (stmt_accepts s faces settled onFirst).trans (stmt_keeps s r)
      (stmts_accepts ss (faces.of_eq same) (settled.of_eq same) onRest)

end

theorem verdict_accepts (r : Resolver) : (∃ warnings, r.verdict.1 = .ok warnings) ↔ r.Clean := by
  constructor
  · rintro ⟨warnings, accepted⟩
    exact (clean_of_verdict (Prod.ext accepted rfl)).1
  · intro clean
    have faultless : r.diagnostics.any Diagnostic.isError = false := by
      rw [List.any_eq_false]
      exact fun d member => Bool.eq_false_iff.mp (clean d member)
    exact ⟨_, congrArg Prod.fst (verdict_eq_ok.mpr ⟨faultless, rfl, rfl⟩)⟩

theorem top_faces (registry : Registry) : Faces [] { registry } :=
  ⟨rfl, rfl, Iff.intro (fun _ => rfl) (fun _ => rfl)⟩

theorem top_settled (registry : Registry) : Settled { registry } :=
  fun _ innermost => by cases innermost

end Resolver

/-- A program without mixins is accepted if and only if all its nodes keep their rules. In any
program, every `return`, `this` and `super` that breaks its rule is reported for itself, in the order
of the pass, whatever else is wrong. -/
theorem resolve_accepts_valid (program : List Stmt) (registry : Registry) :
    (Unmixed (Node.inStmts program []) →
      ((∃ warnings, (resolve program registry).1 = .ok warnings) ↔
        AllValid (Node.inStmts program []))) ∧
    (Resolver.reported (resolve program registry).1).filter Diagnostic.aboutPlace =
      complaints (Node.inStmts program []) := by
  have faces := Resolver.top_faces registry
  have settled := Resolver.top_settled registry
  constructor
  · intro unmixed
    have accepts := Resolver.stmts_accepts program faces settled unmixed
    unfold Resolver.Accepts at accepts
    -- The top level has no scope that could have a name twice, and nothing is reported at first.
    have fresh : Resolver.Fresh (declared program) { registry } := fun _ scope => by cases scope
    have clean : Resolver.Clean { registry } := fun _ member => by cases member
    rw [resolve, Resolver.verdict_accepts, accepts, and_iff_right clean, and_iff_right fresh]
  · rw [resolve, Resolver.reported_verdict]
    exact Resolver.stmts_complains program faces settled

/-- A subclass in a function, with keywords in their places and out of them. -/
def misplacedKeywords : String :=
  "fun f(a) \x7b class A \x7b\x7d class B < A \x7b init() \x7b fun g() \x7b return super.m; \x7d " ++
    "return this; \x7d class m() \x7b return this; \x7d \x7d var a = fun () \x7b return a; \x7d; \x7d " ++
    "return super.m;"

theorem misplacedKeywords_rejected :
    Unmixed (Node.inStmts (programOf misplacedKeywords) []) ∧
    (¬ ∃ warnings, (resolve (programOf misplacedKeywords) {}).1 = .ok warnings) ∧
    ((Resolver.reported (resolve (programOf misplacedKeywords) {}).1).filter
      Diagnostic.aboutPlace).map Diagnostic.message =
        ["[line 1] Error at 'return': Can't return a value from an initializer.",
          "[line 1] Error at 'this': Can't use 'this' within a static method.",
          "[line 1] Error at 'return': Can't return from top-level code.",
          "[line 1] Error at 'super': Can't use 'super' outside of a class."] := by
  obtain ⟨accepts, reports⟩ := resolve_accepts_valid (programOf misplacedKeywords) {}
  rw [reports]
  suffices Unmixed (Node.inStmts (programOf misplacedKeywords) []) ∧
      ¬ AllValid (Node.inStmts (programOf misplacedKeywords) []) ∧ _ from
    ⟨this.1, mt (accepts this.1).mp this.2.1, this.2.2⟩
  decide +kernel

end Lox
