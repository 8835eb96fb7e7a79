import Lox.Proofs.StaticRules

/-! Whatever else is wrong in a program, a resolution pass reports every `return`, `this` and `super`
that breaks its rule, in the order of the pass. -/

namespace Lox

namespace Resolver

/-- A later state of a pass, with these complaints about places of keywords. -/
def Says (new : List Diagnostic) (r r' : Resolver) : Prop :=
  r'.diagnostics.filter Diagnostic.aboutPlace = r.diagnostics.filter Diagnostic.aboutPlace ++ new

namespace Says

variable {r r' r'' : Resolver}

theorem of_eq (same : r'.diagnostics = r.diagnostics) : Says [] r r' := by
  rw [Says, same, List.append_nil]

theorem trans (first : Says a r r') (second : Says b r' r'') : Says (a ++ b) r r'' := by
  rw [Says, second, first, List.append_assoc]

theorem quiet_trans (first : Says [] r r') (second : Says a r' r'') : Says a r r'' :=
  first.trans second

theorem trans_quiet (first : Says a r r') (second : Says [] r' r'') : Says a r r'' :=
  List.append_nil a ▸ first.trans second

theorem append (first : Says (complaints a) r r') (second : Says (complaints b) r' r'') :
    Says (complaints (a ++ b)) r r'' := complaints_append ▸ first.trans second

theorem skip (uncharged : node.charge around = none) (rest : Says (complaints a) r r') :
    Says (complaints ((node, around) :: a)) r r' := by
  rw [complaints_cons, complaint?_uncharged uncharged]
  exact rest

end Says

theorem Judges.complains {r : Resolver} (judges : Judges node around r usual r')
    (silent : Says [] r usual) : Says (node.complaint? around).toList r r' := by
  unfold Node.complaint?
  obtain ⟨valid, rfl⟩ | ⟨broken, token, cause, charged, about, rfl⟩ := judges
  · rw [if_pos valid]
    exact silent
  · rw [if_neg broken, charged, Says, error, List.filter_append, List.filter_cons, if_pos about]
    rfl

theorem Judges.says_only {r : Resolver} (judges : Judges node around r usual r')
    (silent : Says [] r usual) : Says (complaints [(node, around)]) r r' := by
  rw [complaints_cons]
  exact (judges.complains silent).trans (.of_eq rfl)

theorem error_complains (other : (Diagnostic.error token cause).aboutPlace = false) (r : Resolver) :
    Says [] r (r.error token cause) := by
  rw [Says, error, List.filter_append, List.filter_cons, if_neg (by simp [other])]
  rfl

theorem closeScope_complains (r : Resolver) : Says [] r r.closeScope := by
  unfold closeScope
  split
  · exact .of_eq rfl
  · have warnings (frame : Frame) : frame.warnings.filter Diagnostic.aboutPlace = [] := by
      rw [List.filter_eq_nil_iff]
      intro d member
      obtain ⟨v, -, rfl⟩ := List.mem_map.mp member
      exact Bool.false_ne_true
    rw [Says, List.filter_append, warnings]

theorem declare_complains (name : Token) (r : Resolver) : Says [] r (r.declare name) := by
  unfold declare extend
  split
  · exact .of_eq rfl
  · split
    · exact error_complains rfl r
    · split <;> exact .of_eq rfl

theorem define_complains (name : Token) (r : Resolver) : Says [] r (r.define name) := by
  unfold define
  split <;> exact .of_eq rfl

theorem introduce_complains (name : Token) (r : Resolver) : Says [] r (r.introduce name) :=
  (declare_complains name r).trans (define_complains ..)

theorem bind_complains (reference : Reference) (r : Resolver) : Says [] r (r.bind reference) := by
  unfold bind
  split <;> exact .of_eq rfl

theorem read_complains (reference : Reference) (r : Resolver) : Says [] r (r.read reference) := by
  unfold read
  extract_lets awaited
  cases awaited with
  | true => exact (error_complains rfl r).trans (bind_complains ..)
  | false => exact bind_complains ..

theorem mixins_complains (traits : List Reference) (required : Required) (r : Resolver) :
    Says [] r (r.mixins traits required).2 := by
  induction traits generalizing required r with
  | nil => exact .of_eq rfl
  | cons t ts ih =>
    unfold mixins
    refine (read_complains t r).trans ?_
    dsimp only
    split
    · exact ih ..
    · exact (error_complains rfl _).trans (ih ..)

theorem provide_complains (owner : Token) (f : FunctionDecl) (required : Required) (r : Resolver) :
    Says [] r (r.provide owner f required).2 := by
  unfold provide
  split
  · dsimp only
    split
    · exact .of_eq rfl
    · exact error_complains rfl r
  · exact .of_eq rfl

theorem superclass_complains (owner : Token) (parent : Option Reference) (r : Resolver) :
    Says [] r (r.superclass owner parent) := by
  unfold superclass
  cases parent with
  | none => exact .of_eq rfl
  | some parent =>
    dsimp only
    split
    · exact (error_complains rfl r).trans (read_complains parent { r.error .. with classKind := .subclass })
    · exact read_complains parent { r with classKind := .subclass }

theorem enterClass_complains (name : Token) (parent : Option Reference) (traits : List Reference)
    (r : Resolver) : Says [] r (r.enterClass name parent traits).2 := by
  refine (superclass_complains name parent r).trans <| (mixins_complains traits {} _).trans <|
    (introduce_complains name _).trans ?_
  unfold enterClass openClass
  dsimp only
  split <;> exact .of_eq rfl

theorem enterStatics_complains (name : Token) (required : Required) (r : Resolver) :
    Says [] r (r.enterStatics name required) := by
  unfold enterStatics checkProvided
  split
  · exact .of_eq rfl
  · exact error_complains rfl r

theorem closeClass_complains (parent : Option Reference) (r : Resolver) :
    Says [] r (r.closeClass parent) := by
  unfold closeClass
  split
  · exact (closeScope_complains r).trans (closeScope_complains _)
  · exact closeScope_complains r

theorem enterTrait_complains (name : Token) (r : Resolver) : Says [] r (r.enterTrait name) :=
  introduce_complains name { r with classKind := .trait }

theorem enterFunction_complains (kind : FunctionKind) (params : List Token) (r : Resolver) :
    Says [] r (r.enterFunction kind params) := by
  have each (r : Resolver) : Says [] r (params.foldl (fun r p => r.introduce p) r) := by
    induction params generalizing r with
    | nil => exact .of_eq rfl
    | cons p ps ih => exact (introduce_complains p r).trans (ih _)
  exact each { r with functionKind := kind }.openScope

mutual

theorem expr_complains : (e : Expr) → {around : Around} → {r : Resolver} → Faces around r →
    Says (complaints (Node.inExpr e around)) r (expr e r)
  | .assign target value, _, _, faces =>
    .skip rfl ((expr_complains value faces).trans_quiet (bind_complains target _))
  | .binary left _ right, _, r, faces | .logical left _ right, _, r, faces =>
    .skip rfl ((expr_complains left faces).append
      (expr_complains right (faces.of_eq (expr_standpoint left r))))
  | .call callee _ arguments, _, r, faces =>
    .skip rfl ((expr_complains callee faces).append
      (exprs_complains arguments (faces.of_eq (expr_standpoint callee r))))
  | .property object _, _, _, faces => .skip rfl (expr_complains object faces)
  | .group inner, _, _, faces => .skip rfl (expr_complains inner faces)
  | .lambda f, _, _, faces => .skip rfl (function_complains .function rfl f (faces.enclosed rfl))
  | .literal _, _, _, _ => .skip rfl (.of_eq rfl)
  | .setProperty object _ value, _, r, faces =>
    .skip rfl ((expr_complains value faces).append
      (expr_complains object (faces.of_eq (expr_standpoint value r))))
  | .superRef keyword method, _, r, faces =>
    (readSuper_judges faces keyword method).says_only (bind_complains keyword r)
  | .ternary condition thenValue elseValue, _, r, faces => by
    have asked := faces.of_eq (expr_standpoint condition r)
    refine .skip rfl ((expr_complains condition faces).append ?_)
    exact (expr_complains thenValue asked).append
      (expr_complains elseValue (asked.of_eq (expr_standpoint thenValue _)))
  | .thisRef keyword, _, r, faces =>
    (readThis_judges faces keyword).says_only (bind_complains keyword r)
  | .unary _ right, _, _, faces => .skip rfl (expr_complains right faces)
  | .varRef reference, _, r, _ => .skip rfl (read_complains reference r)

theorem exprs_complains : (es : List Expr) → {around : Around} → {r : Resolver} → Faces around r →
    Says (complaints (Node.inExprs es around)) r (exprs es r)
  | [], _, _, _ => .of_eq rfl
  | e :: es, _, r, faces =>
    (expr_complains e faces).append (exprs_complains es (faces.of_eq (expr_standpoint e r)))

theorem function_complains (kind : Enclosure) (real : kind.isFunction = true) : (f : FunctionDecl) →
    {around : Around} → {r : Resolver} → r.classKind = Around.classKind (kind :: around) →
    Says (complaints (Node.inFunction kind f around)) r (function kind.functionKind f r)
  | ⟨_, params, body, _⟩, around, r, inside => by
    have faces := enterFunction_faces real inside params
    refine .skip rfl ((enterFunction_complains kind.functionKind params r).quiet_trans ?_)
    exact (stmts_complains body faces (enterFunction_settled _ params r)).trans_quiet (closeScope_complains _)

theorem functions_complains (kind : Enclosure) (real : kind.isFunction = true) :
    (fs : List FunctionDecl) → {around : Around} → {r : Resolver} →
    r.classKind = Around.classKind (kind :: around) →
    Says (complaints (Node.inFunctions kind fs around)) r (functions kind.functionKind fs r)
  | [], _, _, _ => .of_eq rfl
  | f :: fs, _, r, inside => by
    have same := classKind_eq (function_standpoint kind.functionKind f r)
    exact (function_complains kind real f inside).append (functions_complains kind real fs (same.trans inside))

theorem methods_complains (owner : Token) (parent : Option Reference) : (ms : List MethodDecl) →
    (required : Required) → {around : Around} → {r : Resolver} →
    r.classKind = kindOfClass parent →
    Says (complaints (Node.inMethods parent ms around)) r (methods owner ms required r).2
  | [], _, _, _, _ => .of_eq rfl
  | ⟨f, _⟩ :: ms, required, around, r, inside => by
    have provided := (classKind_eq (provide_standpoint owner f required r)).trans inside
    have passed := classKind_eq (function_standpoint (methodKind f) f (r.provide owner f required).2)
    have own : Says (complaints (Node.inFunction (.method parent f.title) f around)) _ _ :=
      function_complains (.method parent f.title) rfl f provided
    exact ((provide_complains owner f required r).quiet_trans own).append
      (methods_complains owner parent ms _ (passed.trans provided))

theorem stmt_complains : (s : Stmt) → {around : Around} → {r : Resolver} → Faces around r → r.Settled →
    Says (complaints (Node.inStmt s around)) r (stmt s r)
  | .block body, _, r, faces, _ =>
    .skip rfl <| (Says.of_eq rfl).quiet_trans <|
      (stmts_complains body faces.openScope (openScope_settled r)).trans_quiet (closeScope_complains _)
  | .classDecl ⟨name, parent, traits, ms, statics⟩, around, r, faces, settled => by
    have entered := congrArg Standpoint.classKind (enterClass_standpoint settled name parent traits)
    refine .skip rfl ((enterClass_complains name parent traits r).quiet_trans ?_)
    unfold stmt classDecl
    extract_lets entry body
    have static : (body.2.enterStatics name body.1).classKind = .static :=
      congrArg Standpoint.classKind (enterStatics_standpoint name body.1 body.2)
    have walked : Says (complaints (Node.inFunctions .static statics around)) body.2 _ :=
      (enterStatics_complains name body.1 body.2).quiet_trans (functions_complains .static rfl statics static)
    exact ((methods_complains name parent ms entry.1 entered).append walked).trans_quiet
      (closeClass_complains parent _)
  | .expression value, _, _, faces, _ | .print value, _, _, faces, _ =>
    .skip rfl (expr_complains value faces)
  | .flow _ _, _, _, _, _ => .skip rfl (.of_eq rfl)
  | .functionDecl ⟨some name, params, body, line⟩, _, r, faces, settled => by
    have introduced := faces.of_eq (introduce_standpoint settled name)
    exact .skip rfl ((introduce_complains name r).quiet_trans
      (function_complains .function rfl _ (introduced.enclosed rfl)))
  | .functionDecl ⟨none, params, body, line⟩, _, _, faces, _ =>
    .skip rfl (function_complains .function rfl _ (faces.enclosed rfl))
  | .ifElse condition thenBranch none, _, r, faces, settled => by
    have asked := expr_standpoint condition r
    exact .skip rfl ((expr_complains condition faces).append
      (stmt_complains thenBranch (faces.of_eq asked) (settled.of_eq asked)))
  | .ifElse condition thenBranch (some elseBranch), _, r, faces, settled => by
    have asked := expr_standpoint condition r
    have taken := (stmt_standpoint thenBranch (settled.of_eq asked)).trans asked
    refine .skip rfl ((expr_complains condition faces).append ?_)
    exact (stmt_complains thenBranch (faces.of_eq asked) (settled.of_eq asked)).append
      (stmt_complains elseBranch (faces.of_eq taken) (settled.of_eq taken))
  | .returns keyword none, _, _, faces, _ =>
    (bareReturn_judges faces keyword).says_only (.of_eq rfl)
  | .returns keyword (some value), _, r, faces, _ => by
    have judged := (checkReturn_judges faces keyword value).complains (.of_eq rfl)
    unfold Node.inStmt
    rw [complaints_cons]
    exact judged.trans (expr_complains value (faces.of_eq (checkReturn_standpoint keyword r)))
  | .traitDecl ⟨name, signatures, defaults⟩, around, r, _, settled => by
    have entered := congrArg Standpoint.classKind (enterTrait_standpoint settled name)
    have inside : Says (complaints (Node.inFunctions .default defaults around)) _ _ :=
      functions_complains .default rfl defaults entered
    exact .skip rfl <| (enterTrait_complains name r).quiet_trans <|
      inside.trans_quiet (closeScope_complains _)
  | .varDecl name none, _, r, _, _ => .skip rfl (introduce_complains name r)
  | .varDecl name (some value), _, r, faces, _ =>
    .skip rfl ((declare_complains name r).quiet_trans
      ((expr_complains value (faces.declare name)).trans_quiet (define_complains name _)))
  | .loop condition body none, _, r, faces, settled => by
    have asked := expr_standpoint condition r
    exact .skip rfl ((expr_complains condition faces).append
      (stmt_complains body (faces.of_eq asked) (settled.of_eq asked)))
  | .loop condition body (some increment), _, r, faces, settled => by
    have asked := expr_standpoint condition r
    have turned := (stmt_standpoint body (settled.of_eq asked)).trans asked
    refine .skip rfl ((expr_complains condition faces).append ?_)
    exact (stmt_complains body (faces.of_eq asked) (settled.of_eq asked)).append
      (expr_complains increment (faces.of_eq turned))

theorem stmts_complains : (ss : List Stmt) → {around : Around} → {r : Resolver} → Faces around r →
    r.Settled → Says (complaints (Node.inStmts ss around)) r (stmts ss r)
  | [], _, _, _, _ => .of_eq rfl
  | s :: ss, _, _, faces, settled => by
    have first := stmt_standpoint s settled
    exact (stmt_complains s faces settled).append
      (stmts_complains ss (faces.of_eq first) (settled.of_eq first))

end

end Resolver

end Lox
