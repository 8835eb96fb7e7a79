import Lox.Proofs.Sites

/-! What a resolution pass does to its state. Over any part it only adds diagnostics and only
records addresses of references in that part. If it finds no error, it leaves behind exactly the
names that the part declares. -/

namespace Lox

namespace Resolver

/-- The names in each scope, innermost first. -/
def names (r : Resolver) : List (List String) := r.frames.map (·.map Local.name)

/-- No error has been found so far. -/
def Clean (r : Resolver) : Prop := ∀ d ∈ r.diagnostics, d.isError = false

theorem clean_of_verdict {r : Resolver} {registered : Registry}
    (accepted : r.verdict = (.ok warnings, registered)) :
    r.Clean ∧ registered = r.registry := by
  unfold verdict at accepted
  split at accepted
  · cases accepted
  · rename_i faultless
    cases accepted
    refine ⟨fun d member => ?_, rfl⟩
    rw [List.any_eq_true] at faultless
    exact Bool.eq_false_iff.mpr fun wrong => faultless ⟨d, member, wrong⟩

theorem verdict_eq_ok {r : Resolver} {registered : Registry} :
    r.verdict = (.ok warnings, registered) ↔ r.diagnostics.any Diagnostic.isError = false ∧
      r.diagnostics = warnings ∧ r.registry = registered := by
  unfold verdict
  cases r.diagnostics.any Diagnostic.isError <;> simp

/-- What a pass has reported, with or without errors. -/
def reported (verdict : Except (List Diagnostic) (List Diagnostic)) : List Diagnostic :=
  match verdict with
  | .ok diagnostics | .error diagnostics => diagnostics

theorem reported_verdict (r : Resolver) : reported r.verdict.1 = r.diagnostics := by
  unfold verdict reported
  cases r.diagnostics.any Diagnostic.isError <;> rfl

/-- A later state of a pass, after it has seen the references. -/
structure Extends (seen : List Reference) (r r' : Resolver) : Prop where
  diagnostics : r.diagnostics <+: r'.diagnostics
  addresses : ∀ id ∉ seen.map Reference.id,
    r'.registry.addresses[id]? = r.registry.addresses[id]?

namespace Extends

theorem refl (seen : List Reference) (r : Resolver) : Extends seen r r :=
  ⟨List.prefix_rfl, fun _ _ => rfl⟩

theorem trans (first : Extends a r r') (second : Extends b r' r'') :
    Extends (a ++ b) r r'' := by
  refine ⟨first.diagnostics.trans second.diagnostics, fun id unseen => ?_⟩
  rw [List.map_append, List.mem_append, not_or] at unseen
  exact (second.addresses id unseen.2).trans (first.addresses id unseen.1)

/-- A step that sees no reference. -/
theorem quiet (diagnostics : r.diagnostics <+: r'.diagnostics)
    (registry : r'.registry = r.registry) :
    Extends [] r r' := ⟨diagnostics, fun _ _ => by rw [registry]⟩

theorem quiet_trans (first : Extends [] r r') (second : Extends a r' r'') : Extends a r r'' :=
  first.trans second

theorem trans_quiet (first : Extends a r r') (second : Extends [] r' r'') : Extends a r r'' :=
  List.append_nil a ▸ first.trans second

theorem clean (h : Extends a r r') (clean : r'.Clean) : r.Clean :=
  fun d member => clean d (h.diagnostics.subset member)

end Extends

theorem error_extends (token : Token) (cause : Diagnostic.Cause) (r : Resolver) :
    Extends [] r (r.error token cause) := .quiet (List.prefix_append ..) rfl

theorem not_clean_error {r : Resolver} : ¬ (r.error token cause).Clean := by
  intro clean
  have faultless := clean (.error token cause) (by simp [error])
  cases faultless

theorem classKind_extends (kind : ClassKind) (r : Resolver) :
    Extends [] r { r with classKind := kind } := .quiet List.prefix_rfl rfl

theorem functionKind_extends (kind : FunctionKind) (r : Resolver) :
    Extends [] r { r with functionKind := kind } := .quiet List.prefix_rfl rfl

theorem openScope_extends (r : Resolver) : Extends [] r r.openScope := .quiet List.prefix_rfl rfl

theorem closeScope_extends (r : Resolver) : Extends [] r r.closeScope := by
  unfold closeScope
  split
  · exact .refl _ r
  · exact .quiet (List.prefix_append ..) rfl

theorem extend_extends (v : Local) (r : Resolver) : Extends [] r (r.extend v) := by
  unfold extend
  split
  · exact .refl _ r
  · exact .quiet List.prefix_rfl rfl

theorem openBound_extends (name : String) (r : Resolver) : Extends [] r (r.openBound name) :=
  (openScope_extends r).trans (extend_extends _ _)

theorem declare_extends (name : Token) (r : Resolver) : Extends [] r (r.declare name) := by
  unfold declare
  split
  · exact .refl _ r
  · split
    · exact error_extends ..
    · exact extend_extends ..

theorem define_extends (name : Token) (r : Resolver) : Extends [] r (r.define name) := by
  unfold define
  split
  · exact .refl _ r
  · exact .quiet List.prefix_rfl rfl

theorem introduce_extends (name : Token) (r : Resolver) : Extends [] r (r.introduce name) :=
  (declare_extends name r).trans (define_extends ..)

theorem bind_extends (reference : Reference) (r : Resolver) :
    Extends [reference] r (r.bind reference) := by
  unfold bind
  split
  · exact .refl _ r
  · refine ⟨List.prefix_rfl, fun id unseen => ?_⟩
    have other : reference.id ≠ id := by
      rintro rfl
      exact unseen (List.mem_singleton_self _)
    simp only [Std.TreeMap.getElem?_insert]
    rw [if_neg (by simpa using other)]

theorem read_extends (reference : Reference) (r : Resolver) :
    Extends [reference] r (r.read reference) := by
  unfold read
  extract_lets awaited
  cases awaited with
  | true => exact (error_extends ..).quiet_trans (bind_extends ..)
  | false => exact bind_extends ..

theorem readThis_extends (keyword : Reference) (r : Resolver) :
    Extends [keyword] r (r.readThis keyword) := by
  unfold readThis
  split
  case h_1 | h_2 => exact (error_extends ..).quiet_trans (.refl ..)
  case h_3 | h_4 | h_5 => exact bind_extends ..

theorem readSuper_extends (keyword : Reference) (r : Resolver) :
    Extends [keyword] r (r.readSuper keyword) := by
  unfold readSuper
  split
  case h_1 | h_2 | h_3 | h_4 => exact (error_extends ..).quiet_trans (.refl ..)
  case h_5 => exact bind_extends ..

theorem mixins_extends (traits : List Reference) (required : Required) (r : Resolver) :
    Extends traits r (r.mixins traits required).2 := by
  induction traits generalizing required r with
  | nil => exact .refl [] r
  | cons t ts ih =>
    unfold mixins
    refine (read_extends t r).trans ?_
    dsimp only
    split
    · exact ih ..
    · exact (error_extends ..).quiet_trans (ih ..)

theorem provide_extends (owner : Token) (f : FunctionDecl) (required : Required) (r : Resolver) :
    Extends [] r (r.provide owner f required).2 := by
  unfold provide
  split
  · dsimp only
    split
    · exact .refl _ r
    · exact error_extends ..
  · exact .refl _ r

theorem checkReturn_extends (keyword : Token) (r : Resolver) :
    Extends [] r (r.checkReturn keyword) := by
  unfold checkReturn
  split
  case h_1 | h_2 => exact error_extends ..
  case h_3 | h_4 => exact .refl _ r

theorem superclass_extends (owner : Token) (parent : Option Reference) (r : Resolver) :
    Extends parent.toList r (r.superclass owner parent) := by
  unfold superclass
  cases parent with
  | none => exact classKind_extends .plain r
  | some parent =>
    dsimp only
    split
    · refine (error_extends parent.name .selfInheritance r).quiet_trans ?_
      exact (classKind_extends .subclass _).quiet_trans (read_extends ..)
    · exact (classKind_extends .subclass r).quiet_trans (read_extends ..)

theorem openClass_extends (parent : Option Reference) (r : Resolver) :
    Extends [] r (r.openClass parent) := by
  unfold openClass
  split
  · exact (openBound_extends ..).trans (openBound_extends ..)
  · exact openBound_extends ..

theorem closeClass_extends (parent : Option Reference) (r : Resolver) :
    Extends [] r (r.closeClass parent) := by
  unfold closeClass
  split
  · exact (closeScope_extends r).trans (closeScope_extends _)
  · exact closeScope_extends r

theorem introduceAll_extends (params : List Token) (r : Resolver) :
    Extends [] r (params.foldl (fun r p => r.introduce p) r) := by
  induction params generalizing r with
  | nil => exact .refl [] r
  | cons p ps ih => exact (introduce_extends p r).trans (ih _)

theorem enterFunction_extends (kind : FunctionKind) (params : List Token) (r : Resolver) :
    Extends [] r (r.enterFunction kind params) :=
  (functionKind_extends kind r).trans ((openScope_extends _).trans (introduceAll_extends ..))

theorem enterClass_extends (name : Token) (parent : Option Reference) (traits : List Reference)
    (r : Resolver) : Extends (parent.toList ++ traits) r (r.enterClass name parent traits).2 :=
  (superclass_extends name parent r).trans <|
    (mixins_extends traits {} _).trans_quiet <|
      (introduce_extends ..).trans (openClass_extends ..)

theorem enterStatics_extends (name : Token) (required : Required) (r : Resolver) :
    Extends [] r (r.enterStatics name required) := by
  refine Extends.trans_quiet ?_ (classKind_extends .static _)
  unfold checkProvided
  split
  · exact .refl _ r
  · exact error_extends ..

theorem enterTrait_extends (name : Token) (r : Resolver) : Extends [] r (r.enterTrait name) :=
  (classKind_extends .trait r).trans <| (introduce_extends ..).trans (openBound_extends ..)

mutual

theorem expr_extends : (e : Expr) → (r : Resolver) →
    Extends (Reference.inExpr true e) r (expr e r)
  | .assign target value, r => (expr_extends value r).trans (bind_extends target _)
  | .binary left _ right, r | .logical left _ right, r =>
    (expr_extends left r).trans (expr_extends right _)
  | .call callee _ arguments, r => (expr_extends callee r).trans (exprs_extends arguments _)
  | .property object _, r => expr_extends object r
  | .group inner, r => expr_extends inner r
  | .lambda f, r => function_extends .function f r
  | .literal _, r => .refl _ r
  | .setProperty object _ value, r => (expr_extends value r).trans (expr_extends object _)
  | .superRef keyword _, r => readSuper_extends keyword r
  | .ternary condition thenValue elseValue, r =>
    (expr_extends condition r).trans ((expr_extends thenValue _).trans (expr_extends elseValue _))
  | .thisRef keyword, r => readThis_extends keyword r
  | .unary _ right, r => expr_extends right r
  | .varRef reference, r => read_extends reference r

theorem exprs_extends : (es : List Expr) → (r : Resolver) →
    Extends (Reference.inExprs true es) r (exprs es r)
  | [], r => .refl _ r
  | e :: es, r => (expr_extends e r).trans (exprs_extends es _)

theorem function_extends (kind : FunctionKind) : (f : FunctionDecl) → (r : Resolver) →
    Extends (Reference.inFunction true f) r (function kind f r)
  | ⟨_, params, body, _⟩, r =>
    (enterFunction_extends kind params r).quiet_trans <|
      (stmts_extends body _).trans_quiet <|
        (closeScope_extends _).trans (functionKind_extends ..)

theorem functions_extends (kind : FunctionKind) : (fs : List FunctionDecl) → (r : Resolver) →
    Extends (Reference.inFunctions true fs) r (functions kind fs r)
  | [], r => .refl _ r
  | f :: fs, r => (function_extends kind f r).trans (functions_extends kind fs _)

theorem methods_extends (owner : Token) : (ms : List MethodDecl) → (required : Required) →
    (r : Resolver) → Extends (Reference.inMethods true ms) r (methods owner ms required r).2
  | [], _, r => .refl _ r
  | ⟨f, _⟩ :: ms, required, r =>
    (provide_extends owner f required r).quiet_trans <|
      (function_extends (methodKind f) f _).trans (methods_extends owner ms _ _)

theorem classDecl_extends : (c : ClassDecl) → (r : Resolver) →
    Extends (Reference.inClass true c) r (classDecl c r)
  | ⟨name, parent, traits, ms, statics⟩, r => by
    unfold Reference.inClass classDecl
    rw [← List.append_assoc]
    extract_lets entry body
    refine (enterClass_extends name parent traits r).trans <|
      (methods_extends name ms entry.1 entry.2).trans <|
        (enterStatics_extends name body.1 body.2).quiet_trans ?_
    exact (functions_extends .method statics _).trans_quiet <|
      (closeClass_extends parent _).trans (classKind_extends ..)

theorem traitDecl_extends : (t : TraitDecl) → (r : Resolver) →
    Extends (Reference.inTrait true t) r (traitDecl t r)
  | ⟨name, _, defaults⟩, r =>
    (enterTrait_extends name r).quiet_trans <|
      (functions_extends .method defaults _).trans_quiet <|
        (closeScope_extends _).trans ⟨List.prefix_rfl, fun _ _ => rfl⟩

theorem stmt_extends : (s : Stmt) → (r : Resolver) →
    Extends (Reference.inStmt true s) r (stmt s r)
  | .block body, r =>
    (openScope_extends r).quiet_trans ((stmts_extends body _).trans_quiet (closeScope_extends _))
  | .classDecl declaration, r => classDecl_extends declaration r
  | .expression value, r | .print value, r => expr_extends value r
  | .flow _ _, r => .refl _ r
  | .functionDecl ⟨some name, params, body, line⟩, r =>
    (introduce_extends name r).quiet_trans (function_extends .function _ _)
  | .functionDecl ⟨none, params, body, line⟩, r => function_extends .function _ r
  | .ifElse condition thenBranch none, r =>
    (expr_extends condition r).trans (stmt_extends thenBranch _)
  | .ifElse condition thenBranch (some elseBranch), r =>
    (expr_extends condition r).trans ((stmt_extends thenBranch _).trans (stmt_extends elseBranch _))
  | .returns keyword none, r => by
    unfold stmt
    split
    · exact error_extends ..
    · exact .refl _ r
  | .returns keyword (some value), r =>
    (checkReturn_extends keyword r).quiet_trans (expr_extends value _)
  | .traitDecl declaration, r => traitDecl_extends declaration r
  | .varDecl name none, r => introduce_extends name r
  | .varDecl name (some value), r =>
    (declare_extends name r).quiet_trans ((expr_extends value _).trans_quiet (define_extends ..))
  | .loop condition body none, r => (expr_extends condition r).trans (stmt_extends body _)
  | .loop condition body (some increment), r =>
    (expr_extends condition r).trans ((stmt_extends body _).trans (expr_extends increment _))

theorem stmts_extends : (ss : List Stmt) → (r : Resolver) →
    Extends (Reference.inStmts true ss) r (stmts ss r)
  | [], r => .refl _ r
  | s :: ss, r => (stmt_extends s r).trans (stmts_extends ss _)

end

/-- From the entry into a class to its end. -/
theorem members_extends (c : ClassDecl) (r : Resolver) :
    Extends (Reference.inMethods true c.methods ++ Reference.inFunctions true c.statics)
      (r.enterClass c.name c.superclass c.traits).2 (classDecl c r) := by
  obtain ⟨name, parent, traits, ms, statics⟩ := c
  unfold classDecl
  extract_lets entry body
  exact (methods_extends name ms entry.1 entry.2).trans <|
    (enterStatics_extends name body.1 body.2).quiet_trans <|
      (functions_extends .method statics _).trans_quiet <|
        (closeClass_extends parent _).trans (classKind_extends ..)

/-- Names are added to the innermost scope. Top-level names are in none. -/
def addNames (new : List String) : List (List String) → List (List String)
  | [] => []
  | inner :: outer => (inner ++ new) :: outer

@[simp] theorem addNames_nil (scopes : List (List String)) : addNames [] scopes = scopes := by
  cases scopes <;> simp [addNames]

theorem addNames_addNames (a b : List String) (scopes : List (List String)) :
    addNames b (addNames a scopes) = addNames (a ++ b) scopes := by
  cases scopes <;> simp [addNames]

@[simp] theorem tail_addNames (new : List String) (scopes : List (List String)) :
    (addNames new scopes).tail = scopes.tail := by
  cases scopes <;> rfl

/-- A later state of a pass in the same scopes and the same class, with new names. -/
structure Keeps (new : List String) (r r' : Resolver) : Prop where
  names : r'.names = addNames new r.names
  classKind : r'.classKind = r.classKind

namespace Keeps

theorem refl (r : Resolver) : Keeps [] r r := ⟨(addNames_nil _).symm, rfl⟩

theorem trans (first : Keeps a r r') (second : Keeps b r' r'') : Keeps (a ++ b) r r'' := by
  refine ⟨?_, second.classKind.trans first.classKind⟩
  rw [second.names, first.names, addNames_addNames]

theorem then_quiet (first : Keeps a r r') (second : Keeps [] r' r'') : Keeps a r r'' :=
  List.append_nil a ▸ first.trans second

end Keeps

theorem names_update (frame : Frame) (name : String) {f : Local → Local}
    (keeps : ∀ v, (f v).name = v.name) :
    (frame.update name f).map Local.name = frame.map Local.name := by
  rw [Frame.update, List.map_map]
  refine List.map_congr_left fun v _ => ?_
  simp only [Function.comp]
  split
  · exact keeps v
  · rfl

theorem names_markUsed (name : String) (frames : List Frame) :
    (markUsed name frames).map (·.map Local.name) = frames.map (·.map Local.name) := by
  induction frames with
  | nil => rfl
  | cons frame outer ih =>
    unfold markUsed
    split
    · rw [List.map_cons, List.map_cons, names_update]
      exact fun _ => rfl
    · simp only [List.map_cons, ih]

theorem error_keeps (token : Token) (cause : Diagnostic.Cause) (r : Resolver) :
    Keeps [] r (r.error token cause) := ⟨(addNames_nil _).symm, rfl⟩

theorem extend_keeps (v : Local) (r : Resolver) : Keeps [v.name] r (r.extend v) := by
  unfold extend
  split
  · rename_i top
    exact ⟨by simp [names, top, addNames], rfl⟩
  · rename_i nested
    exact ⟨by simp [names, nested, addNames], rfl⟩

theorem declare_keeps {name : Token} {r : Resolver} (clean : (r.declare name).Clean) :
    Keeps [name.lexeme] r (r.declare name) := by
  unfold declare at clean ⊢
  split at clean
  · rename_i top
    exact ⟨by simp [names, top, addNames], rfl⟩
  · split at clean
    · exact (not_clean_error clean).elim
    · rename_i fresh
      rw [if_neg fresh]
      exact extend_keeps ⟨name.lexeme, name.line, false, false⟩ r

theorem define_keeps (name : Token) (r : Resolver) : Keeps [] r (r.define name) := by
  unfold define
  split
  · exact .refl r
  · rename_i frame outer nested
    refine ⟨?_, rfl⟩
    simp only [names, nested, addNames_nil, List.map_cons]
    rw [names_update]
    exact fun _ => rfl

theorem introduce_keeps {name : Token} {r : Resolver} (clean : (r.introduce name).Clean) :
    Keeps [name.lexeme] r (r.introduce name) :=
  (declare_keeps ((define_extends ..).clean clean)).then_quiet (define_keeps ..)

theorem bind_keeps (reference : Reference) (r : Resolver) : Keeps [] r (r.bind reference) := by
  unfold bind
  split
  · exact .refl r
  · exact ⟨by simp only [names, names_markUsed, addNames_nil], rfl⟩

theorem read_keeps (reference : Reference) (r : Resolver) : Keeps [] r (r.read reference) := by
  unfold read
  extract_lets awaited
  cases awaited with
  | true => exact (error_keeps ..).trans (bind_keeps ..)
  | false => exact bind_keeps ..

theorem readThis_keeps (keyword : Reference) (r : Resolver) :
    Keeps [] r (r.readThis keyword) := by
  unfold readThis
  split
  case h_1 | h_2 => exact error_keeps ..
  case h_3 | h_4 | h_5 => exact bind_keeps ..

theorem readSuper_keeps (keyword : Reference) (r : Resolver) :
    Keeps [] r (r.readSuper keyword) := by
  unfold readSuper
  split
  case h_1 | h_2 | h_3 | h_4 => exact error_keeps ..
  case h_5 => exact bind_keeps ..

theorem mixins_keeps (traits : List Reference) (required : Required) (r : Resolver) :
    Keeps [] r (r.mixins traits required).2 := by
  induction traits generalizing required r with
  | nil => exact .refl r
  | cons t ts ih =>
    unfold mixins
    refine (read_keeps t r).trans ?_
    dsimp only
    split
    · exact ih ..
    · exact (error_keeps ..).trans (ih ..)

theorem provide_keeps (owner : Token) (f : FunctionDecl) (required : Required) (r : Resolver) :
    Keeps [] r (r.provide owner f required).2 := by
  unfold provide
  split
  · dsimp only
    split
    · exact .refl r
    · exact error_keeps ..
  · exact .refl r

theorem checkReturn_keeps (keyword : Token) (r : Resolver) :
    Keeps [] r (r.checkReturn keyword) := by
  unfold checkReturn
  split
  case h_1 | h_2 => exact error_keeps ..
  case h_3 | h_4 => exact .refl r

@[simp] theorem names_openScope (r : Resolver) : r.openScope.names = [] :: r.names := rfl

@[simp] theorem names_closeScope (r : Resolver) : r.closeScope.names = r.names.tail := by
  unfold closeScope
  split
  · rename_i top
    simp [names, top]
  · rename_i nested
    simp [names, nested]

@[simp] theorem classKind_closeScope (r : Resolver) : r.closeScope.classKind = r.classKind := by
  unfold closeScope
  split <;> rfl

@[simp] theorem names_openBound (name : String) (r : Resolver) :
    (r.openBound name).names = [name] :: r.names := rfl

theorem introduceAll_keeps {params : List Token} {r : Resolver}
    (clean : (params.foldl (fun r p => r.introduce p) r).Clean) :
    Keeps (params.map Token.lexeme) r (params.foldl (fun r p => r.introduce p) r) := by
  induction params generalizing r with
  | nil => exact .refl r
  | cons p ps ih =>
    have first : (r.introduce p).Clean := (introduceAll_extends ps _).clean clean
    exact (introduce_keeps first).trans (ih clean)

theorem enterFunction_names {r : Resolver} (clean : (r.enterFunction kind params).Clean) :
    (r.enterFunction kind params).names = params.map Token.lexeme :: r.names :=
  (introduceAll_keeps clean).names

theorem enterFunction_classKind {r : Resolver} (clean : (r.enterFunction kind params).Clean) :
    (r.enterFunction kind params).classKind = r.classKind :=
  (introduceAll_keeps clean).classKind

theorem superclass_keeps (owner : Token) (parent : Option Reference) (r : Resolver) :
    (r.superclass owner parent).names = r.names ∧
      (r.superclass owner parent).classKind = if parent.isSome then .subclass else .plain := by
  unfold superclass
  cases parent with
  | none => exact ⟨rfl, rfl⟩
  | some parent =>
    dsimp only
    have step (r' : Resolver) (same : r'.names = r.names) :
        ({ r' with classKind := .subclass }.read parent).names = r.names ∧
        ({ r' with classKind := .subclass }.read parent).classKind = .subclass := by
      have keeps := read_keeps parent { r' with classKind := .subclass }
      exact ⟨keeps.names.trans ((addNames_nil _).trans same), keeps.classKind⟩
    split
    · exact step _ rfl
    · exact step r rfl

/-- The scopes around the members of a class. -/
def classNames (name : Token) (parent : Option Reference) (scopes : List (List String)) :
    List (List String) :=
  if parent.isSome then ["super"] :: addNames [name.lexeme] scopes
  else addNames [name.lexeme] scopes

theorem enterClass_names {r : Resolver} (clean : (r.enterClass name parent traits).2.Clean) :
    (r.enterClass name parent traits).2.names = ["this"] :: classNames name parent r.names ∧
      (r.enterClass name parent traits).2.classKind =
        if parent.isSome then .subclass else .plain := by
  have introduced := introduce_keeps ((openClass_extends parent _).clean clean)
  have mixing := mixins_keeps traits {} (r.superclass name parent)
  obtain ⟨parentNames, parentKind⟩ := superclass_keeps name parent r
  have inside := introduced.names
  rw [mixing.names, addNames_nil, parentNames] at inside
  have kind := introduced.classKind
  rw [mixing.classKind, parentKind] at kind
  cases parent with
  | none => exact ⟨congrArg (["this"] :: ·) inside, kind⟩
  | some parent => exact ⟨congrArg (["this"] :: ["super"] :: ·) inside, kind⟩

theorem closeClass_names (name : Token) (parent : Option Reference) {r : Resolver}
    (inside : r.names = ["this"] :: classNames name parent scopes) :
    (r.closeClass parent).names = addNames [name.lexeme] scopes := by
  unfold closeClass
  unfold classNames at inside
  split at inside
  · rename_i subclass
    rw [if_pos subclass, names_closeScope, names_closeScope, inside]
    rfl
  · rename_i plain
    rw [if_neg plain, names_closeScope, inside]
    rfl

theorem enterStatics_names (name : Token) (required : Required) (r : Resolver) :
    (r.enterStatics name required).names = r.names := by
  unfold enterStatics checkProvided
  split <;> rfl

theorem enterTrait_names {r : Resolver} (clean : (r.enterTrait name).Clean) :
    (r.enterTrait name).names = ["this"] :: addNames [name.lexeme] r.names := by
  have introduced := introduce_keeps ((openBound_extends ..).clean clean)
  rw [enterTrait, names_openBound, introduced.names]
  rfl

theorem enterTrait_classKind {r : Resolver} (clean : (r.enterTrait name).Clean) :
    (r.enterTrait name).classKind = .trait :=
  (introduce_keeps ((openBound_extends ..).clean clean)).classKind

mutual

theorem expr_keeps : (e : Expr) → (r : Resolver) → (expr e r).Clean → Keeps [] r (expr e r)
  | .assign target value, r, clean =>
    (expr_keeps value r ((bind_extends target _).clean clean)).trans (bind_keeps target _)
  | .binary left _ right, r, clean | .logical left _ right, r, clean =>
    (expr_keeps left r ((expr_extends right _).clean clean)).trans (expr_keeps right _ clean)
  | .call callee _ arguments, r, clean =>
    (expr_keeps callee r ((exprs_extends arguments _).clean clean)).trans
      (exprs_keeps arguments _ clean)
  | .property object _, r, clean => expr_keeps object r clean
  | .group inner, r, clean => expr_keeps inner r clean
  | .lambda f, r, clean => function_keeps .function f r clean
  | .literal _, r, _ => .refl r
  | .setProperty object _ value, r, clean =>
    (expr_keeps value r ((expr_extends object _).clean clean)).trans (expr_keeps object _ clean)
  | .superRef keyword _, r, _ => readSuper_keeps keyword r
  | .ternary condition thenValue elseValue, r, clean =>
    have cleanThen := (expr_extends elseValue _).clean clean
    (expr_keeps condition r ((expr_extends thenValue _).clean cleanThen)).trans
      ((expr_keeps thenValue _ cleanThen).trans (expr_keeps elseValue _ clean))
  | .thisRef keyword, r, _ => readThis_keeps keyword r
  | .unary _ right, r, clean => expr_keeps right r clean
  | .varRef reference, r, _ => read_keeps reference r

theorem exprs_keeps : (es : List Expr) → (r : Resolver) → (exprs es r).Clean →
    Keeps [] r (exprs es r)
  | [], r, _ => .refl r
  | e :: es, r, clean =>
    (expr_keeps e r ((exprs_extends es _).clean clean)).trans (exprs_keeps es _ clean)

theorem function_keeps (kind : FunctionKind) : (f : FunctionDecl) → (r : Resolver) →
    (function kind f r).Clean → Keeps [] r (function kind f r)
  | ⟨_, params, body, _⟩, r, clean => by
    have cleanBody : (stmts body (r.enterFunction kind params)).Clean :=
      ((closeScope_extends _).trans (functionKind_extends ..)).clean clean
    have cleanEntry := (stmts_extends body _).clean cleanBody
    have keeps := stmts_keeps body _ cleanBody
    constructor
    · change (stmts body (r.enterFunction kind params)).closeScope.names = _
      rw [names_closeScope, keeps.names, tail_addNames, enterFunction_names cleanEntry,
        addNames_nil, List.tail_cons]
    · change (stmts body (r.enterFunction kind params)).closeScope.classKind = _
      rw [classKind_closeScope, keeps.classKind, enterFunction_classKind cleanEntry]

theorem functions_keeps (kind : FunctionKind) : (fs : List FunctionDecl) → (r : Resolver) →
    (functions kind fs r).Clean → Keeps [] r (functions kind fs r)
  | [], r, _ => .refl r
  | f :: fs, r, clean =>
    (function_keeps kind f r ((functions_extends kind fs _).clean clean)).trans
      (functions_keeps kind fs _ clean)

theorem methods_keeps (owner : Token) : (ms : List MethodDecl) → (required : Required) →
    (r : Resolver) → (methods owner ms required r).2.Clean →
    Keeps [] r (methods owner ms required r).2
  | [], _, r, _ => .refl r
  | ⟨f, _⟩ :: ms, required, r, clean =>
    (provide_keeps owner f required r).trans <|
      (function_keeps (methodKind f) f _ ((methods_extends owner ms _ _).clean clean)).trans
        (methods_keeps owner ms _ _ clean)

theorem classDecl_keeps : (c : ClassDecl) → (r : Resolver) → (classDecl c r).Clean →
    Keeps [c.name.lexeme] r (classDecl c r)
  | ⟨name, parent, traits, ms, statics⟩, r, clean => by
    unfold classDecl at clean ⊢
    dsimp only at clean ⊢
    generalize entry : r.enterClass name parent traits = inside at clean ⊢
    generalize body : methods name ms inside.1 inside.2 = after at clean ⊢
    have cleanStatics : (functions .method statics (after.2.enterStatics name after.1)).Clean :=
      ((closeClass_extends parent _).trans (classKind_extends ..)).clean clean
    have cleanAfter := (enterStatics_extends ..).clean ((functions_extends ..).clean cleanStatics)
    have keepsMethods := methods_keeps name ms inside.1 inside.2 (body ▸ cleanAfter)
    have cleanInside := (methods_extends name ms inside.1 inside.2).clean (body ▸ cleanAfter)
    have entered := (enterClass_names (entry ▸ cleanInside)).1
    refine ⟨closeClass_names name parent ?_, rfl⟩
    rw [(functions_keeps .method statics _ cleanStatics).names, addNames_nil, enterStatics_names,
      ← body, keepsMethods.names, addNames_nil, ← entry, entered]

theorem traitDecl_keeps : (t : TraitDecl) → (r : Resolver) → (traitDecl t r).Clean →
    Keeps [t.name.lexeme] r (traitDecl t r)
  | ⟨name, signatures, defaults⟩, r, clean => by
    have cleanBody : (functions .method defaults (r.enterTrait name)).Clean :=
      (closeScope_extends _).clean clean
    have cleanEntry := (functions_extends .method defaults _).clean cleanBody
    refine ⟨?_, rfl⟩
    change (functions .method defaults (r.enterTrait name)).closeScope.names = _
    rw [names_closeScope, (functions_keeps .method defaults _ cleanBody).names, addNames_nil,
      enterTrait_names cleanEntry, List.tail_cons]

theorem stmt_keeps : (s : Stmt) → (r : Resolver) → (stmt s r).Clean →
    Keeps s.declared r (stmt s r)
  | .block body, r, clean => by
    have cleanBody : (stmts body r.openScope).Clean := (closeScope_extends _).clean clean
    have keeps := stmts_keeps body _ cleanBody
    constructor
    · change (stmts body r.openScope).closeScope.names = _
      rw [names_closeScope, keeps.names, tail_addNames, names_openScope]
      exact (addNames_nil _).symm
    · change (stmts body r.openScope).closeScope.classKind = _
      rw [classKind_closeScope, keeps.classKind]
      rfl
  | .classDecl declaration, r, clean => classDecl_keeps declaration r clean
  | .expression value, r, clean | .print value, r, clean => expr_keeps value r clean
  | .flow _ _, r, _ => .refl r
  | .functionDecl ⟨some name, params, body, line⟩, r, clean =>
    (introduce_keeps ((function_extends .function _ _).clean clean)).then_quiet
      (function_keeps .function _ _ clean)
  | .functionDecl ⟨none, params, body, line⟩, r, clean => function_keeps .function _ _ clean
  | .ifElse condition thenBranch none, r, clean =>
    (expr_keeps condition r ((stmt_extends thenBranch _).clean clean)).trans
      (stmt_keeps thenBranch _ clean)
  | .ifElse condition thenBranch (some elseBranch), r, clean =>
    have cleanThen := (stmt_extends elseBranch _).clean clean
    (expr_keeps condition r ((stmt_extends thenBranch _).clean cleanThen)).trans
      ((stmt_keeps thenBranch _ cleanThen).trans (stmt_keeps elseBranch _ clean))
  | .returns keyword none, r, _ => by
    unfold stmt
    split
    · exact error_keeps ..
    · exact .refl r
  | .returns keyword (some value), r, clean =>
    (checkReturn_keeps keyword r).trans (expr_keeps value _ clean)
  | .traitDecl declaration, r, clean => traitDecl_keeps declaration r clean
  | .varDecl name none, r, clean => introduce_keeps clean
  | .varDecl name (some value), r, clean => by
    have cleanValue : (expr value (r.declare name)).Clean := (define_extends ..).clean clean
    exact (declare_keeps ((expr_extends value _).clean cleanValue)).then_quiet <|
      (expr_keeps value _ cleanValue).trans (define_keeps ..)
  | .loop condition body none, r, clean =>
    (expr_keeps condition r ((stmt_extends body _).clean clean)).trans (stmt_keeps body _ clean)
  | .loop condition body (some increment), r, clean =>
    have cleanBody := (expr_extends increment _).clean clean
    (expr_keeps condition r ((stmt_extends body _).clean cleanBody)).trans
      ((stmt_keeps body _ cleanBody).then_quiet (expr_keeps increment _ clean))

theorem stmts_keeps : (ss : List Stmt) → (r : Resolver) → (stmts ss r).Clean →
    Keeps (declared ss) r (stmts ss r)
  | [], r, _ => .refl r
  | s :: ss, r, clean =>
    (stmt_keeps s r ((stmts_extends ss _).clean clean)).trans (stmts_keeps ss _ clean)

end

/-- A condition and a branch or loop body after it leave the names as they were. -/
theorem guarded_keeps (condition : Expr) {branch : Stmt} {r : Resolver}
    (nothing : branch.declared = []) (clean : (stmt branch (expr condition r)).Clean) :
    Keeps [] r (stmt branch (expr condition r)) := by
  have keeps := stmt_keeps branch _ clean
  rw [nothing] at keeps
  exact (expr_keeps condition r ((stmt_extends branch _).clean clean)).trans keeps

end Resolver

end Lox
