import Lox.Proofs.MarkedUses

/-! Warnings about unused variables. Whether a program is accepted or not, a resolution pass warns,
for each local scope that it leaves, of those variables to which no reference was resolved. -/

namespace Lox

open Resolver (addNames classNames)

namespace Resolver

theorem uses_iff {s : LocalScope} {address : Reference → Option Address}
    (agrees : ∀ place ∈ Scoping.ordinary s.references,
      address place.1 = Scoping.resolved place) (slot : Nat) :
    s.uses address slot = true ↔ Scoping.Hits s.references s.outer.length slot := by
  rw [LocalScope.uses, List.any_eq_true, Scoping.Hits]
  refine exists_congr fun place => and_congr_right fun member => ?_
  rw [decide_eq_true_eq, agrees place member]

/-- The warnings about a scope, from its variables and its marks. -/
theorem warnings_eq {frame : Frame} {names : List Token} {uses : Nat → Bool}
    (same : frame.map Local.entry = names.map Token.entry) (start : Nat)
    (marks : ∀ (slot : Nat) v, frame[slot]? = some v → v.used = uses (start + slot)) :
    frame.warnings = (((names.zipIdx start).filter fun binding => !uses binding.2).map
      Prod.fst).map fun name => .unused name.lexeme name.line := by
  induction frame generalizing names start with
  | nil =>
    obtain rfl : names = [] := List.map_eq_nil_iff.mp same.symm
    rfl
  | cons v frame ih =>
    cases names with
    | nil => cases same
    | cons name names =>
      obtain ⟨first, rest⟩ := List.cons.inj same
      obtain ⟨named, lined⟩ := Prod.mk.inj first
      have later := ih rest (start + 1) fun slot w there => by
        rw [marks (slot + 1) w there]
        congr 1
        omega
      have mark := marks 0 v rfl
      unfold Frame.warnings at later ⊢
      rw [List.zipIdx_cons, List.filter_cons, List.filter_cons, mark, Nat.add_zero]
      cases uses start with
      | true => exact later
      | false =>
        simp only [Bool.not_false, if_true, List.map_cons, later, named, lined]

theorem warnings_filter (frame : Frame) :
    frame.warnings.filter (!·.isError) = frame.warnings := by
  refine List.filter_eq_self.mpr fun d member => ?_
  obtain ⟨v, -, rfl⟩ := List.mem_map.mp member
  rfl

/-- A scope is left without a word. -/
theorem Marks.pop {r r' : Resolver} (frame : Frame)
    (bound : ∀ v ∈ frame, ¬ Plain v.name → v.used = true)
    (inside : Marks new located left { r with frames := frame :: r.frames } r') :
    ∃ frame' outer, r'.frames = frame' :: outer ∧ outer.length = r.frames.length ∧
      frame'.map Local.entry =
        (new.map Token.entry).foldl (enroll Prod.fst) (frame.map Local.entry) ∧
      Marks [] located left r { r' with frames := outer } := by
  have entries := inside.entries
  cases frames : r'.frames with
  | nil =>
    rw [Resolver.entries, frames] at entries
    cases entries
  | cons frame' outer =>
    rw [Resolver.entries, frames] at entries
    obtain ⟨here, around⟩ := List.cons.inj entries
    have length : outer.length = r.frames.length := by
      simpa using congrArg List.length around
    refine ⟨frame', outer, rfl, length, here, around.trans (grow_nil _).symm, fun all => ?_,
      ⟨inside.later.diagnostics, inside.later.addresses⟩, fun level below slot => ?_,
      inside.recorded, inside.said, inside.plain⟩
    · have later := inside.bound (List.forall_mem_cons.mpr ⟨bound, all⟩)
      rw [Bound, frames] at later
      exact (List.forall_mem_cons.mp later).2
    · have marks := inside.used level (Nat.lt_succ_of_lt below) slot
      rw [frames, usedAt_tail (length ▸ below), usedAt_tail below] at marks
      exact marks

/-- The scope of a block or a function is left, with a warning for each of its variables to which no
reference was resolved. -/
theorem Marks.close {r r' : Resolver} {s : LocalScope}
    (inside : Marks s.declarations s.references left r.openScope r')
    (outside : r.frames.length = s.outer.length)
    (plain : ∀ name ∈ s.declarations, Plain name.lexeme) :
    Marks [] s.references (left ++ [s]) r r'.closeScope := by
  obtain ⟨frame, outer, frames, length, entries, popped⟩ :=
    Marks.pop [] (List.forall_mem_nil _) inside
  have bindings : frame.map Local.entry = s.bindings.map Token.entry := by
    rw [entries]
    exact (map_firstsBy Token.entry Prod.fst s.declarations).symm
  unfold closeScope
  rw [frames]
  refine ⟨popped.entries, popped.bound, ⟨?_, popped.later.addresses⟩, popped.used,
    popped.recorded, fun address agrees => ?_, List.forall_mem_append.mpr ⟨popped.plain, ?_⟩⟩
  · exact popped.later.diagnostics.trans (List.prefix_append ..)
  · have marks (slot : Nat) (v : Local) (there : frame[slot]? = some v) :
        v.used = s.uses address (0 + slot) := by
      have used := inside.used outer.length (by simp [openScope, length]) slot
      rw [frames, usedAt_head, there, Option.any_some, length] at used
      rw [Nat.zero_add, Bool.eq_iff_iff, used, uses_iff agrees, outside]
      refine or_iff_right ?_
      rw [← outside, openScope, usedAt_head]
      simp
    rw [List.filter_append, popped.said address agrees, warnings_filter, warnings_eq bindings 0 marks,
      List.flatMap_append, List.append_assoc]
    simp only [List.flatMap_cons, List.flatMap_nil, List.append_nil]
    rfl
  · rintro _ member
    obtain rfl := List.mem_singleton.mp member
    exact plain

/-- The scope of `this` or `super` is left. -/
theorem Marks.unbind {r r' : Resolver} (inside : Marks [] located left (r.openBound name) r') :
    Marks [] located left r r'.closeScope := by
  obtain ⟨frame, outer, frames, length, entries, popped⟩ :=
    Marks.pop [⟨name, 0, true, true⟩] (by simp) inside
  have used := (inside.used r.frames.length (by simp [openBound, openScope, extend]) 0).mpr
    (.inl (by simp [openBound, openScope, extend, usedAt]))
  have silent : frame.warnings = [] := by
    cases frame with
    | nil => cases entries
    | cons v rest =>
      obtain ⟨-, rest⟩ := List.cons.inj entries
      obtain rfl := List.map_eq_nil_iff.mp rest
      rw [frames, ← length, usedAt_head] at used
      have marked : v.used = true := used
      simp [Frame.warnings, marked]
  unfold closeScope
  rw [frames]
  dsimp only
  rw [silent, List.append_nil]
  exact popped

theorem Marks.closeClass {r r' : Resolver} (parent : Option Reference)
    (inside : Marks [] located left (r.openClass parent) r') :
    Marks [] located left r (r'.closeClass parent) := by
  cases parent with
  | none => exact inside.unbind
  | some parent => exact inside.unbind.unbind

theorem Among.openScope {r : Resolver} (among : Among scopes r) : Among ([] :: scopes) r.openScope :=
  ⟨congrArg ([] :: ·) among.names, List.forall_mem_cons.mpr ⟨List.forall_mem_nil _, among.bound⟩⟩

theorem Among.openBound {r : Resolver} (among : Among scopes r) (name : String) :
    Among ([name] :: scopes) (r.openBound name) := by
  refine ⟨congrArg ([name] :: ·) among.names, List.forall_mem_cons.mpr ⟨?_, among.bound⟩⟩
  simp

theorem Among.openClass {r : Resolver} (among : Among (addNames [name.lexeme] scopes) r)
    (parent : Option Reference) :
    Among (["this"] :: classNames name parent scopes) (r.openClass parent) := by
  cases parent with
  | none => exact among.openBound "this"
  | some parent => exact (among.openBound "super").openBound "this"

theorem declared_eq {s : Stmt} (proper : Proper.stmt s) :
    s.declared = s.declaration?.toList.map Token.lexeme := by
  cases s with
  | block | expression | flow | print | returns | classDecl | traitDecl | varDecl => rfl
  | functionDecl f =>
    rw [Stmt.declared, Stmt.declaration?]
    cases f.name <;> rfl
  | ifElse condition thenBranch elseBranch =>
    cases elseBranch with
    | none => exact proper.2.1
    | some elseBranch => rw [Stmt.declared, proper.2.1.1, proper.2.2.1]; rfl
  | loop condition body increment =>
    cases increment with
    | none => exact proper.2.1
    | some increment => exact proper.2.1.1

/-- A branch or the body of a loop declares nothing. -/
theorem declaration?_eq_none {s : Stmt} (proper : Proper.stmt s) (none : s.declared = []) :
    s.declaration?.toList = [] := by
  rw [declared_eq proper] at none
  exact List.map_eq_nil_iff.mp none

theorem filterMap_declaration?_cons (s : Stmt) (ss : List Stmt) :
    (s :: ss).filterMap Stmt.declaration? =
      s.declaration?.toList ++ ss.filterMap Stmt.declaration? := by
  rw [List.filterMap_cons]
  cases s.declaration? <;> rfl

theorem declaration?_plain {s : Stmt} (proper : Proper.stmt s) :
    ∀ name ∈ s.declaration?.toList, Plain name.lexeme := by
  cases s with
  | block | expression | flow | ifElse | print | returns | loop => exact List.forall_mem_nil _
  | classDecl c =>
    obtain ⟨name, parent, traits, ms, statics⟩ := c
    exact List.forall_mem_singleton.mpr proper.1
  | traitDecl t =>
    obtain ⟨name, signatures, defaults⟩ := t
    exact List.forall_mem_singleton.mpr proper.1
  | functionDecl f =>
    obtain ⟨name, params, body, line⟩ := f
    cases name with
    | none => exact proper.elim
    | some name => exact List.forall_mem_singleton.mpr proper.1
  | varDecl name value =>
    cases value with
    | none => exact List.forall_mem_singleton.mpr proper
    | some value => exact List.forall_mem_singleton.mpr proper.1

theorem declarations_plain {ss : List Stmt} (proper : Proper.stmts ss) :
    ∀ name ∈ ss.filterMap Stmt.declaration?, Plain name.lexeme := by
  induction ss with
  | nil => exact List.forall_mem_nil _
  | cons s ss ih =>
    rw [filterMap_declaration?_cons]
    exact List.forall_mem_append.mpr ⟨declaration?_plain proper.1, ih proper.2⟩

mutual

theorem expr_marks : (e : Expr) → {scopes : Scoping.Scopes} → {r : Resolver} → Among scopes r →
    Proper.expr e → Marks [] (Scoping.inExpr e scopes) (LocalScope.inExpr e scopes) r (expr e r)
  | .assign target value, scopes, r, among, ⟨plain, proper⟩ => by
    have inside := expr_marks value among proper
    exact inside.then_bare (bind_marks (among.stay inside) plain)
  | .binary left _ right, _, r, among, ⟨onLeft, onRight⟩
  | .logical left _ right, _, r, among, ⟨onLeft, onRight⟩ => by
    have first := expr_marks left among onLeft
    exact first.trans (expr_marks right (among.stay first) onRight)
  | .call callee _ arguments, _, r, among, ⟨onCallee, onArguments⟩ => by
    have first := expr_marks callee among onCallee
    exact first.trans (exprs_marks arguments (among.stay first) onArguments)
  | .property object _, _, _, among, proper => expr_marks object among proper
  | .group inner, _, _, among, proper => expr_marks inner among proper
  | .lambda f, _, _, among, proper => function_marks .function f among proper
  | .literal _, _, r, _, _ => .refl r
  | .setProperty object _ value, _, r, among, ⟨onObject, onValue⟩ => by
    have first := expr_marks value among onValue
    exact first.trans (expr_marks object (among.stay first) onObject)
  | .superRef keyword _, scopes, _, among, proper => readSuper_marks among.bound proper scopes
  | .ternary condition thenValue elseValue, _, r, among, ⟨onCondition, onThen, onElse⟩ => by
    have asked := expr_marks condition among onCondition
    have taken := expr_marks thenValue (among.stay asked) onThen
    exact asked.trans (taken.trans (expr_marks elseValue ((among.stay asked).stay taken) onElse))
  | .thisRef keyword, scopes, _, among, proper => readThis_marks among.bound proper scopes
  | .unary _ right, _, _, among, proper => expr_marks right among proper
  | .varRef reference, _, _, among, proper => read_marks among proper

theorem exprs_marks : (es : List Expr) → {scopes : Scoping.Scopes} → {r : Resolver} →
    Among scopes r → Proper.exprs es →
    Marks [] (Scoping.inExprs es scopes) (LocalScope.inExprs es scopes) r (exprs es r)
  | [], _, r, _, _ => .refl r
  | e :: es, _, r, among, ⟨onFirst, onRest⟩ => by
    have first := expr_marks e among onFirst
    exact first.trans (exprs_marks es (among.stay first) onRest)

theorem function_marks (kind : FunctionKind) : (f : FunctionDecl) → {scopes : Scoping.Scopes} →
    {r : Resolver} → Among scopes r → Proper.function f →
    Marks [] (Scoping.inFunction f scopes) (LocalScope.inFunction f scopes) r (function kind f r)
  | ⟨_, params, body, _⟩, scopes, r, among, ⟨plain, proper⟩ => by
    have entered : Marks params [] [] { r with functionKind := kind }.openScope
        (r.enterFunction kind params) := introduceAll_marks plain _
    have around : Among ([] :: scopes) { r with functionKind := kind }.openScope :=
      Among.openScope ⟨among.names, among.bound⟩
    have walked := entered.trans (stmts_marks body (around.after entered) proper)
    have left := Marks.close (s := ⟨params, body, scopes⟩) walked among.length
      (List.forall_mem_append.mpr ⟨plain, declarations_plain proper⟩)
    exact ((functionKind_marks kind r).quiet_trans left).trans_quiet (functionKind_marks ..)

theorem functions_marks (kind : FunctionKind) : (fs : List FunctionDecl) →
    {scopes : Scoping.Scopes} → {r : Resolver} → Among scopes r → Proper.functions fs →
    Marks [] (Scoping.inFunctions fs scopes) (LocalScope.inFunctions fs scopes) r
      (functions kind fs r)
  | [], _, r, _, _ => .refl r
  | f :: fs, _, r, among, ⟨onFirst, onRest⟩ => by
    have first := function_marks kind f among onFirst
    exact first.trans (functions_marks kind fs (among.stay first) onRest)

theorem methods_marks (owner : Token) : (ms : List MethodDecl) → (required : Required) →
    {scopes : Scoping.Scopes} → {r : Resolver} → Among scopes r → Proper.methods ms →
    Marks [] (Scoping.inMethods ms scopes) (LocalScope.inMethods ms scopes) r
      (methods owner ms required r).2
  | [], _, _, r, _, _ => .refl r
  | ⟨f, _⟩ :: ms, required, _, r, among, ⟨⟨_, onFirst⟩, onRest⟩ => by
    have provided := provide_marks owner f required r
    have first := provided.quiet_trans
      (function_marks (methodKind f) f (among.stay provided) onFirst)
    exact first.trans (methods_marks owner ms _ (among.stay first) onRest)

theorem stmt_marks : (s : Stmt) → {scopes : Scoping.Scopes} → {r : Resolver} → Among scopes r →
    Proper.stmt s → Marks s.declaration?.toList (Scoping.inStmt s scopes)
      (LocalScope.inStmt s scopes) r (stmt s r)
  | .block body, scopes, r, among, proper =>
    Marks.close (s := ⟨[], body, scopes⟩) (stmts_marks body among.openScope proper) among.length
      (declarations_plain proper)
  | .classDecl ⟨name, parent, traits, ms, statics⟩, scopes, r, among,
      ⟨plain, named, onMethods, onStatics⟩ => by
    obtain ⟨parentNamed, traitsNamed⟩ := List.forall_mem_append.mp named
    have inherited := superclass_marks among name parentNamed
    have mixed := inherited.trans (mixins_marks (among.stay inherited) traitsNamed {})
    rw [← List.map_append] at mixed
    have introduced := introduce_marks plain ((r.superclass name parent).mixins traits {}).2
    have inside := ((among.stay mixed).after introduced).openClass parent
    let entry := r.enterClass name parent traits
    let body := methods name ms entry.1 entry.2
    have provided : Marks [] _ _ entry.2 body.2 := methods_marks name ms entry.1 inside onMethods
    have checked := provided.trans_quiet (enterStatics_marks name body.1 body.2)
    have members := checked.trans (functions_marks .method statics (inside.stay checked) onStatics)
    exact (mixed.trans (introduced.trans (members.closeClass parent))).trans_quiet
      (classKind_marks r.classKind _)
  | .expression value, _, _, among, proper | .print value, _, _, among, proper =>
    expr_marks value among proper
  | .flow _ _, _, r, _, _ => .refl r
  | .functionDecl ⟨some name, params, body, line⟩, _, r, among, ⟨plain, proper⟩ => by
    have introduced := introduce_marks plain r
    exact introduced.trans
      (function_marks .function ⟨some name, params, body, line⟩ (among.after introduced) proper)
  | .ifElse condition thenBranch none, _, r, among, ⟨onCondition, bare, onThen⟩ => by
    have asked := expr_marks condition among onCondition
    have taken := stmt_marks thenBranch (among.stay asked) onThen
    rw [declaration?_eq_none onThen bare] at taken
    exact asked.trans taken
  | .ifElse condition thenBranch (some elseBranch), _, r, among,
      ⟨onCondition, ⟨thenNone, onThen⟩, elseNone, onElse⟩ => by
    have asked := expr_marks condition among onCondition
    have taken := stmt_marks thenBranch (among.stay asked) onThen
    rw [declaration?_eq_none onThen thenNone] at taken
    have other := stmt_marks elseBranch ((among.stay asked).stay taken) onElse
    rw [declaration?_eq_none onElse elseNone] at other
    exact asked.trans (taken.trans other)
  | .returns keyword none, _, r, _, _ => by
    unfold stmt
    split
    · exact error_marks ..
    · exact .refl r
  | .returns keyword (some value), _, r, among, proper => by
    have checked := checkReturn_marks keyword r
    exact checked.quiet_trans (expr_marks value (among.stay checked) proper)
  | .traitDecl ⟨name, signatures, defaults⟩, scopes, r, among, ⟨plain, proper⟩ => by
    have introduced := introduce_marks plain { r with classKind := .trait }
    have around : Among scopes { r with classKind := .trait } := ⟨among.names, among.bound⟩
    have inside := (around.after introduced).openBound "this"
    have members := (functions_marks .method defaults inside proper).unbind
    have left := (classKind_marks .trait r).quiet_trans (introduced.trans members)
    exact left.trans_quiet (.still rfl ⟨List.prefix_rfl, fun _ _ => rfl⟩ rfl rfl)
  | .varDecl name none, _, r, _, proper => introduce_marks proper r
  | .varDecl name (some value), _, r, among, ⟨plain, proper⟩ => by
    have declared := declare_marks plain r
    exact (declared.trans (expr_marks value (among.after declared) proper)).trans_quiet
      (define_marks name _)
  | .loop condition body none, _, r, among, ⟨onCondition, bare, onBody⟩ => by
    have asked := expr_marks condition among onCondition
    have turned := stmt_marks body (among.stay asked) onBody
    rw [declaration?_eq_none onBody bare] at turned
    exact asked.trans turned
  | .loop condition body (some increment), _, r, among,
      ⟨onCondition, ⟨bare, onBody⟩, onIncrement⟩ => by
    have asked := expr_marks condition among onCondition
    have turned := stmt_marks body (among.stay asked) onBody
    rw [declaration?_eq_none onBody bare] at turned
    have stepped := expr_marks increment ((among.stay asked).stay turned) onIncrement
    exact asked.trans (turned.trans stepped)

theorem stmts_marks : (ss : List Stmt) → {scopes : Scoping.Scopes} → {r : Resolver} →
    Among scopes r → Proper.stmts ss → Marks (ss.filterMap Stmt.declaration?)
      (Scoping.inStmts ss scopes) (LocalScope.inStmts ss scopes) r (stmts ss r)
  | [], _, r, _, _ => .refl r
  | s :: ss, _, r, among, ⟨onFirst, onRest⟩ => by
    have first := stmt_marks s among onFirst
    have behind := among.after first
    rw [← declared_eq onFirst] at behind
    rw [filterMap_declaration?_cons]
    exact first.trans (stmts_marks ss behind onRest)

end

theorem top_among (registry : Registry) : Among [] { registry } :=
  ⟨rfl, List.forall_mem_nil _⟩

end Resolver

theorem zipIdx_pairwise (frame : Frame) : frame.zipIdx.Pairwise fun v w => v.2 < w.2 := by
  have slots : (frame.zipIdx.map Prod.snd).Pairwise (· < ·) := by
    rw [List.zipIdx_map_snd]
    exact List.pairwise_lt_range' 1
  exact List.pairwise_map.mp slots

/-- The warnings about a scope do not depend on the order in which its variables are enumerated, if
the unused ones are sorted by their slots. -/
theorem warnings_of_any_order {frame : Frame} {order : List (Local × Nat)}
    (all : order.Perm frame.zipIdx) :
    ((order.filter (!·.1.used)).mergeSort fun v w => v.2 ≤ w.2).map
      (fun v => .unused v.1.name v.1.line) = frame.warnings := by
  have sorted : (order.filter (!·.1.used)).mergeSort (fun v w => v.2 ≤ w.2) =
      frame.zipIdx.filter (!·.1.used) := by
    have perm := (List.mergeSort_perm (order.filter (!·.1.used)) fun v w => v.2 ≤ w.2).trans
      (all.filter (!·.1.used))
    have ordered : (frame.zipIdx.filter (!·.1.used)).Pairwise fun v w => v.2 ≤ w.2 :=
      ((zipIdx_pairwise frame).filter _).imp Nat.le_of_lt
    refine List.Perm.eq_of_pairwise ?_ ?_ ordered perm
    · rintro ⟨v, i⟩ ⟨w, j⟩ first second below above
      obtain rfl : i = j := Nat.le_antisymm below above
      have here := List.mk_mem_zipIdx_iff_getElem?.mp
        (List.mem_filter.mp (perm.mem_iff.mp first)).1
      have there := List.mk_mem_zipIdx_iff_getElem?.mp (List.mem_filter.mp second).1
      cases here.symm.trans there
      rfl
    · refine (List.pairwise_mergeSort ?_ ?_ _).imp fun below => of_decide_eq_true below
      · intro u v w
        simpa using Nat.le_trans
      · intro v w
        simpa using Nat.le_total v.2 w.2
  have unnumbered : (frame.zipIdx.filter (!·.1.used)).map Prod.fst = frame.filter (!·.used) := by
    conv => rhs; rw [← List.zipIdx_map_fst 0 frame, List.filter_map]
    rfl
  rw [sorted, Frame.warnings, ← unnumbered, List.map_map]
  rfl

/-- The address that has been recorded for a reference. -/
def Registry.address (registry : Registry) (reference : Reference) : Option Address :=
  registry.addresses[reference.id]?

/-- Of any program, accepted or not, the unused variables are reported scope by scope, in the order
in which the scopes are left, and in each scope in the order of declaration. Variables are those of
blocks and functions; none of a scope has the name of another one, or is called `this` or `super`. A
variable is unused if no reference to a variable has got its address, which is the one that the
scopes around the reference give to its name. In what order the variables of a scope are enumerated
makes no difference. -/
theorem unused_variables_are_reported (scanned : scan source = .ok tokens)
    (parsed : parse tokens n = (.ok program, cursor))
    (unused : ∀ id, n ≤ id → registry.addresses[id]? = none) :
    (Resolver.reported (resolve program registry).1).filter (!·.isError) =
      (LocalScope.inStmts program []).flatMap
        (LocalScope.warnings (resolve program registry).2.address) ∧
    (∀ place ∈ Scoping.ordinary (Scoping.inStmts program []),
      (resolve program registry).2.address place.1 = Scoping.resolved place) ∧
    (∀ s ∈ LocalScope.inStmts program [], (s.bindings.map Token.lexeme).Nodup ∧
      ∀ name ∈ s.bindings, Plain name.lexeme) ∧
    ∀ (frame : Frame) (order : List (Local × Nat)), order.Perm frame.zipIdx →
      ((order.filter (!·.1.used)).mergeSort fun v w => v.2 ≤ w.2).map
        (fun v => .unused v.1.name v.1.line) = frame.warnings := by
  obtain ⟨proper, numbered⟩ := parse_proper scanned parsed
  have marks := Resolver.stmts_marks program (Resolver.top_among registry) proper
  have addresses : ∀ place ∈ Scoping.ordinary (Scoping.inStmts program []),
      (resolve program registry).2.address place.1 = Scoping.resolved place := by
    have ids : (Scoping.inStmts program []).map (·.1.id) =
        (Reference.inStmts true program).map Reference.id := by
      rw [← Scoping.inStmts_references program [], List.map_map]
      rfl
    refine marks.recorded (ids ▸ numbered.distinct) fun place member => unused _ ?_
    have there := List.mem_map_of_mem (f := Prod.fst) member
    rw [Scoping.inStmts_references] at there
    exact (numbered.within _ there).1
  refine ⟨?_, addresses, fun s member => ⟨firstsBy_nodup _ _, fun name bound => ?_⟩,
    fun _ _ => warnings_of_any_order⟩
  · rw [resolve, Resolver.reported_verdict]
    exact marks.said _ addresses
  · exact marks.plain s member name (mem_of_firstsBy bound)

/-- A parameter that is declared again, a variable of the same name in a block, and functions and a
class that nobody refers to. -/
def shadowedNames : String :=
  "fun f(a, b) \x7b var a; \x7b var b = a; fun g(c) \x7b return d; \x7d \x7d " ++
    "class K \x7b m(x) \x7b return this; \x7d \x7d \x7d"

theorem shadowedNames_reported : ∃ tokens cursor, scan shadowedNames = .ok tokens ∧
    parse tokens 0 = (.ok (programOf shadowedNames), cursor) ∧
    ((Resolver.reported (resolve (programOf shadowedNames) {}).1).filter (!·.isError)).map
      Diagnostic.message = ["c", "b", "g", "x", "b", "K"].map fun name =>
        "[line 1] Warning: Unused variable '" ++ name ++ "'." := by
  obtain ⟨tokens, cursor, scanned, parsed⟩ :=
    parsed_of_nonempty (show (programOf shadowedNames).isEmpty = false by decide +kernel)
  refine ⟨tokens, cursor, scanned, parsed, ?_⟩
  rw [(unused_variables_are_reported scanned parsed fun _ _ => Std.TreeMap.getElem?_emptyc).1]
  decide +kernel

end Lox
