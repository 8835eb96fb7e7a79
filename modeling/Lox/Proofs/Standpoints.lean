import Lox.Proofs.ResolverWalk
import Lox.Proofs.TreeNodes

/-! What a resolution pass comes back to. Whether it finds errors or not, a pass over a part is
afterwards in the same kind of function and the same kind of class as before, and waits for the same
initializers. These kinds are those of the functions that lie around the part. -/

namespace Lox

/-- What a pass knows about the place it has come to, apart from names and what it has found. -/
structure Standpoint where
  functionKind : FunctionKind
  classKind : ClassKind
  /-- The variables whose initializers are not over, scope by scope. -/
  awaited : List (List String)
deriving DecidableEq

/-- The variables of a scope whose initializers are not over. -/
def Frame.awaited (frame : Frame) : List String := (frame.filter (!·.defined)).map Local.name

theorem Frame.awaits_iff {frame : Frame} : frame.awaits name = true ↔ name ∈ frame.awaited := by
  simp only [awaits, awaited, List.any_eq_true, List.mem_map, List.mem_filter, Bool.and_eq_true,
    beq_iff_eq]
  exact ⟨fun ⟨v, member, named, open'⟩ => ⟨v, ⟨member, open'⟩, named⟩,
    fun ⟨v, ⟨member, open'⟩, named⟩ => ⟨v, member, named, open'⟩⟩

theorem Frame.awaited_append (frame : Frame) (v : Local) :
    Frame.awaited (frame ++ [v]) = frame.awaited ++ if v.defined then [] else [v.name] := by
  obtain ⟨name, line, defined, used⟩ := v
  cases defined <;> simp [awaited]

theorem Frame.awaited_update_used (frame : Frame) (name : String) :
    (frame.update name ({ · with used := true })).awaited = frame.awaited := by
  unfold awaited update
  induction frame with
  | nil => rfl
  | cons v frame ih =>
    obtain ⟨own, line, defined, used⟩ := v
    by_cases same : own = name <;> cases defined <;> simp [same, ih]

theorem Frame.awaited_update_defined (frame : Frame) (name : String) :
    (frame.update name ({ · with defined := true })).awaited =
      frame.awaited.filter (· ≠ name) := by
  unfold awaited update
  induction frame with
  | nil => rfl
  | cons v frame ih =>
    obtain ⟨own, line, defined, used⟩ := v
    by_cases same : own = name <;> cases defined <;> simp [same, ih]

namespace Resolver

def standpoint (r : Resolver) : Standpoint :=
  ⟨r.functionKind, r.classKind, r.frames.map Frame.awaited⟩

/-- No variable of the innermost scope waits for its initializer, as between two statements. -/
def Settled (r : Resolver) : Prop := ∀ frame ∈ r.frames.head?, frame.awaited = []

/-- The innermost scope waits for the initializer of a variable of this name. -/
def Awaits (name : String) (r : Resolver) : Prop := ∃ frame ∈ r.frames.head?, name ∈ frame.awaited

theorem Settled.not_awaits {r : Resolver} (settled : r.Settled) (name : String) :
    ¬ r.Awaits name := by
  rintro ⟨frame, innermost, member⟩
  rw [settled frame innermost] at member
  cases member

section

variable {r r' : Resolver}

theorem functionKind_eq (same : r'.standpoint = r.standpoint) :
    r'.functionKind = r.functionKind := congrArg Standpoint.functionKind same

theorem classKind_eq (same : r'.standpoint = r.standpoint) : r'.classKind = r.classKind :=
  congrArg Standpoint.classKind same

theorem awaited_eq (same : r'.standpoint = r.standpoint) :
    r'.frames.map Frame.awaited = r.frames.map Frame.awaited := congrArg Standpoint.awaited same

theorem head?_awaited (r : Resolver) :
    (r.frames.map Frame.awaited).head? = r.frames.head?.map Frame.awaited := List.head?_map

theorem settled_iff : r.Settled ↔ ∀ names ∈ (r.frames.map Frame.awaited).head?, names = [] := by
  rw [head?_awaited]
  cases h : r.frames.head? <;> simp [Settled, h]

theorem awaits_iff : r.Awaits name ↔ ∃ names ∈ (r.frames.map Frame.awaited).head?,
    name ∈ names := by
  rw [head?_awaited]
  cases h : r.frames.head? <;> simp [Awaits, h]

theorem Settled.of_eq (settled : r.Settled) (same : r'.standpoint = r.standpoint) : r'.Settled := by
  rw [settled_iff, awaited_eq same, ← settled_iff]
  exact settled

theorem awaits_congr (same : r'.standpoint = r.standpoint) (name : String) :
    r'.Awaits name ↔ r.Awaits name := by
  rw [awaits_iff, awaits_iff, awaited_eq same]

theorem frames_length_eq (same : r'.standpoint = r.standpoint) :
    r'.frames.length = r.frames.length := by
  simpa using congrArg List.length (awaited_eq same)

end

theorem openBound_standpoint (name : String) (r : Resolver) :
    (r.openBound name).standpoint = { r.standpoint with awaited := [] :: r.standpoint.awaited } :=
  rfl

theorem closeScope_standpoint (r : Resolver) :
    r.closeScope.standpoint = { r.standpoint with awaited := r.standpoint.awaited.tail } := by
  unfold closeScope standpoint
  cases frames : r.frames <;> simp [frames]

/-- A name is taken from the innermost scope. -/
def strike (name : String) : List (List String) → List (List String)
  | [] => []
  | inner :: outer => inner.filter (· ≠ name) :: outer

theorem define_standpoint (name : Token) (r : Resolver) : (r.define name).standpoint =
    { r.standpoint with awaited := strike name.lexeme r.standpoint.awaited } := by
  unfold define standpoint
  cases frames : r.frames with
  | nil => simp [strike, frames]
  | cons frame outer => simp [strike, Frame.awaited_update_defined]

/-- A new variable waits for its initializer, one that is declared again does not. -/
theorem declare_standpoint (name : Token) (r : Resolver) :
    (r.declare name).standpoint = r.standpoint ∨ (r.declare name).standpoint =
      { r.standpoint with awaited := addNames [name.lexeme] r.standpoint.awaited } := by
  unfold declare
  split
  · exact .inl rfl
  · rename_i frame outer frames
    split
    · exact .inl rfl
    · right
      unfold extend standpoint
      simp [frames, Frame.awaited_append, addNames]

theorem strike_settled {r : Resolver} (settled : r.Settled) (name : String) :
    strike name r.standpoint.awaited = r.standpoint.awaited ∧
      strike name (addNames [name] r.standpoint.awaited) = r.standpoint.awaited := by
  unfold standpoint
  cases frames : r.frames with
  | nil => exact ⟨rfl, rfl⟩
  | cons frame outer =>
    have none : frame.awaited = [] := settled frame (by rw [frames]; rfl)
    simp [strike, addNames, none]

/-- The declaration of a variable, with its initializer in between. -/
theorem declared_standpoint {r r' : Resolver} (settled : r.Settled)
    (between : r'.standpoint = (r.declare name).standpoint) :
    (r'.define name).standpoint = r.standpoint := by
  obtain ⟨plain, new⟩ := strike_settled settled name.lexeme
  rw [define_standpoint, between]
  obtain same | same := declare_standpoint name r
  · rw [same, plain]
  · rw [same, new]

theorem introduce_standpoint {r : Resolver} (settled : r.Settled) (name : Token) :
    (r.introduce name).standpoint = r.standpoint := declared_standpoint settled rfl

theorem markUsed_awaited (name : String) (frames : List Frame) :
    (markUsed name frames).map Frame.awaited = frames.map Frame.awaited := by
  induction frames with
  | nil => rfl
  | cons frame outer ih =>
    unfold markUsed
    split
    · rw [List.map_cons, List.map_cons, Frame.awaited_update_used]
    · rw [List.map_cons, List.map_cons, ih]

theorem bind_standpoint (reference : Reference) (r : Resolver) :
    (r.bind reference).standpoint = r.standpoint := by
  unfold bind
  split
  · rfl
  · unfold standpoint
    dsimp only
    rw [markUsed_awaited]

theorem read_standpoint (reference : Reference) (r : Resolver) :
    (r.read reference).standpoint = r.standpoint := by
  unfold read
  extract_lets awaited
  cases awaited with
  | true => exact bind_standpoint reference (r.error ..)
  | false => exact bind_standpoint reference r

theorem readThis_standpoint (keyword : Reference) (r : Resolver) :
    (r.readThis keyword).standpoint = r.standpoint := by
  unfold readThis
  split
  case h_1 | h_2 => rfl
  case h_3 | h_4 | h_5 => exact bind_standpoint ..

theorem readSuper_standpoint (keyword : Reference) (r : Resolver) :
    (r.readSuper keyword).standpoint = r.standpoint := by
  unfold readSuper
  split
  case h_1 | h_2 | h_3 | h_4 => rfl
  case h_5 => exact bind_standpoint ..

theorem mixins_standpoint (traits : List Reference) (required : Required) (r : Resolver) :
    (r.mixins traits required).2.standpoint = r.standpoint := by
  induction traits generalizing required r with
  | nil => rfl
  | cons t ts ih =>
    unfold mixins
    dsimp only
    split
    · exact (ih ..).trans (read_standpoint t r)
    · exact (ih ..).trans (read_standpoint t r)

theorem provide_standpoint (owner : Token) (f : FunctionDecl) (required : Required)
    (r : Resolver) : (r.provide owner f required).2.standpoint = r.standpoint := by
  unfold provide
  split
  · dsimp only
    split <;> rfl
  · rfl

theorem checkReturn_standpoint (keyword : Token) (r : Resolver) :
    (r.checkReturn keyword).standpoint = r.standpoint := by
  unfold checkReturn
  split <;> rfl

/-- The kind of a class with or without a superclass. -/
def kindOfClass (parent : Option Reference) : ClassKind :=
  if parent.isSome then .subclass else .plain

theorem superclass_standpoint (owner : Token) (parent : Option Reference) (r : Resolver) :
    (r.superclass owner parent).standpoint =
      { r.standpoint with classKind := kindOfClass parent } := by
  unfold superclass
  cases parent with
  | none => rfl
  | some parent =>
    dsimp only
    rw [read_standpoint]
    split <;> rfl

theorem introduceAll_standpoint {r : Resolver} (settled : r.Settled) (params : List Token) :
    (params.foldl (fun r p => r.introduce p) r).standpoint = r.standpoint := by
  induction params generalizing r with
  | nil => rfl
  | cons p ps ih =>
    have first := introduce_standpoint settled p
    exact (ih (settled.of_eq first)).trans first

theorem settled_of_nil {r : Resolver} (innermost : r.standpoint.awaited = [] :: outer) :
    r.Settled := by
  rw [settled_iff]
  change ∀ names ∈ r.standpoint.awaited.head?, names = []
  rw [innermost]
  simp

theorem openScope_settled (r : Resolver) : r.openScope.Settled := settled_of_nil rfl

theorem enterFunction_standpoint (kind : FunctionKind) (params : List Token) (r : Resolver) :
    (r.enterFunction kind params).standpoint =
      ⟨kind, r.classKind, [] :: r.standpoint.awaited⟩ :=
  introduceAll_standpoint (openScope_settled { r with functionKind := kind }) params

theorem enterFunction_settled (kind : FunctionKind) (params : List Token) (r : Resolver) :
    (r.enterFunction kind params).Settled :=
  settled_of_nil (congrArg Standpoint.awaited (enterFunction_standpoint kind params r))

/-- The scopes that a class opens wait for nothing. -/
def classLayers (parent : Option Reference) (outer : List (List String)) : List (List String) :=
  if parent.isSome then [] :: [] :: outer else [] :: outer

theorem enterClass_standpoint {r : Resolver} (settled : r.Settled) (name : Token)
    (parent : Option Reference) (traits : List Reference) :
    (r.enterClass name parent traits).2.standpoint =
      ⟨r.functionKind, kindOfClass parent, classLayers parent r.standpoint.awaited⟩ := by
  have entered := superclass_standpoint name parent r
  have mixed := mixins_standpoint traits {} (r.superclass name parent)
  have settled' : ((r.superclass name parent).mixins traits {}).2.Settled := by
    rw [settled_iff]
    change ∀ names ∈ (Resolver.standpoint _).awaited.head?, names = []
    rw [mixed, entered]
    exact settled_iff.mp settled
  have introduced := (introduce_standpoint settled' name).trans (mixed.trans entered)
  unfold enterClass openClass classLayers
  dsimp only
  split <;> simp only [openBound_standpoint, introduced] <;> rfl

theorem closeClass_standpoint {r : Resolver} (parent : Option Reference)
    (inside : r.standpoint.awaited = classLayers parent outer) :
    (r.closeClass parent).standpoint = { r.standpoint with awaited := outer } := by
  unfold closeClass
  unfold classLayers at inside
  split at inside
  · rename_i subclass
    rw [if_pos subclass, closeScope_standpoint, closeScope_standpoint, inside]
    rfl
  · rename_i plain
    rw [if_neg plain, closeScope_standpoint, inside]
    rfl

theorem enterStatics_standpoint (name : Token) (required : Required) (r : Resolver) :
    (r.enterStatics name required).standpoint = { r.standpoint with classKind := .static } := by
  unfold enterStatics checkProvided
  split <;> rfl

theorem enterTrait_standpoint {r : Resolver} (settled : r.Settled) (name : Token) :
    (r.enterTrait name).standpoint =
      ⟨r.functionKind, .trait, [] :: r.standpoint.awaited⟩ := by
  have settled' : ({ r with classKind := .trait } : Resolver).Settled := settled
  unfold enterTrait
  rw [openBound_standpoint, introduce_standpoint settled']
  rfl

mutual

theorem expr_standpoint : (e : Expr) → (r : Resolver) → (expr e r).standpoint = r.standpoint
  | .assign target value, r => (bind_standpoint target _).trans (expr_standpoint value r)
  | .binary left _ right, r | .logical left _ right, r =>
    (expr_standpoint right _).trans (expr_standpoint left r)
  | .call callee _ arguments, r =>
    (exprs_standpoint arguments _).trans (expr_standpoint callee r)
  | .property object _, r => expr_standpoint object r
  | .group inner, r => expr_standpoint inner r
  | .lambda f, r => function_standpoint .function f r
  | .literal _, _ => rfl
  | .setProperty object _ value, r => (expr_standpoint object _).trans (expr_standpoint value r)
  | .superRef keyword _, r => readSuper_standpoint keyword r
  | .ternary condition thenValue elseValue, r =>
    (expr_standpoint elseValue _).trans
      ((expr_standpoint thenValue _).trans (expr_standpoint condition r))
  | .thisRef keyword, r => readThis_standpoint keyword r
  | .unary _ right, r => expr_standpoint right r
  | .varRef reference, r => read_standpoint reference r

theorem exprs_standpoint : (es : List Expr) → (r : Resolver) →
    (exprs es r).standpoint = r.standpoint
  | [], _ => rfl
  | e :: es, r => (exprs_standpoint es _).trans (expr_standpoint e r)

theorem function_standpoint (kind : FunctionKind) : (f : FunctionDecl) → (r : Resolver) →
    (function kind f r).standpoint = r.standpoint
  | ⟨_, params, body, _⟩, r => by
    have inside := (stmts_standpoint body (enterFunction_settled kind params r)).trans
      (enterFunction_standpoint kind params r)
    have left := closeScope_standpoint (stmts body (r.enterFunction kind params))
    rw [inside] at left
    unfold function
    exact congrArg (fun s : Standpoint => { s with functionKind := r.functionKind }) left

theorem functions_standpoint (kind : FunctionKind) : (fs : List FunctionDecl) → (r : Resolver) →
    (functions kind fs r).standpoint = r.standpoint
  | [], _ => rfl
  | f :: fs, r => (functions_standpoint kind fs _).trans (function_standpoint kind f r)

theorem methods_standpoint (owner : Token) : (ms : List MethodDecl) → (required : Required) →
    (r : Resolver) → (methods owner ms required r).2.standpoint = r.standpoint
  | [], _, _ => rfl
  | ⟨f, _⟩ :: ms, required, r =>
    (methods_standpoint owner ms _ _).trans <|
      (function_standpoint (methodKind f) f _).trans (provide_standpoint owner f required r)

theorem stmt_standpoint : (s : Stmt) → {r : Resolver} → r.Settled →
    (stmt s r).standpoint = r.standpoint
  | .block body, r, _ => by
    have inside := stmts_standpoint body (openScope_settled r)
    unfold stmt
    rw [closeScope_standpoint, inside]
    rfl
  | .classDecl ⟨name, parent, traits, ms, statics⟩, r, settled => by
    unfold stmt classDecl
    dsimp only
    generalize entry : r.enterClass name parent traits = inside
    have entered := enterClass_standpoint settled name parent traits
    rw [entry] at entered
    generalize body : methods name ms inside.1 inside.2 = provided
    have passed := methods_standpoint name ms inside.1 inside.2
    rw [body, entered] at passed
    have walked := (functions_standpoint .method statics _).trans
      (enterStatics_standpoint name provided.1 provided.2)
    rw [passed] at walked
    have left := closeClass_standpoint parent (congrArg Standpoint.awaited walked)
    rw [walked] at left
    exact congrArg (fun s : Standpoint => { s with classKind := r.classKind }) left
  | .expression value, r, _ | .print value, r, _ => expr_standpoint value r
  | .flow _ _, _, _ => rfl
  | .functionDecl ⟨some name, params, body, line⟩, r, settled =>
    (function_standpoint .function _ _).trans (introduce_standpoint settled name)
  | .functionDecl ⟨none, params, body, line⟩, r, _ => function_standpoint .function _ r
  | .ifElse condition thenBranch none, r, settled =>
    have asked := expr_standpoint condition r
    (stmt_standpoint thenBranch (settled.of_eq asked)).trans asked
  | .ifElse condition thenBranch (some elseBranch), r, settled =>
    have asked := expr_standpoint condition r
    have taken := (stmt_standpoint thenBranch (settled.of_eq asked)).trans asked
    (stmt_standpoint elseBranch (settled.of_eq taken)).trans taken
  | .returns keyword none, r, _ => by
    unfold stmt
    split <;> rfl
  | .returns keyword (some value), r, _ =>
    (expr_standpoint value _).trans (checkReturn_standpoint keyword r)
  | .traitDecl ⟨name, signatures, defaults⟩, r, settled => by
    have inside := (functions_standpoint .method defaults _).trans
      (enterTrait_standpoint settled name)
    have left := closeScope_standpoint (functions .method defaults (r.enterTrait name))
    rw [inside] at left
    exact congrArg (fun s : Standpoint => { s with classKind := r.classKind }) left
  | .varDecl name none, r, settled => introduce_standpoint settled name
  | .varDecl name (some value), r, settled =>
    declared_standpoint settled (expr_standpoint value (r.declare name))
  | .loop condition body none, r, settled =>
    have asked := expr_standpoint condition r
    (stmt_standpoint body (settled.of_eq asked)).trans asked
  | .loop condition body (some increment), r, settled =>
    have asked := expr_standpoint condition r
    (expr_standpoint increment _).trans <|
      (stmt_standpoint body (settled.of_eq asked)).trans asked

theorem stmts_standpoint : (ss : List Stmt) → {r : Resolver} → r.Settled →
    (stmts ss r).standpoint = r.standpoint
  | [], _, _ => rfl
  | s :: ss, _, settled =>
    have first := stmt_standpoint s settled
    (stmts_standpoint ss (settled.of_eq first)).trans first

end

end Resolver

end Lox
