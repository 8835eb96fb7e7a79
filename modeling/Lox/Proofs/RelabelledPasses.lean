import Lox.Proofs.BalancedWalk
import Lox.Proofs.Relabelling
import Mathlib.Data.List.Forall2

/-! A program with other labels is resolved as before: its references get the same addresses, under
their own numbers, and its diagnostics stand on their own lines, behind those of what has been
resolved before it. -/

namespace Lox

open Relabelling

variable {φ : Relabelling} {before : List Diagnostic}

def Diagnostic.relabelled (φ : Relabelling) : Diagnostic → Diagnostic
  | .error token cause => .error (φ.token token) cause
  | .unused name line => .unused name (φ.line line)

theorem Diagnostic.isError_relabelled (d : Diagnostic) :
    (d.relabelled φ).isError = d.isError := by
  cases d <;> rfl

/-- A variable on another line. Nobody asks for the line of one that is used. -/
structure Local.Relabelled (φ : Relabelling) (v v' : Local) : Prop where
  name : v'.name = v.name
  defined : v'.defined = v.defined
  used : v'.used = v.used
  line : v.used = false → v'.line = φ.line v.line

abbrev Frame.Relabelled (φ : Relabelling) (frame frame' : Frame) : Prop :=
  List.Forall₂ (Local.Relabelled φ) frame frame'

namespace Frame.Relabelled

variable {frame frame' : Frame} (alike : Frame.Relabelled φ frame frame')
include alike

theorem declares_eq (name : String) : frame'.declares name = frame.declares name := by
  unfold Frame.declares
  induction alike with
  | nil => rfl
  | cons first _ ih => rw [List.any_cons, List.any_cons, first.name, ih]

theorem slot?_eq (name : String) : frame'.slot? name = frame.slot? name := by
  unfold Frame.slot?
  induction alike with
  | nil => rfl
  | cons first _ ih => rw [List.findIdx?_cons, List.findIdx?_cons, first.name, ih]

theorem awaits_eq (name : String) : frame'.awaits name = frame.awaits name := by
  unfold Frame.awaits
  induction alike with
  | nil => rfl
  | cons first _ ih => rw [List.any_cons, List.any_cons, first.name, first.defined, ih]

theorem update {f : Local → Local} (name : String)
    (step : ∀ ⦃v v'⦄, Local.Relabelled φ v v' → Local.Relabelled φ (f v) (f v')) :
    Frame.Relabelled φ (frame.update name f) (frame'.update name f) := by
  unfold Frame.update
  induction alike with
  | nil => exact .nil
  | cons first _ ih =>
    refine .cons ?_ ih
    dsimp only
    rw [first.name]
    split
    · exact step first
    · exact first

theorem warnings_eq : frame'.warnings = frame.warnings.map (Diagnostic.relabelled φ) := by
  unfold Frame.warnings
  induction alike with
  | nil => rfl
  | @cons v v' _ _ first _ ih =>
    cases used : v.used with
    | true => simp [used, first.used, ih]
    | false => simp [used, first.used, first.name, first.line used, ih, Diagnostic.relabelled]

end Frame.Relabelled

theorem locate_relabelled (frames : List.Forall₂ (Frame.Relabelled φ) fs fs') (name : String) :
    locate name fs' = locate name fs := by
  induction frames with
  | nil => rfl
  | cons first _ ih => rw [locate, locate, first.slot?_eq, ih]

theorem markUsed_relabelled (frames : List.Forall₂ (Frame.Relabelled φ) fs fs') (name : String) :
    List.Forall₂ (Frame.Relabelled φ) (markUsed name fs) (markUsed name fs') := by
  induction frames with
  | nil => exact .nil
  | cons first rest ih =>
    rw [markUsed, markUsed, first.declares_eq]
    split
    · refine .cons (first.update name fun v v' alike => ?_) rest
      exact ⟨alike.name, alike.defined, rfl, fun used => by cases used⟩
    · exact .cons first ih

/-- How what is recorded about a tree belongs to what is recorded about the relabelled one. -/
structure Relabelling.Records (φ : Relabelling) where
  holds : Registry → Registry → Prop
  traits : ∀ {g g'}, holds g g' → g'.traits = g.traits
  insert : ∀ {g g' : Registry}, holds g g' → ∀ (id : NodeId) (address : Address),
    holds { g with addresses := g.addresses.insert id address }
      { g' with addresses := g'.addresses.insert (φ.node id) address }
  register : ∀ {g g' : Registry}, holds g g' → ∀ traits,
    holds { g with traits } { g' with traits }

/-- The states of two passes, the second over a relabelled tree. Before its own diagnostics it has
those of what it has passed already. -/
structure Resolver.Relabelled (R : φ.Records) (before : List Diagnostic) (r r' : Resolver) :
    Prop where
  frames : List.Forall₂ (Frame.Relabelled φ) r.frames r'.frames
  functionKind : r'.functionKind = r.functionKind
  classKind : r'.classKind = r.classKind
  diagnostics : r'.diagnostics = before ++ r.diagnostics.map (Diagnostic.relabelled φ)
  registry : R.holds r.registry r'.registry

namespace Resolver.Relabelled

variable {R : φ.Records} {r r' : Resolver} (alike : Relabelled R before r r')
include alike

theorem warn (ds : List Diagnostic) :
    Relabelled R before { r with diagnostics := r.diagnostics ++ ds }
      { r' with diagnostics := r'.diagnostics ++ ds.map (Diagnostic.relabelled φ) } := by
  refine { alike with diagnostics := ?_ }
  rw [alike.diagnostics, List.map_append, List.append_assoc]

theorem error (token : Token) (cause : Diagnostic.Cause) :
    Relabelled R before (r.error token cause) (r'.error (φ.token token) cause) :=
  alike.warn [.error token cause]

theorem withClassKind (class' : ClassKind) :
    Relabelled R before { r with classKind := class' } { r' with classKind := class' } :=
  { alike with classKind := rfl }

theorem openScope : Relabelled R before r.openScope r'.openScope :=
  { alike with frames := .cons .nil alike.frames }

theorem closeScope : Relabelled R before r.closeScope r'.closeScope := by
  have frames := alike.frames
  unfold Resolver.closeScope
  generalize r.frames = fs, r'.frames = fs' at frames
  cases frames with
  | nil => exact alike
  | cons first rest =>
    dsimp only
    rw [first.warnings_eq]
    exact { alike.warn _ with frames := rest }

theorem extend (locals : Local.Relabelled φ v v') :
    Relabelled R before (r.extend v) (r'.extend v') := by
  have frames := alike.frames
  unfold Resolver.extend
  generalize r.frames = fs, r'.frames = fs' at frames
  cases frames with
  | nil => exact alike
  | cons first rest =>
    exact { alike with frames := .cons (List.rel_append first (.cons locals .nil)) rest }

theorem openBound (name : String) :
    Relabelled R before (r.openBound name) (r'.openBound name) :=
  alike.openScope.extend ⟨rfl, rfl, rfl, fun used => by cases used⟩

theorem declare (name : Token) :
    Relabelled R before (r.declare name) (r'.declare (φ.token name)) := by
  have frames := alike.frames
  have declared := alike.error name .redeclared
  have locals : Local.Relabelled φ ⟨name.lexeme, name.line, false, false⟩
      ⟨name.lexeme, φ.line name.line, false, false⟩ := ⟨rfl, rfl, rfl, fun _ => rfl⟩
  have extended := alike.extend locals
  unfold Resolver.declare
  generalize r.frames = fs, r'.frames = fs' at frames
  cases frames with
  | nil => exact alike
  | cons first rest =>
    simp only [lexeme_token, first.declares_eq]
    split
    · exact declared
    · exact extended

theorem define (name : Token) :
    Relabelled R before (r.define name) (r'.define (φ.token name)) := by
  have frames := alike.frames
  unfold Resolver.define
  generalize r.frames = fs, r'.frames = fs' at frames
  cases frames with
  | nil => exact alike
  | cons first rest =>
    have updated := first.update (f := fun v => { v with defined := true }) name.lexeme
      fun _ _ v => ⟨v.name, rfl, v.used, v.line⟩
    exact { alike with frames := .cons updated rest }

theorem introduce (name : Token) :
    Relabelled R before (r.introduce name) (r'.introduce (φ.token name)) :=
  (alike.declare name).define name

theorem bind (reference : Reference) :
    Relabelled R before (r.bind reference) (r'.bind (φ.reference reference)) := by
  have located := locate_relabelled alike.frames reference.name.lexeme
  unfold Resolver.bind
  dsimp only [Relabelling.reference, token]
  rw [located]
  cases locate reference.name.lexeme r.frames with
  | none => exact alike
  | some address =>
    exact { alike with
      frames := markUsed_relabelled alike.frames _
      registry := R.insert alike.registry reference.id address }

theorem read (reference : Reference) :
    Relabelled R before (r.read reference) (r'.read (φ.reference reference)) := by
  have frames := alike.frames
  unfold Resolver.read
  refine Relabelled.bind ?_ reference
  have awaited := alike.error reference.name .ownInitializer
  generalize r.frames = fs, r'.frames = fs' at frames
  cases frames with
  | nil => exact alike
  | cons first rest =>
    simp only [Relabelling.reference, lexeme_token, first.awaits_eq]
    split
    · exact awaited
    · exact alike

theorem readThis (keyword : Reference) :
    Relabelled R before (r.readThis keyword)
      (r'.readThis (φ.reference keyword)) := by
  unfold Resolver.readThis
  rw [alike.classKind]
  cases r.classKind with
  | none => exact alike.error ..
  | static => exact alike.error ..
  | plain => exact alike.bind keyword
  | subclass => exact alike.bind keyword
  | trait => exact alike.bind keyword

theorem readSuper (keyword : Reference) :
    Relabelled R before (r.readSuper keyword)
      (r'.readSuper (φ.reference keyword)) := by
  unfold Resolver.readSuper
  rw [alike.classKind]
  cases r.classKind with
  | subclass => exact alike.bind keyword
  | _ => exact alike.error ..

/-- What traits ask for is looked up by name. -/
theorem mixins (ts : List Reference) (required : Required) :
    (r'.mixins (ts.map φ.reference) required).1 = (r.mixins ts required).1 ∧
      Relabelled R before (r.mixins ts required).2
        (r'.mixins (ts.map φ.reference) required).2 := by
  induction ts generalizing required r r' with
  | nil => exact ⟨rfl, alike⟩
  | cons t ts ih =>
    have read := alike.read t
    have wishes : (r'.read (φ.reference t)).registry.traits[
        (φ.reference t).name.lexeme]? = (r.read t).registry.traits[t.name.lexeme]? := by
      rw [R.traits read.registry]
      rfl
    rw [List.map_cons]
    unfold Resolver.mixins
    dsimp only
    rw [wishes]
    cases (r.read t).registry.traits[t.name.lexeme]? with
    | some asked => exact ih read _
    | none => exact ih (read.error ..) required

theorem superclass (owner : Token) (parent : Option Reference) :
    Relabelled R before (r.superclass owner parent)
      (r'.superclass (φ.token owner) (parent.map φ.reference)) := by
  cases parent with
  | none => exact alike.withClassKind .plain
  | some parent =>
    refine Relabelled.read (Relabelled.withClassKind ?_ .subclass) parent
    have same : (φ.reference parent).name.lexeme = (φ.token owner).lexeme ↔
        parent.name.lexeme = owner.lexeme := .rfl
    by_cases own : parent.name.lexeme = owner.lexeme
    · rw [if_pos own, if_pos (same.mpr own)]
      exact alike.error ..
    · rw [if_neg own, if_neg (mt same.mp own)]
      exact alike

theorem checkProvided (owner : Token) (required : Required) :
    Relabelled R before (r.checkProvided owner required)
      (r'.checkProvided (φ.token owner) required) := by
  unfold Resolver.checkProvided
  split
  · exact alike
  · exact alike.error ..

omit alike in
theorem methodKind_relabelled (f : FunctionDecl) :
    methodKind (φ.function f) = methodKind f := by
  unfold methodKind
  rw [title_function]

theorem provide (owner : Token) (f : FunctionDecl) (required : Required) :
    (r'.provide (φ.token owner) (φ.function f) required).1 =
        (r.provide owner f required).1 ∧
      Relabelled R before (r.provide owner f required).2
        (r'.provide (φ.token owner) (φ.function f) required).2 := by
  have blamed : ((φ.function f).name.getD (φ.token owner)) =
      φ.token (f.name.getD owner) := by
    obtain ⟨name, params, body, line⟩ := f
    cases name <;> rfl
  unfold Resolver.provide
  rw [methodKind_relabelled, title_function, arity_function, blamed]
  split
  · refine ⟨rfl, ?_⟩
    dsimp only
    split
    · exact alike
    · exact alike.error ..
  · exact ⟨rfl, alike⟩

theorem enterFunction (own : FunctionKind) (params : List Token) :
    Relabelled R before (r.enterFunction own params)
      (r'.enterFunction own (params.map φ.token)) := by
  have opened : Relabelled R before { r with functionKind := own }.openScope
      { r' with functionKind := own }.openScope :=
    Relabelled.openScope { alike with functionKind := rfl }
  unfold Resolver.enterFunction
  generalize ({ r with functionKind := own } : Resolver).openScope = s at opened ⊢
  generalize ({ r' with functionKind := own } : Resolver).openScope = s' at opened ⊢
  induction params generalizing s s' with
  | nil => exact opened
  | cons p params ih => exact ih _ _ (opened.introduce p)

theorem openClass (parent : Option Reference) :
    Relabelled R before (r.openClass parent)
      (r'.openClass (parent.map φ.reference)) := by
  cases parent with
  | none => exact alike.openBound "this"
  | some _ => exact (alike.openBound "super").openBound "this"

theorem closeClass (parent : Option Reference) :
    Relabelled R before (r.closeClass parent)
      (r'.closeClass (parent.map φ.reference)) := by
  cases parent with
  | none => exact alike.closeScope
  | some _ => exact alike.closeScope.closeScope

theorem enterClass (name : Token) (parent : Option Reference) (traits : List Reference) :
    (r'.enterClass (φ.token name) (parent.map φ.reference)
        (traits.map φ.reference)).1 = (r.enterClass name parent traits).1 ∧
      Relabelled R before (r.enterClass name parent traits).2
        (r'.enterClass (φ.token name) (parent.map φ.reference)
          (traits.map φ.reference)).2 := by
  obtain ⟨required, mixed⟩ := (alike.superclass name parent).mixins traits {}
  exact ⟨required, (mixed.introduce name).openClass parent⟩

theorem enterStatics (name : Token) (required : Required) :
    Relabelled R before (r.enterStatics name required)
      (r'.enterStatics (φ.token name) required) :=
  (alike.checkProvided name required).withClassKind .static

theorem enterTrait (name : Token) :
    Relabelled R before (r.enterTrait name) (r'.enterTrait (φ.token name)) :=
  ((alike.withClassKind .trait).introduce name).openBound "this"

theorem registerTrait (name : Token) (signatures : List Signature) :
    Relabelled R before (r.registerTrait name signatures)
      (r'.registerTrait (φ.token name) (signatures.map φ.signature)) := by
  have wishes : ((signatures.map φ.signature).map fun s => (s.name.lexeme, s.arity)) =
      signatures.map fun s => (s.name.lexeme, s.arity) := List.map_map
  refine { alike with registry := ?_ }
  simp only [Resolver.registerTrait, wishes, R.traits alike.registry, lexeme_token]
  exact R.register alike.registry _

theorem checkReturn (keyword : Token) :
    Relabelled R before (r.checkReturn keyword)
      (r'.checkReturn (φ.token keyword)) := by
  unfold Resolver.checkReturn
  rw [alike.functionKind]
  cases r.functionKind with
  | none => exact alike.error ..
  | initializer => exact alike.error ..
  | function => exact alike
  | method => exact alike

end Resolver.Relabelled

namespace Resolver

mutual

theorem expr_relabelled {R : φ.Records} : (e : Expr) →
    {r r' : Resolver} → Relabelled R before r r' →
    Relabelled R before (expr e r) (expr (φ.expr e) r')
  | .assign target value, _, _, alike => (expr_relabelled value alike).bind target
  | .binary left _ right, _, _, alike | .logical left _ right, _, _, alike =>
    expr_relabelled right (expr_relabelled left alike)
  | .call callee _ arguments, _, _, alike =>
    exprs_relabelled arguments (expr_relabelled callee alike)
  | .property object _, _, _, alike => expr_relabelled object alike
  | .group inner, _, _, alike => expr_relabelled inner alike
  | .lambda f, _, _, alike => function_relabelled .function f alike
  | .literal _, _, _, alike => alike
  | .setProperty object _ value, _, _, alike => expr_relabelled object (expr_relabelled value alike)
  | .superRef keyword _, _, _, alike => alike.readSuper keyword
  | .ternary condition thenValue elseValue, _, _, alike =>
    expr_relabelled elseValue (expr_relabelled thenValue (expr_relabelled condition alike))
  | .thisRef keyword, _, _, alike => alike.readThis keyword
  | .unary _ right, _, _, alike => expr_relabelled right alike
  | .varRef reference, _, _, alike => alike.read reference

theorem exprs_relabelled {R : φ.Records} : (es : List Expr) →
    {r r' : Resolver} → Relabelled R before r r' →
    Relabelled R before (exprs es r) (exprs (φ.exprs es) r')
  | [], _, _, alike => alike
  | e :: es, _, _, alike => exprs_relabelled es (expr_relabelled e alike)

theorem function_relabelled {R : φ.Records} (own : FunctionKind) : (f : FunctionDecl) →
    {r r' : Resolver} → Relabelled R before r r' →
    Relabelled R before (function own f r) (function own (φ.function f) r')
  | ⟨_, params, body, _⟩, _, _, alike =>
    { (stmts_relabelled body (alike.enterFunction own params)).closeScope with
      functionKind := alike.functionKind }

theorem functions_relabelled {R : φ.Records} (own : FunctionKind) : (fs : List FunctionDecl) →
    {r r' : Resolver} → Relabelled R before r r' →
    Relabelled R before (functions own fs r) (functions own (φ.functions fs) r')
  | [], _, _, alike => alike
  | f :: fs, _, _, alike => functions_relabelled own fs (function_relabelled own f alike)

theorem methods_relabelled {R : φ.Records} (owner : Token) : (ms : List MethodDecl) →
    (required : Required) → {r r' : Resolver} → Relabelled R before r r' →
    (methods (φ.token owner) (φ.methods ms) required r').1 =
        (methods owner ms required r).1 ∧
      Relabelled R before (methods owner ms required r).2
        (methods (φ.token owner) (φ.methods ms) required r').2
  | [], _, _, _, alike => ⟨rfl, alike⟩
  | ⟨f, _⟩ :: ms, required, r, r', alike => by
    obtain ⟨left, provided⟩ := alike.provide owner f required
    unfold Relabelling.methods methods
    dsimp only
    rw [left, Relabelled.methodKind_relabelled]
    exact methods_relabelled owner ms _ (function_relabelled _ f provided)

theorem stmt_relabelled {R : φ.Records} : (s : Stmt) →
    {r r' : Resolver} → Relabelled R before r r' →
    Relabelled R before (stmt s r) (stmt (φ.stmt s) r')
  | .block body, _, _, alike => (stmts_relabelled body alike.openScope).closeScope
  | .classDecl ⟨name, parent, traits, ms, fs⟩, r, r', alike => by
    obtain ⟨required, entered⟩ := alike.enterClass name parent traits
    obtain ⟨left, walked⟩ := methods_relabelled name ms (r.enterClass name parent traits).1 entered
    have closed (asked : Required) :=
      (functions_relabelled .method fs (walked.enterStatics name asked)).closeClass parent
    simp only [Relabelling.stmt, stmt, classDecl, required, left]
    exact { closed _ with classKind := alike.classKind }
  | .expression value, _, _, alike | .print value, _, _, alike => expr_relabelled value alike
  | .flow _ _, _, _, alike => alike
  | .functionDecl ⟨none, params, body, line⟩, _, _, alike =>
    function_relabelled .function ⟨none, params, body, line⟩ alike
  | .functionDecl ⟨some name, params, body, line⟩, _, _, alike =>
    function_relabelled .function ⟨some name, params, body, line⟩ (alike.introduce name)
  | .ifElse condition thenBranch none, _, _, alike =>
    stmt_relabelled thenBranch (expr_relabelled condition alike)
  | .ifElse condition thenBranch (some elseBranch), _, _, alike =>
    stmt_relabelled elseBranch (stmt_relabelled thenBranch (expr_relabelled condition alike))
  | .returns keyword none, _, _, alike => by
    simp only [Relabelling.stmt, stmt, alike.functionKind]
    split
    · exact alike.error ..
    · exact alike
  | .returns keyword (some value), _, _, alike => expr_relabelled value (alike.checkReturn keyword)
  | .traitDecl ⟨name, signatures, fs⟩, _, _, alike =>
    { (functions_relabelled .method fs (alike.enterTrait name)).closeScope.registerTrait name
        signatures with classKind := alike.classKind }
  | .varDecl name none, _, _, alike => alike.introduce name
  | .varDecl name (some value), _, _, alike =>
    (expr_relabelled value (alike.declare name)).define name
  | .loop condition body none, _, _, alike => stmt_relabelled body (expr_relabelled condition alike)
  | .loop condition body (some increment), _, _, alike =>
    expr_relabelled increment (stmt_relabelled body (expr_relabelled condition alike))

theorem stmts_relabelled {R : φ.Records} : (ss : List Stmt) →
    {r r' : Resolver} → Relabelled R before r r' →
    Relabelled R before (stmts ss r) (stmts (φ.stmts ss) r')
  | [], _, _, alike => alike
  | s :: ss, _, _, alike => stmts_relabelled ss (stmt_relabelled s alike)

end

theorem stmts_append (ss ts : List Stmt) (r : Resolver) :
    stmts (ss ++ ts) r = stmts ts (stmts ss r) := by
  induction ss generalizing r with
  | nil => rfl
  | cons s ss ih => exact ih _

end Resolver

/-- Where only lines are new, the same is recorded. -/
def Relabelling.sameRecords (line : Nat → Nat) : (onLines line).Records where
  holds g g' := g' = g
  traits same := by rw [same]
  insert same _ _ := by rw [same]; rfl
  register same _ := by rw [same]

/-- A program behind another one is resolved as on its own, after the other one. -/
theorem resolve_joined {lines : Nat}
    (accepted : resolve program registry = (.ok warnings, registry'))
    (accepted' : resolve program' registry' = (.ok warnings', registry'')) :
    resolve (program ++ (down lines).stmts program') registry =
      (.ok (warnings ++ warnings'.map (Diagnostic.relabelled (down lines))), registry'') := by
  obtain ⟨faultless, diagnostics, rfl⟩ := Resolver.verdict_eq_ok.mp accepted
  obtain ⟨faultless', diagnostics', registered⟩ := Resolver.verdict_eq_ok.mp accepted'
  -- After the first program the pass is again where no code is around it.
  have balanced := Resolver.stmts_balanced program { registry }
  have seam : Resolver.Relabelled (sameRecords (· + lines)) warnings
      { registry := (Resolver.stmts program { registry }).registry }
      (Resolver.stmts program { registry }) := by
    refine ⟨?_, balanced.functionKind, balanced.classKind, by simp [diagnostics], rfl⟩
    rw [List.eq_nil_of_length_eq_zero balanced.depth]
    exact .nil
  have walked := Resolver.stmts_relabelled program' seam
  refine Resolver.verdict_eq_ok.mpr ?_
  rw [Resolver.stmts_append, walked.diagnostics, walked.registry, List.any_append, List.any_map,
    diagnostics']
  refine ⟨?_, rfl, registered⟩
  rw [← diagnostics, faultless, Bool.false_or, ← diagnostics', ← faultless']
  exact congrArg (List.any _) (funext fun _ => Diagnostic.isError_relabelled _)

end Lox
