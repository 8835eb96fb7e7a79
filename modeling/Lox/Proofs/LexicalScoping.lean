import Lox.Proofs.DistinctNames
import Lox.Proofs.Sources

/-! Lexical scoping. The text of a program tells which scopes lie around a reference and which names
they bind at that point. Resolution gives every reference the address of the innermost binding of
its name, and no address where there is none. -/

namespace Lox

open Resolver (addNames classNames)

namespace Scoping

/-- The scopes around a point, innermost first, each with the names that are bound in it at that
point, in the order of their introduction. There is none at top level. -/
abbrev Scopes := List (List String)

mutual

/-- The references in an expression, each with the scopes around it. -/
def inExpr : Expr → Scopes → List (Reference × Scopes)
  | .assign target value, scopes => inExpr value scopes ++ [(target, scopes)]
  | .binary left _ right, scopes | .logical left _ right, scopes =>
    inExpr left scopes ++ inExpr right scopes
  | .call callee _ arguments, scopes => inExpr callee scopes ++ inExprs arguments scopes
  | .property object _, scopes => inExpr object scopes
  | .group inner, scopes => inExpr inner scopes
  | .lambda f, scopes => inFunction f scopes
  | .literal _, _ => []
  | .setProperty object _ value, scopes => inExpr value scopes ++ inExpr object scopes
  | .superRef keyword _, scopes => [(keyword, scopes)]
  | .ternary condition thenValue elseValue, scopes =>
    inExpr condition scopes ++ (inExpr thenValue scopes ++ inExpr elseValue scopes)
  | .thisRef keyword, scopes => [(keyword, scopes)]
  | .unary _ right, scopes => inExpr right scopes
  | .varRef reference, scopes => [(reference, scopes)]

def inExprs : List Expr → Scopes → List (Reference × Scopes)
  | [], _ => []
  | e :: es, scopes => inExpr e scopes ++ inExprs es scopes

/-- The parameters of a function and the variables of its body share one scope. -/
def inFunction : FunctionDecl → Scopes → List (Reference × Scopes)
  | ⟨_, params, body, _⟩, scopes => inStmts body (params.map Token.lexeme :: scopes)

def inFunctions : List FunctionDecl → Scopes → List (Reference × Scopes)
  | [], _ => []
  | f :: fs, scopes => inFunction f scopes ++ inFunctions fs scopes

def inMethods : List MethodDecl → Scopes → List (Reference × Scopes)
  | [], _ => []
  | ⟨f, _⟩ :: ms, scopes => inFunction f scopes ++ inMethods ms scopes

/-- The name of a class is bound around its members, but not where its superclass and its traits
are named. -/
def inClass : ClassDecl → Scopes → List (Reference × Scopes)
  | ⟨name, parent, traits, ms, statics⟩, scopes =>
    (parent.toList ++ traits).map (fun reference => (reference, scopes)) ++
      (inMethods ms (["this"] :: classNames name parent scopes) ++
        inFunctions statics (["this"] :: classNames name parent scopes))

def inTrait : TraitDecl → Scopes → List (Reference × Scopes)
  | ⟨name, _, defaults⟩, scopes => inFunctions defaults (["this"] :: addNames [name.lexeme] scopes)

/-- The names of a variable and of a function are bound in its own initializer or body. -/
def inStmt : Stmt → Scopes → List (Reference × Scopes)
  | .block body, scopes => inStmts body ([] :: scopes)
  | .classDecl declaration, scopes => inClass declaration scopes
  | .expression value, scopes | .print value, scopes => inExpr value scopes
  | .flow _ _, _ => []
  | .functionDecl ⟨name, params, body, line⟩, scopes =>
    inFunction ⟨name, params, body, line⟩ (addNames (name.map Token.lexeme).toList scopes)
  | .ifElse condition thenBranch none, scopes =>
    inExpr condition scopes ++ inStmt thenBranch scopes
  | .ifElse condition thenBranch (some elseBranch), scopes =>
    inExpr condition scopes ++ (inStmt thenBranch scopes ++ inStmt elseBranch scopes)
  | .returns _ none, _ => []
  | .returns _ (some value), scopes => inExpr value scopes
  | .traitDecl declaration, scopes => inTrait declaration scopes
  | .varDecl _ none, _ => []
  | .varDecl name (some value), scopes => inExpr value (addNames [name.lexeme] scopes)
  | .loop condition body none, scopes => inExpr condition scopes ++ inStmt body scopes
  | .loop condition body (some increment), scopes =>
    inExpr condition scopes ++ (inStmt body scopes ++ inExpr increment scopes)

/-- What a statement declares is bound in all statements behind it. -/
def inStmts : List Stmt → Scopes → List (Reference × Scopes)
  | [], _ => []
  | s :: ss, scopes => inStmt s scopes ++ inStmts ss (addNames s.declared scopes)

end

mutual

/-- These are all references of a tree. -/
theorem inExpr_references : (e : Expr) → (scopes : Scopes) →
    (inExpr e scopes).map Prod.fst = Reference.inExpr true e
  | .assign target value, scopes => by
    simp only [inExpr, Reference.inExpr, List.map_append, inExpr_references value]
    rfl
  | .binary left _ right, scopes | .logical left _ right, scopes => by
    simp only [inExpr, Reference.inExpr, List.map_append, inExpr_references left,
      inExpr_references right]
  | .call callee _ arguments, scopes => by
    simp only [inExpr, Reference.inExpr, List.map_append, inExpr_references callee,
      inExprs_references arguments]
  | .property object _, scopes => inExpr_references object scopes
  | .group inner, scopes => inExpr_references inner scopes
  | .lambda f, scopes => inFunction_references f scopes
  | .literal _, _ | .superRef _ _, _ | .thisRef _, _ | .varRef _, _ => rfl
  | .setProperty object _ value, scopes => by
    simp only [inExpr, Reference.inExpr, List.map_append, inExpr_references object,
      inExpr_references value]
  | .ternary condition thenValue elseValue, scopes => by
    simp only [inExpr, Reference.inExpr, List.map_append, inExpr_references condition,
      inExpr_references thenValue, inExpr_references elseValue]
  | .unary _ right, scopes => inExpr_references right scopes

theorem inExprs_references : (es : List Expr) → (scopes : Scopes) →
    (inExprs es scopes).map Prod.fst = Reference.inExprs true es
  | [], _ => rfl
  | e :: es, scopes => by
    simp only [inExprs, Reference.inExprs, List.map_append, inExpr_references e,
      inExprs_references es]

theorem inFunction_references : (f : FunctionDecl) → (scopes : Scopes) →
    (inFunction f scopes).map Prod.fst = Reference.inFunction true f
  | ⟨_, _, body, _⟩, _ => inStmts_references body _

theorem inFunctions_references : (fs : List FunctionDecl) → (scopes : Scopes) →
    (inFunctions fs scopes).map Prod.fst = Reference.inFunctions true fs
  | [], _ => rfl
  | f :: fs, scopes => by
    simp only [inFunctions, Reference.inFunctions, List.map_append, inFunction_references f,
      inFunctions_references fs]

theorem inMethods_references : (ms : List MethodDecl) → (scopes : Scopes) →
    (inMethods ms scopes).map Prod.fst = Reference.inMethods true ms
  | [], _ => rfl
  | ⟨f, _⟩ :: ms, scopes => by
    simp only [inMethods, Reference.inMethods, List.map_append, inFunction_references f,
      inMethods_references ms]

theorem inStmt_references : (s : Stmt) → (scopes : Scopes) →
    (inStmt s scopes).map Prod.fst = Reference.inStmt true s
  | .block body, _ => inStmts_references body _
  | .classDecl ⟨name, parent, traits, ms, statics⟩, scopes => by
    simp only [inStmt, inClass, Reference.inStmt, Reference.inClass, List.map_append,
      inMethods_references ms, inFunctions_references statics, List.map_map, Function.comp_def,
      List.map_id', List.append_assoc, if_true]
  | .expression value, scopes | .print value, scopes => inExpr_references value scopes
  | .flow _ _, _ | .returns _ none, _ | .varDecl _ none, _ => rfl
  | .functionDecl ⟨_, _, body, _⟩, _ => inStmts_references body _
  | .ifElse condition thenBranch none, scopes => by
    simp only [inStmt, Reference.inStmt, List.map_append, inExpr_references condition,
      inStmt_references thenBranch]
  | .ifElse condition thenBranch (some elseBranch), scopes => by
    simp only [inStmt, Reference.inStmt, List.map_append, inExpr_references condition,
      inStmt_references thenBranch, inStmt_references elseBranch]
  | .returns _ (some value), scopes => inExpr_references value scopes
  | .traitDecl ⟨_, _, defaults⟩, _ => inFunctions_references defaults _
  | .varDecl _ (some value), _ => inExpr_references value _
  | .loop condition body none, scopes => by
    simp only [inStmt, Reference.inStmt, List.map_append, inExpr_references condition,
      inStmt_references body]
  | .loop condition body (some increment), scopes => by
    simp only [inStmt, Reference.inStmt, List.map_append, inExpr_references condition,
      inStmt_references body, inExpr_references increment]

theorem inStmts_references : (ss : List Stmt) → (scopes : Scopes) →
    (inStmts ss scopes).map Prod.fst = Reference.inStmts true ss
  | [], _ => rfl
  | s :: ss, scopes => by
    simp only [inStmts, Reference.inStmts, List.map_append, inStmt_references s,
      inStmts_references ss]

end

end Scoping

/-- The innermost scope that binds the name is the one at this distance, and the binding is the one
with this index among those introduced in it. -/
structure BoundAt (name : String) (scopes : Scoping.Scopes) (address : Address) : Prop where
  binding : ∃ names, scopes[address.distance]? = some names ∧ names[address.index]? = some name
  innermost : ∀ names ∈ scopes.take address.distance, name ∉ names

theorem boundAt_here {names : List String} :
    BoundAt name (names :: outer) ⟨0, index⟩ ↔ names[index]? = some name := by
  refine ⟨fun bound => ?_, fun here => ⟨⟨names, rfl, here⟩, List.forall_mem_nil _⟩⟩
  obtain ⟨names', first, here⟩ := bound.binding
  cases (first : some names = some names')
  exact here

theorem boundAt_outer (absent : name ∉ names) :
    BoundAt name (names :: outer) ⟨distance + 1, index⟩ ↔ BoundAt name outer ⟨distance, index⟩ := by
  refine ⟨fun bound => ⟨bound.binding, fun inner member => ?_⟩,
    fun bound => ⟨bound.binding, fun inner member => ?_⟩⟩
  · exact bound.innermost inner (List.mem_cons_of_mem _ member)
  · obtain rfl | member := List.mem_cons.mp member
    · exact absent
    · exact bound.innermost inner member

theorem find_here (outer : Scoping.Scopes) (here : name ∈ names) :
    ∃ i, names[i]? = some name ∧ find name (names :: outer) = some ⟨0, i⟩ := by
  cases found : names.findIdx? (· == name) with
  | none =>
    have absent := List.findIdx?_eq_none_iff.mp found name here
    exact (ne_of_beq_false absent rfl).elim
  | some i =>
    obtain ⟨bound, same, _⟩ := List.findIdx?_eq_some_iff_getElem.mp found
    refine ⟨i, ?_, by rw [find, found]⟩
    rw [List.getElem?_eq_getElem bound, eq_of_beq same]

/-- With distinct names in each scope there is only one binding to find. -/
theorem find_eq_some_iff {scopes : Scoping.Scopes} (distinct : ∀ names ∈ scopes, names.Nodup) :
    find name scopes = some address ↔ BoundAt name scopes address := by
  induction scopes generalizing address with
  | nil =>
    refine ⟨fun found => ?_, fun bound => ?_⟩
    · cases found
    · obtain ⟨names, there, _⟩ := bound.binding
      cases there
  | cons names outer ih =>
    obtain ⟨unique, distinct⟩ := List.forall_mem_cons.mp distinct
    obtain ⟨distance, index⟩ := address
    by_cases here : name ∈ names
    · obtain ⟨i, bound, found⟩ := find_here outer here
      rw [found]
      refine ⟨fun same => ?_, fun other => ?_⟩
      · cases same
        exact boundAt_here.mpr bound
      · cases distance with
        | succ distance => exact (other.innermost names (List.mem_cons_self ..) here).elim
        | zero =>
          have within := (List.getElem?_eq_some_iff.mp bound).1
          rw [(List.getElem?_inj within unique).mp (bound.trans (boundAt_here.mp other).symm)]
    · rw [find_outer here]
      cases distance with
      | zero =>
        refine ⟨fun found => ?_, fun bound => ?_⟩
        · obtain ⟨a, -, same⟩ := Option.map_eq_some_iff.mp found
          cases same
        · exact (here (List.mem_of_getElem? (boundAt_here.mp bound))).elim
      | succ distance =>
        rw [boundAt_outer here, ← ih distinct, Option.map_eq_some_iff]
        refine ⟨fun ⟨a, found, same⟩ => ?_, fun found => ⟨_, found, rfl⟩⟩
        cases same
        exact found

theorem find_eq_none_iff {scopes : Scoping.Scopes} :
    find name scopes = none ↔ ∀ names ∈ scopes, name ∉ names := by
  induction scopes with
  | nil => exact ⟨fun _ => List.forall_mem_nil _, fun _ => rfl⟩
  | cons names outer ih =>
    rw [List.forall_mem_cons, ← ih]
    by_cases here : name ∈ names
    · obtain ⟨i, _, found⟩ := find_here outer here
      refine ⟨fun missing => ?_, fun absent => (absent.1 here).elim⟩
      cases found.symm.trans missing
    · rw [find_outer here, Option.map_eq_none_iff, and_iff_right here]

namespace Scoping

/-- A place in an accepted program, with the scopes that lie around it. -/
structure Stands (root p : Site) (scopes : Scopes) : Prop where
  accepted : Accepted root p
  names : p.resolver.names = scopes
  distinct : ∀ names ∈ scopes, names.Nodup

/-- The references have got the addresses of their names in the scopes around them. -/
def Recorded (root : Site) (located : List (Reference × Scopes)) : Prop :=
  ∀ place ∈ located, (∀ names ∈ place.2, names.Nodup) ∧
    root.final.registry.addresses[place.1.id]? = find place.1.name.lexeme place.2

theorem Recorded.append (first : Recorded root a) (second : Recorded root b) :
    Recorded root (a ++ b) :=
  List.forall_mem_append.mpr ⟨first, second⟩

namespace Stands

variable {root p q : Site} {scopes : Scopes} {context : Context} {r : Resolver}

/-- To a part with the same scopes around it. -/
theorem enter (stands : Stands root p scopes) (enters : Enters p q)
    (same : q.resolver.names = p.resolver.names) : Stands root q scopes :=
  ⟨stands.accepted.enter enters, same.trans stands.names, stands.distinct⟩

theorem added (stands : Stands root p scopes) (fresh : p.resolver.Fresh new) :
    ∀ names ∈ addNames new scopes, names.Nodup := by
  obtain ⟨-, rfl, unique⟩ := stands
  cases same : p.resolver.names with
  | nil => exact List.forall_mem_nil _
  | cons names outer =>
    rw [same, List.forall_mem_cons] at unique
    exact List.forall_mem_cons.mpr ⟨fresh.nodup (same ▸ rfl) unique.1, unique.2⟩

/-- To a part behind the declaration of new names. -/
theorem behind (stands : Stands root p scopes) (enters : Enters p q)
    (added : q.resolver.names = addNames new p.resolver.names)
    (fresh : p.resolver.Fresh new) : Stands root q (addNames new scopes) :=
  ⟨stands.accepted.enter enters, added.trans (stands.names ▸ rfl), stands.added fresh⟩

theorem own (stands : Stands root p scopes) :
    Recorded root (p.part.ownReferences.map fun reference => (reference, scopes)) := by
  intro place member
  obtain ⟨reference, own, rfl⟩ := List.mem_map.mp member
  refine ⟨stands.distinct, ?_⟩
  rw [stands.accepted.address own, stands.names]

theorem expr_names (stands : Stands root ⟨.expr e, context, r⟩ scopes) :
    (Resolver.expr e r).names = r.names :=
  (Resolver.expr_keeps e r stands.accepted.clean).names.trans (Resolver.addNames_nil _)

theorem function_names (stands : Stands root ⟨.function kind f, context, r⟩ scopes) :
    (Resolver.function kind f r).names = r.names :=
  (Resolver.function_keeps kind f r stands.accepted.clean).names.trans (Resolver.addNames_nil _)

theorem stmt_names (stands : Stands root ⟨.stmt s, context, r⟩ scopes) :
    (Resolver.stmt s r).names = addNames s.declared r.names :=
  (Resolver.stmt_keeps s r stands.accepted.clean).names

/-- To the body of a function. -/
theorem body (stands : Stands root ⟨.function kind f, context, r⟩ scopes) :
    Stands root ⟨.stmts f.body, context.ofFunction f, r.enterFunction kind f.params⟩
      (f.params.map Token.lexeme :: scopes) := by
  have inside := stands.accepted.enter .body
  have entered := (Resolver.stmts_extends f.body _).clean inside.clean
  refine ⟨inside, ?_, List.forall_mem_cons.mpr ⟨?_, stands.distinct⟩⟩
  · rw [← stands.names]
    exact Resolver.enterFunction_names entered
  · exact ((Resolver.introduceAll_clean ..).mp entered).2.nodup rfl List.nodup_nil

/-- To the body of a block. -/
theorem block (stands : Stands root ⟨.stmt (.block ss), context, r⟩ scopes) :
    Stands root ⟨.stmts ss, context.ofBlock ss, r.openScope⟩ ([] :: scopes) := by
  refine ⟨stands.accepted.enter .block, ?_, List.forall_mem_cons.mpr ⟨?_, stands.distinct⟩⟩
  · rw [← stands.names]
    rfl
  · exact List.nodup_nil

/-- Around the members of a class. -/
theorem classNames_distinct (stands : Stands root ⟨.stmt (.classDecl c), context, r⟩ scopes) :
    ∀ names ∈ ["this"] :: classNames c.name c.superclass scopes, names.Nodup := by
  have around := stands.added (Resolver.classDecl_fresh stands.accepted.clean)
  refine List.forall_mem_cons.mpr ⟨by simp, ?_⟩
  unfold classNames
  split
  · exact List.forall_mem_cons.mpr ⟨by simp, around⟩
  · exact around

theorem methods (stands : Stands root ⟨.stmt (.classDecl c), context, r⟩ scopes) :
    Stands root ⟨.methods c.name c.methods (r.enterClass c.name c.superclass c.traits).1,
      context.ofClass c, (r.enterClass c.name c.superclass c.traits).2⟩
      (["this"] :: classNames c.name c.superclass scopes) := by
  have inside := stands.accepted.enter .methods
  refine ⟨inside, ?_, stands.classNames_distinct⟩
  rw [← stands.names]
  exact (Resolver.enterClass_names ((Resolver.methods_extends ..).clean inside.clean)).1

theorem statics (stands : Stands root ⟨.stmt (.classDecl c), context, r⟩ scopes) :
    Stands root ⟨.functions .method c.statics, context.ofClass c,
      (r.afterMethods c).2.enterStatics c.name (r.afterMethods c).1⟩
      (["this"] :: classNames c.name c.superclass scopes) := by
  refine ⟨stands.accepted.enter .statics, ?_, stands.classNames_distinct⟩
  have methods := stands.methods
  dsimp only
  rw [Resolver.enterStatics_names, ← methods.names]
  exact (Resolver.methods_keeps _ _ _ _ methods.accepted.clean).names.trans
    (Resolver.addNames_nil _)

theorem defaults (stands : Stands root ⟨.stmt (.traitDecl t), context, r⟩ scopes) :
    Stands root ⟨.functions .method t.defaults, context.advance 1, r.enterTrait t.name⟩
      (["this"] :: addNames [t.name.lexeme] scopes) := by
  have inside := stands.accepted.enter .defaults
  have around := stands.added (Resolver.traitDecl_fresh stands.accepted.clean)
  refine ⟨inside, ?_, List.forall_mem_cons.mpr ⟨by simp, around⟩⟩
  rw [← stands.names]
  exact Resolver.enterTrait_names ((Resolver.functions_extends ..).clean inside.clean)

end Stands

mutual

theorem inExpr_recorded : (e : Expr) → Stands root ⟨.expr e, context, r⟩ scopes →
    Recorded root (inExpr e scopes)
  | .assign _ value, stands =>
    (inExpr_recorded value (stands.enter .assigned rfl)).append stands.own
  | .binary left _ right, stands =>
    have first := stands.enter .binaryLeft rfl
    (inExpr_recorded left first).append
      (inExpr_recorded right (stands.enter .binaryRight first.expr_names))
  | .logical left _ right, stands =>
    have first := stands.enter .logicalLeft rfl
    (inExpr_recorded left first).append
      (inExpr_recorded right (stands.enter .logicalRight first.expr_names))
  | .call callee _ arguments, stands =>
    have first := stands.enter .callee rfl
    (inExpr_recorded callee first).append
      (inExprs_recorded arguments (stands.enter .arguments first.expr_names))
  | .property object _, stands => inExpr_recorded object (stands.enter .object rfl)
  | .group inner, stands => inExpr_recorded inner (stands.enter .grouped rfl)
  | .lambda f, stands => inFunction_recorded f (stands.enter .lambda rfl)
  | .literal _, _ => List.forall_mem_nil _
  | .setProperty object _ value, stands =>
    have first := stands.enter .setValue rfl
    (inExpr_recorded value first).append
      (inExpr_recorded object (stands.enter .setObject first.expr_names))
  | .ternary condition thenValue elseValue, stands =>
    have first := stands.enter .asked rfl
    have second := stands.enter .thenValue first.expr_names
    (inExpr_recorded condition first).append <|
      (inExpr_recorded thenValue second).append <|
        inExpr_recorded elseValue
          (stands.enter .elseValue (second.expr_names.trans first.expr_names))
  | .superRef _ _, stands | .thisRef _, stands | .varRef _, stands => stands.own
  | .unary _ right, stands => inExpr_recorded right (stands.enter .operand rfl)

theorem inExprs_recorded : (es : List Expr) → Stands root ⟨.exprs es, context, r⟩ scopes →
    Recorded root (inExprs es scopes)
  | [], _ => List.forall_mem_nil _
  | e :: es, stands =>
    have first := stands.enter .firstExpr rfl
    (inExpr_recorded e first).append
      (inExprs_recorded es (stands.enter .otherExprs first.expr_names))

theorem inFunction_recorded : (f : FunctionDecl) →
    Stands root ⟨.function kind f, context, r⟩ scopes → Recorded root (inFunction f scopes)
  | ⟨_, _, body, _⟩, stands => inStmts_recorded body stands.body

theorem inFunctions_recorded : (fs : List FunctionDecl) →
    Stands root ⟨.functions kind fs, context, r⟩ scopes → Recorded root (inFunctions fs scopes)
  | [], _ => List.forall_mem_nil _
  | f :: fs, stands =>
    have first := stands.enter .firstFunction rfl
    (inFunction_recorded f first).append
      (inFunctions_recorded fs (stands.enter .otherFunctions first.function_names))

theorem inMethods_recorded : (ms : List MethodDecl) →
    Stands root ⟨.methods owner ms required, context, r⟩ scopes →
    Recorded root (inMethods ms scopes)
  | [], _ => List.forall_mem_nil _
  | ⟨f, _⟩ :: ms, stands =>
    have checked := (Resolver.provide_keeps owner f required r).names.trans
      (Resolver.addNames_nil _)
    have first := stands.enter .firstMethod checked
    (inFunction_recorded f first).append
      (inMethods_recorded ms (stands.enter .otherMethods (first.function_names.trans checked)))

theorem inStmt_recorded : (s : Stmt) → Stands root ⟨.stmt s, context, r⟩ scopes →
    Recorded root (inStmt s scopes)
  | .block body, stands => inStmts_recorded body stands.block
  | .classDecl ⟨_, _, _, ms, statics⟩, stands =>
    stands.own.append <| (inMethods_recorded ms stands.methods).append <|
      inFunctions_recorded statics stands.statics
  | .expression value, stands => inExpr_recorded value (stands.enter .evaluated rfl)
  | .print value, stands => inExpr_recorded value (stands.enter .printed rfl)
  | .flow _ _, _ | .returns _ none, _ | .varDecl _ none, _ => List.forall_mem_nil _
  | .functionDecl ⟨none, _, _, _⟩, stands => stands.accepted.proper.elim
  | .functionDecl ⟨some name, _, body, _⟩, stands => by
    have introduced := (Resolver.function_extends .function _ _).clean stands.accepted.clean
    have inside := stands.behind .function (Resolver.introduce_keeps introduced).names
      ((Resolver.introduce_clean ..).mp introduced).2
    exact inStmts_recorded body inside.body
  | .ifElse condition thenBranch none, stands =>
    have first := stands.enter .ifCondition rfl
    (inExpr_recorded condition first).append
      (inStmt_recorded thenBranch (stands.enter .thenBranch first.expr_names))
  | .ifElse condition thenBranch (some elseBranch), stands => by
    have first := stands.enter .ifCondition rfl
    have second := stands.enter .thenBranch first.expr_names
    have names := second.stmt_names
    rw [stands.accepted.proper.2.1.1, Resolver.addNames_nil] at names
    exact (inExpr_recorded condition first).append <|
      (inStmt_recorded thenBranch second).append <|
        inStmt_recorded elseBranch (stands.enter .elseBranch (names.trans first.expr_names))
  | .returns keyword (some value), stands =>
    have checked := (Resolver.checkReturn_keeps keyword r).names.trans (Resolver.addNames_nil _)
    inExpr_recorded value (stands.enter .returned checked)
  | .traitDecl ⟨_, _, defaults⟩, stands => inFunctions_recorded defaults stands.defaults
  | .varDecl name (some value), stands => by
    have inside := stands.accepted.enter .initializer
    have declared := (Resolver.expr_extends value _).clean inside.clean
    exact inExpr_recorded value <| stands.behind .initializer
      (Resolver.declare_keeps declared).names ((Resolver.declare_clean ..).mp declared).2
  | .loop condition body none, stands =>
    have first := stands.enter .loopCondition rfl
    (inExpr_recorded condition first).append
      (inStmt_recorded body (stands.enter .loopBody first.expr_names))
  | .loop condition body (some increment), stands => by
    have first := stands.enter .loopCondition rfl
    have second := stands.enter .loopBody first.expr_names
    have names := second.stmt_names
    rw [stands.accepted.proper.2.1.1, Resolver.addNames_nil] at names
    exact (inExpr_recorded condition first).append <|
      (inStmt_recorded body second).append <|
        inExpr_recorded increment (stands.enter .increment (names.trans first.expr_names))

theorem inStmts_recorded : (ss : List Stmt) → Stands root ⟨.stmts ss, context, r⟩ scopes →
    Recorded root (inStmts ss scopes)
  | [], _ => List.forall_mem_nil _
  | s :: ss, stands =>
    have first := stands.enter .firstStmt rfl
    (inStmt_recorded s first).append <| inStmts_recorded ss <|
      stands.behind .otherStmts first.stmt_names
        (Resolver.stmt_fresh first.accepted.proper first.accepted.clean)

end

theorem stands_top (part : Part) (proper : part.Proper)
    (numbered : Grammar.Numbered n (part.references true) n')
    (unused : ∀ id, n ≤ id → registry.addresses[id]? = none)
    (clean : (Site.top part registry).final.Clean) :
    Stands (.top part registry) (.top part registry) [] := by
  refine ⟨⟨proper, clean, numbered.distinct, fun r member => ?_, fun _ _ => rfl⟩, rfl,
    List.forall_mem_nil _⟩
  exact unused r.id (numbered.within r member).1

end Scoping

/-- What a registry says about references is lexical scoping. -/
def Registry.Lexical (registry : Registry) (located : List (Reference × Scoping.Scopes)) : Prop :=
  ∀ reference scopes, (reference, scopes) ∈ located →
    (∀ address, registry.addresses[reference.id]? = some address ↔
      BoundAt reference.name.lexeme scopes address) ∧
    (registry.addresses[reference.id]? = none ↔
      ∀ names ∈ scopes, reference.name.lexeme ∉ names)

theorem Scoping.Recorded.lexical (recorded : Recorded root located) :
    root.final.registry.Lexical located := by
  intro reference scopes member
  obtain ⟨distinct, same⟩ := recorded _ member
  rw [same]
  exact ⟨fun _ => find_eq_some_iff distinct, find_eq_none_iff⟩

/-- Resolution is lexical scoping, in programs and in expressions that stand alone. Numbers are
given out once, so those from `n` on have no address before they are given out. -/
theorem addresses_are_lexical (scanned : scan source = .ok tokens)
    (unused : ∀ id, n ≤ id → registry.addresses[id]? = none) :
    (∀ program cursor warnings registered, parse tokens n = (.ok program, cursor) →
      resolve program registry = (.ok warnings, registered) →
      (Scoping.inStmts program []).map Prod.fst = Reference.inStmts true program ∧
      registered.Lexical (Scoping.inStmts program [])) ∧
    ∀ e cursor warnings registered, parseExpression tokens n = (.ok e, cursor) →
      resolveExpression e registry = (.ok warnings, registered) →
      (Scoping.inExpr e []).map Prod.fst = Reference.inExpr true e ∧
      registered.Lexical (Scoping.inExpr e []) := by
  refine ⟨fun program cursor warnings registered parsed accepted => ?_,
    fun e cursor warnings registered parsed accepted => ?_⟩
  · obtain ⟨proper, numbered⟩ := parse_proper scanned parsed
    obtain ⟨clean, rfl⟩ := Resolver.clean_of_verdict accepted
    have stands := Scoping.stands_top (.stmts program) proper numbered unused clean
    exact ⟨Scoping.inStmts_references program [],
      (Scoping.inStmts_recorded program stands).lexical⟩
  · obtain ⟨proper, numbered⟩ := parseExpression_proper scanned parsed
    obtain ⟨clean, rfl⟩ := Resolver.clean_of_verdict accepted
    have stands := Scoping.stands_top (.expr e) proper numbered unused clean
    exact ⟨Scoping.inExpr_references e [], (Scoping.inExpr_recorded e stands).lexical⟩

/-- A function in its own initializer, inside a method of a local subclass. -/
def nestedScopes : String :=
  "fun f(a) \x7b class A \x7b\x7d class B < A \x7b m(b) \x7b var g = fun () \x7b g(); " ++
    "a = b; return super.m(this); \x7d; \x7d \x7d \x7d"

theorem nestedScopes_lexical : ∃ tokens cursor warnings registered,
    scan nestedScopes = .ok tokens ∧
    parse tokens 0 = (.ok (programOf nestedScopes), cursor) ∧
    resolve (programOf nestedScopes) {} = (.ok warnings, registered) ∧
    registered.Lexical (Scoping.inStmts (programOf nestedScopes) []) := by
  obtain ⟨tokens, cursor, scanned, parsed⟩ :=
    parsed_of_nonempty (show (programOf nestedScopes).isEmpty = false by decide +kernel)
  have accepted : (resolve (programOf nestedScopes) {}).1.isOk = true := by decide +kernel
  cases verdict : (resolve (programOf nestedScopes) {}).1 with
  | error diagnostics =>
    rw [verdict] at accepted
    cases accepted
  | ok warnings =>
    refine ⟨tokens, cursor, warnings, _, scanned, parsed, Prod.ext verdict rfl, ?_⟩
    exact ((addresses_are_lexical scanned fun _ _ => Std.TreeMap.getElem?_emptyc).1 _ _ _ _ parsed
      (Prod.ext verdict rfl)).2

-- Only the superclass is named where neither `B` nor a variable of the method is bound.
example : (Scoping.inStmts (programOf nestedScopes) []).map
      (fun place => (place.1.name.lexeme, place.2)) =
    ("A", [["a", "A"]]) :: ["g", "b", "a", "super", "this"].map
      fun name => (name, [[], ["b", "g"], ["this"], ["super"], ["a", "A", "B"]]) := by
  decide +kernel

end Lox
