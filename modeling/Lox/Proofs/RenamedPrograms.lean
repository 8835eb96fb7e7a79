import Mathlib.Data.List.Nodup
import Mathlib.Data.List.Pairwise
import Lox.Proofs.RenamedPasses

/-! The whole pass over a renamed program, from the steps of the pass, by induction on the tree. -/

namespace Lox

theorem Focus.enter_toward {f : Focus} (inner : f.enter = .toward path) :
    f = .toward path ∧ path ≠ [] := by
  cases f with
  | apart | inside distance => cases inner
  | toward route =>
    cases route with
    | nil => cases inner
    | cons turn route =>
      cases inner
      exact ⟨rfl, List.cons_ne_nil _ _⟩

theorem Focus.enter_inside {f : Focus} (inner : f.enter = .inside 0) : f = .toward [] := by
  cases f with
  | apart | inside distance => cases inner
  | toward route =>
    cases route with
    | nil => rfl
    | cons turn route => cases inner

theorem Focus.deeper_toward {f : Focus} (inner : f.deeper = .toward path) : f = .toward path := by
  cases f <;> cases inner
  rfl

namespace Renaming

variable {R : Renaming}

/-- Whether a trait that is mixed in is the variable. -/
def mixes (R : Renaming) : Focus × Mention → Bool
  | (f, .mixin r) => R.targets f r
  | _ => false

/-- The new name is new, no trait that is mixed in is renamed, and the variable belongs to the
scope in focus. -/
structure Fits (R : Renaming) (f : Focus) (mentions : List (Focus × Mention))
    (inScope : List Bool → List Token) : Prop where
  fresh : ∀ mention ∈ mentions, mention.2.token.lexeme ≠ R.new
  mixins : ∀ mention ∈ mentions, R.mixes mention = false
  scope : ∀ path, f = .toward path → R.name ∈ inScope path
  named : f.depth?.isSome → Plain R.name.lexeme

namespace Fits

variable {mentions mentions' : List (Focus × Mention)}

theorem shrink (fits : R.Fits f mentions inScope) (fewer : mentions' ⊆ mentions)
    (same : ∀ path, inScope path = inScope' path) : R.Fits f mentions' inScope' where
  fresh mention member := fits.fresh mention (fewer member)
  mixins mention member := fits.mixins mention (fewer member)
  scope path inside := same path ▸ fits.scope path inside
  named := fits.named

theorem deeper (fits : R.Fits f mentions inScope) : R.Fits f.deeper mentions inScope where
  fresh := fits.fresh
  mixins := fits.mixins
  scope path inner := fits.scope path (Focus.deeper_toward inner)
  named inner := fits.named (by simpa using inner)

theorem members (fits : R.Fits f mentions inScope) (parent : Option Reference) :
    R.Fits (f.members parent) mentions inScope := by
  unfold Focus.members
  split
  · exact fits.deeper.deeper
  · exact fits.deeper

/-- In a scope that is entered. If it is the one in focus, its variable has to have a name. -/
theorem enter (fits : R.Fits f mentions inScope) (fewer : mentions' ⊆ mentions)
    (same : ∀ turn path, inScope (turn :: path) = inScope' (turn :: path))
    (plain : f = .toward [] → Plain R.name.lexeme) : R.Fits f.enter mentions' inScope' := by
  refine ⟨fun mention member => fits.fresh mention (fewer member),
    fun mention member => fits.mixins mention (fewer member), fun path inner => ?_, fun inner => ?_⟩
  · obtain ⟨outer, longer⟩ := Focus.enter_toward inner
    cases path with
    | nil => exact absurd rfl longer
    | cons turn path => exact same turn path ▸ fits.scope _ outer
  · cases f with
    | apart => cases inner
    | inside distance => exact fits.named rfl
    | toward path =>
      cases path with
      | nil => exact plain rfl
      | cons turn path => cases inner

theorem split (fits : R.Fits f mentions inScope) (parts : mentions = as ++ bs)
    (scopes : ∀ path, inScope path = Scoped.along s t path) :
    R.Fits f.first as s ∧ R.Fits f.others bs t := by
  subst parts
  refine ⟨⟨fun mention member => fits.fresh mention (List.mem_append_left _ member),
      fun mention member => fits.mixins mention (List.mem_append_left _ member), ?_,
      fun inner => fits.named (f.depth?_first ▸ inner)⟩,
    ⟨fun mention member => fits.fresh mention (List.mem_append_right _ member),
      fun mention member => fits.mixins mention (List.mem_append_right _ member), ?_,
      fun inner => fits.named (f.depth?_others ▸ inner)⟩⟩
  · intro path inner
    unfold Focus.first at inner
    split at inner
    · cases inner
      have here := fits.scope (false :: path) rfl
      rw [scopes] at here
      exact here
    all_goals cases inner
  · intro path inner
    unfold Focus.others at inner
    split at inner
    · cases inner
      have here := fits.scope (true :: path) rfl
      rw [scopes] at here
      exact here
    all_goals cases inner

end Fits

/-- Whatever the statement declares under the old name is the variable that is renamed. -/
def Owns (R : Renaming) : Stmt → Prop
  | .varDecl name _ => name.lexeme = R.name.lexeme → name.line = R.name.line
  | .functionDecl f => ∀ name ∈ f.name, name.lexeme ≠ R.name.lexeme
  | .classDecl c => c.name.lexeme ≠ R.name.lexeme
  | .traitDecl t => t.name.lexeme ≠ R.name.lexeme
  | _ => True

theorem owns_of_nothing {s : Stmt} (nothing : s.declared = []) : R.Owns s := by
  cases s with
  | varDecl | classDecl | traitDecl => cases nothing
  | functionDecl f =>
    cases named : f.name with
    | none =>
      intro name member
      rw [named] at member
      cases member
    | some name =>
      unfold Stmt.declared at nothing
      rw [named] at nothing
      cases nothing
  | _ => trivial

theorem owns_of_absent {s : Stmt} (absent : R.name.lexeme ∉ s.declared) : R.Owns s := by
  cases s with
  | varDecl name => exact fun same => absurd (List.mem_singleton.mpr same.symm) absent
  | classDecl c => exact fun same => absent (List.mem_singleton.mpr same.symm)
  | traitDecl t => exact fun same => absent (List.mem_singleton.mpr same.symm)
  | functionDecl f =>
    intro name named same
    have declared : name.lexeme ∈ (f.name.map Token.lexeme).toList := by
      rw [Option.mem_def.mp named]
      exact List.mem_singleton_self _
    exact absent (same ▸ declared)
  | _ => trivial

theorem proper_of_mem {ss : List Stmt} (proper : Proper.stmts ss) (member : s ∈ ss) :
    Proper.stmt s := by
  induction member with
  | head => exact proper.1
  | tail _ _ ih => exact ih proper.2

theorem mem_localVariables {name : Token} {body : List Stmt} :
    name ∈ localVariables body ↔ ∃ value, .varDecl name value ∈ body := by
  unfold localVariables
  rw [List.mem_filterMap]
  constructor
  · rintro ⟨s, member, same⟩
    cases s with
    | varDecl declared value =>
      cases same
      exact ⟨value, member⟩
    | _ => cases same
  · rintro ⟨value, member⟩
    exact ⟨_, member, rfl⟩

/-- In a scope without two declarations of one name, only the variable itself has the old name. -/
theorem owns_of_distinct {body : List Stmt}
    (distinct : (params.map Token.lexeme ++ declared body).Nodup)
    (member : R.name ∈ params ++ localVariables body) :
    (∀ p ∈ params, p.lexeme = R.name.lexeme → p.line = R.name.line) ∧ ∀ s ∈ body, R.Owns s := by
  rw [List.nodup_append] at distinct
  obtain ⟨ofParams, ofBody, apart⟩ := distinct
  obtain parameter | variable_ := List.mem_append.mp member
  · refine ⟨fun p here same => ?_, fun s here => owns_of_absent fun named => ?_⟩
    · rw [List.inj_on_of_nodup_map ofParams here parameter same]
    · exact apart _ (List.mem_map_of_mem parameter) _ (List.mem_flatMap.mpr ⟨s, here, named⟩) rfl
  · obtain ⟨value, declaration⟩ := mem_localVariables.mp variable_
    refine ⟨fun p here same => ?_, fun s here => ?_⟩
    · have named : R.name.lexeme ∈ declared body :=
        List.mem_flatMap.mpr ⟨_, declaration, List.mem_singleton_self _⟩
      exact (apart _ (List.mem_map_of_mem here) _ named same).elim
    · by_cases itself : s = .varDecl R.name value
      · rw [itself]
        exact fun _ => rfl
      · have symmetric : Std.Symm (Function.onFun List.Disjoint Stmt.declared) :=
          ⟨fun _ _ disjoint _ first second => disjoint second first⟩
        have disjoint := (List.nodup_flatMap.mp ofBody).2.forall here declaration itself
        exact owns_of_absent fun named => disjoint named (List.mem_singleton_self _)

/-- Variables have plain names. -/
theorem plain_of_local {body : List Stmt} (params_plain : ∀ p ∈ params, Plain p.lexeme)
    (proper : Proper.stmts body) (member : R.name ∈ params ++ localVariables body) :
    Plain R.name.lexeme := by
  obtain parameter | variable_ := List.mem_append.mp member
  · exact params_plain _ parameter
  · obtain ⟨value, declaration⟩ := mem_localVariables.mp variable_
    have proper := proper_of_mem proper declaration
    cases value with
    | none => exact proper
    | some value => exact proper.1

/-- From one point of the two passes to another, over a part at the focus. -/
def Carries (R : Renaming) (f : Focus) (r r' s s' : Resolver) : Prop :=
  ∀ k, R.Seen k f.depth? r r' → R.Seen (k + f.ends) f.depth? s s'

namespace Carries

variable {r r' s s' t t' : Resolver} {f : Focus}

theorem of_step (step : ∀ k, R.Seen k f.depth? r r' → R.Seen k f.depth? s s') :
    R.Carries f r r' s s' :=
  fun k seen => (step k seen).weaken (Nat.le_add_right ..)

theorem refl (r r' : Resolver) : R.Carries f r r' r r' := of_step fun _ seen => seen

theorem after (step : ∀ k, R.Seen k f.depth? r r' → R.Seen k f.depth? s s')
    (carries : R.Carries f s s' t t') : R.Carries f r r' t t' :=
  fun k seen => carries k (step k seen)

theorem andThen (carries : R.Carries f r r' s s')
    (step : ∀ k, R.Seen k f.depth? s s' → R.Seen k f.depth? t t') : R.Carries f r r' t t' :=
  fun k seen => step _ (carries k seen)

/-- The focus is at most in one of two parts. -/
theorem both (first : R.Carries f.first r r' s s') (second : R.Carries f.others s s' t t') :
    R.Carries f r r' t t' := by
  intro k seen
  have between := first k (f.depth?_first.symm ▸ seen)
  rw [f.depth?_first, ← f.depth?_others] at between
  have final := second _ between
  rw [f.depth?_others, Nat.add_assoc] at final
  exact final.weaken (Nat.add_le_add_left f.ends_split k)

/-- A scope that is entered and left. -/
theorem scope (opened : ∀ k, R.Seen k f.depth? r r' → R.Seen k f.enter.depth? s s')
    (body : R.Carries f.enter s s' t t') (distinct : ∀ names ∈ t.names.head?, names.Nodup) :
    R.Carries f r r' t.closeScope t'.closeScope := by
  intro k seen
  have closed := (body k (opened k seen)).closeScope fun _ => distinct
  cases f with
  | apart | inside distance => exact closed
  | toward path => cases path <;> exact closed

end Carries

theorem reference_of_ne {r : Reference} (f : Focus)
    (other : f.depth?.isSome → r.name.lexeme ≠ R.name.lexeme) : R.reference f r = r := by
  refine if_neg fun targeted => ?_
  unfold targets at targeted
  split at targeted
  · exact other rfl (eq_of_beq (Bool.and_eq_true_iff.mp targeted).1)
  · cases targeted

theorem openClass_map (parent : Option Reference) (g : Reference → Reference) (r : Resolver) :
    r.openClass (parent.map g) = r.openClass parent := by
  cases parent <;> rfl

theorem closeClass_map (parent : Option Reference) (g : Reference → Reference) (r : Resolver) :
    r.closeClass (parent.map g) = r.closeClass parent := by
  cases parent <;> rfl

/-- The addresses are those of the whole pass, and the new name is one that a variable can have. -/
structure Concerns (R : Renaming) (root : Site) : Prop where
  addresses : R.addresses = root.final.registry.addresses
  new : Plain R.new

namespace Concerns

variable {root p : Site} {r r' : Resolver} {f : Focus} {reference : Reference}

theorem address (concerns : R.Concerns root) (accepted : Accepted root p)
    (own : reference ∈ p.part.ownReferences) :
    R.addresses[reference.id]? = find reference.name.lexeme p.resolver.names := by
  rw [concerns.addresses]
  exact accepted.address own

/-- The keywords `this` and `super` are not renamed. -/
theorem bindKeyword (concerns : R.Concerns root) (accepted : Accepted root p)
    (own : reference ∈ p.part.ownReferences) (named : f.depth?.isSome → Plain R.name.lexeme)
    (keyword : ¬ Plain reference.name.lexeme) (seen : R.Seen k f.depth? p.resolver r') :
    R.Seen k f.depth? (p.resolver.bind reference) (r'.bind reference) := by
  have bound :=
    seen.bind (fun same => keyword (same ▸ concerns.new)) (concerns.address accepted own)
  rw [reference_of_ne f fun inner same => keyword (same ▸ named inner)] at bound
  exact bound

theorem readThis (concerns : R.Concerns root)
    (accepted : Accepted root ⟨.expr (.thisRef keyword), context, r⟩)
    (named : f.depth?.isSome → Plain R.name.lexeme) (seen : R.Seen k f.depth? r r') :
    R.Seen k f.depth? (r.readThis keyword) (r'.readThis keyword) := by
  have word : keyword.name.lexeme = "this" := accepted.proper
  have bound := concerns.bindKeyword accepted (List.mem_singleton_self keyword) named
    (fun plain => plain.1 word) seen
  have clean : (r.readThis keyword).Clean := accepted.clean
  unfold Resolver.readThis at clean ⊢
  rw [seen.classKind]
  split at clean
  case h_1 | h_2 => exact (Resolver.not_clean_error clean).elim
  case h_3 | h_4 | h_5 => exact bound

theorem readSuper (concerns : R.Concerns root)
    (accepted : Accepted root ⟨.expr (.superRef keyword method), context, r⟩)
    (named : f.depth?.isSome → Plain R.name.lexeme) (seen : R.Seen k f.depth? r r') :
    R.Seen k f.depth? (r.readSuper keyword) (r'.readSuper keyword) := by
  have word : keyword.name.lexeme = "super" := accepted.proper
  have bound := concerns.bindKeyword accepted (List.mem_singleton_self keyword) named
    (fun plain => plain.2 word) seen
  have clean : (r.readSuper keyword).Clean := accepted.clean
  unfold Resolver.readSuper at clean ⊢
  rw [seen.classKind]
  split at clean
  case h_1 | h_2 | h_3 | h_4 => exact (Resolver.not_clean_error clean).elim
  case h_5 => exact bound

/-- The target of an assignment is looked up behind the value, where the names are the same. -/
theorem assign (concerns : R.Concerns root)
    (accepted : Accepted root ⟨.expr (.assign target value), context, r⟩)
    (other : target.name.lexeme ≠ R.new) (seen : R.Seen k f.depth? (.expr value r) r') :
    R.Seen k f.depth? ((Resolver.expr value r).bind target) (r'.bind (R.reference f target)) := by
  refine seen.bind other ?_
  have inside := (accepted.enter .assigned).clean
  rw [(Resolver.expr_keeps value r inside).names, Resolver.addNames_nil]
  exact concerns.address accepted (List.mem_singleton_self target)

theorem enterClass {c : ClassDecl} (concerns : R.Concerns root)
    (accepted : Accepted root ⟨.stmt (.classDecl c), context, r⟩)
    (seen : R.Seen k f.depth? r r')
    (parents : ∀ p ∈ c.superclass, p.name.lexeme ≠ R.new)
    (traits : ∀ t ∈ c.traits, t.name.lexeme ≠ R.new)
    (untouched : ∀ t ∈ c.traits, R.targets f t = false) (named : c.name.lexeme ≠ R.new)
    (apart : f = .inside 0 → c.name.lexeme ≠ R.name.lexeme) :
    (r'.enterClass c.name (c.superclass.map (R.reference f)) (c.traits.map (R.reference f))).1 =
        (r.enterClass c.name c.superclass c.traits).1 ∧
      R.Seen k (f.members c.superclass).depth? (r.enterClass c.name c.superclass c.traits).2
        (r'.enterClass c.name (c.superclass.map (R.reference f))
          (c.traits.map (R.reference f))).2 := by
  have entered : (r.enterClass c.name c.superclass c.traits).2.Clean :=
    (Resolver.members_extends c r).clean accepted.clean
  have introduced := (Resolver.openClass_extends c.superclass _).clean entered
  have mixed := (Resolver.introduce_extends c.name _).clean introduced
  have inherited := (Resolver.mixins_extends c.traits {} _).clean mixed
  have parent := seen.superclass parents named
    (fun p member => concerns.address accepted
      (List.mem_append_left _ (Option.mem_toList.mpr member))) inherited
  obtain ⟨required, mixing⟩ := parent.mixins traits untouched (fun t member => by
    rw [(Resolver.superclass_keeps c.name c.superclass r).1]
    exact concerns.address accepted (List.mem_append_right _ member)) mixed
  refine ⟨required, ?_⟩
  change R.Seen k _ _ (Resolver.openClass (c.superclass.map (R.reference f)) _)
  rw [openClass_map]
  exact (mixing.introduceOther named apart introduced).openClass c.superclass concerns.new

end Concerns

theorem function_title (f : Focus) (g : FunctionDecl) : (R.function f g).title = g.title := by
  cases g
  rfl

theorem function_arity (f : Focus) (g : FunctionDecl) : (R.function f g).arity = g.arity := by
  cases g
  exact List.length_map _

theorem provide_required (owner : Token) (f : Focus) (g : FunctionDecl)
    (required : Resolver.Required) (r r' : Resolver) :
    (r'.provide owner (R.function f g) required).1 = (r.provide owner g required).1 := by
  unfold Resolver.provide Resolver.methodKind
  rw [function_title]
  split <;> rfl

theorem methods_required (owner : Token) (f : Focus) (ms : List MethodDecl)
    (required : Resolver.Required) (r r' : Resolver) :
    (Resolver.methods owner (R.methods f ms) required r').1 =
      (Resolver.methods owner ms required r).1 := by
  induction ms generalizing f required r r' with
  | nil => rfl
  | cons m ms ih =>
    obtain ⟨g, isGetter⟩ := m
    unfold methods Resolver.methods
    dsimp only
    rw [provide_required owner f.first g required r]
    exact ih ..

theorem function_methodKind (f : Focus) (g : FunctionDecl) :
    Resolver.methodKind (R.function f g) = Resolver.methodKind g := by
  unfold Resolver.methodKind
  rw [function_title]

/-- A class is carried if its members are. -/
theorem classDecl_carries {c : ClassDecl} (concerns : R.Concerns root)
    (accepted : Accepted root ⟨.stmt (.classDecl c), context, r⟩)
    (parents : ∀ p ∈ c.superclass, p.name.lexeme ≠ R.new)
    (traits : ∀ t ∈ c.traits, t.name.lexeme ≠ R.new)
    (untouched : ∀ t ∈ c.traits, R.targets f t = false) (named : c.name.lexeme ≠ R.new)
    (apart : f = .inside 0 → c.name.lexeme ≠ R.name.lexeme)
    (methods : ∀ {s'}, R.Carries (f.members c.superclass).first
      (r.enterClass c.name c.superclass c.traits).2 s' (r.afterMethods c).2
      (Resolver.methods c.name (R.methods (f.members c.superclass).first c.methods)
        (r.enterClass c.name c.superclass c.traits).1 s').2)
    (statics : ∀ {s'}, R.Carries (f.members c.superclass).others
      ((r.afterMethods c).2.enterStatics c.name (r.afterMethods c).1) s'
      (.functions .method c.statics
        ((r.afterMethods c).2.enterStatics c.name (r.afterMethods c).1))
      (.functions .method (R.functions (f.members c.superclass).others c.statics) s')) :
    R.Carries f r r' (.classDecl c r)
      (.classDecl ⟨c.name, c.superclass.map (R.reference f), c.traits.map (R.reference f),
        R.methods (f.members c.superclass).first c.methods,
        R.functions (f.members c.superclass).others c.statics⟩ r') := by
  intro k seen
  obtain ⟨required, entered⟩ :=
    concerns.enterClass accepted seen parents traits untouched named apart
  have provided := (Resolver.functions_extends .method c.statics _).clean
    (accepted.enter .statics).clean
  have closed := (Carries.both methods
    (.after (fun _ seen => seen.enterStatics provided) statics) k entered).closeClass
  rw [Focus.ends_members] at closed
  cases c
  unfold Resolver.classDecl
  dsimp only
  rw [required, methods_required, closeClass_map]
  exact { closed with classKind := seen.classKind }

/-- A trait is carried if its default methods are. -/
theorem traitDecl_carries {name : Token} (concerns : R.Concerns root)
    (accepted : Accepted root ⟨.stmt (.traitDecl ⟨name, signatures, defaults⟩), context, r⟩)
    (named : name.lexeme ≠ R.new) (apart : f = .inside 0 → name.lexeme ≠ R.name.lexeme)
    (members : ∀ {s'}, R.Carries f.deeper (r.enterTrait name) s'
      (.functions .method defaults (r.enterTrait name))
      (.functions .method (R.functions f.deeper defaults) s')) :
    R.Carries f r r' (.traitDecl ⟨name, signatures, defaults⟩ r)
      (.traitDecl ⟨name, signatures, R.functions f.deeper defaults⟩ r') := by
  intro k seen
  have entered := (Resolver.functions_extends .method defaults _).clean
    (accepted.enter .defaults).clean
  have introduced := (Resolver.openBound_extends "this" _).clean entered
  have opened : R.Seen k f.deeper.depth? (r.enterTrait name) (r'.enterTrait name) := by
    rw [Focus.depth?_deeper]
    exact ((seen.withClassKind .trait).introduceOther named apart introduced).openBound
      concerns.new.1.symm
  have walked := members k opened
  rw [Focus.depth?_deeper, Focus.ends_deeper] at walked
  have registered := walked.closeBound.registerTrait name signatures
  exact { registered with classKind := seen.classKind }

mutual

theorem expr_carries (concerns : R.Concerns root) : (e : Expr) →
    Accepted root ⟨.expr e, context, r⟩ → R.Fits f (Mention.inExpr f e) (Scoped.inExpr e) →
    R.Carries f r r' (.expr e r) (.expr (R.expr f e) r')
  | .assign _ value, accepted, fits =>
    (expr_carries concerns value (accepted.enter .assigned)
      (fits.shrink (List.subset_append_left ..) fun _ => rfl)).andThen fun _ seen =>
        concerns.assign accepted
          (fits.fresh _ (List.mem_append_right _ (List.mem_singleton_self _)))
          seen
  | .binary left _ right, accepted, fits =>
    have parts := fits.split rfl fun _ => rfl
    .both (expr_carries concerns left (accepted.enter .binaryLeft) parts.1)
      (expr_carries concerns right (accepted.enter .binaryRight) parts.2)
  | .logical left _ right, accepted, fits =>
    have parts := fits.split rfl fun _ => rfl
    .both (expr_carries concerns left (accepted.enter .logicalLeft) parts.1)
      (expr_carries concerns right (accepted.enter .logicalRight) parts.2)
  | .call callee _ arguments, accepted, fits =>
    have parts := fits.split rfl fun _ => rfl
    .both (expr_carries concerns callee (accepted.enter .callee) parts.1)
      (exprs_carries concerns arguments (accepted.enter .arguments) parts.2)
  | .property object _, accepted, fits =>
    expr_carries concerns object (accepted.enter .object) (fits.shrink (.refl _) fun _ => rfl)
  | .group inner, accepted, fits =>
    expr_carries concerns inner (accepted.enter .grouped) (fits.shrink (.refl _) fun _ => rfl)
  | .lambda g, accepted, fits =>
    function_carries concerns g (accepted.enter .lambda) (fits.shrink (.refl _) fun _ => rfl)
  | .literal _, _, _ => .refl _ _
  | .setProperty object _ value, accepted, fits =>
    have parts := fits.split rfl fun _ => rfl
    .both (expr_carries concerns value (accepted.enter .setValue) parts.1)
      (expr_carries concerns object (accepted.enter .setObject) parts.2)
  | .superRef _ _, accepted, fits =>
    .of_step fun _ seen => concerns.readSuper accepted fits.named seen
  | .ternary condition thenValue elseValue, accepted, fits =>
    have parts := fits.split rfl fun _ => rfl
    have values := parts.2.split rfl fun _ => rfl
    .both (expr_carries concerns condition (accepted.enter .asked) parts.1)
      (.both (expr_carries concerns thenValue (accepted.enter .thenValue) values.1)
        (expr_carries concerns elseValue (accepted.enter .elseValue) values.2))
  | .thisRef _, accepted, fits =>
    .of_step fun _ seen => concerns.readThis accepted fits.named seen
  | .unary _ right, accepted, fits =>
    expr_carries concerns right (accepted.enter .operand) (fits.shrink (.refl _) fun _ => rfl)
  | .varRef reference, accepted, fits => .of_step fun _ seen =>
    seen.read (fits.fresh _ (List.mem_singleton_self _))
      (concerns.address accepted (List.mem_singleton_self reference)) accepted.clean

theorem exprs_carries (concerns : R.Concerns root) : (es : List Expr) →
    Accepted root ⟨.exprs es, context, r⟩ → R.Fits f (Mention.inExprs f es) (Scoped.inExprs es) →
    R.Carries f r r' (.exprs es r) (.exprs (R.exprs f es) r')
  | [], _, _ => .refl _ _
  | e :: es, accepted, fits =>
    have parts := fits.split rfl fun _ => rfl
    .both (expr_carries concerns e (accepted.enter .firstExpr) parts.1)
      (exprs_carries concerns es (accepted.enter .otherExprs) parts.2)

theorem function_carries (concerns : R.Concerns root) : (g : FunctionDecl) →
    Accepted root ⟨.function kind g, context, r⟩ →
    R.Fits f (Mention.inFunction f g) (Scoped.inFunction g) →
    R.Carries f r r' (.function kind g r) (.function kind (R.function f g) r')
  | ⟨name, params, body, line⟩, accepted, fits => by
    have inside := accepted.enter .body
    have entered := (Resolver.stmts_extends body _).clean inside.clean
    have distinct := accepted.function_distinct
    have owned (inmost : f.enter = .inside 0) :=
      owns_of_distinct distinct (fits.scope [] (Focus.enter_inside inmost))
    have named (p : Token) (member : p ∈ params) : p.lexeme ≠ R.new :=
      fits.fresh (f.enter, .declaration p) (List.mem_append_left _ (List.mem_map_of_mem member))
    have walked : R.Carries f.enter (r.enterFunction kind params)
        (r'.enterFunction kind (params.map (R.binder f.enter))) _ _ :=
      stmts_carries concerns body inside
        (fits.enter (List.subset_append_right ..) (fun _ _ => rfl) fun here =>
          plain_of_local accepted.proper.1 accepted.proper.2 (fits.scope [] here))
        fun inmost => (owned inmost).2
    intro k seen
    have closed := Carries.scope (fun k seen => (seen.withFunctionKind kind).openScope.introduceAll
      named (fun inmost => (owned inmost).1) entered) walked ?_ k seen
    · exact { closed with functionKind := seen.functionKind }
    · rw [(Resolver.stmts_keeps _ _ inside.clean).names, Resolver.enterFunction_names entered]
      rintro names ⟨⟩
      exact distinct

theorem functions_carries (concerns : R.Concerns root) : (gs : List FunctionDecl) →
    Accepted root ⟨.functions kind gs, context, r⟩ →
    R.Fits f (Mention.inFunctions f gs) (Scoped.inFunctions gs) →
    R.Carries f r r' (.functions kind gs r) (.functions kind (R.functions f gs) r')
  | [], _, _ => .refl _ _
  | g :: gs, accepted, fits =>
    have parts := fits.split rfl fun _ => rfl
    .both (function_carries concerns g (accepted.enter .firstFunction) parts.1)
      (functions_carries concerns gs (accepted.enter .otherFunctions) parts.2)

theorem methods_carries (concerns : R.Concerns root) : (ms : List MethodDecl) →
    Accepted root ⟨.methods owner ms required, context, r⟩ →
    R.Fits f (Mention.inMethods f ms) (Scoped.inMethods ms) →
    R.Carries f r r' (Resolver.methods owner ms required r).2
      (Resolver.methods owner (R.methods f ms) required r').2
  | [], _, _ => .refl _ _
  | ⟨g, _⟩ :: ms, accepted, fits => by
    have parts := fits.split rfl fun _ => rfl
    have inside := accepted.enter .firstMethod
    have provided := (Resolver.function_extends _ g _).clean inside.clean
    unfold methods Resolver.methods
    dsimp only
    rw [provide_required owner f.first g required r, function_methodKind]
    exact .after (fun _ seen => seen.provide (function_title ..) (function_arity ..) provided)
      (.both (function_carries concerns g inside parts.1)
        (methods_carries concerns ms (accepted.enter .otherMethods) parts.2))

theorem stmt_carries (concerns : R.Concerns root) : (s : Stmt) →
    Accepted root ⟨.stmt s, context, r⟩ → R.Fits f (Mention.inStmt f s) (Scoped.inStmt s) →
    (f = .inside 0 → R.Owns s) → R.Carries f r r' (.stmt s r) (.stmt (R.stmt f s) r')
  | .block body, accepted, fits, _ => by
    have inside := accepted.enter .block
    have distinct : (([] : List Token).map Token.lexeme ++ declared body).Nodup :=
      accepted.block_distinct
    have owned (inmost : f.enter = .inside 0) : ∀ s ∈ body, R.Owns s :=
      (owns_of_distinct distinct (fits.scope [] (Focus.enter_inside inmost))).2
    have plain (here : f = .toward []) : Plain R.name.lexeme :=
      plain_of_local (List.forall_mem_nil _) inside.proper (fits.scope [] here)
    refine .scope (fun _ seen => seen.openScope)
      (stmts_carries concerns body inside (fits.enter (.refl _) (fun _ _ => rfl) plain) owned) ?_
    rw [(Resolver.stmts_keeps body _ inside.clean).names]
    rintro names ⟨⟩
    exact distinct
  | .classDecl ⟨name, parent, traits, ms, statics⟩, accepted, fits, owns => by
    have own (mention : Focus × Mention)
        (member : mention ∈ (parent.toList.map fun r => (f, Mention.reference r)) ++
          (traits.map fun r => (f, Mention.mixin r)) ++ [(f, .declaration name)]) :
        mention.2.token.lexeme ≠ R.new := fits.fresh mention (List.mem_append_left _ member)
    have members : R.Fits (f.members parent)
        (Mention.inMethods (f.members parent).first ms ++
          Mention.inFunctions (f.members parent).others statics)
        (Scoped.along (Scoped.inMethods ms) (Scoped.inFunctions statics)) :=
      (fits.shrink (List.subset_append_right ..) fun _ => rfl).members parent
    have parts := members.split rfl fun _ => rfl
    refine classDecl_carries concerns accepted (fun p member => ?_) (fun t member => ?_)
      (fun t member => ?_) ?_ owns (methods_carries concerns ms (accepted.enter .methods) parts.1)
      (functions_carries concerns statics (accepted.enter .statics) parts.2)
    · have inherited : parent = some p := member
      exact own (f, .reference p) (by simp [inherited])
    · exact own (f, .mixin t) (by simp [member])
    · exact fits.mixins (f, .mixin t) (List.mem_append_left _ (by simp [member]))
    · exact own (f, .declaration name) (by simp)
  | .expression value, accepted, fits, _ =>
    expr_carries concerns value (accepted.enter .evaluated) (fits.shrink (.refl _) fun _ => rfl)
  | .print value, accepted, fits, _ =>
    expr_carries concerns value (accepted.enter .printed) (fits.shrink (.refl _) fun _ => rfl)
  | .flow _ _, _, _, _ => .refl _ _
  | .functionDecl ⟨none, _, _, _⟩, accepted, _, _ => accepted.proper.elim
  | .functionDecl ⟨some name, params, body, line⟩, accepted, fits, owns => by
    have inside := accepted.enter .function
    have introduced := (Resolver.function_extends .function _ _).clean inside.clean
    have named : name.lexeme ≠ R.new := fits.fresh (f, .declaration name) (List.mem_cons_self ..)
    exact .after (fun _ seen => seen.introduceOther named (fun inmost => owns inmost name rfl)
      introduced) (function_carries concerns _ inside
        (fits.shrink (List.subset_append_right ..) fun _ => rfl))
  | .ifElse condition thenBranch none, accepted, fits, _ =>
    have parts := fits.split rfl fun _ => rfl
    .both (expr_carries concerns condition (accepted.enter .ifCondition) parts.1)
      (stmt_carries concerns thenBranch (accepted.enter .thenBranch) parts.2 fun _ =>
        owns_of_nothing accepted.proper.2.1)
  | .ifElse condition thenBranch (some elseBranch), accepted, fits, _ =>
    have parts := fits.split rfl fun _ => rfl
    have branches := parts.2.split rfl fun _ => rfl
    .both (expr_carries concerns condition (accepted.enter .ifCondition) parts.1)
      (.both
        (stmt_carries concerns thenBranch (accepted.enter .thenBranch) branches.1 fun _ =>
          owns_of_nothing accepted.proper.2.1.1)
        (stmt_carries concerns elseBranch (accepted.enter .elseBranch) branches.2 fun _ =>
          owns_of_nothing accepted.proper.2.2.1))
  | .returns keyword none, accepted, _, _ => .of_step fun _ seen => by
    have clean := accepted.clean
    change (if r.functionKind = .none then r.error keyword .returnOutside else r).Clean at clean
    change R.Seen _ _ (if r.functionKind = .none then r.error keyword .returnOutside else r)
      (if r'.functionKind = .none then r'.error keyword .returnOutside else r')
    rw [seen.functionKind]
    split at clean
    · exact (Resolver.not_clean_error clean).elim
    · rename_i inside
      rw [if_neg inside, if_neg inside]
      exact seen
  | .returns keyword (some value), accepted, fits, _ =>
    have inside := accepted.enter .returned
    .after (fun _ seen => seen.checkReturn ((Resolver.expr_extends value _).clean inside.clean))
      (expr_carries concerns value inside (fits.shrink (.refl _) fun _ => rfl))
  | .traitDecl ⟨name, signatures, defaults⟩, accepted, fits, owns =>
    have named : name.lexeme ≠ R.new := fits.fresh (f, .declaration name) (List.mem_cons_self ..)
    traitDecl_carries concerns accepted named owns <|
      functions_carries concerns defaults (accepted.enter .defaults)
        (fits.shrink (List.subset_cons_self ..) fun _ => rfl).deeper
  | .varDecl name none, accepted, fits, owns => .of_step fun _ seen =>
    seen.introduce (fits.fresh _ (List.mem_singleton_self _)) owns accepted.clean
  | .varDecl name (some value), accepted, fits, owns =>
    have inside := accepted.enter .initializer
    have named : name.lexeme ≠ R.new := fits.fresh (f, .declaration name) (List.mem_cons_self ..)
    .after (fun _ seen =>
        seen.declare named owns ((Resolver.expr_extends value _).clean inside.clean))
      ((expr_carries concerns value inside
        (fits.shrink (List.subset_cons_self ..) fun _ => rfl)).andThen fun _ seen =>
          seen.define named)
  | .loop condition body none, accepted, fits, _ =>
    have parts := fits.split rfl fun _ => rfl
    .both (expr_carries concerns condition (accepted.enter .loopCondition) parts.1)
      (stmt_carries concerns body (accepted.enter .loopBody) parts.2 fun _ =>
        owns_of_nothing accepted.proper.2.1)
  | .loop condition body (some increment), accepted, fits, _ =>
    have parts := fits.split rfl fun _ => rfl
    have turns := parts.2.split rfl fun _ => rfl
    .both (expr_carries concerns condition (accepted.enter .loopCondition) parts.1)
      (.both
        (stmt_carries concerns body (accepted.enter .loopBody) turns.1 fun _ =>
          owns_of_nothing accepted.proper.2.1.1)
        (expr_carries concerns increment (accepted.enter .increment) turns.2))

theorem stmts_carries (concerns : R.Concerns root) : (ss : List Stmt) →
    Accepted root ⟨.stmts ss, context, r⟩ → R.Fits f (Mention.inStmts f ss) (Scoped.inStmts ss) →
    (f = .inside 0 → ∀ s ∈ ss, R.Owns s) →
    R.Carries f r r' (.stmts ss r) (.stmts (R.stmts f ss) r')
  | [], _, _, _ => .refl _ _
  | s :: ss, accepted, fits, owns =>
    have parts := fits.split rfl fun _ => rfl
    .both
      (stmt_carries concerns s (accepted.enter .firstStmt) parts.1 fun inmost =>
        owns (Focus.first_inside inmost) s (List.mem_cons_self ..))
      (stmts_carries concerns ss (accepted.enter .otherStmts) parts.2 fun inmost t member =>
        owns (Focus.others_inside inmost) t (List.mem_cons_of_mem _ member))

end

end Renaming

end Lox
