import Lox.Proofs.Grammar
import Lox.Proofs.MadeReferences

/-! What the grammar promises about the trees it derives: every number that is given out goes to one
reference, so that the references in a tree have numbers of their own, and the trees are proper. -/

namespace Lox.Grammar

open Lox.Parser Lox.Parser.Rules

/-- The references have different numbers from `n` on and below `n'`. -/
structure Numbered (n : NodeId) (references : List Reference) (n' : NodeId) : Prop where
  ordered : n ≤ n'
  distinct : (references.map Reference.id).Nodup
  within : ∀ r ∈ references, n ≤ r.id ∧ r.id < n'

/-- The references have the numbers from `n` on and below `n'`, each of them once. -/
structure Fills (n : NodeId) (references : List Reference) (n' : NodeId) : Prop where
  ordered : n ≤ n'
  numbers : (references.map Reference.id).Perm (List.range' n (n' - n))

namespace Fills

theorem nil (n : NodeId) : Fills n [] n := by
  refine ⟨Nat.le_refl n, ?_⟩
  rw [Nat.sub_self]
  exact .nil

theorem one (token : Token) : Fills n [⟨n, token⟩] (n + 1) := by
  refine ⟨Nat.le_succ n, ?_⟩
  rw [Nat.add_sub_cancel_left]
  exact .refl _

theorem append (first : Fills n a n₁) (second : Fills n₁ b n₂) : Fills n (a ++ b) n₂ := by
  have ordered := first.ordered
  have ordered' := second.ordered
  refine ⟨Nat.le_trans ordered ordered', ?_⟩
  have joined : List.range' n (n₁ - n) ++ List.range' n₁ (n₂ - n₁) =
      List.range' n (n₂ - n) := by
    have between : n + (n₁ - n) = n₁ := Nat.add_sub_of_le ordered
    rw [← Nat.sub_add_sub_cancel ordered' ordered, Nat.add_comm, ← List.range'_append_1, between]
  rw [List.map_append, ← joined]
  exact first.numbers.append second.numbers

theorem perm (fills : Fills n a n') (same : a.Perm b) : Fills n b n' :=
  ⟨fills.ordered, (same.map Reference.id).symm.trans fills.numbers⟩

theorem length_eq (fills : Fills n a n') : a.length = n' - n := by
  have same := fills.numbers.length_eq
  rwa [List.length_map, List.length_range'] at same

theorem distinct (fills : Fills n a n') : (a.map Reference.id).Nodup :=
  fills.numbers.nodup_iff.mpr List.nodup_range'

theorem within (fills : Fills n a n') : ∀ r ∈ a, n ≤ r.id ∧ r.id < n' := by
  intro r member
  have ordered := fills.ordered
  have number := fills.numbers.mem_iff.mp (List.mem_map_of_mem member)
  rw [List.mem_range'_1, Nat.add_sub_of_le ordered] at number
  exact number

/-- Some of the references have some of the numbers. -/
theorem numbered (fills : Fills n a n') (some : b.Sublist a) : Numbered n b n' :=
  ⟨fills.ordered, (some.map Reference.id).nodup fills.distinct,
    fun r member => fills.within r (some.subset member)⟩

/-- A variable that is assigned to has the number before those of the value, and its target the
number behind them. -/
theorem assign (value : Fills (n + 1) (Made.inExpr e) n') (name : Token) :
    Made.inExpr (.assign ⟨n', name⟩ e) = ⟨n, name⟩ :: (Made.inExpr e ++ [⟨n', name⟩]) ∧
      Fills n (Made.inExpr (.assign ⟨n', name⟩ e)) (n' + 1) := by
  have number : n' - (Made.inExpr e).length - 1 = n := by
    rw [value.length_eq, Nat.sub_sub_self value.ordered]
    exact Nat.add_sub_cancel n 1
  have made : Made.inExpr (.assign ⟨n', name⟩ e) =
      ⟨n, name⟩ :: (Made.inExpr e ++ [⟨n', name⟩]) := by
    rw [Made.inExpr, number]
  refine ⟨made, ?_⟩
  rw [made]
  exact (one name).append (value.append (one name))

end Fills

def memberReferences : Member → List Reference
  | .method m => Made.inFunction m.function
  | .static f => Made.inFunction f

def traitMemberReferences : TraitMember → List Reference
  | .asked _ => []
  | .default f => Made.inFunction f

/-- The references made for a derived tree. -/
def Nonterminal.references : (N : Nonterminal) → N.Tree → List Reference
  | declarations, ss | block, ss => Made.inStmts ss
  | declaration, s | varDecl, s | statement _, s | expressionStatement, s => Made.inStmt s
  | forStart, some s => Made.inStmt s
  | superclass, parent => parent.toList
  | mixins, traits | traitNames, traits => traits
  | members, ms => ms.flatMap memberReferences
  | member, m => memberReferences m
  | traitMembers, ms => ms.flatMap traitMemberReferences
  | traitMember, m => traitMemberReferences m
  | function, f => Made.inFunction f
  | functionRest, (_, body) => Made.inStmts body
  | initializer, some e | maybeExpression, some e => Made.inExpr e
  | forStart, none | initializer, none | maybeExpression, none => []
  | expression, e | ternary, e | level _, e | operand _, e | unary, e | call, e | primary, e =>
    Made.inExpr e
  | maybeArguments, es | arguments, es => Made.inExprs es

/-- The members of a class are sorted into methods and static methods. -/
theorem members_perm (ms : List Member) : (ms.flatMap memberReferences).Perm
    (Made.inMethods (ms.filterMap Member.method?) ++
      Made.inFunctions (ms.filterMap Member.static?)) := by
  induction ms with
  | nil => exact .refl _
  | cons m ms ih =>
    cases m with
    | method m =>
      obtain ⟨f, isGetter⟩ := m
      simp only [List.flatMap_cons, List.filterMap_cons, Member.method?, Member.static?,
        Made.inMethods, List.append_assoc]
      exact ih.append_left _
    | static f =>
      simp only [List.flatMap_cons, List.filterMap_cons, Member.method?, Member.static?,
        Made.inFunctions]
      refine (ih.append_left _).trans ?_
      rw [← List.append_assoc, ← List.append_assoc]
      exact List.perm_append_comm.append_right _

theorem traitMembers_eq (ms : List TraitMember) : ms.flatMap traitMemberReferences =
    Made.inFunctions (ms.filterMap TraitMember.default?) := by
  induction ms with
  | nil => rfl
  | cons m ms ih =>
    cases m with
    | asked signature => exact ih
    | default f => exact congrArg (Made.inFunction f ++ ·) ih

theorem inExpr_node (l : Level) (a b : Expr) (operator : Token) :
    Made.inExpr (l.node a operator b) =
      Made.inExpr a ++ Made.inExpr b := by
  cases l <;> rfl

/-- The increment of a loop is read before its body and resolved after it. -/
theorem forLoop_perm (start : Option Stmt) (condition increment : Option Expr) (body : Stmt) :
    ((Nonterminal.references .forStart start ++
      (Nonterminal.references .maybeExpression condition ++
        (Nonterminal.references .maybeExpression increment ++ Made.inStmt body))).Perm
      (Made.inStmt (forLoop start condition increment body))) := by
  have turn : (Nonterminal.references .maybeExpression condition ++
      (Nonterminal.references .maybeExpression increment ++ Made.inStmt body)).Perm
      (Made.inStmt (forLoop none condition increment body)) := by
    cases increment with
    | none => cases condition <;> exact .refl _
    | some increment => cases condition <;> exact List.perm_append_comm.append_left _
  cases start with
  | none => exact turn
  | some first =>
    simp only [forLoop, Made.inStmt, Made.inStmts, List.append_nil]
    exact turn.append_left _

/-- Every number that a derivation gives out goes to one reference. -/
theorem Derives.fills (derives : Derives N n word tree n') :
    Fills n (N.references tree) n' := by
  induction derives
  case nil | noSuperclass | noMixins | noMembers | noTraitMembers | asked | noInitializer |
      noStart | flow | noExpression | noArguments | no | yes | nothing | number | string =>
    exact .nil _
  case superclass | traitName | name | this | super => exact .one _
  case mixins ih | static ih | getter ih | method ih | default ih | functionDecl ih | function ih |
      functionRest ih | block ih | varDeclaration ih | statement ih | evaluate ih |
      expressionStatement ih | print ih | inner ih | unassigned ih | unconditional ih | first ih |
      tighter ih | tightest ih | unary ih | positive ih | property ih | primary ih |
      someArguments ih | lambda ih | group ih | initializer ih | someExpression ih | startVar ih |
      startExpression ih => exact ih
  case cons first rest | moreMembers first rest | moreTraitMembers first rest |
      moreArguments first rest => exact first.append rest
  case moreTraitNames rest => exact (Fills.one _).append rest
  case classDecl parent traits members =>
    exact parent.append (traits.append (members.perm (members_perm _)))
  case traitDecl ms _ _ _ _ _ members =>
    rw [Nonterminal.references, traitMembers_eq] at members
    exact members
  case varDecl e _ _ _ _ _ value | returns e _ _ _ _ value => cases e <;> exact value
  case argument value => exact value.append (.nil _)
  case forLoop start condition increment body =>
    exact (start.append (condition.append (increment.append body))).perm (forLoop_perm ..)
  case ifThen condition branch | whileLoop condition branch => exact condition.append branch
  case ifThenElse condition branch other => exact condition.append (branch.append other)
  case assign value => exact (value.assign _).2
  case setProperty object value => exact (object.append value).perm List.perm_append_comm
  case ternary condition thenValue elseValue =>
    exact condition.append (thenValue.append elseValue)
  case operation left right =>
    rw [Nonterminal.references, inExpr_node]
    exact left.append right
  case call callee given => exact callee.append given

/-- Identifiers are plain names, and the keywords `this` and `super` are spelled like that. -/
def WellSpelled (token : Token) : Prop :=
  (token.kind = .identifier → Plain token.lexeme) ∧
  (token.kind = .kwThis → token.lexeme = "this") ∧
  (token.kind = .kwSuper → token.lexeme = "super")

def Spelled (word : List Token) : Prop := ∀ token ∈ word, WellSpelled token

@[simp] theorem spelled_cons : Spelled (token :: word) ↔ WellSpelled token ∧ Spelled word :=
  List.forall_mem_cons

@[simp] theorem spelled_append : Spelled (w ++ w') ↔ Spelled w ∧ Spelled w' :=
  List.forall_mem_append

theorem WellSpelled.plain {name : Terminal .identifier} (spelled : WellSpelled name.1) :
    Plain name.1.lexeme := spelled.1 name.2

theorem Names.plain (derived : Names word names) (spelled : Spelled word) :
    ∀ name ∈ names, Plain name.lexeme := by
  induction derived with
  | one name => simpa using (spelled_cons.mp spelled).1.plain
  | more name comma rest ih =>
    simp only [spelled_cons] at spelled
    exact List.forall_mem_cons.mpr ⟨spelled.1.plain, ih spelled.2.2⟩

theorem Parameters.plain (derived : Parameters word params) (spelled : Spelled word) :
    ∀ name ∈ params, Plain name.lexeme := by
  cases derived with
  | none => exact fun _ member => nomatch member
  | some names => exact names.plain spelled

def memberProper : Member → Prop
  | .method m => (m.isGetter = true → m.function.params = []) ∧ Proper.function m.function
  | .static f => Proper.function f

def traitMemberProper : TraitMember → Prop
  | .asked _ => True
  | .default f => Proper.function f

/-- What is proper of a derived tree. -/
def Nonterminal.Proper : (N : Nonterminal) → N.Tree → Prop
  | declarations, ss | block, ss => Proper.stmts ss
  | declaration, s | varDecl, s | forStart, some s => Proper.stmt s
  | statement _, s | expressionStatement, s => s.declared = [] ∧ Proper.stmt s
  | superclass, parent => ∀ r ∈ parent.toList, Plain r.name.lexeme
  | mixins, traits | traitNames, traits => ∀ r ∈ traits, Plain r.name.lexeme
  | members, ms => ∀ m ∈ ms, memberProper m
  | member, m => memberProper m
  | traitMembers, ms => ∀ m ∈ ms, traitMemberProper m
  | traitMember, m => traitMemberProper m
  | function, f => Proper.stmt (.functionDecl f)
  | functionRest, (params, body) => (∀ p ∈ params, Plain p.lexeme) ∧ Proper.stmts body
  | initializer, some e | maybeExpression, some e => Proper.expr e
  | forStart, none | initializer, none | maybeExpression, none => True
  | expression, e | ternary, e | level _, e | operand _, e | unary, e | call, e | primary, e =>
    Proper.expr e
  | maybeArguments, es | arguments, es => Proper.exprs es

theorem properFunction (proper : Proper.stmt (.functionDecl f)) : Proper.function f := by
  obtain ⟨name, params, body, line⟩ := f
  cases name with
  | none => exact proper.elim
  | some name => exact proper.2

theorem members_proper (ms : List Member) (proper : ∀ m ∈ ms, memberProper m) :
    Proper.methods (ms.filterMap Member.method?) ∧
      Proper.functions (ms.filterMap Member.static?) := by
  induction ms with
  | nil => exact ⟨trivial, trivial⟩
  | cons m ms ih =>
    obtain ⟨here, later⟩ := List.forall_mem_cons.mp proper
    obtain ⟨methods, statics⟩ := ih later
    cases m with
    | method m =>
      cases m
      exact ⟨⟨here, methods⟩, statics⟩
    | static f => exact ⟨methods, here, statics⟩

theorem traitMembers_proper (ms : List TraitMember) (proper : ∀ m ∈ ms, traitMemberProper m) :
    Proper.functions (ms.filterMap TraitMember.default?) := by
  induction ms with
  | nil => trivial
  | cons m ms ih =>
    obtain ⟨here, later⟩ := List.forall_mem_cons.mp proper
    cases m with
    | asked signature => exact ih later
    | default f => exact ⟨here, ih later⟩

theorem node_proper (l : Level) (left : Proper.expr a) (right : Proper.expr b) :
    Proper.expr (l.node a operator b) := by
  cases l <;> exact ⟨left, right⟩

theorem forLoop_proper (start : Nonterminal.Proper .forStart first)
    (condition : Nonterminal.Proper .maybeExpression c)
    (increment : Nonterminal.Proper .maybeExpression i)
    (body : s.declared = [] ∧ Proper.stmt s) :
    (forLoop first c i s).declared = [] ∧ Proper.stmt (forLoop first c i s) := by
  have turn : Proper.stmt (.loop (c.getD (.literal (.bool true))) s i) := by
    have asked : Proper.expr (c.getD (.literal (.bool true))) := by
      cases c with
      | none => trivial
      | some c => exact condition
    cases i with
    | none => exact ⟨asked, body⟩
    | some i => exact ⟨asked, body, increment⟩
  cases first with
  | none => exact ⟨body.1, turn⟩
  | some first => exact ⟨rfl, start, turn, trivial⟩

theorem Derives.proper (derives : Derives N n word tree n') (spelled : Spelled word) :
    N.Proper tree := by
  induction derives
  case nil | asked | noInitializer | noStart | noExpression | noArguments | no | yes | nothing |
      number | string => trivial
  case noSuperclass | noMixins | noMembers | noTraitMembers => exact fun _ member => nomatch member
  -- The word is that of the only part.
  case varDeclaration ih | evaluate ih | startVar ih | unassigned ih | unconditional ih |
      first ih | tighter ih | tightest ih | positive ih | primary ih | someArguments ih |
      someExpression ih => exact ih spelled
  case statement ih | startExpression ih => exact (ih spelled).2
  case method ih => exact ⟨nofun, properFunction (ih spelled)⟩
  case default ih => exact properFunction (ih spelled)
  case inner ih => exact ⟨rfl, ih spelled⟩
  case argument ih => exact ⟨ih spelled, trivial⟩
  case flow => exact ⟨rfl, trivial⟩
  all_goals simp only [spelled_cons, spelled_append] at spelled
  -- Declarations
  case cons first rest => exact ⟨first spelled.1, rest spelled.2⟩
  case classDecl parent traits members =>
    obtain ⟨_, name, ⟨⟨w₁, w₂⟩, _, w₃⟩, _⟩ := spelled
    exact ⟨name.plain, List.forall_mem_append.mpr ⟨parent w₁, traits w₂⟩,
      members_proper _ (members w₃)⟩
  case superclass => simpa [Nonterminal.Proper] using spelled.2.1.plain
  case mixins ih => exact ih spelled.2
  case traitName => simpa [Nonterminal.Proper] using spelled.1.plain
  case moreTraitNames rest =>
    exact List.forall_mem_cons.mpr ⟨spelled.1.plain, rest spelled.2.2⟩
  case moreMembers first rest | moreTraitMembers first rest =>
    exact List.forall_mem_cons.mpr ⟨first spelled.1, rest spelled.2⟩
  case static ih => exact properFunction (ih spelled.2)
  case getter ih =>
    exact ⟨fun _ => rfl, And.intro (fun _ member => nomatch member) (ih spelled.2)⟩
  case traitDecl members =>
    exact ⟨spelled.2.1.plain, traitMembers_proper _ (members spelled.2.2.2.1)⟩
  case functionDecl ih => exact ih spelled.2
  case function rest => exact ⟨spelled.1.plain, rest spelled.2⟩
  case functionRest names _ _ body =>
    exact ⟨names.plain spelled.2.1, body spelled.2.2.2⟩
  case block ih => exact ih spelled.2.1
  case varDecl e _ _ _ _ _ value =>
    cases e with
    | none => exact spelled.2.1.plain
    | some e => exact ⟨spelled.2.1.plain, value spelled.2.2.1⟩
  case initializer ih => exact ih spelled.2
  -- Statements
  case expressionStatement ih => exact ⟨rfl, ih spelled.1⟩
  case forLoop start condition increment body =>
    obtain ⟨_, _, ⟨⟨w₁, w₂⟩, _, w₃⟩, _, w₄⟩ := spelled
    exact forLoop_proper (start w₁) (condition w₂) (increment w₃) (body w₄)
  case ifThen condition branch | whileLoop condition branch =>
    obtain ⟨none, proper⟩ := branch spelled.2.2.2.2
    exact ⟨none, condition spelled.2.2.1, none, proper⟩
  case ifThenElse condition branch other =>
    obtain ⟨_, _, ⟨w₁, _, w₂⟩, _, w₃⟩ := spelled
    refine ⟨?_, condition w₁, branch w₂, other w₃⟩
    rw [Stmt.declared, (branch w₂).1, (other w₃).1]
    rfl
  case print ih => exact ⟨rfl, ih spelled.2.1⟩
  case returns e _ _ _ _ value =>
    cases e with
    | none => exact ⟨rfl, trivial⟩
    | some e => exact ⟨rfl, value spelled.2.1⟩
  -- Expressions
  case assign value => exact ⟨spelled.1.plain, value spelled.2.2⟩
  case setProperty object value => exact ⟨object spelled.1, value spelled.2.2.2.2⟩
  case ternary condition thenValue elseValue =>
    obtain ⟨⟨w₁, _, w₂⟩, _, w₃⟩ := spelled
    exact ⟨condition w₁, thenValue w₂, elseValue w₃⟩
  case operation left right => exact node_proper _ (left spelled.1) (right spelled.2.2)
  case unary ih => exact ih spelled.2
  case call callee given => exact ⟨callee spelled.1.1, given spelled.1.2.2⟩
  case property ih => exact ih spelled.1
  case moreArguments first rest => exact ⟨first spelled.1, rest spelled.2.2⟩
  case name => exact spelled.1.plain
  case this token => exact spelled.1.2.1 token.2
  case super token _ _ => exact spelled.1.2.2 token.2
  case lambda ih => exact ih spelled.2
  case group ih => exact ih spelled.2.1

end Lox.Grammar
