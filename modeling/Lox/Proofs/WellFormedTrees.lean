import Lox.Proofs.Sources
import Lox.Proofs.TreeNodes

/-! What parsing promises about every node of the trees it returns, whatever the tokens are. -/

namespace Lox

/-- A declaration adds a name to the scope it stands in. -/
def Stmt.isDeclaration : Stmt → Bool
  | .varDecl _ _ | .functionDecl _ | .classDecl _ | .traitDecl _ => true
  | .block _ | .expression _ | .flow _ _ | .ifElse _ _ _ | .print _ | .returns _ _
  | .loop _ _ _ => false

def FunctionDecl.IsNamed (f : FunctionDecl) : Prop := ∃ name ∈ f.name, name.kind = .identifier

namespace Node

/-- The promise about a single node of a tree that was made from these tokens. That an increment is
an expression, and that superclasses and traits are given by references, lies in their types. -/
def WellFormed (tokens : List Token) : Node → Prop
  | .expr (.unary operator _) => operator.kind ∈ [Kind.bang, Kind.minus]
  | .expr (.logical _ operator _) => operator.kind ∈ [Kind.kwAnd, Kind.kwOr]
  | .expr (.binary _ operator _) => operator.kind ∈ [Kind.bangEqual, Kind.equalEqual, Kind.greater,
      Kind.greaterEqual, Kind.less, Kind.lessEqual, Kind.minus, Kind.plus, Kind.star, Kind.slash,
      Kind.percent]
  | .expr (.call _ _ arguments) => arguments.length ≤ 255
  | .expr _ => True
  | .function f => f.params.length ≤ 255
  | .stmt (.ifElse _ thenBranch elseBranch) =>
    ∀ branch ∈ thenBranch :: elseBranch.toList, branch.isDeclaration = false
  | .stmt (.loop _ body _) => body.isDeclaration = false
  | .stmt (.flow signal line) =>
    ∃ token ∈ tokens, token.kind = Grammar.keyword signal ∧ token.line = line
  | .stmt (.functionDecl f) => f.IsNamed
  | .stmt (.classDecl c) =>
    (∀ reference ∈ c.superclass.toList ++ c.traits, reference.name.kind = .identifier) ∧
      (∀ m ∈ c.methods, m.function.IsNamed ∧ (m.isGetter = true → m.function.params = [])) ∧
      ∀ f ∈ c.statics, f.IsNamed
  | .stmt (.traitDecl t) =>
    (∀ asked ∈ t.signatures, asked.name.kind = .identifier ∧ asked.arity ≤ 255) ∧
      ∀ f ∈ t.defaults, f.IsNamed
  | .stmt _ => True

end Node

namespace Grammar

open Lox.Parser Lox.Parser.Rules

variable {tokens : List Token}

/-- All nodes of a part are well formed, wherever it stands. -/
def Formed (tokens : List Token) (nodes : Around → List (Node × Around)) : Prop :=
  ∀ around, ∀ place ∈ nodes around, place.1.WellFormed tokens

namespace Formed

variable {nodes nodes' : Around → List (Node × Around)} {node : Node}

theorem nil : Formed tokens fun _ => [] := by
  intro around place member
  cases member

theorem cons (own : node.WellFormed tokens) (inside : Formed tokens nodes) :
    Formed tokens fun around => (node, around) :: nodes around := by
  intro around place member
  rcases List.mem_cons.mp member with rfl | member
  · exact own
  · exact inside around place member

theorem leaf (own : node.WellFormed tokens) : Formed tokens fun around => [(node, around)] :=
  cons own nil

theorem append (first : Formed tokens nodes) (second : Formed tokens nodes') :
    Formed tokens fun around => nodes around ++ nodes' around := by
  intro around place member
  rcases List.mem_append.mp member with member | member
  · exact first around place member
  · exact second around place member

/-- What lies around a part does not matter. -/
theorem under (enclosure : Enclosure) (inside : Formed tokens nodes) :
    Formed tokens fun around => nodes (enclosure :: around) :=
  fun around => inside (enclosure :: around)

end Formed

/-- The nodes of a function are well formed, whatever kind of function it is. -/
def FormedFunction (tokens : List Token) (f : FunctionDecl) : Prop :=
  ∀ kind, Formed tokens (Node.inFunction kind f)

theorem formed_function (few : params.length ≤ 255) (body : Formed tokens (Node.inStmts ss)) :
    FormedFunction tokens ⟨name, params, ss, line⟩ := by
  intro kind
  exact .cons few (body.under kind)

theorem formed_functions (kind : Enclosure) (all : ∀ f ∈ fs, FormedFunction tokens f) :
    Formed tokens (Node.inFunctions kind fs) := by
  induction fs with
  | nil => exact .nil
  | cons f fs ih =>
    obtain ⟨first, rest⟩ := List.forall_mem_cons.mp all
    exact .append (first kind) (ih rest)

theorem formed_methods (parent : Option Reference)
    (all : ∀ m ∈ ms, FormedFunction tokens m.function) :
    Formed tokens (Node.inMethods parent ms) := by
  induction ms with
  | nil => exact .nil
  | cons m ms ih =>
    obtain ⟨first, rest⟩ := List.forall_mem_cons.mp all
    obtain ⟨f, isGetter⟩ := m
    exact .append (first (.method parent f.title)) (ih rest)

def memberFormed (tokens : List Token) : Member → Prop
  | .method m => (m.function.IsNamed ∧ (m.isGetter = true → m.function.params = [])) ∧
      FormedFunction tokens m.function
  | .static f => f.IsNamed ∧ FormedFunction tokens f

def traitMemberFormed (tokens : List Token) : TraitMember → Prop
  | .asked signature => signature.name.kind = .identifier ∧ signature.arity ≤ 255
  | .default f => f.IsNamed ∧ FormedFunction tokens f

/-- What is well formed of a derived tree. -/
def Nonterminal.Formed (tokens : List Token) : (N : Nonterminal) → N.Tree → Prop
  | declarations, ss | block, ss => Grammar.Formed tokens (Node.inStmts ss)
  | declaration, s | varDecl, s | forStart, some s => Grammar.Formed tokens (Node.inStmt s)
  | statement _, s | expressionStatement, s =>
    s.isDeclaration = false ∧ Grammar.Formed tokens (Node.inStmt s)
  | superclass, parent => ∀ reference ∈ parent.toList, reference.name.kind = .identifier
  | mixins, traits | traitNames, traits =>
    ∀ reference ∈ traits, reference.name.kind = .identifier
  | members, ms => ∀ m ∈ ms, memberFormed tokens m
  | member, m => memberFormed tokens m
  | traitMembers, ms => ∀ m ∈ ms, traitMemberFormed tokens m
  | traitMember, m => traitMemberFormed tokens m
  | function, f => f.IsNamed ∧ FormedFunction tokens f
  | functionRest, (params, body) =>
    params.length ≤ 255 ∧ Grammar.Formed tokens (Node.inStmts body)
  | initializer, some e | maybeExpression, some e => Grammar.Formed tokens (Node.inExpr e)
  | forStart, none | initializer, none | maybeExpression, none => True
  | expression, e | ternary, e | level _, e | operand _, e | unary, e | call, e | primary, e =>
    Grammar.Formed tokens (Node.inExpr e)
  | maybeArguments, es => es.length ≤ 255 ∧ Grammar.Formed tokens (Node.inExprs es)
  | arguments, es => Grammar.Formed tokens (Node.inExprs es)

theorem Parameters.few (derived : Parameters word params) : params.length ≤ 255 := by
  cases derived with
  | none => simp
  | some names few => exact few

theorem Terminal.named (name : Terminal .identifier) :
    FunctionDecl.IsNamed ⟨some name.1, params, body, line⟩ := ⟨name.1, rfl, name.2⟩

/-- The operators of a level build nodes that may have them. -/
theorem node_formed (l : Level) (member : operator.kind ∈ l.operators)
    (left : Formed tokens (Node.inExpr a)) (right : Formed tokens (Node.inExpr b)) :
    Formed tokens (Node.inExpr (l.node a operator b)) := by
  have both := left.append right
  cases l <;> refine .cons ?_ both
  all_goals
    simp only [Level.operators, List.mem_cons, List.not_mem_nil, or_false] at member
    simp only [Node.WellFormed, List.mem_cons, List.not_mem_nil, or_false]
    grind

/-- What holds of all members holds of those that are picked out of them. -/
theorem forall_picked {as : List α} {pick : α → Option β} {make : β → α} {Q : α → Prop}
    (inverse : ∀ {a b}, pick a = some b → a = make b) (all : ∀ a ∈ as, Q a) :
    ∀ b ∈ as.filterMap pick, Q (make b) := by
  intro b picked
  obtain ⟨a, member, found⟩ := List.mem_filterMap.mp picked
  rw [← inverse found]
  exact all a member

/-- Sorted into methods and static methods, the members of a class are what they were. -/
theorem class_formed {c : Option Reference} {ts : List Reference} {ms : List Member}
    (parent : ∀ reference ∈ c.toList, reference.name.kind = .identifier)
    (traits : ∀ reference ∈ ts, reference.name.kind = .identifier)
    (members : ∀ m ∈ ms, memberFormed tokens m) :
    Formed tokens (Node.inStmt (.classDecl
      ⟨name, c, ts, ms.filterMap Member.method?, ms.filterMap Member.static?⟩)) := by
  have methods : ∀ m ∈ ms.filterMap Member.method?, memberFormed tokens (.method m) :=
    forall_picked (by rintro (m | f) _ ⟨⟩; rfl) members
  have statics : ∀ f ∈ ms.filterMap Member.static?, memberFormed tokens (.static f) :=
    forall_picked (by rintro (m | f) _ ⟨⟩; rfl) members
  refine .cons ⟨?_, ?_, ?_⟩ (.append ?_ ?_)
  · exact List.forall_mem_append.mpr ⟨parent, traits⟩
  · exact fun m member => (methods m member).1
  · exact fun f member => (statics f member).1
  · exact formed_methods c fun m member => (methods m member).2
  · exact formed_functions .static fun f member => (statics f member).2

theorem trait_formed {ms : List TraitMember}
    (members : ∀ m ∈ ms, traitMemberFormed tokens m) :
    Formed tokens (Node.inStmt (.traitDecl
      ⟨name, ms.filterMap TraitMember.asked?, ms.filterMap TraitMember.default?⟩)) := by
  have asked : ∀ s ∈ ms.filterMap TraitMember.asked?, traitMemberFormed tokens (.asked s) :=
    forall_picked (by rintro (s | f) _ ⟨⟩; rfl) members
  have defaults : ∀ f ∈ ms.filterMap TraitMember.default?,
      traitMemberFormed tokens (.default f) :=
    forall_picked (by rintro (s | f) _ ⟨⟩; rfl) members
  refine .cons ⟨?_, ?_⟩ ?_
  · exact fun s member => asked s member
  · exact fun f member => (defaults f member).1
  · exact formed_functions .default fun f member => (defaults f member).2

theorem loop_formed (condition : Formed tokens (Node.inExpr c))
    (body : s.isDeclaration = false ∧ Formed tokens (Node.inStmt s))
    (increment : Nonterminal.Formed tokens .maybeExpression i) :
    Formed tokens (Node.inStmt (.loop c s i)) := by
  cases i with
  | none => exact .cons body.1 (.append condition body.2)
  | some i => exact .cons body.1 (.append condition (.append body.2 increment))

theorem forLoop_formed (start : Nonterminal.Formed tokens .forStart first)
    (condition : Nonterminal.Formed tokens .maybeExpression c)
    (increment : Nonterminal.Formed tokens .maybeExpression i)
    (body : s.isDeclaration = false ∧ Formed tokens (Node.inStmt s)) :
    (forLoop first c i s).isDeclaration = false ∧
      Formed tokens (Node.inStmt (forLoop first c i s)) := by
  have asked : Formed tokens (Node.inExpr (c.getD (.literal (.bool true)))) := by
    cases c with
    | none => exact .leaf trivial
    | some c => exact condition
  have loop := loop_formed asked body increment
  cases first with
  | none => exact ⟨rfl, loop⟩
  | some first =>
    refine ⟨rfl, .cons trivial ?_⟩
    exact (start.append (loop.append .nil)).under .block

/-- Every derived tree is well formed. Its signals come from the derived word. -/
theorem Derives.formed (derives : Derives N n word tree n') (covered : word ⊆ tokens) :
    N.Formed tokens tree := by
  induction derives
  case noInitializer | noStart | noExpression => trivial
  case noSuperclass | noMixins | noMembers | noTraitMembers => exact fun _ member => nomatch member
  case nil => exact .nil
  case noArguments => exact ⟨Nat.zero_le 255, .nil⟩
  case no | yes | nothing | number | string | name | this | super => exact .leaf trivial
  -- The word is that of the only part.
  case varDeclaration ih | evaluate ih | startVar ih | unassigned ih | unconditional ih |
      first ih | tighter ih | tightest ih | positive ih | primary ih | someExpression ih =>
    exact ih covered
  case someArguments few ih => exact ⟨few, ih covered⟩
  case statement ih | startExpression ih => exact (ih covered).2
  case method ih => exact ⟨⟨(ih covered).1, nofun⟩, (ih covered).2⟩
  case default ih => exact ih covered
  case inner ih => exact ⟨rfl, .cons trivial ((ih covered).under .block)⟩
  case argument ih => exact (ih covered).append .nil
  all_goals simp only [List.cons_subset, List.append_subset] at covered
  -- Declarations
  case cons first rest => exact (first covered.1).append (rest covered.2)
  case classDecl parent traits members =>
    obtain ⟨_, _, ⟨⟨w₁, w₂⟩, _, w₃⟩, _⟩ := covered
    exact class_formed (parent w₁) (traits w₂) (members w₃)
  case superclass name => simp [Nonterminal.Formed]
  case mixins ih => exact ih covered.2
  case traitName name => simp [Nonterminal.Formed]
  case moreTraitNames name _ _ rest =>
    exact List.forall_mem_cons.mpr ⟨name.2, rest covered.2.2⟩
  case moreMembers first rest | moreTraitMembers first rest =>
    exact List.forall_mem_cons.mpr ⟨first covered.1, rest covered.2⟩
  case static ih => exact ih covered.2
  case getter name _ ih =>
    exact ⟨⟨name.named, fun _ => rfl⟩, formed_function (Nat.zero_le 255) (ih covered.2)⟩
  case traitDecl members => exact trait_formed (members covered.2.2.2.1)
  case asked name _ names _ _ => exact ⟨name.2, names.few⟩
  case functionDecl ih => exact .cons (ih covered.2).1 ((ih covered.2).2 .function)
  case function name _ rest =>
    obtain ⟨few, body⟩ := rest covered.2
    exact ⟨name.named, formed_function few body⟩
  case functionRest names _ _ body => exact ⟨names.few, body covered.2.2.2⟩
  case block ih => exact ih covered.2.1
  case varDecl e _ _ _ _ _ value =>
    cases e with
    | none => exact .leaf trivial
    | some e => exact .cons trivial (value covered.2.2.1)
  case initializer ih => exact ih covered.2
  -- Statements
  case expressionStatement ih => exact ⟨rfl, .cons trivial (ih covered.1)⟩
  case forLoop start condition increment body =>
    obtain ⟨_, _, ⟨⟨w₁, w₂⟩, _, w₃⟩, _, w₄⟩ := covered
    exact forLoop_formed (start w₁) (condition w₂) (increment w₃) (body w₄)
  case ifThen condition branch =>
    obtain ⟨_, _, w₁, _, w₂⟩ := covered
    refine ⟨rfl, .cons ?_ ((condition w₁).append (branch w₂).2)⟩
    exact List.forall_mem_singleton.mpr (branch w₂).1
  case whileLoop condition body =>
    obtain ⟨_, _, w₁, _, w₂⟩ := covered
    exact ⟨rfl, loop_formed (condition w₁) (body w₂) trivial⟩
  case ifThenElse condition branch other =>
    obtain ⟨_, _, ⟨w₁, _, w₂⟩, _, w₃⟩ := covered
    refine ⟨rfl, .cons ?_ ((condition w₁).append ((branch w₂).2.append (other w₃).2))⟩
    exact List.forall_mem_cons.mpr ⟨(branch w₂).1, List.forall_mem_singleton.mpr (other w₃).1⟩
  case print ih => exact ⟨rfl, .cons trivial (ih covered.2.1)⟩
  case returns e _ _ _ _ value =>
    cases e with
    | none => exact ⟨rfl, .leaf trivial⟩
    | some e => exact ⟨rfl, .cons trivial (value covered.2.1)⟩
  case flow word _ => exact ⟨rfl, .leaf ⟨word.1, covered.1, word.2, rfl⟩⟩
  -- Expressions
  case assign value => exact .cons trivial (value covered.2.2)
  case setProperty object value =>
    exact .cons trivial ((value covered.2.2.2.2).append (object covered.1))
  case ternary condition thenValue elseValue =>
    obtain ⟨⟨w₁, _, w₂⟩, _, w₃⟩ := covered
    exact .cons trivial ((condition w₁).append ((thenValue w₂).append (elseValue w₃)))
  case operation member _ left right =>
    exact node_formed _ member (left covered.1) (right covered.2.2)
  case unary member _ ih => exact .cons member (ih covered.2)
  case call callee given =>
    obtain ⟨⟨w₁, _, w₂⟩, _⟩ := covered
    exact .cons (given w₂).1 ((callee w₁).append (given w₂).2)
  case property ih => exact .cons trivial (ih covered.1)
  case moreArguments first rest => exact (first covered.1).append (rest covered.2.2)
  case lambda ih =>
    obtain ⟨few, body⟩ := ih covered.2
    exact .cons trivial (formed_function few body .function)
  case group ih => exact .cons trivial (ih covered.2.1)

end Grammar

theorem parse_formed (parsed : parse tokens n = (.ok program, cursor)) :
    Grammar.Formed tokens (Node.inStmts program) := by
  obtain ⟨word, rfl, derives⟩ := parse_derives parsed
  exact derives.formed (List.subset_append_left word cursor.rest)

theorem parseExpression_formed (parsed : parseExpression tokens n = (.ok e, cursor)) :
    Grammar.Formed tokens (Node.inExpr e) := by
  obtain ⟨word, rfl, derives⟩ := parseExpression_derives parsed
  exact derives.formed (List.subset_append_left word cursor.rest)

end Lox
