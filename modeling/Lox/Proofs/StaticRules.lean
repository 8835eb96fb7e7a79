import Lox.Proofs.Standpoints

/-! The static rules. Every node of a program has a rule of its own, about itself and what lies
around it; a pass that comes to a `return`, `this` or `super` judges it by its rule. -/

namespace Lox

mutual

/-- The variables that an expression reads, those of the functions in it left out. -/
def Expr.reads : Expr → List String
  | .assign _ value => value.reads
  | .binary left _ right | .logical left _ right => left.reads ++ right.reads
  | .call callee _ arguments => callee.reads ++ Expr.readsOf arguments
  | .property object _ => object.reads
  | .group inner => inner.reads
  | .lambda _ | .literal _ | .superRef _ _ | .thisRef _ => []
  | .setProperty object _ value => value.reads ++ object.reads
  | .ternary condition thenValue elseValue =>
    condition.reads ++ (thenValue.reads ++ elseValue.reads)
  | .unary _ right => right.reads
  | .varRef reference => [reference.name.lexeme]

def Expr.readsOf : List Expr → List String
  | [] => []
  | e :: es => e.reads ++ Expr.readsOf es

end

namespace Enclosure

def isFunction : Enclosure → Bool
  | .block => false
  | .function | .method _ _ | .static | .default => true

/-- Methods of classes and traits. -/
def isMember : Enclosure → Bool
  | .block | .function => false
  | .method _ _ | .static | .default => true

def isStatic : Enclosure → Bool
  | .static => true
  | .block | .function | .method _ _ | .default => false

def isInitializer : Enclosure → Bool
  | .method _ name => name = "init"
  | .block | .function | .static | .default => false

/-- Methods that are not static, of a class with a superclass. -/
def isOfSubclass : Enclosure → Bool
  | .method parent _ => parent.isSome
  | .block | .function | .static | .default => false

end Enclosure

namespace Around

/-- The function that is nearest around a node. -/
def nearest (around : Around) : Option Enclosure := around.find? Enclosure.isFunction

/-- The member of the innermost class or trait around a node. -/
def member (around : Around) : Option Enclosure := around.find? Enclosure.isMember

end Around

namespace Node

/-- The rule for a node among what lies around it. -/
def Valid (around : Around) : Node → Prop
  | .function f => (f.params.map Token.lexeme ++ declared f.body).Nodup
  | .stmt (.block body) => (declared body).Nodup
  | .stmt (.varDecl name (some value)) => around ≠ [] → name.lexeme ∉ value.reads
  | .stmt (.classDecl c) => ∀ parent ∈ c.superclass, parent.name.lexeme ≠ c.name.lexeme
  | .stmt (.returns _ value) =>
    ∃ f ∈ Around.nearest around, value.isSome = true → f.isInitializer = false
  | .expr (.thisRef _) => ∃ m ∈ Around.member around, m.isStatic = false
  | .expr (.superRef _ _) => ∃ m ∈ Around.member around, m.isOfSubclass = true
  | _ => True

instance (around : Around) : (node : Node) → Decidable (node.Valid around)
  | .function f => inferInstanceAs (Decidable (f.params.map Token.lexeme ++ declared f.body).Nodup)
  | .stmt (.block body) => inferInstanceAs (Decidable (declared body).Nodup)
  | .stmt (.varDecl name (some value)) =>
    inferInstanceAs (Decidable (around ≠ [] → name.lexeme ∉ value.reads))
  | .stmt (.classDecl c) => inferInstanceAs
    (Decidable (∀ parent ∈ c.superclass, parent.name.lexeme ≠ c.name.lexeme))
  | .stmt (.returns _ value) => inferInstanceAs
    (Decidable (∃ f ∈ Around.nearest around, value.isSome = true → f.isInitializer = false))
  | .expr (.thisRef _) =>
    inferInstanceAs (Decidable (∃ m ∈ Around.member around, m.isStatic = false))
  | .expr (.superRef _ _) =>
    inferInstanceAs (Decidable (∃ m ∈ Around.member around, m.isOfSubclass = true))
  | .stmt (.expression _) | .stmt (.flow _ _) | .stmt (.functionDecl _) | .stmt (.ifElse _ _ _)
  | .stmt (.print _) | .stmt (.traitDecl _) | .stmt (.varDecl _ none) | .stmt (.loop _ _ _)
  | .expr (.assign _ _) | .expr (.binary _ _ _) | .expr (.call _ _ _) | .expr (.property _ _)
  | .expr (.group _) | .expr (.lambda _) | .expr (.literal _) | .expr (.logical _ _ _)
  | .expr (.setProperty _ _ _) | .expr (.ternary _ _ _) | .expr (.unary _ _) | .expr (.varRef _) =>
    .isTrue trivial

/-- What is to be said about a `return`, `this` or `super` that breaks its rule. -/
def charge (around : Around) : Node → Option Diagnostic
  | .stmt (.returns keyword _) => some <| .error keyword <|
    if (Around.nearest around).isNone then .returnOutside else .returnFromInitializer
  | .expr (.thisRef keyword) => some <| .error keyword.name <|
    if (Around.member around).isNone then .thisOutside else .thisInStatic
  | .expr (.superRef keyword _) => some <| .error keyword.name <|
    match Around.member around with
    | none => .superOutside
    | some m => if m.isStatic then .superInStatic else .superWithoutSuperclass
  | _ => none

def complaint? (around : Around) (node : Node) : Option Diagnostic :=
  if node.Valid around then none else node.charge around

/-- The traits that a class mixes in. -/
def mixins : Node → List Reference
  | .stmt (.classDecl c) => c.traits
  | _ => []

end Node

/-- The complaints that a list of nodes gives rise to, each node with what lies around it. -/
def complaints (nodes : List (Node × Around)) : List Diagnostic :=
  nodes.filterMap fun place => place.1.complaint? place.2

def AllValid (nodes : List (Node × Around)) : Prop := ∀ place ∈ nodes, place.1.Valid place.2

instance (nodes : List (Node × Around)) : Decidable (AllValid nodes) :=
  inferInstanceAs (Decidable (∀ place ∈ nodes, place.1.Valid place.2))

/-- No class mixes in a trait. -/
def Unmixed (nodes : List (Node × Around)) : Prop := ∀ place ∈ nodes, place.1.mixins = []

instance (nodes : List (Node × Around)) : Decidable (Unmixed nodes) :=
  inferInstanceAs (Decidable (∀ place ∈ nodes, place.1.mixins = []))

/-- Whether a diagnostic is about the place of a `return`, `this` or `super`. -/
def Diagnostic.aboutPlace : Diagnostic → Bool
  | .error _ .returnOutside | .error _ .returnFromInitializer | .error _ .thisOutside
  | .error _ .thisInStatic | .error _ .superOutside | .error _ .superInStatic
  | .error _ .superWithoutSuperclass => true
  | _ => false

section

variable {a b : List (Node × Around)} {node : Node} {around : Around}

theorem complaint?_uncharged (uncharged : node.charge around = none) :
    node.complaint? around = none := by
  rw [Node.complaint?, uncharged, ite_self]

theorem complaints_append : complaints (a ++ b) = complaints a ++ complaints b :=
  List.filterMap_append

theorem complaints_cons : complaints ((node, around) :: a) =
    (node.complaint? around).toList ++ complaints a := by
  unfold complaints
  rw [List.filterMap_cons]
  cases node.complaint? around <;> rfl

theorem allValid_append : AllValid (a ++ b) ↔ AllValid a ∧ AllValid b := List.forall_mem_append

theorem allValid_cons : AllValid ((node, around) :: a) ↔ node.Valid around ∧ AllValid a :=
  List.forall_mem_cons

theorem unmixed_append : Unmixed (a ++ b) ↔ Unmixed a ∧ Unmixed b := List.forall_mem_append

theorem unmixed_cons : Unmixed ((node, around) :: a) ↔ node.mixins = [] ∧ Unmixed a :=
  List.forall_mem_cons

end

def Enclosure.functionKind : Enclosure → FunctionKind
  | .block => .none
  | .function => .function
  | .method _ name => if name = "init" then .initializer else .method
  | .static | .default => .method

def Enclosure.classKind : Enclosure → ClassKind
  | .block | .function => .none
  | .method parent _ => Resolver.kindOfClass parent
  | .static => .static
  | .default => .trait

def Around.functionKind (around : Around) : FunctionKind :=
  ((Around.nearest around).map Enclosure.functionKind).getD .none

def Around.classKind (around : Around) : ClassKind :=
  ((Around.member around).map Enclosure.classKind).getD .none

namespace Resolver

/-- The state of a pass at a place in a block, in a function or at top level. -/
structure Faces (around : Around) (r : Resolver) : Prop where
  functionKind : r.functionKind = Around.functionKind around
  classKind : r.classKind = Around.classKind around
  top : r.frames = [] ↔ around = []

theorem Faces.of_eq {r r' : Resolver} (faces : Faces around r)
    (same : r'.standpoint = r.standpoint) : Faces around r' := by
  refine ⟨(functionKind_eq same).trans faces.functionKind,
    (classKind_eq same).trans faces.classKind, ?_⟩
  rw [← faces.top, ← List.length_eq_zero_iff, frames_length_eq same, List.length_eq_zero_iff]

theorem Faces.openScope {r : Resolver} (faces : Faces around r) :
    Faces (.block :: around) r.openScope :=
  ⟨faces.functionKind, faces.classKind, by simp [Resolver.openScope]⟩

theorem enterFunction_faces {r : Resolver} (real : kind.isFunction = true)
    (inside : r.classKind = Around.classKind (kind :: around)) (params : List Token) :
    Faces (kind :: around) (r.enterFunction kind.functionKind params) := by
  have entered := enterFunction_standpoint kind.functionKind params r
  refine ⟨(congrArg Standpoint.functionKind entered).trans ?_,
    (congrArg Standpoint.classKind entered).trans inside, ?_⟩
  · rw [Around.functionKind, Around.nearest, List.find?_cons_of_pos real]
    rfl
  · have scopes := congrArg (List.length ∘ Standpoint.awaited) entered
    simp only [standpoint, Function.comp, List.length_map, List.length_cons] at scopes
    simp only [reduceCtorEq, iff_false]
    intro top
    rw [top] at scopes
    cases scopes

theorem Faces.enclosed {r : Resolver} (faces : Faces around r) (plain : kind.isMember = false) :
    r.classKind = Around.classKind (kind :: around) := by
  rw [faces.classKind, Around.classKind, Around.classKind, Around.member, Around.member,
    List.find?_cons_of_neg (by simp [plain])]

theorem Faces.declare {r : Resolver} (faces : Faces around r) (name : Token) :
    Faces around (r.declare name) := by
  unfold Resolver.declare extend
  split
  · exact faces
  · rename_i frame outer frames
    split
    · exact faces.of_eq rfl
    · refine ⟨faces.functionKind, faces.classKind, ?_⟩
      rw [← faces.top, frames]
      simp

/-- A pass judges a node: it goes on as usual, or it reports what breaks the rule. -/
def Judges (node : Node) (around : Around) (r usual r' : Resolver) : Prop :=
  (node.Valid around ∧ r' = usual) ∨ ¬ node.Valid around ∧ ∃ token cause,
    node.charge around = some (.error token cause) ∧
      (Diagnostic.error token cause).aboutPlace = true ∧ r' = r.error token cause

theorem readThis_judges {r : Resolver} (faces : Faces around r) (keyword : Reference) :
    Judges (.expr (.thisRef keyword)) around r (r.bind keyword) (r.readThis keyword) := by
  unfold Judges readThis Node.Valid Node.charge
  rw [faces.classKind, Around.classKind]
  cases found : Around.member around with
  | none => exact .inr ⟨by simp, _, _, rfl, rfl, rfl⟩
  | some m =>
    have member := List.find?_some found
    cases m with
    | block | function => cases member
    | method parent => cases parent <;> exact .inl ⟨⟨_, rfl, rfl⟩, rfl⟩
    | static => exact .inr ⟨by simp [Enclosure.isStatic], _, _, rfl, rfl, rfl⟩
    | default => exact .inl ⟨⟨_, rfl, rfl⟩, rfl⟩

theorem readSuper_judges {r : Resolver} (faces : Faces around r) (keyword : Reference)
    (method : Token) : Judges (.expr (.superRef keyword method)) around r (r.bind keyword)
      (r.readSuper keyword) := by
  unfold Judges readSuper Node.Valid Node.charge
  rw [faces.classKind, Around.classKind]
  cases found : Around.member around with
  | none => exact .inr ⟨by simp, _, _, rfl, rfl, rfl⟩
  | some m =>
    have member := List.find?_some found
    cases m with
    | block | function => cases member
    | method parent =>
      cases parent with
      | none => exact .inr ⟨by simp [Enclosure.isOfSubclass], _, _, rfl, rfl, rfl⟩
      | some parent => exact .inl ⟨⟨_, rfl, rfl⟩, rfl⟩
    | static | default => exact .inr ⟨by simp [Enclosure.isOfSubclass], _, _, rfl, rfl, rfl⟩

theorem checkReturn_judges {r : Resolver} (faces : Faces around r) (keyword : Token)
    (value : Expr) :
    Judges (.stmt (.returns keyword (some value))) around r r (r.checkReturn keyword) := by
  unfold Judges checkReturn Node.Valid Node.charge
  rw [faces.functionKind, Around.functionKind]
  cases found : Around.nearest around with
  | none => exact .inr ⟨by simp, _, _, rfl, rfl, rfl⟩
  | some f =>
    have real := List.find?_some found
    cases f with
    | block => cases real
    | function | static | default => exact .inl ⟨⟨_, rfl, fun _ => rfl⟩, rfl⟩
    | method parent name =>
      by_cases initial : name = "init"
      · subst initial
        exact .inr ⟨by simp [Enclosure.isInitializer], _, _, rfl, rfl, rfl⟩
      · refine .inl ⟨⟨_, rfl, fun _ => by simp [Enclosure.isInitializer, initial]⟩, ?_⟩
        simp [Enclosure.functionKind, initial]

theorem bareReturn_judges {r : Resolver} (faces : Faces around r) (keyword : Token) :
    Judges (.stmt (.returns keyword none)) around r r
      (if r.functionKind = .none then r.error keyword .returnOutside else r) := by
  unfold Judges Node.Valid Node.charge
  rw [faces.functionKind, Around.functionKind]
  cases found : Around.nearest around with
  | none => exact .inr ⟨by simp, _, _, rfl, rfl, rfl⟩
  | some f =>
    have real := List.find?_some found
    refine .inl ⟨⟨f, rfl, fun carries => by cases carries⟩, if_neg ?_⟩
    cases f with
    | block => cases real
    | function | static | default => simp [Enclosure.functionKind]
    | method parent name => by_cases initial : name = "init" <;>
        simp [Enclosure.functionKind, initial]

end Resolver

end Lox
