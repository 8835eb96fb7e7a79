import Lox.Resolution.Scope

/-!
Resolution: a walk over the syntax tree that gives each reference to a local variable its address
and reports what is statically wrong.
-/

namespace Lox

namespace Resolver

def readThis (keyword : Reference) (r : Resolver) : Resolver :=
  match r.classKind with
  | .none => r.error keyword.name .thisOutside
  | .static => r.error keyword.name .thisInStatic
  | .plain | .subclass | .trait => r.bind keyword

def readSuper (keyword : Reference) (r : Resolver) : Resolver :=
  match r.classKind with
  | .none => r.error keyword.name .superOutside
  | .static => r.error keyword.name .superInStatic
  | .plain | .trait => r.error keyword.name .superWithoutSuperclass
  | .subclass => r.bind keyword

/-- The methods that a class still has to provide, by name. -/
abbrev Required := Std.TreeMap String Nat

/-- Resolves the traits of a class and collects what they ask for; a later trait's wish for the
same name replaces an earlier one's. -/
def mixins : List Reference → Required → Resolver → Required × Resolver
  | [], required, r => (required, r)
  | t :: ts, required, r =>
    let r := r.read t
    match r.registry.traits[t.name.lexeme]? with
    | some wishes => mixins ts (required.insertMany wishes) r
    | none => mixins ts required (r.error t.name (.undefinedTrait t.name.lexeme))

def methodKind (f : FunctionDecl) : FunctionKind :=
  if f.title = "init" then .initializer else .method

/-- Checks a method against what the traits ask for, which is then no longer asked for. The
initializer is never counted. -/
def provide (owner : Token) (f : FunctionDecl) (required : Required) (r : Resolver) :
    Required × Resolver :=
  match methodKind f, required[f.title]? with
  | .method, some expected =>
    (required.erase f.title,
      if expected = f.arity then r
      else r.error (f.name.getD owner) (.wrongArity f.title expected f.arity))
  | _, _ => (required, r)

def checkProvided (owner : Token) (required : Required) (r : Resolver) : Resolver :=
  if required.isEmpty then r else r.error owner (.missingMethods required.keys)

/-- A superclass is looked up where the class is declared, before its own name is known. -/
def superclass (owner : Token) (parent : Option Reference) (r : Resolver) : Resolver :=
  match parent with
  | none => { r with classKind := .plain }
  | some parent =>
    let r := if parent.name.lexeme = owner.lexeme then r.error parent.name .selfInheritance else r
    { r with classKind := .subclass }.read parent

def openClass (parent : Option Reference) (r : Resolver) : Resolver :=
  (if parent.isSome then r.openBound "super" else r).openBound "this"

def closeClass (parent : Option Reference) (r : Resolver) : Resolver :=
  if parent.isSome then r.closeScope.closeScope else r.closeScope

def registerTrait (name : Token) (signatures : List Signature) (r : Resolver) : Resolver :=
  let wishes := signatures.map fun s => (s.name.lexeme, s.arity)
  { r with registry := { r.registry with
      traits := r.registry.traits.insert name.lexeme wishes } }

/-- A value may be returned from any function but an initializer. -/
def checkReturn (keyword : Token) (r : Resolver) : Resolver :=
  match r.functionKind with
  | .none => r.error keyword .returnOutside
  | .initializer => r.error keyword .returnFromInitializer
  | .function | .method => r

/-- The state inside a function, behind its parameters. -/
def enterFunction (kind : FunctionKind) (params : List Token) (r : Resolver) : Resolver :=
  params.foldl (fun r p => r.introduce p) { r with functionKind := kind }.openScope

/-- What the methods of a class have to provide, and the state inside the class. -/
def enterClass (name : Token) (parent : Option Reference) (traits : List Reference)
    (r : Resolver) : Required × Resolver :=
  let mixed := (r.superclass name parent).mixins traits {}
  (mixed.1, (mixed.2.introduce name).openClass parent)

/-- The state between the methods of a class and its static methods. -/
def enterStatics (name : Token) (required : Required) (r : Resolver) : Resolver :=
  { r.checkProvided name required with classKind := .static }

/-- The state inside a trait. -/
def enterTrait (name : Token) (r : Resolver) : Resolver :=
  ({ r with classKind := .trait }.introduce name).openBound "this"

mutual

def expr : Expr → Resolver → Resolver
  | .assign target value, r => (expr value r).bind target
  | .binary left _ right, r | .logical left _ right, r => expr right (expr left r)
  | .call callee _ arguments, r => exprs arguments (expr callee r)
  | .property object _, r => expr object r
  | .group inner, r => expr inner r
  | .lambda f, r => function .function f r
  | .literal _, r => r
  | .setProperty object _ value, r => expr object (expr value r)
  | .superRef keyword _, r => r.readSuper keyword
  | .ternary condition thenValue elseValue, r =>
    expr elseValue (expr thenValue (expr condition r))
  | .thisRef keyword, r => r.readThis keyword
  | .unary _ right, r => expr right r
  | .varRef reference, r => r.read reference

def exprs : List Expr → Resolver → Resolver
  | [], r => r
  | e :: es, r => exprs es (expr e r)

/-- The parameters and the body of a function share one scope. -/
def function (kind : FunctionKind) : FunctionDecl → Resolver → Resolver
  | ⟨_, params, body, _⟩, r =>
    { (stmts body (r.enterFunction kind params)).closeScope with functionKind := r.functionKind }

def functions (kind : FunctionKind) : List FunctionDecl → Resolver → Resolver
  | [], r => r
  | f :: fs, r => functions kind fs (function kind f r)

def methods (owner : Token) : List MethodDecl → Required → Resolver → Required × Resolver
  | [], required, r => (required, r)
  | ⟨f, _⟩ :: ms, required, r =>
    let provided := r.provide owner f required
    methods owner ms provided.1 (function (methodKind f) f provided.2)

def classDecl : ClassDecl → Resolver → Resolver
  | ⟨name, parent, traits, ms, statics⟩, r =>
    let entry := r.enterClass name parent traits
    let body := methods name ms entry.1 entry.2
    { (functions .method statics (body.2.enterStatics name body.1)).closeClass parent with
      classKind := r.classKind }

def traitDecl : TraitDecl → Resolver → Resolver
  | ⟨name, signatures, defaults⟩, r =>
    { (functions .method defaults (r.enterTrait name)).closeScope.registerTrait name signatures with
      classKind := r.classKind }

def stmt : Stmt → Resolver → Resolver
  | .block body, r => (stmts body r.openScope).closeScope
  | .classDecl declaration, r => classDecl declaration r
  | .expression value, r | .print value, r => expr value r
  | .flow _ _, r => r
  | .functionDecl ⟨name, params, body, line⟩, r =>
    let r := match name with
      | some name => r.introduce name
      | none => r
    function .function ⟨name, params, body, line⟩ r
  | .ifElse condition thenBranch none, r => stmt thenBranch (expr condition r)
  | .ifElse condition thenBranch (some elseBranch), r =>
    stmt elseBranch (stmt thenBranch (expr condition r))
  | .returns keyword none, r =>
    if r.functionKind = .none then r.error keyword .returnOutside else r
  | .returns keyword (some value), r =>
    expr value (r.checkReturn keyword)
  | .traitDecl declaration, r => traitDecl declaration r
  | .varDecl name none, r => r.introduce name
  | .varDecl name (some value), r => (expr value (r.declare name)).define name
  | .loop condition body none, r => stmt body (expr condition r)
  | .loop condition body (some increment), r =>
    expr increment (stmt body (expr condition r))

def stmts : List Stmt → Resolver → Resolver
  | [], r => r
  | s :: ss, r => stmts ss (stmt s r)

end

/-- The warnings of a pass, or all its diagnostics if one of them is an error. What the pass has
registered stays in either case. -/
def verdict (r : Resolver) : Except (List Diagnostic) (List Diagnostic) × Registry :=
  (if r.diagnostics.any Diagnostic.isError then .error r.diagnostics else .ok r.diagnostics,
    r.registry)

end Resolver

def resolve (program : List Stmt) (registry : Registry) :
    Except (List Diagnostic) (List Diagnostic) × Registry :=
  (Resolver.stmts program { registry }).verdict

def resolveExpression (e : Expr) (registry : Registry) :
    Except (List Diagnostic) (List Diagnostic) × Registry :=
  (Resolver.expr e { registry }).verdict

end Lox
