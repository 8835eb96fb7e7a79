import Lox.Resolution

/-! Places in a program: a part of it, the scopes around it, and the state in which a resolution
pass comes to it. -/

namespace Lox

/-- The names that a statement adds to the scope it stands in. -/
def Stmt.declared : Stmt → List String
  | .varDecl name _ => [name.lexeme]
  | .functionDecl f => (f.name.map Token.lexeme).toList
  | .classDecl c => [c.name.lexeme]
  | .traitDecl t => [t.name.lexeme]
  | .ifElse _ thenBranch none => thenBranch.declared
  | .ifElse _ thenBranch (some elseBranch) => thenBranch.declared ++ elseBranch.declared
  | .loop _ body _ => body.declared
  | .block _ | .expression _ | .flow _ _ | .print _ | .returns _ _ => []

/-- The names that the statements of a scope add to it, in this order. -/
def declared (ss : List Stmt) : List String := ss.flatMap Stmt.declared

namespace Reference

mutual

/-- The references in an expression in the order of a resolution pass, with or without those in
the members of classes and traits. -/
def inExpr (members : Bool) : Expr → List Reference
  | .assign target value => inExpr members value ++ [target]
  | .binary left _ right | .logical left _ right => inExpr members left ++ inExpr members right
  | .call callee _ arguments => inExpr members callee ++ inExprs members arguments
  | .property object _ => inExpr members object
  | .group inner => inExpr members inner
  | .lambda f => inFunction members f
  | .literal _ => []
  | .setProperty object _ value => inExpr members value ++ inExpr members object
  | .superRef keyword _ => [keyword]
  | .ternary condition thenValue elseValue =>
    inExpr members condition ++ (inExpr members thenValue ++ inExpr members elseValue)
  | .thisRef keyword => [keyword]
  | .unary _ right => inExpr members right
  | .varRef reference => [reference]

def inExprs (members : Bool) : List Expr → List Reference
  | [] => []
  | e :: es => inExpr members e ++ inExprs members es

def inFunction (members : Bool) : FunctionDecl → List Reference
  | ⟨_, _, body, _⟩ => inStmts members body

def inFunctions (members : Bool) : List FunctionDecl → List Reference
  | [] => []
  | f :: fs => inFunction members f ++ inFunctions members fs

def inMethods (members : Bool) : List MethodDecl → List Reference
  | [] => []
  | ⟨f, _⟩ :: ms => inFunction members f ++ inMethods members ms

def inClass (members : Bool) : ClassDecl → List Reference
  | ⟨_, parent, traits, ms, statics⟩ =>
    parent.toList ++ (traits ++
      if members then inMethods members ms ++ inFunctions members statics else [])

def inTrait (members : Bool) : TraitDecl → List Reference
  | ⟨_, _, defaults⟩ => if members then inFunctions members defaults else []

def inStmt (members : Bool) : Stmt → List Reference
  | .block body => inStmts members body
  | .classDecl declaration => inClass members declaration
  | .expression value | .print value => inExpr members value
  | .flow _ _ => []
  | .functionDecl f => inFunction members f
  | .ifElse condition thenBranch none => inExpr members condition ++ inStmt members thenBranch
  | .ifElse condition thenBranch (some elseBranch) =>
    inExpr members condition ++ (inStmt members thenBranch ++ inStmt members elseBranch)
  | .returns _ none => []
  | .returns _ (some value) => inExpr members value
  | .traitDecl declaration => inTrait members declaration
  | .varDecl _ none => []
  | .varDecl _ (some value) => inExpr members value
  | .loop condition body none => inExpr members condition ++ inStmt members body
  | .loop condition body (some increment) =>
    inExpr members condition ++ (inStmt members body ++ inExpr members increment)

def inStmts (members : Bool) : List Stmt → List Reference
  | [] => []
  | s :: ss => inStmt members s ++ inStmts members ss

end

end Reference

/-- A name that a program can declare. -/
def Plain (name : String) : Prop := name ≠ "this" ∧ name ≠ "super"

namespace Proper

mutual

/-- What parsing promises about a tree beyond its type: names are plain, keywords are keywords,
getters have no parameters, declared functions have a name, and a declaration is no branch of a
condition and no body of a loop. -/
def expr : Expr → Prop
  | .assign target value => Plain target.name.lexeme ∧ expr value
  | .binary left _ right | .logical left _ right => expr left ∧ expr right
  | .call callee _ arguments => expr callee ∧ exprs arguments
  | .property object _ => expr object
  | .group inner => expr inner
  | .lambda f => function f
  | .literal _ => True
  | .setProperty object _ value => expr object ∧ expr value
  | .superRef keyword _ => keyword.name.lexeme = "super"
  | .ternary condition thenValue elseValue => expr condition ∧ expr thenValue ∧ expr elseValue
  | .thisRef keyword => keyword.name.lexeme = "this"
  | .unary _ right => expr right
  | .varRef reference => Plain reference.name.lexeme

def exprs : List Expr → Prop
  | [] => True
  | e :: es => expr e ∧ exprs es

def function : FunctionDecl → Prop
  | ⟨_, params, body, _⟩ => (∀ p ∈ params, Plain p.lexeme) ∧ stmts body

def functions : List FunctionDecl → Prop
  | [] => True
  | f :: fs => function f ∧ functions fs

def methods : List MethodDecl → Prop
  | [] => True
  | ⟨f, isGetter⟩ :: ms => ((isGetter = true → f.params = []) ∧ function f) ∧ methods ms

def classDecl : ClassDecl → Prop
  | ⟨name, parent, traits, ms, statics⟩ =>
    Plain name.lexeme ∧ (∀ reference ∈ parent.toList ++ traits, Plain reference.name.lexeme) ∧
      methods ms ∧ functions statics

def traitDecl : TraitDecl → Prop
  | ⟨name, _, defaults⟩ => Plain name.lexeme ∧ functions defaults

def stmt : Stmt → Prop
  | .block body => stmts body
  | .classDecl declaration => classDecl declaration
  | .expression value | .print value => expr value
  | .flow _ _ => True
  | .functionDecl ⟨none, _, _, _⟩ => False
  | .functionDecl ⟨some name, params, body, line⟩ =>
    Plain name.lexeme ∧ function ⟨some name, params, body, line⟩
  | .ifElse condition thenBranch none =>
    expr condition ∧ thenBranch.declared = [] ∧ stmt thenBranch
  | .ifElse condition thenBranch (some elseBranch) =>
    expr condition ∧ (thenBranch.declared = [] ∧ stmt thenBranch) ∧
      elseBranch.declared = [] ∧ stmt elseBranch
  | .returns _ none => True
  | .returns _ (some value) => expr value
  | .traitDecl declaration => traitDecl declaration
  | .varDecl name none => Plain name.lexeme
  | .varDecl name (some value) => Plain name.lexeme ∧ expr value
  | .loop condition body none => expr condition ∧ body.declared = [] ∧ stmt body
  | .loop condition body (some increment) =>
    expr condition ∧ (body.declared = [] ∧ stmt body) ∧ expr increment

def stmts : List Stmt → Prop
  | [] => True
  | s :: ss => stmt s ∧ stmts ss

end

end Proper

/-- What a resolution pass walks over. -/
inductive Part where
  | expr (e : Expr)
  | exprs (es : List Expr)
  | function (kind : FunctionKind) (f : FunctionDecl)
  | functions (kind : FunctionKind) (fs : List FunctionDecl)
  | methods (owner : Token) (ms : List MethodDecl) (required : Resolver.Required)
  | stmt (s : Stmt)
  | stmts (ss : List Stmt)

namespace Part

def resolve : Part → Resolver → Resolver
  | expr e => Resolver.expr e
  | exprs es => Resolver.exprs es
  | function kind f => Resolver.function kind f
  | functions kind fs => Resolver.functions kind fs
  | methods owner ms required => fun r => (Resolver.methods owner ms required r).2
  | stmt s => Resolver.stmt s
  | stmts ss => Resolver.stmts ss

def references (members : Bool) : Part → List Reference
  | expr e => Reference.inExpr members e
  | exprs es => Reference.inExprs members es
  | function _ f => Reference.inFunction members f
  | functions _ fs => Reference.inFunctions members fs
  | methods _ ms _ => Reference.inMethods members ms
  | stmt s => Reference.inStmt members s
  | stmts ss => Reference.inStmts members ss

/-- The references of the part itself, which do not belong to a part inside of it. -/
def ownReferences : Part → List Reference
  | expr (.assign target _) => [target]
  | expr (.superRef keyword _) | expr (.thisRef keyword) => [keyword]
  | expr (.varRef reference) => [reference]
  | stmt (.classDecl c) => c.superclass.toList ++ c.traits
  | _ => []

def Proper : Part → Prop
  | expr e => Proper.expr e
  | exprs es => Proper.exprs es
  | function _ f => Proper.function f
  | functions _ fs => Proper.functions fs
  | methods _ ms _ => Proper.methods ms
  | stmt s => Proper.stmt s
  | stmts ss => Proper.stmts ss

end Part

/-- A scope around a part of a program. -/
inductive Layer where
  /-- A block or a function body that will hold these names, the first `count` of them declared so
  far. The last one may belong to the variable in whose initializer the part lies. -/
  | scope (names : List String) (count : Nat) (pending : Option (Token × Expr))
  /-- The receiver of a method. -/
  | receiver (method : FunctionDecl)
  /-- The superclass of a class. -/
  | superclass (owner : ClassDecl)

namespace Layer

/-- All names that the scope will ever hold. -/
def all : Layer → List String
  | scope names _ _ => names
  | receiver _ => ["this"]
  | superclass _ => ["super"]

/-- The names declared so far. -/
def visible : Layer → List String
  | scope names count _ => names.take count
  | receiver _ => ["this"]
  | superclass _ => ["super"]

end Layer

/-- The scopes around a part, innermost first; there is none at top level. -/
abbrev Context := List Layer

namespace Context

/-- After the declaration of the next names. -/
def advance (count : Nat) : Context → Context
  | .scope names before pending :: outer => .scope names (before + count) pending :: outer
  | context => context

/-- In the initializer of a variable. -/
def await (name : Token) (value : Expr) : Context → Context
  | .scope names before _ :: outer => .scope names (before + 1) (some (name, value)) :: outer
  | context => context

/-- Around the members of a class. -/
def ofClass (c : ClassDecl) (context : Context) : Context :=
  if c.superclass.isSome then .superclass c :: context.advance 1 else context.advance 1

/-- In the body of a function. -/
def ofFunction (f : FunctionDecl) (context : Context) : Context :=
  .scope (f.params.map Token.lexeme ++ declared f.body) f.params.length none :: context

/-- In a block. -/
def ofBlock (body : List Stmt) (context : Context) : Context :=
  .scope (declared body) 0 none :: context

end Context

structure Site where
  part : Part
  context : Context
  resolver : Resolver

/-- The state of the resolution pass when it leaves the part. -/
def Site.final (p : Site) : Resolver := p.part.resolve p.resolver

/-- What a class still has to provide after its methods, and the state behind them. -/
def Resolver.afterMethods (c : ClassDecl) (r : Resolver) : Resolver.Required × Resolver :=
  let entry := r.enterClass c.name c.superclass c.traits
  Resolver.methods c.name c.methods entry.1 entry.2

/-- From a part to the parts directly inside it. -/
inductive Enters : Site → Site → Prop where
  -- Expressions
  | assigned : Enters ⟨.expr (.assign target value), context, r⟩ ⟨.expr value, context, r⟩
  | binaryLeft : Enters ⟨.expr (.binary left operator right), context, r⟩ ⟨.expr left, context, r⟩
  | binaryRight : Enters ⟨.expr (.binary left operator right), context, r⟩
      ⟨.expr right, context, .expr left r⟩
  | logicalLeft : Enters ⟨.expr (.logical left operator right), context, r⟩
      ⟨.expr left, context, r⟩
  | logicalRight : Enters ⟨.expr (.logical left operator right), context, r⟩
      ⟨.expr right, context, .expr left r⟩
  | callee : Enters ⟨.expr (.call callee paren arguments), context, r⟩ ⟨.expr callee, context, r⟩
  | arguments : Enters ⟨.expr (.call callee paren arguments), context, r⟩
      ⟨.exprs arguments, context, .expr callee r⟩
  | firstExpr : Enters ⟨.exprs (e :: es), context, r⟩ ⟨.expr e, context, r⟩
  | otherExprs : Enters ⟨.exprs (e :: es), context, r⟩ ⟨.exprs es, context, .expr e r⟩
  | object : Enters ⟨.expr (.property object name), context, r⟩ ⟨.expr object, context, r⟩
  | grouped : Enters ⟨.expr (.group e), context, r⟩ ⟨.expr e, context, r⟩
  | lambda : Enters ⟨.expr (.lambda f), context, r⟩ ⟨.function .function f, context, r⟩
  | setValue : Enters ⟨.expr (.setProperty object name value), context, r⟩
      ⟨.expr value, context, r⟩
  | setObject : Enters ⟨.expr (.setProperty object name value), context, r⟩
      ⟨.expr object, context, .expr value r⟩
  | asked : Enters ⟨.expr (.ternary condition thenValue elseValue), context, r⟩
      ⟨.expr condition, context, r⟩
  | thenValue : Enters ⟨.expr (.ternary condition thenValue elseValue), context, r⟩
      ⟨.expr thenValue, context, .expr condition r⟩
  | elseValue : Enters ⟨.expr (.ternary condition thenValue elseValue), context, r⟩
      ⟨.expr elseValue, context, .expr thenValue (.expr condition r)⟩
  | operand : Enters ⟨.expr (.unary operator right), context, r⟩ ⟨.expr right, context, r⟩
  -- Functions
  | body : Enters ⟨.function kind f, context, r⟩
      ⟨.stmts f.body, context.ofFunction f, r.enterFunction kind f.params⟩
  | firstFunction : Enters ⟨.functions kind (f :: fs), context, r⟩
      ⟨.function kind f, .receiver f :: context, r⟩
  | otherFunctions : Enters ⟨.functions kind (f :: fs), context, r⟩
      ⟨.functions kind fs, context, .function kind f r⟩
  | firstMethod : Enters ⟨.methods owner (⟨f, isGetter⟩ :: ms) required, context, r⟩
      ⟨.function (Resolver.methodKind f) f, .receiver f :: context,
        (r.provide owner f required).2⟩
  | otherMethods : Enters ⟨.methods owner (⟨f, isGetter⟩ :: ms) required, context, r⟩
      ⟨.methods owner ms (r.provide owner f required).1, context,
        .function (Resolver.methodKind f) f (r.provide owner f required).2⟩
  -- Statements
  | block : Enters ⟨.stmt (.block ss), context, r⟩ ⟨.stmts ss, context.ofBlock ss, r.openScope⟩
  | methods : Enters ⟨.stmt (.classDecl c), context, r⟩
      ⟨.methods c.name c.methods (r.enterClass c.name c.superclass c.traits).1,
        context.ofClass c, (r.enterClass c.name c.superclass c.traits).2⟩
  | statics : Enters ⟨.stmt (.classDecl c), context, r⟩
      ⟨.functions .method c.statics, context.ofClass c,
        (r.afterMethods c).2.enterStatics c.name (r.afterMethods c).1⟩
  | evaluated : Enters ⟨.stmt (.expression value), context, r⟩ ⟨.expr value, context, r⟩
  | function : Enters ⟨.stmt (.functionDecl ⟨some name, params, ss, line⟩), context, r⟩
      ⟨.function .function ⟨some name, params, ss, line⟩, context.advance 1, r.introduce name⟩
  | ifCondition : Enters ⟨.stmt (.ifElse condition thenBranch elseBranch), context, r⟩
      ⟨.expr condition, context, r⟩
  | thenBranch : Enters ⟨.stmt (.ifElse condition thenBranch elseBranch), context, r⟩
      ⟨.stmt thenBranch, context, .expr condition r⟩
  | elseBranch : Enters ⟨.stmt (.ifElse condition thenBranch (some elseBranch)), context, r⟩
      ⟨.stmt elseBranch, context, .stmt thenBranch (.expr condition r)⟩
  | printed : Enters ⟨.stmt (.print value), context, r⟩ ⟨.expr value, context, r⟩
  | returned : Enters ⟨.stmt (.returns keyword (some value)), context, r⟩
      ⟨.expr value, context, r.checkReturn keyword⟩
  | defaults : Enters ⟨.stmt (.traitDecl t), context, r⟩
      ⟨.functions .method t.defaults, context.advance 1, r.enterTrait t.name⟩
  | initializer : Enters ⟨.stmt (.varDecl name (some value)), context, r⟩
      ⟨.expr value, context.await name value, r.declare name⟩
  | loopCondition : Enters ⟨.stmt (.loop condition loopBody increment), context, r⟩
      ⟨.expr condition, context, r⟩
  | loopBody : Enters ⟨.stmt (.loop condition loopBody increment), context, r⟩
      ⟨.stmt loopBody, context, .expr condition r⟩
  | increment : Enters ⟨.stmt (.loop condition loopBody (some increment)), context, r⟩
      ⟨.expr increment, context, .stmt loopBody (.expr condition r)⟩
  | firstStmt : Enters ⟨.stmts (s :: ss), context, r⟩ ⟨.stmt s, context, r⟩
  | otherStmts : Enters ⟨.stmts (s :: ss), context, r⟩
      ⟨.stmts ss, context.advance s.declared.length, .stmt s r⟩

/-- From a part to any part inside it. -/
inductive Reaches (p : Site) : Site → Prop where
  | refl : Reaches p p
  | step (path : Reaches p q) (enters : Enters q q') : Reaches p q'

end Lox
