import Lox.Scope

/-!
Objects of a running program: functions with the scope they close over, classes, traits and
instances. Objects are only ever added, and what an object links to was there before it.
-/

namespace Lox

/-- A declared function and the scope around it. An initializer hands back its receiver. -/
structure Closure where
  declaration : FunctionDecl
  parent : Option ScopeId
  isInitializer : Bool

instance : Inhabited Closure := ⟨⟨⟨none, [], [], 0⟩, none, false⟩⟩

namespace Closure

def arity (f : Closure) : Nat := f.declaration.arity

def display (f : Closure) : String := "<fn " ++ f.declaration.title ++ ">"

end Closure

/-- An entry of a method table. A getter runs as soon as it is read. -/
structure Method where
  closure : Closure
  isGetter : Bool
deriving Inhabited

abbrev Fields := Std.TreeMap String Value

abbrev Methods := Std.TreeMap String Method

/-- A later method of the same name replaces an earlier one. -/
def Methods.ofList (methods : List (String × Method)) : Methods :=
  methods.foldl (fun table m => table.insert m.1 m.2) {}

/-- A class has methods for its instances, and static methods and fields of its own. -/
structure Class where
  name : String
  superclass : Option ClassId
  traits : List TraitId
  methods : Methods
  statics : Methods
  fields : Fields := {}

instance : Inhabited Class := ⟨⟨"", none, [], {}, {}, {}⟩⟩

/-- The class that a class itself is an instance of. -/
def Class.metaName (c : Class) : String := c.name ++ " class"

structure Trait where
  name : String
  methods : Methods

instance : Inhabited Trait := ⟨⟨"", {}⟩⟩

/-- What an instance is an instance of: a class, or the class of a class. -/
inductive Descriptor where
  | ofClass (id : ClassId)
  | ofMetaclass (id : ClassId)
deriving DecidableEq, Inhabited

structure Instance where
  descriptor : Descriptor
  fields : Fields := {}

instance : Inhabited Instance := ⟨⟨default, {}⟩⟩

structure Store where
  scopes : Scopes := {}
  functions : Array Closure := #[]
  classes : Array Class := #[]
  traits : Array Trait := #[]
  instances : Array Instance := #[]

namespace Store

def functionAt? (s : Store) (id : FunctionId) : Option Closure := s.functions[id.index]?

def classAt? (s : Store) (id : ClassId) : Option Class := s.classes[id.index]?

def traitAt? (s : Store) (id : TraitId) : Option Trait := s.traits[id.index]?

def instanceAt? (s : Store) (id : InstanceId) : Option Instance := s.instances[id.index]?

/-- The first of the traits that has a method of this name decides. -/
def traitMethod? (s : Store) (traits : List TraitId) (name : String) : Option Method :=
  traits.findSome? fun id => (s.traitAt? id).bind (·.methods[name]?)

/-- A method is looked for in the class itself, then in its traits, then in its superclass. A
superclass is older than its subclasses, so the search ends. -/
def method? (s : Store) (name : String) (id : ClassId) : Option Method :=
  match s.classAt? id with
  | none => none
  | some c =>
    c.methods[name]? <|> s.traitMethod? c.traits name <|>
      match c.superclass with
      | none => none
      | some parent =>
        if parent.index < id.index then s.method? name parent else none
termination_by id.index

/-- The class of a class has nothing but the static methods. -/
def methodOf? (s : Store) (name : String) : Descriptor → Option Method
  | .ofClass id => s.method? name id
  | .ofMetaclass id => (s.classAt? id).bind (·.statics[name]?)

def describe (s : Store) : Descriptor → String
  | .ofClass id => ((s.classAt? id).map Class.name).getD ""
  | .ofMetaclass id => ((s.classAt? id).map Class.metaName).getD ""

def initializer? (s : Store) (id : ClassId) : Option Closure :=
  (s.method? "init" id).map Method.closure

/-- Values that have fields: instances, and classes as instances of their own class. -/
def descriptor? (s : Store) : Value → Option Descriptor
  | .instanceRef id => (s.instanceAt? id).map Instance.descriptor
  | .classRef id => (s.classAt? id).map fun _ => .ofMetaclass id
  | _ => none

def fields? (s : Store) : Value → Option Fields
  | .instanceRef id => (s.instanceAt? id).map Instance.fields
  | .classRef id => (s.classAt? id).map Class.fields
  | _ => none

def field? (s : Store) (object : Value) (name : String) : Option Value :=
  (s.fields? object).bind (·[name]?)

def setField (object : Value) (name : String) (value : Value) (s : Store) : Store :=
  match object with
  | .instanceRef id =>
    { s with instances := s.instances.modify id.index fun i =>
        { i with fields := i.fields.insert name value } }
  | .classRef id =>
    { s with classes := s.classes.modify id.index fun c =>
        { c with fields := c.fields.insert name value } }
  | _ => s

/-- What can be called. -/
inductive Callable where
  | function (closure : Closure)
  | native (function : Native)
  | classRef (id : ClassId)

def callable? (s : Store) : Value → Option Callable
  | .functionRef id => (s.functionAt? id).map .function
  | .native function => some (.native function)
  | .classRef id => (s.classAt? id).map fun _ => .classRef id
  | _ => none

/-- A class takes the arguments of its initializer. -/
def arity (s : Store) : Callable → Nat
  | .function closure => closure.arity
  | .native function => function.arity
  | .classRef id => ((s.initializer? id).map Closure.arity).getD 0

/-- What is printed for a value. -/
def display (s : Store) : Value → String
  | .nil => "nil"
  | .bool true => "true"
  | .bool false => "false"
  | .number value => Number.display value
  | .string value => value
  | .functionRef id => ((s.functionAt? id).map Closure.display).getD ""
  | .native _ => "<native fn>"
  | .classRef id => s.describe (.ofClass id)
  | .instanceRef id =>
    ((s.instanceAt? id).map fun i => s.describe i.descriptor ++ " instance").getD ""
  | .traitRef id => ((s.traitAt? id).map fun t => "<trait " ++ t.name ++ ">").getD ""

end Store

end Lox
