import Lox.Store

/-!
Inspection: the make-up of an object on one line.
-/

namespace Lox

namespace Inspection

def record (kind : String) (fields : List (String × String)) : String :=
  kind ++ " \x7b " ++ String.intercalate ", " (fields.map fun f => f.1 ++ ": " ++ f.2) ++ " \x7d"

/-- Names hold only letters, digits and underscores, so nothing in them is escaped. -/
def quote (name : String) : String := "\"" ++ name ++ "\""

def list (names : List String) : String :=
  "[" ++ String.intercalate ", " (names.map quote) ++ "]"

def option : Option String → String
  | none => "None"
  | some name => "Some(" ++ quote name ++ ")"

def bool (b : Bool) : String := if b then "true" else "false"

def closure (f : Closure) : String :=
  record "LoxFunction" [("name", quote f.declaration.title), ("arity", toString f.arity),
    ("is_initializer", bool f.isInitializer)]

def object (className : String) (fields : Fields) : String :=
  record "LoxInstance" [("class", quote className), ("fields", list fields.keys)]

def traitObject (t : Trait) : String := record "Trait" [("name", quote t.name)]

/-- A class, the class of the class, and the class as an instance. -/
def classObject (s : Store) (c : Class) : String :=
  let parent := (c.superclass.bind s.classAt?).map Class.name
  let traits := (c.traits.filterMap s.traitAt?).map Trait.name
  String.intercalate " "
    [record "LoxClass" [("name", quote c.name), ("superclass", option parent),
       ("traits", list traits), ("methods", list c.methods.keys)],
     record "Metaclass" [("name", quote c.metaName)],
     object c.metaName c.fields]

end Inspection

/-- The make-up of a value; there is none to show for simple values and built-in functions. -/
def Store.inspect (s : Store) : Value → Option String
  | .functionRef id => (s.functionAt? id).map Inspection.closure
  | .classRef id => (s.classAt? id).map (Inspection.classObject s)
  | .instanceRef id =>
    (s.instanceAt? id).map fun i => Inspection.object (s.describe i.descriptor) i.fields
  | .traitRef id => (s.traitAt? id).map Inspection.traitObject
  | _ => none

end Lox
