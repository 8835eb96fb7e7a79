import Lox.Proofs.Correspondence

/-! Stores that hold the same objects, whose functions need not have the same code. Whatever is
looked up in them by name or by identity is then the same too, up to the code. -/

namespace Lox

section

variable {R : α → β → Prop} {S : γ → δ → Prop} {x : Option α} {y : Option β}

theorem rel_bind {f : α → Option γ} {g : β → Option δ} (first : Option.Rel R x y)
    (later : ∀ ⦃a b⦄, R a b → Option.Rel S (f a) (g b)) : Option.Rel S (x.bind f) (y.bind g) := by
  cases first with
  | none => exact .none
  | some related => exact later related

theorem rel_map {f : α → γ} {g : β → δ} (options : Option.Rel R x y)
    (mapped : ∀ ⦃a b⦄, R a b → S (f a) (g b)) : Option.Rel S (x.map f) (y.map g) := by
  cases options with
  | none => exact .none
  | some related => exact .some (mapped related)

theorem rel_mono {R' : α → β → Prop} (options : Option.Rel R x y)
    (wider : ∀ ⦃a b⦄, R a b → R' a b) : Option.Rel R' x y := by
  cases options with
  | none => exact .none
  | some related => exact .some (wider related)

theorem rel_or (first : Option.Rel R x y) {x' : Option α} {y' : Option β}
    (second : Option.Rel R x' y') : Option.Rel R (x <|> x') (y <|> y') := by
  cases first with
  | none => exact second
  | some related => exact .some related

theorem rel_findSome? {ι : Type} {f : ι → Option α} {g : ι → Option β}
    (each : ∀ i, Option.Rel R (f i) (g i)) (is : List ι) :
    Option.Rel R (is.findSome? f) (is.findSome? g) := by
  induction is with
  | nil => exact .none
  | cons i is ih =>
    rw [List.findSome?_cons, List.findSome?_cons]
    have first := each i
    generalize f i = x, g i = y at first
    cases first with
    | none => exact ih
    | some related => exact .some related

/-- A function that does not tell related values apart. -/
theorem map_eq {f : α → γ} {g : β → γ} (options : Option.Rel R x y)
    (same : ∀ ⦃a b⦄, R a b → g b = f a) : y.map g = x.map f := by
  cases options with
  | none => rfl
  | some related => exact congrArg some (same related)

theorem rel_of_map_eq {f : α → γ} {g : β → γ} (same : y.map g = x.map f) :
    Option.Rel (fun a b => g b = f a) x y := by
  cases x with
  | none =>
    cases Option.map_eq_none_iff.mp same
    exact .none
  | some a =>
    obtain ⟨b, rfl, mapped⟩ := Option.map_eq_some_iff.mp same
    exact .some mapped

theorem rel_eq (x : Option α) : Option.Rel Eq x x := by
  cases x with
  | none => exact .none
  | some value => exact .some rfl

end

theorem Matched.mono {R R' : α → β → Prop} {xs : Array α} {ys : Array β} (matched : Matched R xs ys)
    (wider : ∀ ⦃x y⦄, x ∈ xs → R x y → R' x y) : Matched R' xs ys := by
  intro i
  have found := matched i
  generalize same : xs[i]? = x, ys[i]? = y at found
  cases found with
  | none => exact .none
  | some related => exact .some (wider (Array.mem_of_getElem? same) related)

/-- The store holds the function, on its own or as a method. -/
def Store.Holds (s : Store) (f : Closure) : Prop :=
  f ∈ s.functions ∨ ∃ m, s.Has m ∧ m.closure = f

namespace Recoded

variable (K : Closure → Closure → Prop)

structure Methods (m m' : Method) : Prop where
  closure : K m.closure m'.closure
  isGetter : m'.isGetter = m.isGetter

def Tables (t t' : Lox.Methods) : Prop := ∀ name : String, Option.Rel (Methods K) t[name]? t'[name]?

structure Classes (c c' : Class) : Prop where
  name : c'.name = c.name
  superclass : c'.superclass = c.superclass
  traits : c'.traits = c.traits
  methods : Tables K c.methods c'.methods
  statics : Tables K c.statics c'.statics
  fields : c'.fields = c.fields

structure Traits (t t' : Trait) : Prop where
  name : t'.name = t.name
  methods : Tables K t.methods t'.methods

inductive Callables : Store.Callable → Store.Callable → Prop where
  | function (related : K f f') : Callables (.function f) (.function f')
  | native (function : Native) : Callables (.native function) (.native function)
  | classRef (id : ClassId) : Callables (.classRef id) (.classRef id)

/-- Stores with the same objects, up to the code of functions. -/
structure Objects (s s' : Store) : Prop where
  functions : Matched K s.functions s'.functions
  classes : Matched (Classes K) s.classes s'.classes
  traits : Matched (Traits K) s.traits s'.traits
  instances : s'.instances = s.instances

/-- Functions may differ in their code, but not in what a caller sees of them. -/
structure Presents : Prop where
  title : ∀ ⦃f f'⦄, K f f' → f'.declaration.title = f.declaration.title
  arity : ∀ ⦃f f'⦄, K f f' → f'.arity = f.arity

variable {K}

/-- Entries of a table under one name. -/
structure Entries (K : Closure → Closure → Prop) (entry entry' : String × Method) : Prop where
  name : entry'.1 = entry.1
  method : Methods K entry.2 entry'.2

theorem Tables.insert {t t' : Lox.Methods} (tables : Tables K t t')
    (entries : Entries K entry entry') :
    Tables K (t.insert entry.1 entry.2) (t'.insert entry'.1 entry'.2) := by
  intro name
  rw [entries.name, Std.TreeMap.getElem?_insert, Std.TreeMap.getElem?_insert]
  split
  · exact .some entries.method
  · exact tables name

theorem Tables.insertAll {t t' : Lox.Methods} (tables : Tables K t t')
    {entries entries' : List (String × Method)}
    (each : List.Forall₂ (Entries K) entries entries') :
    Tables K (entries.foldl (fun table m => table.insert m.1 m.2) t)
      (entries'.foldl (fun table m => table.insert m.1 m.2) t') := by
  induction each generalizing t t' with
  | nil => exact tables
  | cons entry _ ih => exact ih (tables.insert entry)

theorem Tables.ofList {entries entries' : List (String × Method)}
    (each : List.Forall₂ (Entries K) entries entries') :
    Tables K (Lox.Methods.ofList entries) (Lox.Methods.ofList entries') := by
  refine Tables.insertAll (fun name => ?_) each
  rw [Std.TreeMap.getElem?_emptyc]
  exact .none

section

variable {K' : Closure → Closure → Prop}

theorem Tables.mono {t t' : Lox.Methods} (tables : Tables K t t')
    (wider : ∀ (name : String) (m : Method), t[name]? = some m →
      ∀ f', K m.closure f' → K' m.closure f') : Tables K' t t' := by
  intro name
  have found := tables name
  generalize same : t[name]? = m, t'[name]? = m' at found
  cases found with
  | none => exact .none
  | some methods => exact .some ⟨wider name _ same _ methods.closure, methods.isGetter⟩

/-- Only the code that the first store holds matters. -/
theorem Objects.mono {s s' : Store} (objects : Objects K s s')
    (wider : ∀ f, s.Holds f → ∀ f', K f f' → K' f f') : Objects K' s s' where
  functions := objects.functions.mono fun f f' member => wider f (.inl member) f'
  classes := objects.classes.mono fun c _ member classes =>
    { classes with
      methods := Tables.mono classes.methods fun name m found =>
        wider _ (.inr ⟨m, .inl ⟨c, member, name, .inl found⟩, rfl⟩)
      statics := Tables.mono classes.statics fun name m found =>
        wider _ (.inr ⟨m, .inl ⟨c, member, name, .inr found⟩, rfl⟩) }
  traits := objects.traits.mono fun t _ member traits =>
    { traits with
      methods := Tables.mono traits.methods fun name m found =>
        wider _ (.inr ⟨m, .inr ⟨t, member, name, found⟩, rfl⟩) }
  instances := objects.instances

theorem Tables.refl (t : Lox.Methods) : Tables Eq t t :=
  fun name => rel_mono (rel_eq t[name]?) fun _ _ same => ⟨congrArg _ same, congrArg _ same.symm⟩

theorem Objects.refl (s : Store) : Objects Eq s s where
  functions := .refl fun _ _ => rfl
  classes := .refl fun c _ => ⟨rfl, rfl, rfl, .refl c.methods, .refl c.statics, rfl⟩
  traits := .refl fun t _ => ⟨rfl, .refl t.methods⟩
  instances := rfl

end

namespace Objects

variable {s s' : Store} (objects : Objects K s s')
include objects

theorem functionAt? (id : FunctionId) :
    Option.Rel K (s.functionAt? id) (s'.functionAt? id) := objects.functions id.index

theorem classAt? (id : ClassId) : Option.Rel (Classes K) (s.classAt? id) (s'.classAt? id) :=
  objects.classes id.index

theorem traitAt? (id : TraitId) : Option.Rel (Traits K) (s.traitAt? id) (s'.traitAt? id) :=
  objects.traits id.index

theorem instanceAt? (id : InstanceId) : s'.instanceAt? id = s.instanceAt? id := by
  unfold Store.instanceAt?
  rw [objects.instances]

theorem traitMethod? (traits : List TraitId) (name : String) :
    Option.Rel (Methods K) (s.traitMethod? traits name) (s'.traitMethod? traits name) :=
  rel_findSome? (fun id => rel_bind (objects.traitAt? id) fun _ _ found => found.methods name)
    traits

theorem method? (name : String) (id : ClassId) :
    Option.Rel (Methods K) (s.method? name id) (s'.method? name id) := by
  induction size : id.index using Nat.strongRecOn generalizing id with
  | ind index ih =>
    have found := objects.classAt? id
    unfold Store.method?
    generalize s.classAt? id = c, s'.classAt? id = c' at found
    cases found with
    | none => exact .none
    | @some c c' classes =>
      refine rel_or (classes.methods name) ?_
      simp only [classes.traits, classes.superclass]
      refine rel_or (objects.traitMethod? c.traits name) ?_
      cases c.superclass with
      | none => exact .none
      | some parent =>
        dsimp only
        split
        case isTrue older => exact ih parent.index (size ▸ older) parent rfl
        case isFalse => exact .none

theorem methodOf? (name : String) (descriptor : Descriptor) :
    Option.Rel (Methods K) (s.methodOf? name descriptor) (s'.methodOf? name descriptor) := by
  cases descriptor with
  | ofClass id => exact objects.method? name id
  | ofMetaclass id => exact rel_bind (objects.classAt? id) fun _ _ classes => classes.statics name

theorem initializer? (id : ClassId) :
    Option.Rel K (s.initializer? id) (s'.initializer? id) :=
  rel_map (objects.method? "init" id) fun _ _ methods => methods.closure

theorem describe_eq (descriptor : Descriptor) : s'.describe descriptor = s.describe descriptor := by
  cases descriptor with
  | ofClass id => exact congrArg (·.getD "") (map_eq (objects.classAt? id) fun _ _ c => c.name)
  | ofMetaclass id =>
    refine congrArg (·.getD "") (map_eq (objects.classAt? id) fun _ _ classes => ?_)
    exact congrArg (· ++ " class") classes.name

theorem descriptor?_eq (value : Value) : s'.descriptor? value = s.descriptor? value := by
  cases value with
  | instanceRef id => exact congrArg (Option.map Instance.descriptor) (objects.instanceAt? id)
  | classRef id => exact map_eq (objects.classAt? id) fun _ _ _ => rfl
  | _ => rfl

theorem field?_eq (object : Value) (name : String) :
    s'.field? object name = s.field? object name := by
  refine congrArg (Option.bind · _) ?_
  cases object with
  | instanceRef id => exact congrArg (Option.map Instance.fields) (objects.instanceAt? id)
  | classRef id => exact map_eq (objects.classAt? id) fun _ _ classes => classes.fields
  | _ => rfl

theorem callable? (value : Value) :
    Option.Rel (Callables K) (s.callable? value) (s'.callable? value) := by
  cases value with
  | functionRef id => exact rel_map (objects.functionAt? id) fun _ _ related => .function related
  | native function => exact .some (.native function)
  | classRef id => exact rel_map (objects.classAt? id) fun _ _ _ => .classRef id
  | _ => exact .none

theorem arity_eq (presents : Presents K) (callables : Callables K c c') :
    s'.arity c' = s.arity c := by
  cases callables with
  | function related => exact presents.arity related
  | native function => rfl
  | classRef id => exact congrArg (·.getD 0) (map_eq (objects.initializer? id) presents.arity)

theorem display_eq (presents : Presents K) (value : Value) :
    s'.display value = s.display value := by
  cases value with
  | functionRef id =>
    refine congrArg (·.getD "") (map_eq (objects.functionAt? id) fun f f' related => ?_)
    simp only [Closure.display, presents.title related]
  | classRef id => exact objects.describe_eq (.ofClass id)
  | instanceRef id => simp only [Store.display, objects.instanceAt?, objects.describe_eq]
  | traitRef id =>
    refine congrArg (·.getD "") (map_eq (objects.traitAt? id) fun t t' traits => ?_)
    rw [traits.name]
  | bool value => cases value <;> rfl
  | _ => rfl

end Objects

end Recoded

end Lox
