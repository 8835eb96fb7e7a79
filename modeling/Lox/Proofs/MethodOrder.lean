import Lox.Proofs.HostedSessions

/-! The order in which a class offers its methods: its own ones, then those of its traits one trait
after the other, then those of its superclass. Looking for a method is looking for the first one of
that name, and the order is fixed when the class is made. -/

namespace Lox

/-- A method as it was declared, with the scope it closes over: by a class for its instances, as a
default of a trait, or as a static method. -/
inductive Offer where
  | own (m : MethodDecl) (scope : Option ScopeId)
  | mixed (f : FunctionDecl) (scope : Option ScopeId)
  | static (f : FunctionDecl) (scope : Option ScopeId)

namespace Offer

def title : Offer → String
  | .own m _ => m.function.title
  | .mixed f _ | .static f _ => f.title

/-- Only a class can declare a getter. -/
def isGetter : Offer → Bool
  | .own m _ => m.isGetter
  | .mixed _ _ | .static _ _ => false

def closure : Offer → Closure
  | .own m scope => ⟨m.function, scope, m.function.title = "init"⟩
  | .mixed f scope => ⟨f, scope, false⟩
  | .static f scope => ⟨f, scope, f.title = "init"⟩

def method (offer : Offer) : Method := ⟨offer.closure, offer.isGetter⟩

/-- The first offer under a name. -/
def first? (offers : List Offer) (name : String) : Option Offer :=
  offers.find? fun offer => offer.title = name

theorem first?_append (offers others : List Offer) (name : String) :
    first? (offers ++ others) name = (first? offers name).or (first? others name) :=
  List.find?_append

theorem title_of_first? (found : first? offers name = some offer) : offer.title = name := by
  have holds := List.find?_some found
  exact of_decide_eq_true holds

theorem lookup_map (offers : List Offer) (name : String) :
    (offers.map fun offer => (offer.title, offer.method)).lookup name =
      (first? offers name).map method := by
  induction offers with
  | nil => rfl
  | cons offer offers ih =>
    rw [List.map_cons, List.lookup_cons, ih]
    by_cases same : offer.title = name
    · simp [first?, same]
    · have differs : (name == offer.title) = false := beq_false_of_ne (Ne.symm same)
      simp [first?, same, differs]

/-- In a table of methods the latest declaration of a name counts. -/
theorem getElem?_ofList (offers : List Offer) (name : String) :
    (Methods.ofList (offers.map fun offer => (offer.title, offer.method)))[name]? =
      (first? offers.reverse name).map method := by
  rw [Methods.ofList, getElem?_foldl_insert, ← List.map_reverse, lookup_map]
  simp

end Offer

/-- The defaults of a trait, the latest first. -/
def Trait.Offers (past : History) (s : Store) (id : TraitId) (offers : List Offer) : Prop :=
  ∃ t d scope m, s.traitAt? id = some t ∧ t.MadeBy past d scope m ∧
    m.store.traits.size = id.index ∧ offers = (d.defaults.map (Offer.mixed · scope)).reverse

/-- The methods that instances have, in the order in which they are looked for. What a declaration
says twice stands there twice, the later one first. -/
inductive Ordered (past : History) (s : Store) : Descriptor → List Offer → Prop where
  | root {id : ClassId} (found : s.classAt? id = some k) (made : k.MadeBy past c scope m)
      (place : m.store.classes.size = id.index)
      (mixes : List.Forall₂ (Trait.Offers past s) k.traits mixed) (top : k.superclass = none) :
      Ordered past s (.ofClass id) ((c.methods.map (Offer.own · scope)).reverse ++ mixed.flatten)
  | subclass {id : ClassId} (found : s.classAt? id = some k) (made : k.MadeBy past c scope m)
      (place : m.store.classes.size = id.index)
      (mixes : List.Forall₂ (Trait.Offers past s) k.traits mixed)
      (inherits : k.superclass = some parent) (above : Ordered past s (.ofClass parent) rest) :
      Ordered past s (.ofClass id)
        ((c.methods.map (Offer.own · scope)).reverse ++ mixed.flatten ++ rest)
  | metaclass {id : ClassId} (found : s.classAt? id = some k) (made : k.MadeBy past c scope m)
      (place : m.store.classes.size = id.index) :
      Ordered past s (.ofMetaclass id) (c.statics.map (Offer.static · scope)).reverse

theorem Class.MadeBy.method {k : Class} (made : k.MadeBy past c scope m) (name : String) :
    k.methods[name]? =
      (Offer.first? (c.methods.map (Offer.own · scope)).reverse name).map Offer.method := by
  rw [← Offer.getElem?_ofList, made.methods, List.map_map]
  rfl

theorem Class.MadeBy.static {k : Class} (made : k.MadeBy past c scope m) (name : String) :
    k.statics[name]? =
      (Offer.first? (c.statics.map (Offer.static · scope)).reverse name).map Offer.method := by
  rw [← Offer.getElem?_ofList, made.statics, List.map_map]
  rfl

theorem Trait.Offers.method {id : TraitId} (offers : Trait.Offers past s id mixed) (name : String) :
    (s.traitAt? id).bind (·.methods[name]?) = (Offer.first? mixed name).map Offer.method := by
  obtain ⟨t, d, scope, m, found, made, -, rfl⟩ := offers
  rw [found, ← Offer.getElem?_ofList, List.map_map, Option.bind_some, made.methods]
  rfl

/-- An earlier trait comes before a later one. -/
theorem Trait.Offers.traitMethod? (mixes : List.Forall₂ (Trait.Offers past s) traits mixed)
    (name : String) :
    s.traitMethod? traits name = (Offer.first? mixed.flatten name).map Offer.method := by
  induction mixes with
  | nil => rfl
  | cons first _ ih =>
    rw [Store.traitMethod?] at ih ⊢
    rw [List.flatten_cons, Offer.first?_append, Option.map_or, ← first.method name, ← ih,
      List.findSome?_cons]
    split
    · next found => rw [found, Option.some_or]
    · next missing => rw [missing, Option.none_or]

/-- To look for a method is to look for the first one of its name in the order. -/
theorem Ordered.methodOf? (ordered : Ordered past s descriptor order) (linked : s.Linked)
    (name : String) :
    s.methodOf? name descriptor = (Offer.first? order name).map Offer.method := by
  induction ordered with
  | root found made _ mixes top =>
    rw [Store.methodOf?, linked.method_eq, found, Option.bind_some, top, made.method,
      Trait.Offers.traitMethod? mixes, Offer.first?_append, Option.map_or]
    simp
  | subclass found made _ mixes inherits _ ih =>
    rw [Store.methodOf?] at ih
    rw [Store.methodOf?, linked.method_eq, found, Option.bind_some, inherits, Option.bind_some, ih,
      made.method, Trait.Offers.traitMethod? mixes, Offer.first?_append, Offer.first?_append,
      Option.map_or, Option.map_or, Option.or_assoc]
    simp
  | metaclass found made _ =>
    rw [Store.methodOf?, found, Option.bind_some, made.static]

theorem Trait.Offers.exists_of_declared (declared : s.Declared past) (traits : List TraitId)
    (present : ∀ id ∈ traits, s.traitAt? id ≠ none) :
    ∃ mixed, List.Forall₂ (Trait.Offers past s) traits mixed := by
  induction traits with
  | nil => exact ⟨[], .nil⟩
  | cons id traits ih =>
    obtain ⟨mixed, rest⟩ := ih fun other member => present other (List.mem_cons_of_mem id member)
    obtain ⟨t, found⟩ := Option.ne_none_iff_exists'.mp (present id List.mem_cons_self)
    obtain ⟨d, scope, m, made, place⟩ := declared.traits id t found
    exact ⟨_ :: mixed, .cons ⟨t, d, scope, m, found, made, place, rfl⟩ rest⟩

/-- What an object is an instance of exists. -/
theorem Store.Linked.described {s : Store} (linked : s.Linked)
    (present : s.descriptor? object = some descriptor) : descriptor.In s := by
  cases object with
  | instanceRef id =>
    obtain ⟨i, found, rfl⟩ := Option.map_eq_some_iff.mp present
    exact (linked.instances id i found).descriptor
  | classRef id =>
    obtain ⟨k, found, rfl⟩ := Option.map_eq_some_iff.mp present
    exact Option.ne_none_iff_exists'.mpr ⟨k, found⟩
  | _ => cases present

/-- A superclass is older, and so it is there. -/
theorem Store.Linked.superclass_present {s : Store} (linked : s.Linked) {id : ClassId}
    (found : s.classAt? id = some k) (inherits : k.superclass = some parent) :
    s.classAt? parent ≠ none := by
  have older := (linked.classes id k found).older parent inherits
  have bound := (Array.getElem?_eq_some_iff.mp found).1
  rw [Store.classAt?, ne_eq, Array.getElem?_eq_none_iff]
  omega

theorem Ordered.exists_ofClass (declared : s.Declared past) (linked : s.Linked) (id : ClassId)
    (present : s.classAt? id ≠ none) : ∃ order, Ordered past s (.ofClass id) order := by
  obtain ⟨k, found⟩ := Option.ne_none_iff_exists'.mp present
  obtain ⟨c, scope, m, made, place⟩ := declared.classes id k found
  obtain ⟨mixed, mixes⟩ := Trait.Offers.exists_of_declared declared k.traits
    (linked.classes id k found).traits
  cases inherits : k.superclass with
  | none => exact ⟨_, .root found made place mixes inherits⟩
  | some parent =>
    have older := (linked.classes id k found).older parent inherits
    obtain ⟨rest, above⟩ := Ordered.exists_ofClass declared linked parent
      (linked.superclass_present found inherits)
    exact ⟨_, .subclass found made place mixes inherits above⟩
termination_by id.index

theorem Ordered.exists_of_present (declared : s.Declared past) (linked : s.Linked)
    {descriptor : Descriptor} (present : descriptor.In s) :
    ∃ order, Ordered past s descriptor order := by
  cases descriptor with
  | ofClass id => exact Ordered.exists_ofClass declared linked id present
  | ofMetaclass id =>
    obtain ⟨k, found⟩ := Option.ne_none_iff_exists'.mp present
    obtain ⟨c, scope, m, made, place⟩ := declared.classes id k found
    exact ⟨_, .metaclass found made place⟩

theorem Class.MadeBy.of_sameLinks {s s' : Store} {id : ClassId} (same : s.SameLinks s')
    (found : s.classAt? id = some k) (found' : s'.classAt? id = some k')
    (made : k.MadeBy past c scope m) : k'.MadeBy past c scope m := by
  rw [same.classes id k k' found found']
  exact made.withFields k'.fields

theorem Trait.Offers.of_sameLinks {s s' : Store} (same : s.SameLinks s')
    (present : ∀ id ∈ traits, s'.traitAt? id ≠ none)
    (mixes : List.Forall₂ (Trait.Offers past s) traits mixed) :
    List.Forall₂ (Trait.Offers past s') traits mixed := by
  induction mixes with
  | nil => exact .nil
  | @cons id _ traits _ first _ ih =>
    apply List.Forall₂.cons
    · obtain ⟨t, d, scope, m, found, made, place, rfl⟩ := first
      obtain ⟨t', found'⟩ := Option.ne_none_iff_exists'.mp (present id List.mem_cons_self)
      obtain rfl := same.traits id t t' found found'
      exact ⟨t', d, scope, m, found', made, place, rfl⟩
    · exact ih fun other member => present other (List.mem_cons_of_mem id member)

/-- Wherever the class exists it mixes in the same. -/
theorem Trait.Offers.of_class {s s' : Store} {id : ClassId} (same : s.SameLinks s')
    (linked : s'.Linked) (found : s.classAt? id = some k) (found' : s'.classAt? id = some k')
    (mixes : List.Forall₂ (Trait.Offers past s) k.traits mixed) :
    List.Forall₂ (Trait.Offers past s') k'.traits mixed := by
  have present := (linked.classes id k' found').traits
  rw [same.classes id k k' found found'] at present ⊢
  exact Trait.Offers.of_sameLinks same present mixes

theorem Store.SameLinks.superclass {s s' : Store} {id : ClassId} (same : s.SameLinks s')
    (found : s.classAt? id = some k) (found' : s'.classAt? id = some k') :
    k'.superclass = k.superclass := by
  rw [same.classes id k k' found found']

/-- Wherever the class exists it offers its methods in the same order. -/
theorem Ordered.of_sameLinks {s s' : Store} (ordered : Ordered past s descriptor order)
    (same : s.SameLinks s') (linked : s'.Linked) (present : descriptor.In s') :
    Ordered past s' descriptor order := by
  induction ordered with
  | root found made place mixes top =>
    obtain ⟨k', found'⟩ := Option.ne_none_iff_exists'.mp present
    exact .root found' (made.of_sameLinks same found found') place
      (Trait.Offers.of_class same linked found found' mixes)
      ((same.superclass found found').trans top)
  | subclass found made place mixes inherits _ ih =>
    obtain ⟨k', found'⟩ := Option.ne_none_iff_exists'.mp present
    have inherits' := (same.superclass found found').trans inherits
    exact .subclass found' (made.of_sameLinks same found found') place
      (Trait.Offers.of_class same linked found found' mixes) inherits'
      (ih (linked.superclass_present found' inherits'))
  | metaclass found made place =>
    obtain ⟨k', found'⟩ := Option.ne_none_iff_exists'.mp present
    exact .metaclass found' (made.of_sameLinks same found found') place

end Lox
