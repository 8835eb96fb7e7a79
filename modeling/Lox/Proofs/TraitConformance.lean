import Lox.Proofs.LinkedRuns
import Lox.Proofs.RegisteredTraits
import Mathlib.Data.List.Forall2

/-! What a class provides of what its traits ask for. A resolution pass looks up the requirements of
a trait by the trait's name, lets the last requirement for a method count, and compares it with the
first method of that name; an executed class declaration keeps the last one. Where these agree, a
class that has been declared provides every method that is asked for, with as many parameters. -/

namespace Lox

/-- In a table that is filled entry by entry the last entry for a name counts. -/
theorem getElem?_foldl_insert {β : Type} (entries : List (String × β))
    (table : Std.TreeMap String β) (name : String) :
    (entries.foldl (fun table entry => table.insert entry.1 entry.2) table)[name]? =
      (entries.reverse.lookup name).or table[name]? := by
  induction entries generalizing table with
  | nil => rfl
  | cons entry entries ih =>
    rw [List.foldl_cons, ih, List.reverse_cons, List.lookup_append, Option.or_assoc,
      Std.TreeMap.getElem?_insert]
    congr 1
    obtain ⟨key, value⟩ := entry
    by_cases same : key = name
    · subst same
      simp
    · have other : (name == key) = false := beq_false_of_ne (Ne.symm same)
      simp [List.lookup_cons, other, same]

theorem insertMany_eq_foldl {β : Type} (entries : List (String × β))
    (table : Std.TreeMap String β) :
    table.insertMany entries =
      entries.foldl (fun table entry => table.insert entry.1 entry.2) table := by
  induction entries generalizing table with
  | nil => exact Std.TreeMap.insertMany_nil
  | cons entry entries ih => rw [Std.TreeMap.insertMany_cons, ih, List.foldl_cons]

namespace Resolver

/-- What the traits of a class ask for, one after the other. -/
def asked (traits : List Reference) (r : Resolver) : List Requirement :=
  traits.flatMap fun t => (r.registry.traits[t.name.lexeme]?).getD []

/-- The number of parameters in the last requirement for a method. -/
def lastAsked (name : String) (wishes : List Requirement) : Option Nat :=
  wishes.reverse.lookup name

theorem lastAsked_append (name : String) (first later : List Requirement) :
    lastAsked name (first ++ later) = (lastAsked name later).or (lastAsked name first) := by
  rw [lastAsked, List.reverse_append, List.lookup_append]
  rfl

theorem lastAsked_ne_none {wishes : List Requirement} (asks : (name, k) ∈ wishes) :
    lastAsked name wishes ≠ none := by
  intro none
  have differs := List.lookup_eq_none_iff.mp none (name, k) (List.mem_reverse.mpr asks)
  simp at differs

theorem mem_asked {traits : List Reference} {r : Resolver} (member : t ∈ traits)
    (registered : r.registry.traits[t.name.lexeme]? = some wishes) (asks : requirement ∈ wishes) :
    requirement ∈ r.asked traits := by
  refine List.mem_flatMap.mpr ⟨t, member, ?_⟩
  rw [registered]
  exact asks

theorem asked_congr {r r' : Resolver} (same : r'.registry.traits = r.registry.traits)
    (traits : List Reference) : r'.asked traits = r.asked traits := by
  unfold asked
  rw [same]

/-- A class that a pass accepts has registered traits only. -/
theorem mixins_registered {traits : List Reference} {required : Required} {r : Resolver}
    (clean : (r.mixins traits required).2.Clean) :
    ∀ t ∈ traits, r.registry.traits[t.name.lexeme]? ≠ none := by
  induction traits generalizing required r with
  | nil => exact fun _ member => (List.not_mem_nil member).elim
  | cons t ts ih =>
    have kept : (r.read t).registry.traits = r.registry.traits := read_registers t r
    unfold mixins at clean
    dsimp only at clean
    cases found : (r.read t).registry.traits[t.name.lexeme]? with
    | none =>
      rw [found] at clean
      exact (not_clean_error ((mixins_extends ts required _).clean clean)).elim
    | some wishes =>
      rw [found] at clean
      have others := ih clean
      rw [kept] at found others
      refine List.forall_mem_cons.mpr ⟨?_, others⟩
      rw [found]
      exact Option.some_ne_none _

/-- What is collected is what the traits ask for. -/
theorem mixins_collected {traits : List Reference} {r : Resolver}
    (registered : ∀ t ∈ traits, r.registry.traits[t.name.lexeme]? ≠ none) (required : Required)
    (name : String) : (r.mixins traits required).1[name]? =
      (lastAsked name (r.asked traits)).or required[name]? := by
  induction traits generalizing required r with
  | nil => rfl
  | cons t ts ih =>
    have kept : (r.read t).registry.traits = r.registry.traits := read_registers t r
    obtain ⟨first, others⟩ := List.forall_mem_cons.mp registered
    obtain ⟨wishes, found⟩ := Option.ne_none_iff_exists'.mp first
    have asks : r.asked (t :: ts) = wishes ++ r.asked ts := by
      rw [asked, List.flatMap_cons, found]
      rfl
    rw [← kept] at found others
    unfold mixins
    dsimp only
    rw [found]
    dsimp only
    rw [ih others, asked_congr kept, asks, lastAsked_append, Option.or_assoc,
      insertMany_eq_foldl, getElem?_foldl_insert]
    rfl

theorem provide_initializer {f : FunctionDecl} (named : f.title = "init") (owner : Token)
    (required : Required) (r : Resolver) : r.provide owner f required = (required, r) := by
  have kind : methodKind f = .initializer := if_pos named
  unfold provide
  rw [kind]

theorem provide_other {f : FunctionDecl} {name : String} (other : f.title ≠ name) (owner : Token)
    (required : Required) (r : Resolver) :
    (r.provide owner f required).1[name]? = required[name]? := by
  unfold provide
  split
  · rw [Std.TreeMap.getElem?_erase, if_neg (by simpa using other)]
  · rfl

/-- A method that is asked for has as many parameters as the requirement says. -/
theorem provide_arity {f : FunctionDecl} {required : Required} {r : Resolver}
    (named : f.title ≠ "init") (asks : required[f.title]? = some k)
    (clean : (r.provide owner f required).2.Clean) : f.arity = k := by
  have kind : methodKind f = .method := if_neg named
  unfold provide at clean
  rw [kind, asks] at clean
  dsimp only at clean
  split at clean
  · rename_i same
    exact same.symm
  · exact (not_clean_error clean).elim

/-- A class that leaves nothing to be provided has a method for every requirement, and the first
one of that name has as many parameters as it says. -/
theorem methods_provide {ms : List MethodDecl} {required : Required} {r : Resolver}
    (clean : (methods owner ms required r).2.Clean)
    (all : (methods owner ms required r).1.isEmpty = true) {name : String}
    (asks : required[name]? = some k) :
    name ≠ "init" ∧ ∃ m, ms.find? (fun m => m.function.title = name) = some m ∧
      m.function.arity = k := by
  induction ms generalizing required r with
  | nil =>
    have absent := Std.TreeMap.getElem?_of_isEmpty (a := name) all
    cases absent.symm.trans asks
  | cons first ms ih =>
    obtain ⟨f, isGetter⟩ := first
    by_cases here : f.title = name
    · subst here
      by_cases initializer : f.title = "init"
      · rw [methods, provide_initializer initializer] at clean all
        exact ((ih clean all asks).1 initializer).elim
      · rw [methods] at clean
        have before := (function_extends _ f _).clean ((methods_extends owner ms _ _).clean clean)
        refine ⟨initializer, ⟨f, isGetter⟩, ?_, provide_arity initializer asks before⟩
        simp
    · rw [methods] at clean all
      obtain ⟨plain, m, found, arity⟩ := ih clean all ((provide_other here ..).trans asks)
      refine ⟨plain, m, ?_, arity⟩
      rw [List.find?_cons_of_neg (by simpa using here), found]

theorem checkProvided_clean {required : Required} {r : Resolver}
    (clean : (r.checkProvided name required).Clean) : required.isEmpty = true ∧ r.Clean := by
  unfold checkProvided at clean
  split at clean
  · rename_i all
    exact ⟨all, clean⟩
  · exact (not_clean_error clean).elim

end Resolver

/-- A class that a pass accepts has a method for every requirement of its traits. The first one of
that name has as many parameters as the last requirement for it says. -/
theorem Known.provides (known : Known past m ⟨.stmt (.classDecl c), context, r⟩) :
    (∀ t ∈ c.traits, r.registry.traits[t.name.lexeme]? ≠ none) ∧
      ∀ name k, Resolver.lastAsked name (r.asked c.traits) = some k →
        ∃ m, c.methods.find? (fun m => m.function.title = name) = some m ∧
          m.function.arity = k := by
  obtain ⟨root, sited, -⟩ := (known.enter .statics).sited
  have clean := Site.extends _ |>.clean sited.accepted.clean
  obtain ⟨all, provided⟩ := Resolver.checkProvided_clean
    ((Resolver.classKind_extends .static _).clean clean)
  have entered : (r.enterClass c.name c.superclass c.traits).2.Clean :=
    (Resolver.methods_extends ..).clean provided
  have mixed := (Resolver.introduce_extends ..).clean
    ((Resolver.openClass_extends ..).clean entered)
  have registered := Resolver.mixins_registered mixed
  have collected := Resolver.mixins_collected registered {}
  have kept : (r.superclass c.name c.superclass).registry.traits = r.registry.traits :=
    Resolver.superclass_registers ..
  rw [kept] at registered
  refine ⟨registered, fun name k asks => ?_⟩
  refine (Resolver.methods_provide provided all ?_).2
  refine (collected name).trans ?_
  rw [Resolver.asked_congr kept, asks]
  rfl

theorem newClass_classes (ran : Eval.newClass c m = .ok value m') :
    m'.store.classes = m.store.classes.push c := by
  cases ran
  rfl

/-- The class that a declaration has made. -/
theorem declareClass_ok {c : ClassDecl} (ran : (engine depth).declareClass c m = .ok () m') :
    ∃ cls scope, m'.store.classAt? ⟨m.store.classes.size⟩ = some cls ∧
      List.Forall₂ (fun t id => Eval.readVariable t m = .ok (.traitRef id) m) c.traits
        cls.traits ∧
      cls.methods =
        .ofList (c.methods.map fun m => Engine.methodEntry scope m.function m.isGetter) := by
  rw [Engine.declareClass_eq] at ran
  obtain ⟨superclass, m₁, inherits, ran₁⟩ := Eval.bind_eq_ok ran
  obtain ⟨rfl, -⟩ := superclassOf_ok inherits
  obtain ⟨traits, m₂, mixes, ran₂⟩ := Eval.bind_eq_ok ran₁
  obtain ⟨rfl, mixed⟩ := traitsOf_ok mixes
  obtain ⟨binding, m₃, declares, ran₃⟩ := Eval.bind_eq_ok ran₂
  obtain ⟨scope, m₄, opens, ran₄⟩ := Eval.bind_eq_ok ran₃
  obtain ⟨value, m₅, makes, rebinds⟩ := Eval.bind_eq_ok ran₄
  have before : m₄.store.classes = m.store.classes :=
    (methodScope_same opens).classes.trans (declare_same declares).classes
  have made := (rebind_same rebinds).classes.trans (newClass_classes makes)
  rw [before] at made
  have there : m'.store.classAt? ⟨m.store.classes.size⟩ = _ :=
    (congrArg (·[m.store.classes.size]?) made).trans Array.getElem?_push_size
  exact ⟨_, scope, there, mixed, rfl⟩

/-- The trait was made when this declaration was executed. -/
def MadeBy (past : History) (id : TraitId) (d : TraitDecl) : Prop :=
  ∃ m, past (.execute (.traitDecl d)) m ∧ m.store.traits.size = id.index

/-- A variable that stands for a trait stands for one that has been declared. -/
theorem Machine.Linked.madeBy {past : History} {m : Machine} {id : TraitId} (linked : m.Linked)
    (declared : m.store.Declared past)
    (read : Eval.readVariable reference m = .ok (.traitRef id) m) :
    ∃ d, MadeBy past id d := by
  have kept : Keeps past (fun _ => Eval.readVariable reference) m Keeps.Present :=
    .readVariable reference
  obtain ⟨_, ends, -⟩ := kept linked fun _ _ seen => (not_stopped _ seen).elim
  change Upkeep.Ends _ _ _ _ (Eval.readVariable reference m) at ends
  rw [read] at ends
  obtain ⟨t, found⟩ := Option.ne_none_iff_exists'.mp ends.2.2
  obtain ⟨d, _, m', made, size⟩ := declared.traits id t found
  exact ⟨d, m', made.happens, size⟩

/-- What the declaration of a class is checked against is what was registered for the names of its
traits. For each requirement the class has a method of that name. It has as many parameters as the
requirement says, unless a later requirement for it says otherwise or the class declares it twice
with different numbers of parameters. -/
def Provided (past : History) (c : ClassDecl) (m m' : Machine) : Prop :=
  ∃ cls context r, m'.store.classAt? ⟨m.store.classes.size⟩ = some cls ∧
    Known past m ⟨.stmt (.classDecl c), context, r⟩ ∧
    List.Forall₂ (fun t id => (∃ d, MadeBy past id d) ∧
      ∃ wishes, r.registry.traits[t.name.lexeme]? = some wishes ∧
        ∀ name k, (name, k) ∈ wishes → ∃ method, cls.methods[name]? = some method ∧
          method.closure.declaration.title = name ∧
          (Resolver.lastAsked name (r.asked c.traits) = some k →
            (∀ f ∈ c.methods, ∀ g ∈ c.methods, f.function.title = name →
              g.function.title = name → f.function.arity = g.function.arity) →
            method.closure.arity = k)) c.traits cls.traits

/-- A method of the class, if there is one of this name, is one that the declaration lists. -/
theorem Methods.ofList_methods {ms : List MethodDecl} {name : String} (scope : Option ScopeId)
    (listed : first ∈ ms) (named : first.function.title = name) : ∃ f ∈ ms, ∃ method,
      f.function.title = name ∧ method.closure.declaration = f.function ∧
      (Methods.ofList (ms.map fun m =>
        Engine.methodEntry scope m.function m.isGetter))[name]? = some method := by
  let entries := ms.map fun m => Engine.methodEntry scope m.function m.isGetter
  have looked : (Methods.ofList entries)[name]? = entries.reverse.lookup name :=
    (getElem?_foldl_insert entries {} name).trans (by simp)
  cases found : entries.reverse.lookup name with
  | none =>
    have absent := List.lookup_eq_none_iff.mp found
    have there : Engine.methodEntry scope first.function first.isGetter ∈ entries.reverse :=
      List.mem_reverse.mpr (List.mem_map_of_mem listed)
    have differs := absent _ there
    simp [Engine.methodEntry, named] at differs
  | some method =>
    obtain ⟨l₁, l₂, split, -⟩ := List.lookup_eq_some_iff.mp found
    have there : (name, method) ∈ entries := by
      rw [← List.mem_reverse, split]
      simp
    obtain ⟨f, member, same⟩ := List.mem_map.mp there
    cases same
    exact ⟨f, member, _, rfl, rfl, looked.trans found⟩

/-- A class that has been declared provides what its traits ask for. -/
theorem declared_class_provides {depth : Nat} {world : World} {steps : List HostStep}
    (happens : Happens depth world steps (.execute (.classDecl c)) m)
    (completes : execute depth' (.classDecl c) m = .ok .normal m') :
    Provided (Happens depth world steps) c m m' := by
  obtain ⟨w, context, r, rfl, known, -⟩ := happens.placed
  obtain ⟨registered, provides⟩ := known.provides
  obtain ⟨linked, log, chronicle⟩ := session_keeps happens
  cases depth' with
  | zero => cases completes
  | succ depth' =>
    obtain ⟨_, m₁, declares, ends⟩ := Eval.bind_eq_ok completes
    cases ends
    obtain ⟨cls, scope, there, mixed, methods⟩ := declareClass_ok declares
    refine ⟨cls, context, r, there, known, ?_⟩
    have both : List.Forall₂ (fun t id => t ∈ c.traits ∧
        Eval.readVariable t w.machine = .ok (.traitRef id) w.machine) c.traits cls.traits :=
      (List.forall₂_and_left ..).mpr ⟨fun _ member => member, mixed⟩
    refine both.imp ?_
    rintro t id ⟨member, read⟩
    obtain ⟨wishes, wished⟩ := Option.ne_none_iff_exists'.mp (registered t member)
    refine ⟨linked.madeBy chronicle.declared read, wishes, wished, fun name k asks => ?_⟩
    obtain ⟨k', last⟩ := Option.ne_none_iff_exists'.mp
      (Resolver.lastAsked_ne_none (Resolver.mem_asked member wished asks))
    obtain ⟨first, found, arity⟩ := provides name k' last
    have listed := List.mem_of_find?_eq_some found
    have named : first.function.title = name := by simpa using List.find?_some found
    obtain ⟨f, member', method, named', same, stored⟩ :=
      Methods.ofList_methods scope listed named
    refine ⟨method, methods ▸ stored, same ▸ named', fun counts alike => ?_⟩
    cases last.symm.trans counts
    rw [← arity, alike first listed f member' named named', Closure.arity, same]

def plainMixin : List HostStep :=
  [.run "trait T \x7b a(); b(x); \x7d
    class A with T \x7b b(x) \x7b x; \x7d a() \x7b\x7d \x7d"]

/-- A class is declared, and its declaration comes to its end. -/
def declaresClass : Event → Machine → Bool
  | .execute (.classDecl c), m =>
    match execute 12 (.classDecl c) m with
    | .ok .normal _ => true
    | _ => false
  | _, _ => false

theorem plainMixin_provides : ∃ c m m',
    Happens 12 {} plainMixin (.execute (.classDecl c)) m ∧
    execute 12 (.classDecl c) m = .ok .normal m' ∧ Provided (Happens 12 {} plainMixin) c m m' := by
  obtain ⟨event, m, passes, happens⟩ := happens_of_detects
    (show detects 12 {} plainMixin declaresClass = true by decide +kernel)
  unfold declaresClass at passes
  split at passes
  · split at passes
    · rename_i completes
      exact ⟨_, m, _, happens, completes, declared_class_provides happens completes⟩
    · cases passes
  · cases passes

/-- In this session a class is declared with a trait whose declaration asks for a method that the
class does not have with as many parameters. -/
def Nonconforming (steps : List HostStep) : Prop :=
  ∃ c m m' cls id d name k, Happens 12 {} steps (.execute (.classDecl c)) m ∧
    execute 12 (.classDecl c) m = .ok .normal m' ∧
    m'.store.classAt? ⟨m.store.classes.size⟩ = some cls ∧ id ∈ cls.traits ∧
    MadeBy (Happens 12 {} steps) id d ∧ (name, k) ∈ d.wishes ∧
    ∀ method, cls.methods[name]? = some method → method.closure.arity ≠ k

/-- The first trait asks for the method. -/
def asksFirst (name : String) (k : Nat) : Event → Machine → Bool
  | .execute (.traitDecl d), m => m.store.traits.size == 0 && d.wishes.contains (name, k)
  | _, _ => false

/-- A class has the first trait, but not the method. -/
def lacks (name : String) (k : Nat) : Event → Machine → Bool
  | .execute (.classDecl c), m =>
    match execute 12 (.classDecl c) m with
    | .ok .normal m' =>
      match m'.store.classAt? ⟨m.store.classes.size⟩ with
      | some cls => cls.traits.contains ⟨0⟩ && cls.methods[name]?.all (·.closure.arity != k)
      | none => false
    | _ => false
  | _, _ => false

theorem nonconforming_of_detects (name : String) (k : Nat)
    (asked : detects 12 {} steps (asksFirst name k) = true)
    (lacking : detects 12 {} steps (lacks name k) = true) : Nonconforming steps := by
  obtain ⟨event, m₀, passes, made⟩ := happens_of_detects asked
  obtain ⟨event', m, passes', happens⟩ := happens_of_detects lacking
  unfold asksFirst at passes
  split at passes
  · rename_i d
    unfold lacks at passes'
    split at passes'
    · split at passes'
      · rename_i completes
        split at passes'
        · rename_i cls there
          simp only [Bool.and_eq_true, beq_iff_eq, List.contains_iff_mem] at passes passes'
          refine ⟨_, m, _, cls, ⟨0⟩, d, name, k, happens, completes, there, passes'.1,
            ⟨m₀, made, passes.1⟩, passes.2, fun method found => ?_⟩
          have differs := passes'.2
          rw [found] at differs
          simpa using differs
        · cases passes'
      · cases passes'
    · cases passes'
  · cases passes

/-- The class declares the method twice. -/
def repeatedMethod : List HostStep :=
  [.run "trait T \x7b a(); \x7d
    class A with T \x7b a() \x7b\x7d a(x) \x7b x; \x7d \x7d"]

/-- The name of the trait has been registered for another one. -/
def reusedName : List HostStep :=
  [.run "trait T \x7b a(); \x7d \x7b trait T \x7b b(); \x7d \x7d
    class A with T \x7b b() \x7b\x7d \x7d"]

/-- A later trait asks for the same method. -/
def replacedWish : List HostStep :=
  [.run "trait T \x7b a(); \x7d trait U \x7b a(x); \x7d
    class A with T, U \x7b a(x) \x7b x; \x7d \x7d"]

theorem classes_escape :
    Nonconforming repeatedMethod ∧ Nonconforming reusedName ∧ Nonconforming replacedWish := by
  refine ⟨?_, ?_, ?_⟩ <;>
    exact nonconforming_of_detects "a" 0 (by decide +kernel) (by decide +kernel)

end Lox
