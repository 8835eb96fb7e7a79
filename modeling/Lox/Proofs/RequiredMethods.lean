import Lox.Proofs.TraitConformance

/-! What a resolution pass has to say about a class that implements all that its traits ask for. It
says nothing, unless an initializer is asked for: an initializer is never counted, so that no class
can provide one. -/

namespace Lox

/-- A class declares one method of that name, with as many parameters as are asked for. -/
def ClassDecl.Implements (c : ClassDecl) (wish : Requirement) : Prop :=
  (c.methods.filter (·.function.title = wish.1)).map (·.function.arity) = [wish.2]

instance (c : ClassDecl) (wish : Requirement) : Decidable (c.Implements wish) :=
  inferInstanceAs (Decidable (_ = _))

namespace Resolver

/-- What is reported between two states of a pass. -/
def added (r r' : Resolver) : List Diagnostic := r'.diagnostics.drop r.diagnostics.length

/-- What is reported about the methods of a class because of what is asked for, in the order of the
pass. What the methods themselves give rise to is left out. -/
def blames (owner : Token) : List MethodDecl → Required → Resolver → List Diagnostic
  | [], required, r => added r (r.checkProvided owner required)
  | ⟨f, _⟩ :: ms, required, r =>
    let provided := r.provide owner f required
    added r provided.2 ++ blames owner ms provided.1 (function (methodKind f) f provided.2)

/-- What is reported about a class because of its traits. -/
def blamesOn (c : ClassDecl) (r : Resolver) : List Diagnostic :=
  let entry := r.enterClass c.name c.superclass c.traits
  blames c.name c.methods entry.1 entry.2

theorem mem_of_added {r r' : Resolver} (member : d ∈ added r r') : d ∈ r'.diagnostics :=
  List.mem_of_mem_drop member

theorem Extends.reported {r r' : Resolver} (later : Extends seen r r')
    (member : d ∈ r.diagnostics) : d ∈ r'.diagnostics := later.diagnostics.subset member

theorem blames_reported {owner : Token} {ms : List MethodDecl} {required : Required}
    {r : Resolver} (member : d ∈ blames owner ms required r) :
    d ∈ ((methods owner ms required r).2.enterStatics owner
      (methods owner ms required r).1).diagnostics := by
  induction ms generalizing required r with
  | nil => exact mem_of_added member
  | cons first ms ih =>
    obtain ⟨f, isGetter⟩ := first
    obtain here | later := List.mem_append.mp member
    · have walked := (function_extends (methodKind f) f _).reported (mem_of_added here)
      exact (enterStatics_extends ..).reported ((methods_extends owner ms _ _).reported walked)
    · exact ih later

theorem blamesOn_reported {c : ClassDecl} {r : Resolver} (member : d ∈ blamesOn c r) :
    d ∈ (stmt (.classDecl c) r).diagnostics := by
  obtain ⟨name, parent, traits, ms, statics⟩ := c
  have inside := (functions_extends .method statics _).reported (blames_reported member)
  exact (closeClass_extends parent _).reported inside

theorem added_self (r : Resolver) : added r r = [] := List.drop_length

theorem added_error (token : Token) (cause : Diagnostic.Cause) (r : Resolver) :
    added r (r.error token cause) = [.error token cause] := by
  simp [added, error]

/-- All that is asked for, initializers apart, is implemented once by these methods. -/
def Meets (ms : List MethodDecl) (required : Required) : Prop :=
  ∀ name k, name ≠ "init" → required[name]? = some k →
    (ms.filter (·.function.title = name)).map (·.function.arity) = [k]

/-- What is said when all methods have been seen. -/
def demand (owner : Token) (required : Required) : List Diagnostic :=
  if required.contains "init" then [.error owner (.missingMethods ["init"])] else []

theorem keys_eq_singleton {required : Required} (asks : required.contains name = true)
    (only : ∀ other ∈ required.keys, other = name) : required.keys = [name] := by
  have there : name ∈ required.keys := Std.TreeMap.mem_keys.mpr asks
  have apart := Std.TreeMap.distinct_keys (t := required)
  cases keys : required.keys with
  | nil =>
    rw [keys] at there
    cases there
  | cons first rest =>
    rw [keys] at only apart
    obtain rfl : first = name := only first List.mem_cons_self
    cases rest with
    | nil => rfl
    | cons second rest =>
      obtain rfl : second = first := only second (by simp)
      simp at apart

theorem checkProvided_meets (meets : Meets [] required) (owner : Token) (r : Resolver) :
    added r (r.checkProvided owner required) = demand owner required := by
  have only : ∀ name ∈ required.keys, name = "init" := by
    intro name member
    obtain ⟨k, asks⟩ := Std.TreeMap.isSome_getElem?_iff_mem.mpr (Std.TreeMap.mem_keys.mp member)
      |> Option.isSome_iff_exists.mp
    by_cases initial : name = "init"
    · exact initial
    · cases meets name k initial asks
  unfold checkProvided demand
  cases asks : required.contains "init" with
  | true =>
    rw [if_neg, if_pos rfl, keys_eq_singleton asks only, added_error]
    intro none
    rw [Std.TreeMap.contains_of_isEmpty none] at asks
    cases asks
  | false =>
    have none : required.isEmpty = true := by
      refine Std.TreeMap.isEmpty_iff_forall_not_mem.mpr fun name member => ?_
      obtain rfl := only name (Std.TreeMap.mem_keys.mpr member)
      rw [Std.TreeMap.mem_iff_contains, asks] at member
      cases member
    rw [if_pos none, if_neg Bool.false_ne_true, added_self]

theorem Meets.cons_other {ms : List MethodDecl} (meets : Meets (m :: ms) required)
    (other : ∀ name k, name ≠ "init" → required[name]? = some k → m.function.title ≠ name) :
    Meets ms required := by
  intro name k plain asks
  have implemented := meets name k plain asks
  rwa [List.filter_cons_of_neg (by simpa using other name k plain asks)] at implemented

/-- A method that is asked for is the only one of its name, and has as many parameters. -/
theorem Meets.cons_asked {ms : List MethodDecl} (meets : Meets (m :: ms) required)
    (plain : m.function.title ≠ "init") (asks : required[m.function.title]? = some k) :
    m.function.arity = k ∧ Meets ms (required.erase m.function.title) := by
  have implemented := meets _ k plain asks
  rw [List.filter_cons_of_pos (by simp), List.map_cons, List.cons.injEq] at implemented
  refine ⟨implemented.1, fun name k' plain' asks' => ?_⟩
  rw [Std.TreeMap.getElem?_erase] at asks'
  split at asks'
  · cases asks'
  · rename_i differs
    have other : m.function.title ≠ name := by simpa using differs
    have later := meets name k' plain' asks'
    rwa [List.filter_cons_of_neg (by simpa using other)] at later

/-- The methods of a class that meets its requirements are walked without a word about them, and
what is left at the end is the initializer. -/
theorem blames_meets {ms : List MethodDecl} (meets : Meets ms required) (owner : Token)
    (r : Resolver) : blames owner ms required r = demand owner required := by
  induction ms generalizing required r with
  | nil => exact checkProvided_meets meets owner r
  | cons m ms ih =>
    obtain ⟨f, isGetter⟩ := m
    unfold blames
    dsimp only
    by_cases initial : f.title = "init"
    · rw [provide_initializer initial, added_self, ih, List.nil_append]
      exact meets.cons_other fun name k plain _ same => plain (same.symm.trans initial)
    · have kind : methodKind f = .method := if_neg initial
      cases asks : required[f.title]? with
      | none =>
        have nothing : r.provide owner f required = (required, r) := by
          rw [provide, kind, asks]
        rw [nothing, added_self, ih, List.nil_append]
        refine meets.cons_other fun name k _ asked same => ?_
        rw [← show f.title = name from same, asks] at asked
        cases asked
      | some k =>
        obtain ⟨arity, rest⟩ := meets.cons_asked initial asks
        have provided : r.provide owner f required = (required.erase f.title, r) := by
          rw [provide, kind, asks]
          dsimp only
          rw [if_pos arity.symm]
        have kept : (required.erase f.title).contains "init" = required.contains "init" := by
          simp [Std.TreeMap.contains_erase, initial]
        rw [provided, added_self, ih rest, List.nil_append, demand, kept, demand]

theorem lastAsked_mem {wishes : List Requirement} (last : lastAsked name wishes = some k) :
    (name, k) ∈ wishes := by
  obtain ⟨before, after, split, -⟩ := List.lookup_eq_some_iff.mp last
  rw [← List.mem_reverse, split]
  simp

/-- The traits of a class are registered, and the class implements all that they ask for. -/
def Conforming (c : ClassDecl) (r : Resolver) : Prop :=
  ∀ t ∈ c.traits, ∃ wishes ∈ r.registry.traits[t.name.lexeme]?,
    ∀ wish ∈ wishes, c.Implements wish

instance (c : ClassDecl) (r : Resolver) : Decidable (Conforming c r) :=
  inferInstanceAs (Decidable (∀ t ∈ c.traits, ∃ wishes ∈ r.registry.traits[t.name.lexeme]?,
    ∀ wish ∈ wishes, c.Implements wish))

namespace Conforming

variable {c : ClassDecl} {r : Resolver}

theorem registered (conforming : Conforming c r) :
    ∀ t ∈ c.traits, r.registry.traits[t.name.lexeme]? ≠ none := by
  intro t member
  obtain ⟨wishes, found, -⟩ := conforming t member
  rw [Option.mem_def.mp found]
  exact Option.some_ne_none wishes

theorem implements (conforming : Conforming c r) : ∀ wish ∈ r.asked c.traits, c.Implements wish := by
  intro wish asks
  obtain ⟨t, member, asks⟩ := List.mem_flatMap.mp asks
  obtain ⟨wishes, found, each⟩ := conforming t member
  rw [Option.mem_def.mp found] at asks
  exact each wish asks

/-- What is asked for is collected before the first method is seen. -/
theorem collected (conforming : Conforming c r) (name : String) :
    (r.enterClass c.name c.superclass c.traits).1[name]? = lastAsked name (r.asked c.traits) := by
  have kept : (r.superclass c.name c.superclass).registry.traits = r.registry.traits :=
    superclass_registers ..
  have registered := kept ▸ conforming.registered
  refine (mixins_collected registered {} name).trans ?_
  rw [asked_congr kept, Std.TreeMap.getElem?_emptyc, Option.or_none]

theorem meets (conforming : Conforming c r) :
    Meets c.methods (r.enterClass c.name c.superclass c.traits).1 := by
  intro name k _ asks
  have last := (conforming.collected name).symm.trans asks
  exact conforming.implements (name, k) (lastAsked_mem last)

theorem demands_iff (conforming : Conforming c r) :
    (r.enterClass c.name c.superclass c.traits).1.contains "init" = true ↔
      ∃ wish ∈ r.asked c.traits, wish.1 = "init" := by
  rw [Std.TreeMap.contains_eq_isSome_getElem?, conforming.collected]
  constructor
  · intro some
    obtain ⟨k, last⟩ := Option.isSome_iff_exists.mp some
    exact ⟨("init", k), lastAsked_mem last, rfl⟩
  · rintro ⟨⟨name, k⟩, asks, rfl⟩
    exact Option.isSome_iff_ne_none.mpr (lastAsked_ne_none asks)

end Conforming

end Resolver

/-- About a class that implements all that its traits ask for, nothing is reported because of them if
and only if none of them asks for an initializer. If one does, the initializer is reported as missing,
although the class has it. -/
theorem conforming_class_is_blameless_iff {c : ClassDecl} {r : Resolver}
    (conforming : Resolver.Conforming c r) :
    (r.blamesOn c = [] ↔ ∀ wish ∈ r.asked c.traits, wish.1 ≠ "init") ∧
    ∀ wish ∈ r.asked c.traits, wish.1 = "init" →
      r.blamesOn c = [.error c.name (.missingMethods ["init"])] ∧
      .error c.name (.missingMethods ["init"]) ∈
        (Resolver.stmt (.classDecl c) r).diagnostics := by
  have blamed : r.blamesOn c = Resolver.demand c.name _ :=
    Resolver.blames_meets conforming.meets c.name (r.enterClass c.name c.superclass c.traits).2
  have missing (asks : ∃ wish ∈ r.asked c.traits, wish.1 = "init") :
      r.blamesOn c = [.error c.name (.missingMethods ["init"])] := by
    rw [blamed, Resolver.demand, if_pos (conforming.demands_iff.mpr asks)]
  refine ⟨⟨?_, fun free => ?_⟩, fun wish asks initial => ?_⟩
  · intro none wish asks initial
    rw [missing ⟨wish, asks, initial⟩] at none
    cases none
  · rw [blamed, Resolver.demand, if_neg]
    intro demanded
    obtain ⟨wish, asks, initial⟩ := conforming.demands_iff.mp demanded
    exact free wish asks initial
  · have told := missing ⟨wish, asks, initial⟩
    refine ⟨told, Resolver.blamesOn_reported ?_⟩
    rw [told]
    exact List.mem_singleton_self _

/-- A class that has the initializer that its trait asks for. -/
def askedInitializer : String :=
  "trait T \x7b init(); \x7d class A with T \x7b init() \x7b\x7d \x7d"

/-- The class at the end of a program, and the state in which a pass comes to it. -/
def lastClass (source : String) : Option (ClassDecl × Resolver) :=
  match (programOf source).getLast? with
  | some (.classDecl c) => some (c, Resolver.stmts (programOf source).dropLast { registry := {} })
  | _ => none

theorem askedInitializer_is_blamed : ∃ c r, lastClass askedInitializer = some (c, r) ∧
    r.Conforming c ∧ r.blamesOn c = [.error c.name (.missingMethods ["init"])] := by
  have asked : (lastClass askedInitializer).any (fun place => decide (place.2.Conforming place.1) &&
      (place.2.asked place.1.traits).any (·.1 = "init")) = true := by decide +kernel
  cases found : lastClass askedInitializer with
  | none =>
    rw [found] at asked
    cases asked
  | some place =>
    obtain ⟨c, r⟩ := place
    simp only [found, Option.any_some, Bool.and_eq_true, decide_eq_true_eq, List.any_eq_true]
      at asked
    obtain ⟨conforming, wish, asks, initial⟩ := asked
    exact ⟨c, r, rfl, conforming,
      ((conforming_class_is_blameless_iff conforming).2 wish asks initial).1⟩

end Lox
