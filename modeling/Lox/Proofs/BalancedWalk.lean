import Lox.Proofs.ResolverWalk

/-! A resolution pass comes back to the scopes it started from. Whether it finds errors or not, it
leaves as many scopes as there were, in the same kind of function and in the same kind of class.
Variables that were there keep their slots, and only statements add variables, all of them to the
innermost scope. -/

namespace Lox

/-- The same variable later in a pass. It may have been defined and used in between. -/
structure Local.Remains (v v' : Local) : Prop where
  name : v'.name = v.name
  line : v'.line = v.line
  defined : v.defined = true → v'.defined = true
  used : v.used = true → v'.used = true

namespace Frame

/-- The names of a scope have the slots from 0 on, in the order of their declaration. -/
def Numbered (frame : Frame) : Prop :=
  frame.map (fun v => frame.slot? v.name) = (List.range frame.length).map some

instance (frame : Frame) : Decidable frame.Numbered := inferInstanceAs (Decidable (_ = _))

/-- The same scope later in a pass. -/
structure Grows (more : Prop) (frame frame' : Frame) : Prop where
  kept : ∀ (slot : Nat) (v : Local), frame[slot]? = some v →
    ∃ v', frame'[slot]? = some v' ∧ v.Remains v'
  slots : ∀ name slot, frame.slot? name = some slot → frame'.slot? name = some slot
  size : ¬ more → frame'.length = frame.length
  numbered : frame.Numbered → frame'.Numbered

theorem slot?_eq_findIdx? (frame : Frame) (name : String) :
    frame.slot? name = (frame.map Local.name).findIdx? (· == name) := by
  rw [List.findIdx?_map]
  rfl

/-- Each name has a slot of its own if no name stands there twice. -/
theorem numbered_iff {frame : Frame} : frame.Numbered ↔ (frame.map Local.name).Nodup := by
  have first (slot : Nat) (bound : slot < frame.length) :
      frame.slot? (frame[slot]).name = some slot ↔
        ∀ (i : Nat) (before : i < slot), (frame[i]).name ≠ (frame[slot]).name := by
    simp [slot?, List.findIdx?_eq_some_iff_getElem, bound]
  constructor
  · intro numbered
    rw [List.Nodup, List.pairwise_map, List.pairwise_iff_getElem]
    intro i j _ bound before
    have same := congrArg (fun slots => slots[j]?) numbered
    simp only [List.getElem?_map, List.getElem?_eq_getElem bound, Option.map_some,
      List.getElem?_range bound, Option.some.injEq] at same
    exact (first j bound).mp same i before
  · intro distinct
    rw [List.Nodup, List.pairwise_map, List.pairwise_iff_getElem] at distinct
    apply List.ext_getElem
    · simp
    · intro slot bound _
      rw [List.length_map] at bound
      simp only [List.getElem_map, List.getElem_range]
      exact (first slot bound).mpr fun i before => distinct i slot _ bound before

variable {frame frame' frame'' : Frame} {more more' : Prop}

namespace Grows

theorem refl (frame : Frame) : frame.Grows more frame where
  kept _ v found := ⟨v, found, rfl, rfl, id, id⟩
  slots _ _ found := found
  size _ := rfl
  numbered numbered := numbered

theorem trans (first : frame.Grows more frame') (second : frame'.Grows more frame'') :
    frame.Grows more frame'' where
  kept slot v found := by
    obtain ⟨v', found', remains⟩ := first.kept slot v found
    obtain ⟨v'', found'', remains'⟩ := second.kept slot v' found'
    exact ⟨v'', found'', remains'.name.trans remains.name, remains'.line.trans remains.line,
      remains'.defined ∘ remains.defined, remains'.used ∘ remains.used⟩
  slots name slot found := second.slots name slot (first.slots name slot found)
  size no := (second.size no).trans (first.size no)
  numbered numbered := second.numbered (first.numbered numbered)

theorem mono (grows : frame.Grows more frame') (weaker : more → more') :
    frame.Grows more' frame' :=
  { grows with size := fun no => grows.size (no ∘ weaker) }

end Grows

/-- Variables are changed in place. -/
theorem update_grows (frame : Frame) (name : String) {f : Local → Local}
    (remains : ∀ v, Local.Remains v (f v)) : frame.Grows more (frame.update name f) := by
  have names : (frame.update name f).map Local.name = frame.map Local.name :=
    Resolver.names_update frame name fun v => (remains v).name
  constructor
  · intro slot v found
    refine ⟨if v.name = name then f v else v, ?_, ?_⟩
    · rw [update, List.getElem?_map, found]
      rfl
    · split
      · exact remains v
      · exact ⟨rfl, rfl, id, id⟩
  · intro other slot found
    rw [slot?_eq_findIdx?, names, ← slot?_eq_findIdx?]
    exact found
  · intro _
    simp [update]
  · intro numbered
    rw [numbered_iff, names]
    exact numbered_iff.mp numbered

theorem defined_remains (v : Local) : v.Remains { v with defined := true } :=
  ⟨rfl, rfl, fun _ => rfl, id⟩

theorem used_remains (v : Local) : v.Remains { v with used := true } :=
  ⟨rfl, rfl, id, fun _ => rfl⟩

/-- A new name takes the next slot. -/
theorem append_grows {v : Local} (new : frame.declares v.name = false) :
    frame.Grows True (frame ++ [v]) := by
  constructor
  · intro slot w found
    have bound := (List.getElem?_eq_some_iff.mp found).1
    refine ⟨w, ?_, rfl, rfl, id, id⟩
    rw [List.getElem?_append_left bound]
    exact found
  · intro name slot found
    unfold slot? at found ⊢
    rw [List.findIdx?_append, found]
    rfl
  · intro no
    exact absurd trivial no
  · intro numbered
    have absent : v.name ∉ frame.map Local.name := by
      intro member
      obtain ⟨w, there, same⟩ := List.mem_map.mp member
      have known : frame.declares v.name = true :=
        List.any_eq_true.mpr ⟨w, there, beq_iff_eq.mpr same⟩
      rw [new] at known
      cases known
    rw [numbered_iff, List.map_append, List.nodup_append]
    refine ⟨numbered_iff.mp numbered, by simp, ?_⟩
    rintro name old _ member rfl
    simp only [List.map_cons, List.map_nil, List.mem_singleton] at member
    exact absent (member ▸ old)

end Frame

namespace Resolver

/-- A later state of a pass, with the same scopes around it. Only the innermost of them has room for
new variables, if any has. -/
structure Balanced (room : Prop) (r r' : Resolver) : Prop where
  depth : r'.frames.length = r.frames.length
  scopes : ∀ (level : Nat) (frame : Frame), r.frames[level]? = some frame →
    ∃ frame', r'.frames[level]? = some frame' ∧ frame.Grows (room ∧ level = 0) frame'
  functionKind : r'.functionKind = r.functionKind
  classKind : r'.classKind = r.classKind

section

variable {r r' r'' : Resolver} {room : Prop}

namespace Balanced

/-- A step that changes no scope. -/
theorem still (frames : r'.frames = r.frames) (functionKind : r'.functionKind = r.functionKind)
    (classKind : r'.classKind = r.classKind) : Balanced room r r' where
  depth := by rw [frames]
  scopes level frame found := ⟨frame, by rw [frames, found], .refl frame⟩
  functionKind := functionKind
  classKind := classKind

theorem refl (r : Resolver) : Balanced room r r := still rfl rfl rfl

theorem trans (first : Balanced room r r') (second : Balanced room r' r'') :
    Balanced room r r'' where
  depth := second.depth.trans first.depth
  scopes level frame found := by
    obtain ⟨frame', found', grows⟩ := first.scopes level frame found
    obtain ⟨frame'', found'', grows'⟩ := second.scopes level frame' found'
    exact ⟨frame'', found'', grows.trans grows'⟩
  functionKind := second.functionKind.trans first.functionKind
  classKind := second.classKind.trans first.classKind

theorem weaken (balanced : Balanced False r r') : Balanced room r r' where
  depth := balanced.depth
  scopes level frame found := by
    obtain ⟨frame', found', grows⟩ := balanced.scopes level frame found
    exact ⟨frame', found', grows.mono fun no => no.1.elim⟩
  functionKind := balanced.functionKind
  classKind := balanced.classKind

/-- A step in the innermost scope. -/
theorem here (frames : r.frames = frame :: outer) (frames' : r'.frames = frame' :: outer)
    (grows : frame.Grows room frame') (functionKind : r'.functionKind = r.functionKind)
    (classKind : r'.classKind = r.classKind) : Balanced room r r' where
  depth := by simp [frames, frames']
  scopes level other found := by
    rw [frames] at found
    rw [frames']
    cases level with
    | zero =>
      cases found
      exact ⟨frame', rfl, grows.mono fun yes => ⟨yes, rfl⟩⟩
    | succ level => exact ⟨other, found, .refl other⟩
  functionKind := functionKind
  classKind := classKind

/-- A scope is left that was opened before. Nothing is left of what it got. -/
theorem close (inside : Balanced room r' r'') (opened : r'.frames = frame :: r.frames)
    (functionKind : r'.functionKind = r.functionKind) (classKind : r'.classKind = r.classKind) :
    Balanced False r r''.closeScope := by
  have depth := inside.depth
  unfold closeScope
  cases frames : r''.frames with
  | nil => simp [frames, opened] at depth
  | cons last outer =>
    constructor
    · simpa [frames, opened] using depth
    · intro level other found
      obtain ⟨other', found', grows⟩ := inside.scopes (level + 1) other
        (by rw [opened]; exact found)
      rw [frames] at found'
      refine ⟨other', found', grows.mono ?_⟩
      rintro ⟨_, inner⟩
      cases inner
    · exact inside.functionKind.trans functionKind
    · exact inside.classKind.trans classKind

/-- The kind of the class around does not matter to what happens to the scopes. -/
theorem inClass (balanced : Balanced room r r') (kind : ClassKind) :
    Balanced room { r with classKind := kind } { r' with classKind := kind } :=
  { balanced with classKind := rfl }

theorem inFunction (balanced : Balanced room r r') (kind : FunctionKind) :
    Balanced room { r with functionKind := kind } { r' with functionKind := kind } :=
  { balanced with functionKind := rfl }

end Balanced

end

theorem error_balanced (token : Token) (cause : Diagnostic.Cause) (r : Resolver) :
    Balanced room r (r.error token cause) := .still rfl rfl rfl

theorem declare_balanced (name : Token) (r : Resolver) : Balanced True r (r.declare name) := by
  unfold declare extend
  cases frames : r.frames with
  | nil => exact .refl r
  | cons frame outer =>
    dsimp only
    split
    · exact error_balanced name .redeclared r
    · rename_i unknown
      have grows : frame.Grows True (frame ++ [⟨name.lexeme, name.line, false, false⟩]) :=
        Frame.append_grows (Bool.eq_false_iff.mpr unknown)
      exact .here frames rfl grows rfl rfl

theorem define_balanced (name : Token) (r : Resolver) : Balanced room r (r.define name) := by
  unfold define
  cases frames : r.frames with
  | nil => exact .refl r
  | cons frame outer =>
    exact .here frames rfl (frame.update_grows name.lexeme Frame.defined_remains) rfl rfl

theorem introduce_balanced (name : Token) (r : Resolver) : Balanced True r (r.introduce name) :=
  (declare_balanced name r).trans (define_balanced name _)

theorem introduceAll_balanced (params : List Token) (r : Resolver) :
    Balanced True r (params.foldl (fun r p => r.introduce p) r) := by
  induction params generalizing r with
  | nil => exact .refl r
  | cons p ps ih => exact (introduce_balanced p r).trans (ih _)

theorem markUsed_grows (name : String) (frames : List Frame) :
    (markUsed name frames).length = frames.length ∧ ∀ (level : Nat) (frame : Frame),
      frames[level]? = some frame → ∃ frame', (markUsed name frames)[level]? = some frame' ∧
        frame.Grows False frame' := by
  induction frames with
  | nil => exact ⟨rfl, fun _ frame found => ⟨frame, found, .refl frame⟩⟩
  | cons inner outer ih =>
    obtain ⟨length, around⟩ := ih
    unfold markUsed
    split
    · refine ⟨rfl, fun level frame found => ?_⟩
      cases level with
      | zero =>
        cases found
        exact ⟨_, rfl, inner.update_grows name Frame.used_remains⟩
      | succ level => exact ⟨frame, found, .refl frame⟩
    · refine ⟨congrArg (· + 1) length, fun level frame found => ?_⟩
      cases level with
      | zero =>
        cases found
        exact ⟨inner, rfl, .refl inner⟩
      | succ level => exact around level frame found

theorem bind_balanced (reference : Reference) (r : Resolver) :
    Balanced room r (r.bind reference) := by
  unfold bind
  split
  · exact .refl r
  · obtain ⟨length, grows⟩ := markUsed_grows reference.name.lexeme r.frames
    apply Balanced.weaken
    refine ⟨length, fun level frame found => ?_, rfl, rfl⟩
    obtain ⟨frame', found', grows⟩ := grows level frame found
    exact ⟨frame', found', grows.mono False.elim⟩

theorem read_balanced (reference : Reference) (r : Resolver) :
    Balanced room r (r.read reference) := by
  unfold read
  extract_lets awaited
  cases awaited with
  | true => exact (error_balanced ..).trans (bind_balanced ..)
  | false => exact bind_balanced ..

theorem readThis_balanced (keyword : Reference) (r : Resolver) :
    Balanced room r (r.readThis keyword) := by
  unfold readThis
  cases r.classKind with
  | none | static => exact error_balanced ..
  | plain | subclass | trait => exact bind_balanced ..

theorem readSuper_balanced (keyword : Reference) (r : Resolver) :
    Balanced room r (r.readSuper keyword) := by
  unfold readSuper
  cases r.classKind with
  | none | static | plain | trait => exact error_balanced ..
  | subclass => exact bind_balanced ..

theorem mixins_balanced (traits : List Reference) (required : Required) (r : Resolver) :
    Balanced room r (r.mixins traits required).2 := by
  induction traits generalizing required r with
  | nil => exact .refl r
  | cons t ts ih =>
    apply (read_balanced t r).trans
    unfold mixins
    dsimp only
    split
    · exact ih ..
    · exact (error_balanced ..).trans (ih ..)

theorem provide_balanced (owner : Token) (f : FunctionDecl) (required : Required) (r : Resolver) :
    Balanced room r (r.provide owner f required).2 := by
  unfold provide
  split
  · dsimp only
    split
    · exact .refl r
    · exact error_balanced ..
  · exact .refl r

theorem checkReturn_balanced (keyword : Token) (r : Resolver) :
    Balanced room r (r.checkReturn keyword) := by
  unfold checkReturn
  cases r.functionKind with
  | none | initializer => exact error_balanced ..
  | function | method => exact .refl r

/-- A superclass is read when the class around is already that of the declaration. -/
theorem superclass_balanced (owner : Token) (parent : Option Reference) (r : Resolver) :
    ∃ kind, Balanced room { r with classKind := kind } (r.superclass owner parent) := by
  unfold superclass
  cases parent with
  | none => exact ⟨.plain, .refl _⟩
  | some parent =>
    refine ⟨.subclass, ?_⟩
    dsimp only
    split
    · have complains : Balanced room r (r.error parent.name .selfInheritance) :=
        error_balanced ..
      exact (complains.inClass .subclass).trans (read_balanced ..)
    · exact read_balanced ..

/-- What happens between the opening and the closing of a class leaves its scopes alone. -/
theorem Balanced.closeClass {r r' : Resolver} (parent : Option Reference)
    (inside : Balanced False (r.openClass parent) r') :
    Balanced False r (r'.closeClass parent) := by
  cases parent with
  | none => exact inside.close rfl rfl rfl
  | some parent =>
    have left : Balanced False (r.openBound "super") r'.closeScope := inside.close rfl rfl rfl
    exact left.close rfl rfl rfl

theorem enterStatics_balanced (name : Token) (required : Required) {r r' : Resolver}
    (before : Balanced room r r') :
    Balanced room { r with classKind := .static } (r'.enterStatics name required) := by
  have checked : Balanced room r' (r'.checkProvided name required) := by
    unfold checkProvided
    split
    · exact .refl r'
    · exact error_balanced ..
  exact (before.trans checked).inClass .static

mutual

theorem expr_balanced : (e : Expr) → (r : Resolver) → Balanced False r (expr e r)
  | .assign target value, r => (expr_balanced value r).trans (bind_balanced target _)
  | .binary left _ right, r | .logical left _ right, r =>
    (expr_balanced left r).trans (expr_balanced right _)
  | .call callee _ arguments, r => (expr_balanced callee r).trans (exprs_balanced arguments _)
  | .property object _, r => expr_balanced object r
  | .group inner, r => expr_balanced inner r
  | .lambda f, r => function_balanced .function f r
  | .literal _, r => .refl r
  | .setProperty object _ value, r => (expr_balanced value r).trans (expr_balanced object _)
  | .superRef keyword _, r => readSuper_balanced keyword r
  | .ternary condition thenValue elseValue, r =>
    (expr_balanced condition r).trans <|
      (expr_balanced thenValue _).trans (expr_balanced elseValue _)
  | .thisRef keyword, r => readThis_balanced keyword r
  | .unary _ right, r => expr_balanced right r
  | .varRef reference, r => read_balanced reference r

theorem exprs_balanced : (es : List Expr) → (r : Resolver) → Balanced False r (exprs es r)
  | [], r => .refl r
  | e :: es, r => (expr_balanced e r).trans (exprs_balanced es _)

theorem function_balanced (kind : FunctionKind) : (f : FunctionDecl) → (r : Resolver) →
    Balanced False r (function kind f r)
  | ⟨_, params, body, _⟩, r => by
    have entered : Balanced True { r with functionKind := kind }.openScope
        (r.enterFunction kind params) := introduceAll_balanced params _
    have inside := entered.trans (stmts_balanced body _)
    have left : Balanced False { r with functionKind := kind }
        (stmts body (r.enterFunction kind params)).closeScope := inside.close rfl rfl rfl
    exact left.inFunction r.functionKind

theorem functions_balanced (kind : FunctionKind) : (fs : List FunctionDecl) → (r : Resolver) →
    Balanced False r (functions kind fs r)
  | [], r => .refl r
  | f :: fs, r => (function_balanced kind f r).trans (functions_balanced kind fs _)

theorem methods_balanced (owner : Token) : (ms : List MethodDecl) → (required : Required) →
    (r : Resolver) → Balanced False r (methods owner ms required r).2
  | [], _, r => .refl r
  | ⟨f, _⟩ :: ms, required, r =>
    (provide_balanced owner f required r).trans <|
      (function_balanced (methodKind f) f _).trans (methods_balanced owner ms _ _)

theorem classDecl_balanced : (c : ClassDecl) → (r : Resolver) → Balanced True r (classDecl c r)
  | ⟨name, parent, traits, ms, statics⟩, r => by
    obtain ⟨kind, reads⟩ : ∃ kind,
        Balanced True { r with classKind := kind } (r.superclass name parent) :=
      superclass_balanced name parent r
    let declared := ((r.superclass name parent).mixins traits {}).2.introduce name
    have declares : Balanced True { r with classKind := kind } declared :=
      reads.trans <| (mixins_balanced traits {} _).trans (introduce_balanced name _)
    let entry := r.enterClass name parent traits
    let body := methods name ms entry.1 entry.2
    have walked : Balanced False (declared.openClass parent) body.2 :=
      methods_balanced name ms entry.1 entry.2
    have statics : Balanced False { declared.openClass parent with classKind := .static }
        (functions .method statics (body.2.enterStatics name body.1)) :=
      (enterStatics_balanced name body.1 walked).trans (functions_balanced .method statics _)
    have same : { declared.openClass parent with classKind := .static } =
        ({ declared with classKind := .static } : Resolver).openClass parent := by
      cases parent <;> rfl
    rw [same] at statics
    have left := (declares.inClass .static).trans (statics.closeClass parent).weaken
    exact left.inClass r.classKind

theorem traitDecl_balanced : (t : TraitDecl) → (r : Resolver) → Balanced True r (traitDecl t r)
  | ⟨name, signatures, defaults⟩, r => by
    let declared := ({ r with classKind := .trait } : Resolver).introduce name
    have declares : Balanced True { r with classKind := .trait } declared :=
      introduce_balanced name _
    have inside : Balanced False (declared.openBound "this")
        (functions .method defaults (r.enterTrait name)) :=
      functions_balanced .method defaults _
    have left : Balanced False declared
        (functions .method defaults (r.enterTrait name)).closeScope := inside.close rfl rfl rfl
    have registered : Balanced True
        (functions .method defaults (r.enterTrait name)).closeScope
        ((functions .method defaults (r.enterTrait name)).closeScope.registerTrait name
          signatures) := .still rfl rfl rfl
    exact ((declares.trans left.weaken).trans registered).inClass r.classKind

theorem stmt_balanced : (s : Stmt) → (r : Resolver) → Balanced True r (stmt s r)
  | .block body, r => by
    have left : Balanced False r (stmts body r.openScope).closeScope :=
      (stmts_balanced body r.openScope).close rfl rfl rfl
    exact left.weaken
  | .classDecl declaration, r => classDecl_balanced declaration r
  | .expression value, r | .print value, r => (expr_balanced value r).weaken
  | .flow _ _, r => .refl r
  | .functionDecl ⟨some name, params, body, line⟩, r =>
    (introduce_balanced name r).trans (function_balanced .function _ _).weaken
  | .functionDecl ⟨none, params, body, line⟩, r => (function_balanced .function _ r).weaken
  | .ifElse condition thenBranch none, r =>
    (expr_balanced condition r).weaken.trans (stmt_balanced thenBranch _)
  | .ifElse condition thenBranch (some elseBranch), r =>
    (expr_balanced condition r).weaken.trans <|
      (stmt_balanced thenBranch _).trans (stmt_balanced elseBranch _)
  | .returns keyword none, r => by
    unfold stmt
    split
    · exact error_balanced ..
    · exact .refl r
  | .returns keyword (some value), r =>
    (checkReturn_balanced keyword r).trans (expr_balanced value _).weaken
  | .traitDecl declaration, r => traitDecl_balanced declaration r
  | .varDecl name none, r => introduce_balanced name r
  | .varDecl name (some value), r =>
    (declare_balanced name r).trans <|
      (expr_balanced value _).weaken.trans (define_balanced name _)
  | .loop condition body none, r =>
    (expr_balanced condition r).weaken.trans (stmt_balanced body _)
  | .loop condition body (some increment), r =>
    (expr_balanced condition r).weaken.trans <|
      (stmt_balanced body _).trans (expr_balanced increment _).weaken

theorem stmts_balanced : (ss : List Stmt) → (r : Resolver) → Balanced True r (stmts ss r)
  | [], r => .refl r
  | s :: ss, r => (stmt_balanced s r).trans (stmts_balanced ss _)

end

/-- Every scope that is left over was there before. -/
theorem Balanced.numbered {r r' : Resolver} (balanced : Balanced room r r')
    (numbered : ∀ frame ∈ r.frames, frame.Numbered) : ∀ frame ∈ r'.frames, frame.Numbered := by
  intro frame' member
  obtain ⟨level, bound, there⟩ := List.mem_iff_getElem.mp member
  rw [balanced.depth] at bound
  have before := List.getElem?_eq_getElem bound
  obtain ⟨frame'', after, grows⟩ := balanced.scopes level _ before
  have same : frame'' = frame' := by
    rw [List.getElem?_eq_getElem (balanced.depth ▸ bound), there] at after
    exact (Option.some.inj after).symm
  rw [← same]
  exact grows.numbered (numbered _ (List.getElem_mem bound))

/-- What a pass over a part leaves behind, whether the part is valid or not: the scopes that were
there, in the same function and class, with more to say and, if there is room, more variables. -/
structure ComesBack (room : Prop) (r r' : Resolver) : Prop extends Balanced room r r' where
  diagnostics : r.diagnostics <+: r'.diagnostics
  numbered : ∀ frame ∈ r'.frames, frame.Numbered

/-- A pass comes back from every expression and from every statement. Only a statement has room for
new variables. -/
theorem walk_comes_back {r : Resolver} (numbered : ∀ frame ∈ r.frames, frame.Numbered) :
    (∀ e, ComesBack False r (expr e r)) ∧ ∀ s, ComesBack True r (stmt s r) := by
  constructor
  · intro e
    have balanced := expr_balanced e r
    exact ⟨balanced, (expr_extends e r).diagnostics, balanced.numbered numbered⟩
  · intro s
    have balanced := stmt_balanced s r
    exact ⟨balanced, (stmt_extends s r).diagnostics, balanced.numbered numbered⟩

/-- The state of a pass in a static method, where the initializer of `a` is not over. -/
def inInitializer : Resolver where
  frames := [[⟨"b", 1, true, false⟩, ⟨"a", 1, false, false⟩], [⟨"this", 0, true, true⟩]]
  functionKind := .method
  classKind := .static
  registry := {}

/-- A subclass of `b` that is named `a` again. -/
def secondClass : Stmt :=
  .classDecl ⟨⟨.identifier, "a", 2⟩, some ⟨0, ⟨.identifier, "b", 2⟩⟩, [], [], []⟩

theorem secondClass_comes_back : (∀ frame ∈ inInitializer.frames, frame.Numbered) ∧
    ComesBack True inInitializer (stmt secondClass inInitializer) ∧
    (stmt secondClass inInitializer).frames =
      [[⟨"b", 1, true, true⟩, ⟨"a", 1, true, false⟩], [⟨"this", 0, true, true⟩]] ∧
    (stmt secondClass inInitializer).diagnostics =
      [.error ⟨.identifier, "a", 2⟩ .redeclared] := by
  have numbered : ∀ frame ∈ inInitializer.frames, frame.Numbered := by decide
  exact ⟨numbered, (walk_comes_back numbered).2 secondClass, by decide, by decide⟩

end Resolver

end Lox
