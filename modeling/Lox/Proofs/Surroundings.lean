import Lox.Proofs.Addresses

/-! The scopes around a place in an accepted program are those that the pass sees when it comes
there, and they tell which method and which class the place lies in. -/

namespace Lox

def ClassDecl.members (c : ClassDecl) : List FunctionDecl :=
  c.methods.map MethodDecl.function ++ c.statics

namespace Layer

/-- The variable whose initializer the part lies in. -/
def pending : Layer → Option (Token × Expr)
  | scope _ _ pending => pending
  | receiver _ | superclass _ => none

end Layer

namespace Context

def visible (context : Context) : List (List String) := context.map Layer.visible

/-- The innermost method around a part, with its class if that has a superclass. -/
def home : Context → Option (FunctionDecl × Option ClassDecl)
  | .receiver f :: .superclass c :: _ => some (f, some c)
  | .receiver f :: _ => some (f, none)
  | .scope _ _ _ :: outer => home outer
  | .superclass _ :: _ | [] => none

/-- Names are plain, as many are declared as there are, the variable whose initializer is pending
is the last one, and methods belong to their class. -/
def WellFormed : Context → Prop
  | [] => True
  | .scope names count pending :: outer =>
    ((∀ name ∈ names, Plain name) ∧ count ≤ names.length ∧
      ∀ name value, pending = some (name, value) →
        ∃ index, count = index + 1 ∧ names[index]? = some name.lexeme) ∧ WellFormed outer
  | .receiver f :: outer =>
    (∀ c rest, outer = .superclass c :: rest → f ∈ c.members) ∧ WellFormed outer
  | .superclass _ :: outer => WellFormed outer

/-- What the names are that the innermost scope still misses. There are none at top level. -/
def Next (holds : List String → Prop) : Context → Prop
  | [] => True
  | .scope names count none :: _ => holds (names.drop count)
  | _ => False

/-- The references belong to every initializer that is pending. -/
def Covers (context : Context) (references : List Reference) : Prop :=
  ∀ layer ∈ context, ∀ name value, layer.pending = some (name, value) →
    references ⊆ Reference.inExpr true value

theorem Next.mono {holds holds' : List String → Prop} {context : Context}
    (next : context.Next holds) (weaker : ∀ names, holds names → holds' names) :
    context.Next holds' := by
  unfold Next at next ⊢
  split at next
  · trivial
  · exact weaker _ next
  · exact next.elim

theorem home_advance (count : Nat) (context : Context) :
    (context.advance count).home = context.home := by
  unfold advance
  split <;> rfl

theorem home_await (name : Token) (value : Expr) (context : Context) :
    (context.await name value).home = context.home := by
  unfold await
  split <;> rfl

theorem Next.advance_ne {context : Context} (next : context.Next holds) :
    context.advance count ≠ .superclass c :: rest := by
  unfold Next at next
  split at next
  · exact nofun
  · exact nofun
  · exact next.elim

/-- A scope whose next names have been declared. -/
theorem visible_advance {context : Context} (next : context.Next (new <+: ·)) :
    (context.advance new.length).visible = Resolver.addNames new context.visible := by
  unfold Next at next
  split at next
  · rfl
  · rename_i names count outer
    obtain ⟨rest, same⟩ := next
    simp only [advance, visible, List.map_cons, Layer.visible, Resolver.addNames]
    rw [List.take_add, ← same, List.take_left]
  · exact next.elim

theorem visible_await {context : Context} (next : context.Next ([name.lexeme] <+: ·)) :
    (context.await name value).visible = Resolver.addNames [name.lexeme] context.visible := by
  rw [← visible_advance next]
  unfold Next at next
  split at next
  · rfl
  · rfl
  · exact next.elim

theorem WellFormed.advance {context : Context} (wellFormed : context.WellFormed)
    (next : context.Next (new <+: ·)) : (context.advance new.length).WellFormed := by
  unfold Next at next
  split at next
  · trivial
  · rename_i names count outer
    obtain ⟨⟨plain, bound, _⟩, outer⟩ := wellFormed
    have fits := next.length_le
    rw [List.length_drop] at fits
    exact ⟨⟨plain, by omega, nofun⟩, outer⟩
  · exact next.elim

theorem WellFormed.await {context : Context} (wellFormed : context.WellFormed)
    (next : context.Next ([name.lexeme] <+: ·)) : (context.await name value).WellFormed := by
  unfold Next at next
  split at next
  · trivial
  · rename_i names count outer
    obtain ⟨⟨plain, bound, _⟩, outer⟩ := wellFormed
    obtain ⟨rest, same⟩ := next
    have here : names[count]? = some name.lexeme := by
      have first := congrArg (·[0]?) same
      simpa using first.symm
    have fits := (List.getElem?_eq_some_iff.mp here).1
    refine ⟨⟨plain, fits, ?_⟩, outer⟩
    intro _ _ same
    cases same
    exact ⟨count, rfl, here⟩
  · exact next.elim

end Context

theorem Context.Next.first {context : Context} (next : context.Next (· = declared (s :: ss))) :
    context.Next (s.declared <+: ·) :=
  next.mono fun _ same => ⟨declared ss, same ▸ List.flatMap_cons.symm⟩

theorem Context.Next.others {context : Context} (next : context.Next (· = declared (s :: ss))) :
    (context.advance s.declared.length).Next (· = declared ss) := by
  unfold Next at next
  split at next
  · trivial
  · rename_i names count outer
    change names.drop (count + s.declared.length) = declared ss
    rw [← List.drop_drop, next, declared, List.flatMap_cons, List.drop_left]
    rfl
  · exact next.elim

theorem Proper.loop_declared (proper : Proper.stmt (.loop condition body increment)) :
    body.declared = [] := by
  cases increment with
  | none => exact proper.2.1
  | some increment => exact proper.2.1.1

theorem Proper.declared_plain (proper : Proper.stmt s) : ∀ name ∈ s.declared, Plain name := by
  intro name member
  cases s with
  | varDecl declared value =>
    obtain rfl := List.mem_singleton.mp member
    cases value with
    | none => exact proper
    | some value => exact proper.1
  | functionDecl f =>
    obtain ⟨declared, params, body, line⟩ := f
    cases declared with
    | none => cases member
    | some declared =>
      obtain rfl := List.mem_singleton.mp member
      exact proper.1
  | classDecl c =>
    obtain rfl := List.mem_singleton.mp member
    cases c
    exact proper.1
  | traitDecl t =>
    obtain rfl := List.mem_singleton.mp member
    cases t
    exact proper.1
  | ifElse condition thenBranch elseBranch =>
    cases elseBranch with
    | none =>
      rw [Stmt.declared, proper.2.1] at member
      cases member
    | some elseBranch =>
      rw [Stmt.declared, proper.2.1.1, proper.2.2.1] at member
      cases member
  | loop condition body increment =>
    rw [Stmt.declared, loop_declared proper] at member
    cases member
  | block | expression | flow | print | returns => cases member

theorem Proper.allDeclared_plain (proper : Proper.stmts ss) :
    ∀ name ∈ declared ss, Plain name := by
  induction ss with
  | nil => exact fun _ member => nomatch member
  | cons s ss ih =>
    intro name member
    rw [declared, List.flatMap_cons] at member
    obtain here | later := List.mem_append.mp member
    · exact declared_plain proper.1 name here
    · exact ih proper.2 name later

/-- The state of a pass in the scopes of a context. -/
structure Inside (references : List Reference) (context : Context) (r : Resolver) : Prop where
  names : r.names = context.visible
  kind : r.classKind = .none ∨
    ∃ f c, context.home = some (f, c) ∧ (r.classKind = .subclass → c.isSome)
  own : ∀ f c, context.home = some (f, c) → references ⊆ Reference.inFunction false f

/-- The state of a pass before the members of a class or a trait. -/
structure Among (fs : List FunctionDecl) (context : Context) (r : Resolver) : Prop where
  names : r.names = ["this"] :: context.visible
  kind : r.classKind = .subclass → ∃ c rest, context = .superclass c :: rest
  members : ∀ c rest, context = .superclass c :: rest → fs ⊆ c.members

/-- What a statement declares comes next in its scope. -/
def Part.Ready (context : Context) : Part → Prop
  | stmt s => context.Next (s.declared <+: ·)
  | stmts ss => context.Next (· = declared ss)
  | _ => True

def Site.Situated (p : Site) : Prop :=
  match p.part with
  | .functions _ fs => Among fs p.context p.resolver
  | .methods _ ms _ => Among (ms.map MethodDecl.function) p.context p.resolver
  | part => Inside (part.references false) p.context p.resolver ∧ part.Ready p.context

theorem Inside.keep (inside : Inside references context r) (keeps : Resolver.Keeps [] r r')
    (fewer : references' ⊆ references) : Inside references' context r' := by
  refine ⟨?_, ?_, fun f c at_home => List.Subset.trans fewer (inside.own f c at_home)⟩
  · rw [keeps.names, Resolver.addNames_nil, inside.names]
  · rw [keeps.classKind]
    exact inside.kind

/-- After a declaration the scopes hold the new names. -/
theorem Inside.declare (inside : Inside references context r) (keeps : Resolver.Keeps new r r')
    (visible : later.visible = Resolver.addNames new context.visible)
    (home : later.home = context.home) (fewer : references' ⊆ references) :
    Inside references' later r' := by
  refine ⟨?_, ?_, ?_⟩
  · rw [keeps.names, inside.names, visible]
  · rw [keeps.classKind, home]
    exact inside.kind
  · intro f c at_home
    exact List.Subset.trans fewer (inside.own f c (home ▸ at_home))

theorem Inside.open (inside : Inside references context r)
    (names : r'.names = layer.visible :: r.names)
    (kind : r'.classKind = r.classKind) (home : Context.home (layer :: context) = context.home) :
    Inside references (layer :: context) r' := by
  refine ⟨?_, ?_, ?_⟩
  · rw [names, inside.names]
    rfl
  · rw [kind, home]
    exact inside.kind
  · rw [home]
    exact inside.own

/-- A member of a class or a trait lies in the scope of its receiver. -/
theorem Among.enter (among : Among fs context r) (f : FunctionDecl) :
    Inside (Reference.inFunction false f) (.receiver f :: context) r := by
  have home : ∃ c, Context.home (.receiver f :: context) = some (f, c) ∧
      (r.classKind = .subclass → c.isSome) := by
    match context with
    | .superclass c :: _ => exact ⟨some c, rfl, fun _ => rfl⟩
    | [] | .scope _ _ _ :: _ | .receiver _ :: _ =>
      refine ⟨none, rfl, fun subclass => ?_⟩
      obtain ⟨c, rest, same⟩ := among.kind subclass
      cases same
  obtain ⟨c, home, subclass⟩ := home
  refine ⟨among.names, .inr ⟨f, c, home, subclass⟩, ?_⟩
  rintro f' c' same
  rw [home] at same
  cases same
  exact List.Subset.refl _

theorem Among.keep (among : Among fs context r) (keeps : Resolver.Keeps [] r r')
    (fewer : fs' ⊆ fs) : Among fs' context r' := by
  refine ⟨?_, ?_, fun c rest same => List.Subset.trans fewer (among.members c rest same)⟩
  · rw [keeps.names, Resolver.addNames_nil, among.names]
  · rw [keeps.classKind]
    exact among.kind

/-- A declaration of a name, seen from the scope that it stands in. -/
theorem Inside.advance (inside : Inside references context r) (keeps : Resolver.Keeps new r r')
    (next : context.Next (new <+: ·)) (fewer : references' ⊆ references) :
    Inside references' (context.advance new.length) r' :=
  inside.declare keeps (Context.visible_advance next) (Context.home_advance ..) fewer

theorem Inside.class {c : ClassDecl} (inside : Inside references context r)
    (next : context.Next ([c.name.lexeme] <+: ·))
    (clean : (r.enterClass c.name c.superclass c.traits).2.Clean) :
    Among c.members (context.ofClass c) (r.enterClass c.name c.superclass c.traits).2 := by
  obtain ⟨names, kind⟩ := Resolver.enterClass_names clean
  have visible := Context.visible_advance next
  refine ⟨?_, ?_, ?_⟩
  · rw [names, inside.names, Resolver.classNames, ← visible]
    unfold Context.ofClass
    split <;> rfl
  · intro subclass
    rw [kind] at subclass
    unfold Context.ofClass
    split
    · exact ⟨c, _, rfl⟩
    · rename_i plain
      rw [if_neg plain] at subclass
      cases subclass
  · intro c' rest same
    unfold Context.ofClass at same
    split at same
    · cases same
      exact List.Subset.refl _
    · exact (next.advance_ne same).elim

theorem Inside.trait {t : TraitDecl} (inside : Inside references context r)
    (next : context.Next ([t.name.lexeme] <+: ·)) (clean : (r.enterTrait t.name).Clean) :
    Among t.defaults (context.advance 1) (r.enterTrait t.name) := by
  refine ⟨?_, ?_, fun c rest same => (next.advance_ne same).elim⟩
  · rw [Resolver.enterTrait_names clean, inside.names, ← Context.visible_advance next]
    rfl
  · rw [Resolver.enterTrait_classKind clean]
    exact nofun

theorem Among.statics (among : Among fs context r) (fewer : fs' ⊆ fs) :
    Among fs' context (r.enterStatics name required) :=
  ⟨(Resolver.enterStatics_names ..).trans among.names, nofun,
    fun c rest same => List.Subset.trans fewer (among.members c rest same)⟩

theorem Enters.situated (enters : Enters p q) (proper : p.part.Proper) (clean : q.resolver.Clean)
    (situated : p.Situated) : q.Situated := by
  cases enters
  -- Expressions
  case assigned | binaryLeft | logicalLeft | callee | firstExpr | asked =>
    exact ⟨situated.1.keep (.refl _) (List.subset_append_left ..), trivial⟩
  case object | grouped | lambda | operand | evaluated | printed => exact ⟨situated.1, trivial⟩
  case setValue => exact ⟨situated.1.keep (.refl _) (List.subset_append_left ..), trivial⟩
  case binaryRight | logicalRight | arguments | otherExprs | setObject =>
    exact ⟨situated.1.keep (Resolver.expr_keeps _ _ clean) (List.subset_append_right ..), trivial⟩
  case thenValue condition thenValue elseValue context r =>
    have fewer := List.subset_append_of_subset_right (Reference.inExpr false condition)
      (List.subset_append_left (Reference.inExpr false thenValue)
        (Reference.inExpr false elseValue))
    exact ⟨situated.1.keep (Resolver.expr_keeps condition r clean) fewer, trivial⟩
  case elseValue condition thenValue elseValue context r =>
    have fewer := List.subset_append_of_subset_right (Reference.inExpr false condition)
      (List.subset_append_right (Reference.inExpr false thenValue)
        (Reference.inExpr false elseValue))
    have asked := (Resolver.expr_extends thenValue _).clean clean
    exact ⟨situated.1.keep ((Resolver.expr_keeps condition r asked).trans
      (Resolver.expr_keeps thenValue _ clean)) fewer, trivial⟩
  -- Functions
  case body kind f context r =>
    cases f with
    | mk name params ss line =>
      refine ⟨situated.1.open ?_ (Resolver.enterFunction_classKind clean) rfl, ?_⟩
      · rw [Resolver.enterFunction_names clean, Layer.visible, ← List.length_map Token.lexeme,
          List.take_left]
      · simp [Part.Ready, Context.ofFunction, Context.Next]
  case firstFunction => exact ⟨situated.enter _, trivial⟩
  case otherFunctions kind f fs context r =>
    exact situated.keep (Resolver.function_keeps kind f r clean) (List.subset_cons_self ..)
  case firstMethod owner f isGetter ms required context r =>
    exact ⟨(situated.keep (Resolver.provide_keeps owner f required r) (List.Subset.refl _)).enter f,
      trivial⟩
  case otherMethods owner f isGetter ms required context r =>
    exact situated.keep ((Resolver.provide_keeps owner f required r).trans
      (Resolver.function_keeps _ f _ clean)) (List.subset_cons_self ..)
  -- Statements
  case block ss context r =>
    exact ⟨situated.1.open rfl rfl rfl, rfl⟩
  case methods c context r =>
    exact (situated.1.class situated.2 clean).keep (.refl _) (List.subset_append_left ..)
  case statics c context r =>
    have behind : (r.afterMethods c).2.Clean := (Resolver.enterStatics_extends ..).clean clean
    have entered := (Resolver.methods_extends c.name c.methods _ _).clean behind
    have among := (situated.1.class situated.2 entered).keep
      (Resolver.methods_keeps c.name c.methods _ _ behind) (List.Subset.refl _)
    exact among.statics (List.subset_append_right ..)
  case function name params ss line context r =>
    exact ⟨situated.1.advance (Resolver.introduce_keeps clean) situated.2 (List.Subset.refl _),
      trivial⟩
  case ifCondition condition thenBranch elseBranch context r =>
    refine ⟨situated.1.keep (.refl _) ?_, trivial⟩
    cases elseBranch <;> exact List.subset_append_left ..
  case thenBranch condition thenBranch elseBranch context r =>
    have keeps := Resolver.expr_keeps condition r clean
    cases elseBranch with
    | none => exact ⟨situated.1.keep keeps (List.subset_append_right ..), situated.2⟩
    | some elseBranch =>
      refine ⟨situated.1.keep keeps ?_, situated.2.mono fun names next => ?_⟩
      · exact List.subset_append_of_subset_right _ (List.subset_append_left ..)
      · rw [proper.2.1.1]
        exact List.nil_prefix
  case elseBranch condition thenBranch elseBranch context r =>
    have keeps := Resolver.guarded_keeps condition proper.2.1.1 clean
    refine ⟨situated.1.keep keeps ?_, situated.2.mono fun names next => ?_⟩
    · exact List.subset_append_of_subset_right _ (List.subset_append_right ..)
    · rw [proper.2.2.1]
      exact List.nil_prefix
  case returned keyword value context r =>
    exact ⟨situated.1.keep (Resolver.checkReturn_keeps keyword r) (List.Subset.refl _), trivial⟩
  case defaults t context r => exact situated.1.trait situated.2 clean
  case initializer name value context r =>
    refine ⟨situated.1.declare (Resolver.declare_keeps clean) (Context.visible_await situated.2)
      (Context.home_await ..) (List.Subset.refl _), trivial⟩
  case loopCondition condition loopBody increment context r =>
    refine ⟨situated.1.keep (.refl _) ?_, trivial⟩
    cases increment <;> exact List.subset_append_left ..
  case loopBody condition loopBody increment context r =>
    have keeps := Resolver.expr_keeps condition r clean
    refine ⟨situated.1.keep keeps ?_, situated.2⟩
    cases increment with
    | none => exact List.subset_append_right ..
    | some => exact List.subset_append_of_subset_right _ (List.subset_append_left ..)
  case increment condition loopBody increment context r =>
    have keeps := Resolver.guarded_keeps condition proper.2.1.1 clean
    refine ⟨situated.1.keep keeps ?_, trivial⟩
    exact List.subset_append_of_subset_right _ (List.subset_append_right ..)
  case firstStmt s ss context r =>
    exact ⟨situated.1.keep (.refl _) (List.subset_append_left ..), Context.Next.first situated.2⟩
  case otherStmts s ss context r =>
    exact ⟨situated.1.advance (Resolver.stmt_keeps s r clean) (Context.Next.first situated.2)
      (List.subset_append_right ..), Context.Next.others situated.2⟩

theorem Enters.wellFormed (enters : Enters p q) (proper : p.part.Proper)
    (wellFormed : p.context.WellFormed) (situated : p.Situated) : q.context.WellFormed := by
  cases enters
  case body kind f context r =>
    cases f with
    | mk name params ss line =>
      refine ⟨⟨fun name member => ?_, by simp, nofun⟩, wellFormed⟩
      obtain param | declared := List.mem_append.mp member
      · obtain ⟨p, among, rfl⟩ := List.mem_map.mp param
        exact proper.1 p among
      · exact Proper.allDeclared_plain proper.2 name declared
  case firstFunction =>
    exact ⟨fun c rest same => situated.members c rest same (List.mem_cons_self ..), wellFormed⟩
  case firstMethod =>
    exact ⟨fun c rest same => situated.members c rest same (List.mem_cons_self ..), wellFormed⟩
  case block ss context r =>
    exact ⟨⟨Proper.allDeclared_plain proper, Nat.zero_le _, nofun⟩, wellFormed⟩
  case methods c context r | statics c context r =>
    have advanced : (context.advance 1).WellFormed := wellFormed.advance situated.2
    unfold Context.ofClass
    split
    · exact advanced
    · exact advanced
  case function | defaults => exact wellFormed.advance situated.2
  case initializer => exact wellFormed.await situated.2
  case otherStmts => exact wellFormed.advance (Context.Next.first situated.2)
  all_goals exact wellFormed

namespace Context

/-- The initializers that are pending in one context are pending in another. -/
def Resumes (context later : Context) : Prop :=
  ∀ layer ∈ later, ∀ name value, layer.pending = some (name, value) →
    ∃ layer' ∈ context, layer'.pending = some (name, value)

theorem Resumes.refl (context : Context) : context.Resumes context :=
  fun layer member _ _ pending => ⟨layer, member, pending⟩

theorem Resumes.push (resumes : Resumes context later) (none : layer.pending = none) :
    Resumes context (layer :: later) := by
  intro layer' member name value pending
  obtain rfl | member := List.mem_cons.mp member
  · rw [none] at pending
    cases pending
  · exact resumes layer' member name value pending

theorem Resumes.advance (count : Nat) (context : Context) :
    context.Resumes (context.advance count) := by
  unfold Context.advance
  split
  · intro layer member name value pending
    obtain rfl | member := List.mem_cons.mp member
    · exact ⟨_, List.mem_cons_self .., pending⟩
    · exact ⟨layer, List.mem_cons_of_mem _ member, pending⟩
  · exact .refl _

theorem Resumes.ofClass (c : ClassDecl) (context : Context) :
    context.Resumes (context.ofClass c) := by
  unfold Context.ofClass
  split
  · exact (advance 1 context).push rfl
  · exact advance 1 context

theorem Covers.mono {context later : Context} (covers : context.Covers references)
    (resumes : context.Resumes later) (fewer : references' ⊆ references) :
    later.Covers references' := by
  intro layer member name value pending
  obtain ⟨layer', member', pending'⟩ := resumes layer member name value pending
  exact List.Subset.trans fewer (covers layer' member' name value pending')

end Context

theorem Enters.fewer (enters : Enters p q) : q.part.references true ⊆ p.part.references true := by
  obtain ⟨before, after, same, _, _⟩ := enters.split
  rw [same]
  exact List.subset_append_of_subset_left _ (List.subset_append_right ..)

theorem Reaches.fewer (path : Reaches p q) : q.part.references true ⊆ p.part.references true := by
  induction path with
  | refl => exact List.Subset.refl _
  | step _ enters ih => exact List.Subset.trans enters.fewer ih

theorem Enters.covers (enters : Enters p q)
    (covers : p.context.Covers (p.part.references true)) :
    q.context.Covers (q.part.references true) := by
  have fewer := enters.fewer
  cases enters
  case body | firstFunction | firstMethod | block =>
    exact covers.mono ((Context.Resumes.refl _).push rfl) fewer
  case methods | statics => exact covers.mono (.ofClass _ _) fewer
  case function | defaults | otherStmts => exact covers.mono (.advance _ _) fewer
  case initializer name value context r =>
    intro layer member name' value' pending
    unfold Context.await at member
    split at member
    · obtain rfl | member := List.mem_cons.mp member
      · cases pending
        exact List.Subset.refl _
      · exact covers layer (List.mem_cons_of_mem _ member) name' value' pending
    · exact covers layer member name' value' pending
  all_goals exact covers.mono (.refl _) fewer

/-- A place in an accepted program and in its scopes. -/
structure Sited (root p : Site) : Prop where
  accepted : Accepted root p
  situated : p.Situated
  wellFormed : p.context.WellFormed
  covers : p.context.Covers (p.part.references true)

theorem Sited.enter (sited : Sited root p) (enters : Enters p q) : Sited root q := by
  have accepted := sited.accepted.enter enters
  have clean : q.resolver.Clean := q.extends.clean accepted.clean
  exact ⟨accepted, enters.situated sited.accepted.proper clean sited.situated,
    enters.wellFormed sited.accepted.proper sited.wellFormed sited.situated,
    enters.covers sited.covers⟩

theorem Sited.reach (sited : Sited root p) (path : Reaches p q) : Sited root q := by
  induction path with
  | refl => exact sited
  | step _ enters ih => exact ih.enter enters

theorem Context.absent {names : List String} (count : Nat) (plain : ∀ name ∈ names, Plain name) :
    "this" ∉ names.take count ∧ "super" ∉ names.take count :=
  ⟨fun member => (plain _ (List.mem_of_mem_take member)).1 rfl,
    fun member => (plain _ (List.mem_of_mem_take member)).2 rfl⟩

/-- No variable hides the receiver, and the superclass lies just outside of it. -/
theorem Context.home_found {context : Context} (wellFormed : context.WellFormed)
    (home : context.home = some (f, c)) : ∃ distance,
      find "this" context.visible = some ⟨distance, 0⟩ ∧
      context[distance]? = some (.receiver f) ∧
      ∀ owner, c = some owner → find "super" context.visible = some ⟨distance + 1, 0⟩ ∧
        context[distance + 1]? = some (.superclass owner) ∧ f ∈ owner.members := by
  fun_induction Context.home context with
  | case1 f owner outer =>
    cases home
    refine ⟨0, rfl, rfl, fun _ same => ?_⟩
    cases same
    exact ⟨rfl, rfl, wellFormed.1 _ _ rfl⟩
  | case2 f outer =>
    cases home
    exact ⟨0, rfl, rfl, nofun⟩
  | case3 names count pending outer ih =>
    obtain ⟨noThis, noSuper⟩ := absent count wellFormed.1.1
    obtain ⟨distance, this, receiver, super⟩ := ih wellFormed.2 home
    refine ⟨distance + 1, ?_, receiver, fun owner same => ?_⟩
    · rw [visible, List.map_cons, Layer.visible, find_outer noThis]
      exact congrArg _ this
    · obtain ⟨found, rest⟩ := super owner same
      refine ⟨?_, rest⟩
      rw [visible, List.map_cons, Layer.visible, find_outer noSuper]
      exact congrArg _ found
  | case4 | case5 => cases home

/-- A reference with an address finds its name there. -/
theorem Sited.found (sited : Sited root p) (own : reference ∈ p.part.ownReferences)
    (recorded : root.final.registry.addresses[reference.id]? = some address) :
    ∃ layer, p.context[address.distance]? = some layer ∧
      layer.visible[address.index]? = some reference.name.lexeme := by
  have inside : p.resolver.names = p.context.visible := by
    obtain ⟨part, context, r⟩ := p
    cases part with
    | expr e => exact sited.situated.1.names
    | stmt s => exact sited.situated.1.names
    | _ => cases own
  rw [sited.accepted.address own, inside] at recorded
  obtain ⟨names, here, name⟩ := find_some recorded
  rw [Context.visible, List.getElem?_map] at here
  obtain ⟨layer, found, rfl⟩ := Option.map_eq_some_iff.mp here
  exact ⟨layer, found, name⟩

/-- The address of `this` is that of the receiver of the method around it. -/
theorem Sited.this (sited : Sited root ⟨.expr (.thisRef keyword), context, r⟩) :
    ∃ f distance, root.final.registry.addresses[keyword.id]? = some ⟨distance, 0⟩ ∧
      context[distance]? = some (.receiver f) ∧ keyword ∈ Reference.inFunction false f := by
  obtain ⟨inside, -⟩ := sited.situated
  have inClass := (Resolver.readThis_eq_bind sited.accepted.clean).2
  obtain none | ⟨f, c, home, -⟩ := inside.kind
  · exact (inClass none).elim
  · obtain ⟨distance, found, receiver, -⟩ := Context.home_found sited.wellFormed home
    have address := sited.accepted.address (List.mem_singleton_self keyword)
    rw [inside.names, show keyword.name.lexeme = "this" from sited.accepted.proper,
      found] at address
    exact ⟨f, distance, address, receiver, inside.own f c home (List.mem_singleton_self keyword)⟩

/-- The address of `super` is that of the superclass of the class around it, just outside the
receiver of the method around it. -/
theorem Sited.super (sited : Sited root ⟨.expr (.superRef keyword name), context, r⟩) :
    ∃ f c distance, root.final.registry.addresses[keyword.id]? = some ⟨distance + 1, 0⟩ ∧
      context[distance]? = some (.receiver f) ∧ context[distance + 1]? = some (.superclass c) ∧
      keyword ∈ Reference.inFunction false f ∧ f ∈ c.members := by
  obtain ⟨inside, -⟩ := sited.situated
  have subclass := (Resolver.readSuper_eq_bind sited.accepted.clean).2
  obtain none | ⟨f, c, home, hasSuper⟩ := inside.kind
  · cases none.symm.trans subclass
  · obtain ⟨c, rfl⟩ := Option.isSome_iff_exists.mp (hasSuper subclass)
    obtain ⟨distance, -, receiver, found⟩ := Context.home_found sited.wellFormed home
    obtain ⟨found, superclass, member⟩ := found c rfl
    have address := sited.accepted.address (List.mem_singleton_self keyword)
    rw [inside.names, show keyword.name.lexeme = "super" from sited.accepted.proper, found]
      at address
    exact ⟨f, c, distance, address, receiver, superclass,
      inside.own f _ home (List.mem_singleton_self keyword), member⟩

end Lox
