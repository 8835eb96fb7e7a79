import Lox.Proofs.Addresses

/-! Names that one scope declares. A declaration is accepted if and only if its scope does not have
the name yet, so that in an accepted program the names of a scope are distinct. -/

namespace Lox

namespace Resolver

/-- The innermost scope can take these names without having one of them twice. -/
def Fresh (new : List String) (r : Resolver) : Prop :=
  ∀ names ∈ r.names.head?, new.Nodup ∧ ∀ name ∈ new, name ∉ names

theorem Fresh.nil (r : Resolver) : Fresh [] r :=
  fun _ _ => ⟨List.nodup_nil, fun _ member => by cases member⟩

theorem Fresh.left {r : Resolver} (fresh : Fresh (a ++ b) r) : Fresh a r := by
  intro names innermost
  obtain ⟨distinct, absent⟩ := fresh names innermost
  exact ⟨(List.nodup_append.mp distinct).1,
    fun name member => absent name (List.mem_append_left b member)⟩

theorem fresh_append (keeps : Keeps a r r') : Fresh (a ++ b) r ↔ Fresh a r ∧ Fresh b r' := by
  unfold Fresh
  rw [keeps.names]
  cases r.names with
  | nil => simp [addNames]
  | cons inner outer =>
    simp only [addNames, List.head?_cons, Option.mem_some_iff, forall_eq', List.nodup_append,
      List.mem_append]
    constructor
    · rintro ⟨⟨first, second, apart⟩, absent⟩
      refine ⟨⟨first, fun name member => absent name (.inl member)⟩, second, ?_⟩
      rintro name member (old | new)
      · exact absent name (.inr member) old
      · exact apart name new name member rfl
    · rintro ⟨⟨first, absent⟩, second, later⟩
      refine ⟨⟨first, second, ?_⟩, ?_⟩
      · rintro name new _ member rfl
        exact later name member (.inr new)
      · rintro name (member | member)
        · exact absent name member
        · exact fun old => later name member (.inl old)

theorem fresh_congr {r r' : Resolver} (same : r'.names = r.names) :
    Fresh new r' ↔ Fresh new r := by
  rw [Fresh, same, Fresh]

/-- A scope whose names are distinct can take fresh ones. -/
theorem Fresh.nodup {r : Resolver} {known : List String} (fresh : Fresh new r)
    (innermost : known ∈ r.names.head?) (distinct : known.Nodup) : (known ++ new).Nodup := by
  obtain ⟨apart, absent⟩ := fresh known innermost
  rw [List.nodup_append]
  refine ⟨distinct, apart, ?_⟩
  rintro name old _ member rfl
  exact absent name member old

theorem fresh_openScope (new : List String) (r : Resolver) : Fresh new r.openScope ↔ new.Nodup := by
  simp [Fresh]

theorem clean_error {r : Resolver} : (r.error token cause).Clean ↔ False :=
  iff_false_intro not_clean_error

theorem define_clean (name : Token) (r : Resolver) : (r.define name).Clean ↔ r.Clean := by
  unfold define
  split <;> rfl

theorem declare_clean (name : Token) (r : Resolver) :
    (r.declare name).Clean ↔ r.Clean ∧ Fresh [name.lexeme] r := by
  unfold declare Fresh names extend
  cases frames : r.frames with
  | nil => simp
  | cons frame outer =>
    have known : frame.declares name.lexeme = true ↔ name.lexeme ∈ frame.map Local.name := by
      simp [Frame.declares]
    simp only [List.map_cons, List.head?_cons, Option.mem_some_iff, forall_eq', List.mem_singleton,
      forall_eq, List.nodup_cons, List.not_mem_nil, not_false_eq_true, List.nodup_nil, and_self,
      true_and, ← known]
    split
    · simp [clean_error, *]
    · rename_i absent
      rw [and_iff_left absent]
      rfl

theorem introduce_clean (name : Token) (r : Resolver) :
    (r.introduce name).Clean ↔ r.Clean ∧ Fresh [name.lexeme] r :=
  (define_clean name _).trans (declare_clean name r)

theorem introduceAll_clean (params : List Token) (r : Resolver) :
    (params.foldl (fun r p => r.introduce p) r).Clean ↔
      r.Clean ∧ Fresh (params.map Token.lexeme) r := by
  induction params generalizing r with
  | nil => simp [Fresh.nil]
  | cons p ps ih =>
    rw [List.foldl_cons, ih, introduce_clean, and_assoc]
    constructor
    · rintro ⟨clean, first, rest⟩
      have keeps := introduce_keeps ((introduce_clean p r).mpr ⟨clean, first⟩)
      exact ⟨clean, (fresh_append keeps).mpr ⟨first, rest⟩⟩
    · rintro ⟨clean, all⟩
      have first : Fresh [p.lexeme] r := Fresh.left all
      have keeps := introduce_keeps ((introduce_clean p r).mpr ⟨clean, first⟩)
      exact ⟨clean, (fresh_append keeps).mp all⟩

theorem classDecl_fresh {c : ClassDecl} {r : Resolver} (clean : (classDecl c r).Clean) :
    Fresh [c.name.lexeme] r := by
  have entered := (members_extends c r).clean clean
  have introduced := (introduce_clean ..).mp ((openClass_extends c.superclass _).clean entered)
  refine (fresh_congr ?_).mp introduced.2
  rw [(mixins_keeps c.traits {} _).names, addNames_nil, (superclass_keeps c.name _ r).1]

theorem traitDecl_fresh {t : TraitDecl} {r : Resolver} (clean : (traitDecl t r).Clean) :
    Fresh [t.name.lexeme] r := by
  obtain ⟨name, signatures, defaults⟩ := t
  have inside : (functions .method defaults (r.enterTrait name)).Clean :=
    (closeScope_extends _).clean clean
  have introduced :=
    (introduce_clean ..).mp ((openBound_extends ..).clean ((functions_extends ..).clean inside))
  exact introduced.2

/-- A branch or a loop body declares nothing, so only declarations themselves count. -/
theorem stmt_fresh {s : Stmt} {r : Resolver} (proper : Proper.stmt s)
    (clean : (stmt s r).Clean) :
    Fresh s.declared r := by
  cases s with
  | block | expression | flow | print | returns => exact .nil r
  | classDecl c => exact classDecl_fresh clean
  | traitDecl t => exact traitDecl_fresh clean
  | functionDecl f =>
    obtain ⟨name, params, body, line⟩ := f
    cases name with
    | none => exact proper.elim
    | some name => exact ((introduce_clean ..).mp ((function_extends .function _ _).clean clean)).2
  | varDecl name value =>
    cases value with
    | none => exact ((introduce_clean ..).mp clean).2
    | some value =>
      have inside : (expr value (r.declare name)).Clean := (define_extends ..).clean clean
      exact ((declare_clean ..).mp ((expr_extends value _).clean inside)).2
  | ifElse condition thenBranch elseBranch =>
    cases elseBranch with
    | none =>
      rw [Stmt.declared, proper.2.1]
      exact .nil r
    | some elseBranch =>
      rw [Stmt.declared, proper.2.1.1, proper.2.2.1]
      exact .nil r
  | loop condition body increment =>
    cases increment with
    | none =>
      rw [Stmt.declared, proper.2.1]
      exact .nil r
    | some increment =>
      rw [Stmt.declared, proper.2.1.1]
      exact .nil r

theorem stmts_fresh {ss : List Stmt} {r : Resolver} (proper : Proper.stmts ss)
    (clean : (stmts ss r).Clean) : Fresh (declared ss) r := by
  induction ss generalizing r with
  | nil => exact .nil r
  | cons s ss ih =>
    have first : (stmt s r).Clean := (stmts_extends ss _).clean clean
    exact (fresh_append (stmt_keeps s r first)).mpr
      ⟨stmt_fresh proper.1 first, ih proper.2 clean⟩

end Resolver

theorem Accepted.block_distinct (accepted : Accepted root ⟨.stmt (.block body), context, r⟩) :
    (declared body).Nodup := by
  have inside := accepted.enter .block
  exact (Resolver.stmts_fresh inside.proper inside.clean).nodup rfl List.nodup_nil

theorem Accepted.function_distinct (accepted : Accepted root ⟨.function kind f, context, r⟩) :
    (f.params.map Token.lexeme ++ declared f.body).Nodup := by
  have inside := accepted.enter .body
  have entered := (Resolver.stmts_extends f.body _).clean inside.clean
  have params := ((Resolver.introduceAll_clean ..).mp entered).2
  have names := (Resolver.fresh_append (Resolver.introduceAll_keeps entered)).mpr
    ⟨params, Resolver.stmts_fresh inside.proper inside.clean⟩
  exact names.nodup rfl List.nodup_nil

end Lox
