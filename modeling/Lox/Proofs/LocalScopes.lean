import Lox.Proofs.LexicalScoping

/-! Local scopes: the scopes of blocks and functions in the order in which they are left, with the
variables that each of them binds and the references that are resolved to them. -/

namespace Lox

open Resolver (addNames classNames)

section

variable {α β : Type}

/-- A further declaration counts if its name is new. -/
def enroll (name : α → String) (earlier : List α) (new : α) : List α :=
  if name new ∈ earlier.map name then earlier else earlier ++ [new]

/-- Of several declarations of a name the first one counts. -/
def firstsBy (name : α → String) (declarations : List α) : List α :=
  declarations.foldl (enroll name) []

theorem map_foldl_enroll (f : α → β) (name : β → String) (earlier new : List α) :
    (new.foldl (enroll (name ∘ f)) earlier).map f =
      (new.map f).foldl (enroll name) (earlier.map f) := by
  induction new generalizing earlier with
  | nil => rfl
  | cons x new ih =>
    rw [List.foldl_cons, ih, List.map_cons, List.foldl_cons]
    congr 1
    unfold enroll
    rw [List.map_map]
    dsimp only [Function.comp_apply]
    split
    · rfl
    · rw [List.map_append, List.map_singleton]

theorem map_firstsBy (f : α → β) (name : β → String) (declarations : List α) :
    (firstsBy (name ∘ f) declarations).map f = firstsBy name (declarations.map f) :=
  map_foldl_enroll f name [] declarations

theorem firstsBy_append (name : α → String) (a b : List α) :
    firstsBy name (a ++ b) = b.foldl (enroll name) (firstsBy name a) := List.foldl_append

theorem enroll_nodup {name : α → String} {earlier : List α} (distinct : (earlier.map name).Nodup)
    (new : α) : ((enroll name earlier new).map name).Nodup := by
  unfold enroll
  split
  · exact distinct
  · rename_i absent
    rw [List.map_append, List.nodup_append]
    refine ⟨distinct, List.nodup_cons.mpr ⟨List.not_mem_nil, List.nodup_nil⟩, ?_⟩
    rintro _ member _ last rfl
    obtain rfl := List.mem_singleton.mp last
    exact absent member

theorem mem_of_firstsBy {name : α → String} {declarations : List α}
    (member : x ∈ firstsBy name declarations) : x ∈ declarations := by
  suffices ∀ earlier : List α, x ∈ declarations.foldl (enroll name) earlier →
      x ∈ earlier ∨ x ∈ declarations from (this [] member).resolve_left List.not_mem_nil
  clear member
  induction declarations with
  | nil => exact fun _ => .inl
  | cons y rest ih =>
    intro earlier member
    obtain old | later := ih _ member
    · unfold enroll at old
      split at old
      · exact .inl old
      · obtain old | last := List.mem_append.mp old
        · exact .inl old
        · exact .inr (List.mem_singleton.mp last ▸ List.mem_cons_self)
    · exact .inr (List.mem_cons_of_mem y later)

theorem firstsBy_nodup (name : α → String) (declarations : List α) :
    ((firstsBy name declarations).map name).Nodup := by
  suffices ∀ earlier : List α, (earlier.map name).Nodup →
      ((declarations.foldl (enroll name) earlier).map name).Nodup from this [] List.nodup_nil
  induction declarations with
  | nil => exact fun _ distinct => distinct
  | cons x rest ih => exact fun earlier distinct => ih _ (enroll_nodup distinct x)

end

/-- The name that a statement declares. -/
def Stmt.declaration? : Stmt → Option Token
  | .varDecl name _ => some name
  | .functionDecl f => f.name
  | .classDecl c => some c.name
  | .traitDecl t => some t.name
  | .block _ | .expression _ | .flow _ _ | .ifElse _ _ _ | .print _ | .returns _ _
  | .loop _ _ _ => none

/-- The scope of a block or of a function, and the scopes around it. -/
structure LocalScope where
  params : List Token
  body : List Stmt
  outer : Scoping.Scopes

instance (name : String) : Decidable (Plain name) := inferInstanceAs (Decidable (_ ∧ _))

/-- The references to variables, which are all but `this` and `super`. -/
def Scoping.ordinary (located : List (Reference × Scopes)) : List (Reference × Scopes) :=
  located.filter fun place => Plain place.1.name.lexeme

namespace LocalScope

def declarations (s : LocalScope) : List Token := s.params ++ s.body.filterMap Stmt.declaration?

/-- The variables that the scope binds, in the order of their slots. -/
def bindings (s : LocalScope) : List Token := firstsBy Token.lexeme s.declarations

/-- The references inside the scope, each with all scopes around it. -/
def references (s : LocalScope) : List (Reference × Scoping.Scopes) :=
  Scoping.inStmts s.body (s.params.map Token.lexeme :: s.outer)

/-- Some reference to a variable has got the address of this slot of the scope. -/
def uses (address : Reference → Option Address) (s : LocalScope) (slot : Nat) : Bool :=
  (Scoping.ordinary s.references).any fun place =>
    address place.1 = some ⟨place.2.length - (s.outer.length + 1), slot⟩

/-- The variables to which no reference has been resolved. -/
def unused (address : Reference → Option Address) (s : LocalScope) : List Token :=
  (s.bindings.zipIdx.filter fun binding => !s.uses address binding.2).map Prod.fst

def warnings (address : Reference → Option Address) (s : LocalScope) : List Diagnostic :=
  (s.unused address).map fun name => .unused name.lexeme name.line

mutual

/-- The scopes in an expression, in the order in which they are left. -/
def inExpr : Expr → Scoping.Scopes → List LocalScope
  | .assign _ value, scopes => inExpr value scopes
  | .binary left _ right, scopes | .logical left _ right, scopes =>
    inExpr left scopes ++ inExpr right scopes
  | .call callee _ arguments, scopes => inExpr callee scopes ++ inExprs arguments scopes
  | .property object _, scopes => inExpr object scopes
  | .group inner, scopes => inExpr inner scopes
  | .lambda f, scopes => inFunction f scopes
  | .setProperty object _ value, scopes => inExpr value scopes ++ inExpr object scopes
  | .ternary condition thenValue elseValue, scopes =>
    inExpr condition scopes ++ (inExpr thenValue scopes ++ inExpr elseValue scopes)
  | .unary _ right, scopes => inExpr right scopes
  | .literal _, _ | .superRef _ _, _ | .thisRef _, _ | .varRef _, _ => []

def inExprs : List Expr → Scoping.Scopes → List LocalScope
  | [], _ => []
  | e :: es, scopes => inExpr e scopes ++ inExprs es scopes

def inFunction : FunctionDecl → Scoping.Scopes → List LocalScope
  | ⟨_, params, body, _⟩, scopes =>
    inStmts body (params.map Token.lexeme :: scopes) ++ [⟨params, body, scopes⟩]

def inFunctions : List FunctionDecl → Scoping.Scopes → List LocalScope
  | [], _ => []
  | f :: fs, scopes => inFunction f scopes ++ inFunctions fs scopes

def inMethods : List MethodDecl → Scoping.Scopes → List LocalScope
  | [], _ => []
  | ⟨f, _⟩ :: ms, scopes => inFunction f scopes ++ inMethods ms scopes

def inStmt : Stmt → Scoping.Scopes → List LocalScope
  | .block body, scopes => inStmts body ([] :: scopes) ++ [⟨[], body, scopes⟩]
  | .classDecl ⟨name, parent, _, ms, statics⟩, scopes =>
    inMethods ms (["this"] :: classNames name parent scopes) ++
      inFunctions statics (["this"] :: classNames name parent scopes)
  | .expression value, scopes | .print value, scopes => inExpr value scopes
  | .functionDecl ⟨name, params, body, line⟩, scopes =>
    inFunction ⟨name, params, body, line⟩ (addNames (name.map Token.lexeme).toList scopes)
  | .ifElse condition thenBranch none, scopes =>
    inExpr condition scopes ++ inStmt thenBranch scopes
  | .ifElse condition thenBranch (some elseBranch), scopes =>
    inExpr condition scopes ++ (inStmt thenBranch scopes ++ inStmt elseBranch scopes)
  | .returns _ (some value), scopes => inExpr value scopes
  | .traitDecl ⟨name, _, defaults⟩, scopes =>
    inFunctions defaults (["this"] :: addNames [name.lexeme] scopes)
  | .varDecl name (some value), scopes => inExpr value (addNames [name.lexeme] scopes)
  | .loop condition body none, scopes => inExpr condition scopes ++ inStmt body scopes
  | .loop condition body (some increment), scopes =>
    inExpr condition scopes ++ (inStmt body scopes ++ inExpr increment scopes)
  | .flow _ _, _ | .returns _ none, _ | .varDecl _ none, _ => []

def inStmts : List Stmt → Scoping.Scopes → List LocalScope
  | [], _ => []
  | s :: ss, scopes => inStmt s scopes ++ inStmts ss (addNames s.declared scopes)

end

end LocalScope

/-- What a warning says about a variable. -/
def Token.entry (name : Token) : String × Nat := (name.lexeme, name.line)

def Local.entry (v : Local) : String × Nat := (v.name, v.line)

/-- Whether the variable in this slot is in use. Scopes are counted from the outermost, so that a
scope keeps its level when others are opened inside of it. -/
def usedAt : List Frame → Nat → Nat → Bool
  | [], _, _ => false
  | frame :: outer, level, slot =>
    if level = outer.length then frame[slot]?.any Local.used else usedAt outer level slot

theorem usedAt_head (frame : Frame) (outer : List Frame) (slot : Nat) :
    usedAt (frame :: outer) outer.length slot = frame[slot]?.any Local.used := if_pos rfl

theorem usedAt_tail {outer : List Frame} (below : level < outer.length) (frame : Frame)
    (slot : Nat) : usedAt (frame :: outer) level slot = usedAt outer level slot :=
  if_neg (Nat.ne_of_lt below)

/-- What happens to the innermost scope does not count if it leaves the marks alone. -/
theorem usedAt_congr_head {frame frame' : Frame}
    (same : ∀ slot : Nat, frame'[slot]?.any Local.used = frame[slot]?.any Local.used)
    (outer : List Frame) (level slot : Nat) :
    usedAt (frame' :: outer) level slot = usedAt (frame :: outer) level slot := by
  unfold usedAt
  rw [same]

/-- With distinct names a mark by name is a mark by slot. -/
theorem Frame.used_update {frame : Frame} (distinct : (frame.map Local.name).Nodup)
    (found : frame.slot? name = some index) (slot : Nat) :
    (frame.update name ({ · with used := true }))[slot]?.any Local.used =
      (frame[slot]?.any Local.used || decide (slot = index)) := by
  unfold Frame.slot? at found
  obtain ⟨bound, named, -⟩ := List.findIdx?_eq_some_iff_getElem.mp found
  unfold Frame.update
  rw [List.getElem?_map]
  cases there : frame[slot]? with
  | none =>
    have other : slot ≠ index := by
      rintro rfl
      rw [List.getElem?_eq_getElem bound] at there
      cases there
    simp [other]
  | some v =>
    have here : v.name = name ↔ slot = index := by
      constructor
      · intro same
        have first : (frame.map Local.name)[slot]? = some name := by
          rw [List.getElem?_map, there, Option.map_some, same]
        have second : (frame.map Local.name)[index]? = some name := by
          rw [List.getElem?_map, List.getElem?_eq_getElem bound, Option.map_some, eq_of_beq named]
        exact (List.getElem?_inj (List.getElem?_eq_some_iff.mp first).1 distinct).mp
          (first.trans second.symm)
      · rintro rfl
        rw [List.getElem?_eq_getElem bound] at there
        cases there
        exact eq_of_beq named
    by_cases same : v.name = name
    · simp [same, here.mp same]
    · simp [same, mt here.mpr same]

theorem Frame.declares_eq (frame : Frame) (name : String) :
    frame.declares name = (frame.slot? name).isSome := List.findIdx?_isSome.symm

theorem markUsed_length (name : String) (frames : List Frame) :
    (markUsed name frames).length = frames.length := by
  simpa using congrArg List.length (Resolver.names_markUsed name frames)

/-- The variable that a name is resolved to is marked, and no other one. -/
theorem usedAt_markUsed {frames : List Frame}
    (distinct : ∀ frame ∈ frames, (frame.map Local.name).Nodup)
    (found : locate name frames = some address) (below : level < frames.length) (slot : Nat) :
    usedAt (markUsed name frames) level slot = true ↔
      usedAt frames level slot = true ∨ address = ⟨frames.length - (level + 1), slot⟩ := by
  induction frames generalizing address with
  | nil => cases found
  | cons frame outer ih =>
    obtain ⟨own, distinct⟩ := List.forall_mem_cons.mp distinct
    unfold locate at found
    unfold markUsed
    rw [Frame.declares_eq]
    cases here : frame.slot? name with
    | some index =>
      rw [here] at found
      cases found
      rw [Option.isSome_some, if_pos rfl]
      by_cases innermost : level = outer.length
      · subst innermost
        rw [usedAt_head, usedAt_head, Frame.used_update own here]
        simp only [Bool.or_eq_true, decide_eq_true_eq, Address.mk.injEq, List.length_cons,
          Nat.sub_self, true_and, eq_comm (a := slot)]
      · have below : level < outer.length := by
          rw [List.length_cons] at below
          omega
        rw [usedAt_tail below, usedAt_tail below, Address.mk.injEq, List.length_cons]
        exact ⟨.inl, fun used => used.elim id fun same => by omega⟩
    | none =>
      rw [here] at found
      obtain ⟨⟨distance, index⟩, farther, rfl⟩ := Option.map_eq_some_iff.mp found
      rw [Option.isSome_none, if_neg Bool.false_ne_true, Address.mk.injEq, List.length_cons]
      by_cases innermost : level = outer.length
      · subst innermost
        rw [usedAt_head, ← markUsed_length name outer, usedAt_head]
        exact ⟨.inl, fun used => used.elim id fun same => by omega⟩
      · have below : level < outer.length := by
          rw [List.length_cons] at below
          omega
        rw [usedAt_tail (markUsed_length name outer ▸ below), usedAt_tail below,
          ih distinct farther below, Address.mk.injEq]
        have outwards : distance + 1 = outer.length + 1 - (level + 1) ↔
            distance = outer.length - (level + 1) := by omega
        rw [outwards]

end Lox
