import Lox.Proofs.DerivedWords

/-! Whatever the grammar derives the parser accepts, with the tree of the derivation, if the tokens
that follow do not continue the derived word. -/

namespace Lox.Grammar

open Lox.Parser

def levelRule (rules : Rules) : Level → Parser Expr
  | .disjunction => rules.disjunction
  | .conjunction => rules.conjunction
  | .equality => rules.equality
  | .comparison => rules.comparison
  | .term => rules.term
  | .factor => rules.factor

def operandRule (rules : Rules) : Level → Parser Expr
  | .disjunction => rules.conjunction
  | .conjunction => rules.equality
  | .equality => rules.comparison
  | .comparison => rules.term
  | .term => rules.factor
  | .factor => rules.unaryRule

theorem levelRule_eq (rules : Rules) (l : Level) :
    levelRule rules l = level rules.limit l.operators l.node (operandRule rules l) := by
  cases l <;> rfl

theorem operandRule_next {l l' : Level} (next : l.next = some l') (rules : Rules) :
    operandRule rules l = levelRule rules l' := by
  cases l <;> cases next <;> rfl

theorem operandRule_last {l : Level} (next : l.next = none) (rules : Rules) :
    operandRule rules l = rules.unaryRule := by
  cases l with
  | factor => rfl
  | _ => cases next

theorem rules_limit (limit : Nat) : (rules limit).limit = limit := by
  cases limit <;> rfl

/-- The statements of a block after its opening brace. -/
def ReadsBlock (n : NodeId) (tail : List Token) (ss : List Stmt) (n' : NodeId) : Prop :=
  ∀ limit rest, tail.length ≤ limit →
    (rules limit).block ⟨tail ++ rest, n⟩ = .ok ss ⟨rest, n'⟩

/-- The parameters and the body of a function. -/
def ReadsFunction (n : NodeId) (w : List Token) (params : List Token) (body : List Stmt)
    (n' : NodeId) : Prop :=
  ∃ (left : Terminal .leftParen) (w₁ : List Token) (right : Terminal .rightParen)
    (brace : Terminal .leftBrace) (tail : List Token),
    w = left.1 :: (w₁ ++ right.1 :: brace.1 :: tail) ∧ Parameters w₁ params ∧
    ReadsBlock n tail body n'

/-- What the parser makes of a derived word. Rules that are entered after the first token of
their word are given the tokens behind it. The loops over operators and suffixes may still go on
after the word, with a part of their limit left. -/
def Reads : (N : Nonterminal) → NodeId → List Token → N.Tree → NodeId → Prop
  | .declarations, n, w, ss, n' => ∀ limit stops rest, w.length < limit →
      stops ⊆ [.rightBrace, .eof] → Cursor.kind ⟨rest, n'⟩ ∈ stops →
      Repeated stops (rules limit).declaration ⟨w ++ rest, n⟩ ss ⟨rest, n'⟩
  | .declaration, n, w, s, n' => ∀ limit rest, w.length ≤ limit →
      Cursor.kind ⟨rest, n'⟩ ≠ .kwElse →
      (rules limit).declarationRule ⟨w ++ rest, n⟩ = .ok s ⟨rest, n'⟩
  | .superclass, n, w, c, n' => ∀ rest, Cursor.kind ⟨rest, n'⟩ ≠ .less →
      Rules.superclass ⟨w ++ rest, n⟩ = .ok c ⟨rest, n'⟩
  | .mixins, n, w, ts, n' => ∀ limit rest, w.length ≤ limit →
      Cursor.kind ⟨rest, n'⟩ = .leftBrace → (rules limit).mixins ⟨w ++ rest, n⟩ = .ok ts ⟨rest, n'⟩
  | .traitNames, n, w, ts, n' => ∀ rest, Cursor.kind ⟨rest, n'⟩ = .leftBrace →
      Listed Rules.traitName ⟨w ++ rest, n⟩ ts ⟨rest, n'⟩
  | .members, n, w, ms, n' => ∀ limit rest, w.length ≤ limit →
      Cursor.kind ⟨rest, n'⟩ = .rightBrace →
      Repeated [.rightBrace, .eof] (rules limit).member ⟨w ++ rest, n⟩ ms ⟨rest, n'⟩
  | .member, n, w, m, n' => ∀ limit rest, w.length ≤ limit →
      (rules limit).member ⟨w ++ rest, n⟩ = .ok m ⟨rest, n'⟩
  | .traitMembers, n, w, ms, n' => ∀ limit rest, w.length ≤ limit →
      Cursor.kind ⟨rest, n'⟩ = .rightBrace →
      Repeated [.rightBrace, .eof] (rules limit).traitMember ⟨w ++ rest, n⟩ ms ⟨rest, n'⟩
  | .traitMember, n, w, m, n' => ∀ limit rest, w.length ≤ limit →
      (rules limit).traitMember ⟨w ++ rest, n⟩ = .ok m ⟨rest, n'⟩
  | .function, n, w, f, n' => ∃ (name : Terminal .identifier) (tail : List Token),
      w = name.1 :: tail ∧ f.name = some name.1 ∧ f.line = name.1.line ∧
      ReadsFunction n tail f.params f.body n'
  | .functionRest, n, w, (params, body), n' => ReadsFunction n w params body n'
  | .block, n, w, ss, n' => ∃ (left : Terminal .leftBrace) (tail : List Token),
      w = left.1 :: tail ∧ ReadsBlock n tail ss n'
  | .varDecl, n, w, s, n' => ∃ (keyword : Terminal .kwVar) (tail : List Token),
      w = keyword.1 :: tail ∧ ∀ limit rest, tail.length ≤ limit →
        (rules limit).varDeclaration ⟨tail ++ rest, n⟩ = .ok s ⟨rest, n'⟩
  | .initializer, n, w, e, n' => ∀ limit rest, w.length ≤ limit →
      Cursor.kind ⟨rest, n'⟩ = .semicolon →
      (rules limit).initializer ⟨w ++ rest, n⟩ = .ok e ⟨rest, n'⟩
  | .statement dangling, n, w, s, n' => ∀ limit rest, w.length ≤ limit →
      (dangling → Cursor.kind ⟨rest, n'⟩ ≠ .kwElse) →
      (rules limit).statementRule ⟨w ++ rest, n⟩ = .ok s ⟨rest, n'⟩
  | .forStart, n, w, s, n' => ∀ limit rest, w.length ≤ limit →
      (rules limit).forStart ⟨w ++ rest, n⟩ = .ok s ⟨rest, n'⟩
  | .expressionStatement, n, w, s, n' => ∀ limit rest, w.length ≤ limit →
      (rules limit).expressionStatement ⟨w ++ rest, n⟩ = .ok s ⟨rest, n'⟩
  | .maybeExpression, n, w, e, n' => ∀ limit stop rest, w.length < limit →
      stop ∈ [Kind.semicolon, .rightParen] → Cursor.kind ⟨rest, n'⟩ = stop →
      (rules limit).expressionUnless stop ⟨w ++ rest, n⟩ = .ok e ⟨rest, n'⟩
  | .expression, n, w, e, n' => ∀ limit rest, w.length ≤ limit →
      8 < looseness (Cursor.kind ⟨rest, n'⟩) →
      (rules limit).expressionRule ⟨w ++ rest, n⟩ = .ok e ⟨rest, n'⟩
  | .ternary, n, w, e, n' => ∀ limit rest, w.length ≤ limit →
      7 < looseness (Cursor.kind ⟨rest, n'⟩) →
      (rules limit).ternaryRule ⟨w ++ rest, n⟩ = .ok e ⟨rest, n'⟩
  | .level l, n, w, e, n' => ∀ limit rest, w.length ≤ limit →
      l.looseness ≤ looseness (Cursor.kind ⟨rest, n'⟩) → ∃ left, limit < left + w.length ∧
      levelRule (rules limit) l ⟨w ++ rest, n⟩ =
        chain l.operators l.node (operandRule (rules limit) l) left e ⟨rest, n'⟩
  | .operand l, n, w, e, n' => ∀ limit rest, w.length ≤ limit →
      l.looseness ≤ looseness (Cursor.kind ⟨rest, n'⟩) →
      operandRule (rules limit) l ⟨w ++ rest, n⟩ = .ok e ⟨rest, n'⟩
  | .unary, n, w, e, n' => ∀ limit rest, w.length ≤ limit →
      0 < looseness (Cursor.kind ⟨rest, n'⟩) →
      (rules limit).unaryRule ⟨w ++ rest, n⟩ = .ok e ⟨rest, n'⟩
  | .call, n, w, e, n' => ∀ limit rest, w.length ≤ limit → ∃ left, limit < left + w.length ∧
      (rules limit).call ⟨w ++ rest, n⟩ = (rules limit).suffixes left e ⟨rest, n'⟩
  | .maybeArguments, n, w, es, n' => ∀ limit rest, w.length < limit →
      Cursor.kind ⟨rest, n'⟩ = .rightParen →
      (rules limit).arguments ⟨w ++ rest, n⟩ = .ok es ⟨rest, n'⟩
  | .arguments, n, w, es, n' => ∀ limit rest, w.length < limit →
      Cursor.kind ⟨rest, n'⟩ = .rightParen →
      Listed (rules limit).expression ⟨w ++ rest, n⟩ es ⟨rest, n'⟩
  | .primary, n, w, e, n' => ∀ limit rest, w.length ≤ limit →
      (rules limit).primary ⟨w ++ rest, n⟩ = .ok e ⟨rest, n'⟩

theorem advance_terminal {p : Parser α} (first : Terminal kind) (notEnd : kind ≠ .eof) :
    (advance >>= fun _ => p) ⟨first.1 :: rest, n⟩ = p ⟨rest, n⟩ :=
  bind_of_ok (advance_cons (by simpa using notEnd))

theorem Begins.kind (h : Begins N w) (full : N.nullable = false) :
    N.opens (Cursor.kind ⟨w ++ rest, n⟩) := by
  cases w with
  | nil => simp [Begins, full] at h
  | cons first tail => exact h

theorem ne_of_opens {opens : Kind → Bool} (h : opens kind) (never : opens kind' = false) :
    kind ≠ kind' := by
  rintro rfl
  simp [h] at never

theorem ne_of_looser (h : looseness kind' < looseness kind) : kind ≠ kind' := by
  rintro rfl
  exact Nat.lt_irrefl _ h

theorem Begins.not_closed (h : Begins N w) (full : N.nullable = false)
    (noBrace : N.opens .rightBrace = false) (noEnd : N.opens .eof = false) :
    Cursor.kind ⟨w ++ rest, n⟩ ∉ [Kind.rightBrace, .eof] := by
  simpa using ⟨ne_of_opens (h.kind full) noBrace, ne_of_opens (h.kind full) noEnd⟩

theorem read_expression (h : Reads .expression n w e n') (rest : List Token)
    (short : w.length < limit) (stops : 8 < looseness (Cursor.kind ⟨rest, n'⟩)) :
    (rules limit).expression ⟨w ++ rest, n⟩ = .ok e ⟨rest, n'⟩ := by
  cases limit with
  | zero => omega
  | succ limit => exact h limit rest (by omega) stops

theorem read_level {l : Level} (h : Reads (.level l) n w e n') (short : w.length ≤ limit)
    (stops : l.looseness < looseness (Cursor.kind ⟨rest, n'⟩)) :
    levelRule (rules limit) l ⟨w ++ rest, n⟩ = .ok e ⟨rest, n'⟩ := by
  obtain ⟨left, enough, same⟩ := h limit rest short (Nat.le_of_lt stops)
  have other : Cursor.kind ⟨rest, n'⟩ ∉ l.operators := by
    intro member
    have := Level.looseness_of_mem member
    omega
  cases left with
  | zero => omega
  | succ left =>
    rw [same, chain, bind_of_ok (accept?_other other)]
    rfl

theorem reads_first {l : Level} (d : Derives (.operand l) n w e n')
    (h : Reads (.operand l) n w e n') : Reads (.level l) n w e n' := by
  intro limit rest short stops
  have full := d.begins.nonempty rfl
  refine ⟨limit, by omega, ?_⟩
  rw [levelRule_eq, level, bind_of_ok (h limit rest short stops), rules_limit]

theorem reads_operation {l : Level} (right : Derives (.operand l) n₁ w₂ b n₂)
    (first : Reads (.level l) n w₁ a n₁) (operator : Token) (member : operator.kind ∈ l.operators)
    (second : Reads (.operand l) n₁ w₂ b n₂) :
    Reads (.level l) n (w₁ ++ operator :: w₂) (l.node a operator b) n₂ := by
  intro limit rest short stops
  have full := right.begins.nonempty rfl
  simp only [List.length_append, List.length_cons] at short ⊢
  simp only [List.append_assoc, List.cons_append]
  have same : l.looseness ≤ looseness (Cursor.kind ⟨operator :: (w₂ ++ rest), n₁⟩) :=
    Nat.le_of_eq (Level.looseness_of_mem member).symm
  obtain ⟨left, enough, same⟩ := first limit (operator :: (w₂ ++ rest)) (by omega) same
  have notEnd : Kind.eof ∉ l.operators := by cases l <;> decide
  cases left with
  | zero => omega
  | succ left =>
    refine ⟨left, by omega, ?_⟩
    rw [same, chain, bind_of_ok (accept?_cons member notEnd)]
    exact bind_of_ok (second limit rest (by omega) stops)

theorem reads_tighter {l l' : Level} (next : l.next = some l') (h : Reads (.level l') n w e n') :
    Reads (.operand l) n w e n' := by
  intro limit rest short stops
  rw [operandRule_next next]
  refine read_level h short ?_
  have := Level.looseness_of_next next
  omega

theorem reads_tightest {l : Level} (next : l.next = none) (h : Reads .unary n w e n') :
    Reads (.operand l) n w e n' := by
  intro limit rest short stops
  rw [operandRule_last next]
  refine h limit rest short (Nat.lt_of_lt_of_le ?_ stops)
  cases l <;> decide

theorem reads_unary (operator : Token) (member : operator.kind ∈ [Kind.bang, .minus])
    (h : Reads .unary n w e n') : Reads .unary n (operator :: w) (.unary operator e) n' := by
  intro limit rest short stops
  cases limit with
  | zero => simp at short
  | succ limit =>
    have inner : (rules (limit + 1)).unary ⟨w ++ rest, n⟩ = .ok e ⟨rest, n'⟩ :=
      h limit rest (by simpa using short) stops
    rw [Rules.unaryRule, List.cons_append, bind_of_ok (accept?_cons member (by decide))]
    exact map_of_ok inner

theorem reads_positive (d : Derives .call n w e n') (h : Reads .call n w e n') :
    Reads .unary n w e n' := by
  intro limit rest short stops
  obtain ⟨left, enough, same⟩ := h limit rest short
  have opens : opensPrimary (Cursor.kind ⟨w ++ rest, n⟩) := d.begins.kind rfl
  have noSign : Cursor.kind ⟨w ++ rest, n⟩ ∉ [Kind.bang, .minus] := by
    simpa using ⟨ne_of_opens opens rfl, ne_of_opens opens rfl⟩
  rw [Rules.unaryRule, bind_of_ok (accept?_other noSign)]
  have noCall : Cursor.kind ⟨rest, n'⟩ ≠ .leftParen := ne_of_looser stops
  have noProperty : Cursor.kind ⟨rest, n'⟩ ≠ .dot := ne_of_looser stops
  cases left with
  | zero => omega
  | succ left =>
    refine same.trans ?_
    rw [Rules.suffixes, bind_of_ok (accept_other noCall), if_neg (by decide),
      bind_of_ok (accept_other noProperty), if_neg (by decide)]
    rfl

theorem reads_unconditional (h : Reads (.level .disjunction) n w e n') :
    Reads .ternary n w e n' := by
  intro limit rest short stops
  have read : (rules limit).disjunction ⟨w ++ rest, n⟩ = .ok e ⟨rest, n'⟩ :=
    read_level h short (Nat.lt_trans (by decide) stops)
  have noQuestion : Cursor.kind ⟨rest, n'⟩ ≠ .question := ne_of_looser stops
  rw [Rules.ternaryRule, bind_of_ok read, bind_of_ok (accept_other noQuestion)]
  rfl

/-- A call is read as an operand of every level. -/
theorem reads_target (d : Derives .call n w e n') (h : Reads .call n w e n') :
    Reads .ternary n w e n' := by
  have factor := Derives.tightest (l := .factor) rfl (.positive d)
  have term := Derives.tighter (l := .term) rfl (.first factor)
  have comparison := Derives.tighter (l := .comparison) rfl (.first term)
  have equality := Derives.tighter (l := .equality) rfl (.first comparison)
  have conjunction := Derives.tighter (l := .conjunction) rfl (.first equality)
  have disjunction := Derives.tighter (l := .disjunction) rfl (.first conjunction)
  exact reads_unconditional <| reads_first disjunction <| reads_tighter rfl <|
    reads_first conjunction <| reads_tighter rfl <| reads_first equality <| reads_tighter rfl <|
    reads_first comparison <| reads_tighter rfl <| reads_first term <| reads_tighter rfl <|
    reads_first factor <| reads_tightest rfl <| reads_positive d h

theorem reads_primary (d : Derives .primary n w e n') (h : Reads .primary n w e n') :
    Reads .call n w e n' := by
  intro limit rest short
  have full := d.begins.nonempty rfl
  refine ⟨limit, by omega, ?_⟩
  rw [Rules.call, bind_of_ok (h limit rest short), rules_limit]

theorem reads_call (callee : Reads .call n w₁ f n₁) (left : Terminal .leftParen)
    (given : Reads .maybeArguments n₁ w₂ es n₂) (right : Terminal .rightParen) :
    Reads .call n (w₁ ++ left.1 :: w₂ ++ [right.1]) (.call f right.1 es) n₂ := by
  intro limit rest short
  simp only [List.length_append, List.length_cons, List.length_nil] at short ⊢
  simp only [List.append_assoc, List.cons_append, List.nil_append]
  obtain ⟨more, enough, same⟩ := callee limit (left.1 :: (w₂ ++ right.1 :: rest)) (by omega)
  have arguments := given limit (right.1 :: rest) (by omega) right.2
  cases more with
  | zero => omega
  | succ more =>
    refine ⟨more, by omega, same.trans ?_⟩
    rw [Rules.suffixes, bind_of_ok (accept_cons left.2 (by decide)), if_pos rfl,
      bind_of_ok arguments, bind_of_ok (expect_cons right.2 (by decide))]

theorem reads_property (object : Reads .call n w o n') (dot : Terminal .dot)
    (name : Terminal .identifier) :
    Reads .call n (w ++ [dot.1, name.1]) (.property o name.1) n' := by
  intro limit rest short
  simp only [List.length_append, List.length_cons, List.length_nil] at short ⊢
  simp only [List.append_assoc, List.cons_append, List.nil_append]
  obtain ⟨more, enough, same⟩ := object limit (dot.1 :: name.1 :: rest) (by omega)
  have noCall : Cursor.kind ⟨dot.1 :: name.1 :: rest, n'⟩ ≠ .leftParen := by simp
  cases more with
  | zero => omega
  | succ more =>
    refine ⟨more, by omega, same.trans ?_⟩
    rw [Rules.suffixes, bind_of_ok (accept_other noCall), if_neg (by decide),
      bind_of_ok (accept_cons dot.2 (by decide)), if_pos rfl,
      bind_of_ok (expect_cons name.2 (by decide))]

theorem reads_argument (h : Reads .expression n w e n') : Reads .arguments n w [e] n' := by
  intro limit rest short closes
  exact .one (read_expression h rest short (by rw [closes]; decide)) (by rw [closes]; decide)

theorem reads_moreArguments (value : Reads .expression n w₁ e n₁) (comma : Terminal .comma)
    (others : Reads .arguments n₁ w₂ es n₂) :
    Reads .arguments n (w₁ ++ comma.1 :: w₂) (e :: es) n₂ := by
  intro limit rest short closes
  simp only [List.length_append, List.length_cons] at short
  simp only [List.append_assoc, List.cons_append]
  exact .more (read_expression value _ (by omega) (by simp [looseness])) comma.2
    (others limit rest (by omega) closes)

theorem reads_someArguments (d : Derives .arguments n w es n') (h : Reads .arguments n w es n')
    (few : es.length ≤ maxItems) : Reads .maybeArguments n w es n' := by
  intro limit rest short closes
  have opens : opensExpression (Cursor.kind ⟨w ++ rest, n⟩) := d.begins.kind rfl
  have count : es.length ≤ w.length := d.parts_le
  rw [Rules.arguments, rules_limit]
  exact listed_ok_iff.mpr (.inr ⟨ne_of_opens opens rfl, h limit rest short closes, few, by omega⟩)

theorem reads_noArguments : Reads .maybeArguments n [] [] n := by
  intro limit rest short closes
  exact listed_ok_iff.mpr (.inl ⟨closes, rfl, rfl⟩)

theorem reads_ternary (condition : Reads (.level .disjunction) n w₁ c n₁)
    (question : Terminal .question) (thenValue : Reads .expression n₁ w₂ a n₂)
    (colon : Terminal .colon) (elseValue : Reads .ternary n₂ w₃ b n₃) :
    Reads .ternary n (w₁ ++ question.1 :: w₂ ++ colon.1 :: w₃) (.ternary c a b) n₃ := by
  intro limit rest short stops
  simp only [List.length_append, List.length_cons] at short
  simp only [List.append_assoc, List.cons_append]
  have first : (rules limit).disjunction ⟨w₁ ++ question.1 :: (w₂ ++ colon.1 :: (w₃ ++ rest)), n⟩ =
      .ok c ⟨question.1 :: (w₂ ++ colon.1 :: (w₃ ++ rest)), n₁⟩ :=
    read_level condition (by omega) (by simp [looseness, Level.looseness])
  have second : (rules limit).expression ⟨w₂ ++ colon.1 :: (w₃ ++ rest), n₁⟩ =
      .ok a ⟨colon.1 :: (w₃ ++ rest), n₂⟩ :=
    read_expression thenValue _ (by omega) (by simp [looseness])
  have third : (rules limit).ternary ⟨w₃ ++ rest, n₂⟩ = .ok b ⟨rest, n₃⟩ := by
    cases limit with
    | zero => omega
    | succ limit => exact elseValue limit rest (by omega) stops
  rw [Rules.ternaryRule, bind_of_ok first, bind_of_ok (accept_cons question.2 (by decide)),
    if_pos rfl, bind_of_ok second, bind_of_ok (expect_cons colon.2 (by decide))]
  exact map_of_ok third

theorem reads_unassigned (h : Reads .ternary n w e n') : Reads .expression n w e n' := by
  intro limit rest short stops
  have noEqual : Cursor.kind ⟨rest, n'⟩ ≠ .equal := ne_of_looser stops
  rw [Rules.expressionRule, bind_of_ok (h limit rest short (Nat.lt_trans (by decide) stops)),
    bind_of_ok (accept?_other (by simpa using noEqual))]
  rfl

/-- A target is read as an expression first, and becomes one of an assignment at the equals
sign. -/
theorem read_assignment (target : Reads .ternary n w₁ left n₁) (equal : Terminal .equal)
    (value : Reads .expression n₁ w₂ e n₂) (short : w₁.length + 1 + w₂.length ≤ limit)
    (stops : 8 < looseness (Cursor.kind ⟨rest, n₂⟩)) :
    (rules limit).expressionRule ⟨w₁ ++ equal.1 :: (w₂ ++ rest), n⟩ =
      Rules.assignTo left equal.1 e ⟨rest, n₂⟩ := by
  have read := target limit (equal.1 :: (w₂ ++ rest)) (by omega) (by simp [looseness])
  have assigned : (rules limit).expression ⟨w₂ ++ rest, n₁⟩ = .ok e ⟨rest, n₂⟩ :=
    read_expression value rest (by omega) stops
  rw [Rules.expressionRule, bind_of_ok read, bind_of_ok (accept?_cons (by simp) (by decide))]
  exact bind_of_ok assigned

theorem reads_name (token : Terminal .identifier) :
    Reads .primary n [token.1] (.varRef ⟨n, token.1⟩) (n + 1) := by
  intro limit rest short
  simp only [Rules.primary, List.cons_append, List.nil_append, peek_bind, List.headD_cons,
    token.2, advance_terminal token (by decide)]
  rfl

theorem reads_assign (name : Terminal .identifier) (equal : Terminal .equal)
    (value : Reads .expression (n + 1) w e n') :
    Reads .expression n (name.1 :: equal.1 :: w) (.assign ⟨n', name.1⟩ e) (n' + 1) := by
  intro limit rest short stops
  have target : Reads .ternary n [name.1] (.varRef ⟨n, name.1⟩) (n + 1) :=
    reads_target (.primary (.name name)) (reads_primary (.name name) (reads_name name))
  refine (read_assignment target equal value ?_ stops).trans rfl
  simpa [Nat.add_comm, Nat.add_left_comm] using short

theorem reads_setProperty (d : Derives .call n w₁ o n₁) (object : Reads .call n w₁ o n₁)
    (dot : Terminal .dot) (name : Terminal .identifier) (equal : Terminal .equal)
    (value : Reads .expression n₁ w₂ e n₂) :
    Reads .expression n (w₁ ++ dot.1 :: name.1 :: equal.1 :: w₂) (.setProperty o name.1 e) n₂ := by
  intro limit rest short stops
  have target : Reads .ternary n (w₁ ++ [dot.1, name.1]) (.property o name.1) n₁ :=
    reads_target (.property d dot name) (reads_property object dot name)
  have fits : (w₁ ++ [dot.1, name.1]).length + 1 + w₂.length ≤ limit := by
    simp only [List.length_append, List.length_cons, List.length_nil] at short ⊢
    omega
  have read := read_assignment target equal value fits stops
  simp only [List.append_assoc, List.cons_append, List.nil_append] at read ⊢
  exact read.trans rfl

theorem Names.listed (h : Names w names) (stops : Cursor.kind ⟨rest, n⟩ ≠ .comma) :
    Listed (expectName role) ⟨w ++ rest, n⟩ names ⟨rest, n⟩ := by
  induction h with
  | one name => exact .one (expectName_cons name.2) stops
  | more name comma _ ih => exact .more (expectName_cons name.2) comma.2 ih

theorem Names.opens (h : Names w names) : Cursor.kind ⟨w ++ rest, n⟩ = .identifier := by
  cases h with
  | one name => exact name.2
  | more name => exact name.2

theorem read_parameters (h : Parameters w params) (right : Terminal .rightParen)
    (short : w.length ≤ limit) :
    parameters limit ⟨w ++ right.1 :: rest, n⟩ = .ok params ⟨rest, n⟩ := by
  have read : listed "parameters" (expectName "parameter") limit ⟨w ++ right.1 :: rest, n⟩ =
      .ok params ⟨right.1 :: rest, n⟩ := by
    refine listed_ok_iff.mpr ?_
    cases h with
    | none => exact .inl ⟨right.2, rfl, rfl⟩
    | some names few =>
      refine .inr ⟨by simp [names.opens], names.listed (by simp), few, ?_⟩
      exact Nat.le_trans names.length_le short
  rw [parameters, bind_of_ok read, bind_of_ok (expect_cons right.2 (by decide))]
  rfl

theorem reads_block (d : Derives .declarations n w ss n') (left : Terminal .leftBrace)
    (body : Reads .declarations n w ss n') (right : Terminal .rightBrace) :
    Reads .block n (left.1 :: (w ++ [right.1])) ss n' := by
  refine ⟨left, w ++ [right.1], rfl, ?_⟩
  intro limit rest short
  simp only [List.length_append, List.length_cons, List.length_nil] at short
  simp only [List.append_assoc, List.cons_append, List.nil_append]
  have repeated := body limit [.rightBrace, .eof] (right.1 :: rest) (by omega)
    (List.Subset.refl _) (by simp)
  have count : ss.length ≤ w.length := d.parts_le
  have read : untilBrace (rules limit).declaration limit ⟨w ++ right.1 :: rest, n⟩ =
      .ok ss ⟨right.1 :: rest, n'⟩ := itemsUntil_ok_iff.mpr ⟨repeated, by omega⟩
  rw [Rules.block, rules_limit, bind_of_ok read, bind_of_ok (expect_cons right.2 (by decide))]
  rfl

theorem reads_functionRest (left : Terminal .leftParen) (names : Parameters w₁ params)
    (right : Terminal .rightParen) (body : Reads .block n w₂ ss n') :
    ReadsFunction n (left.1 :: (w₁ ++ right.1 :: w₂)) params ss n' := by
  obtain ⟨brace, tail, rfl, block⟩ := body
  exact ⟨left, w₁, right, brace, tail, rfl, names, block⟩

theorem read_functionRest (h : ReadsFunction n w params body n') (name : Option Token)
    (line : Nat) (role : String) (short : w.length ≤ limit) :
    (rules limit).functionRest name line role ⟨w ++ rest, n⟩ =
      .ok ⟨name, params, body, line⟩ ⟨rest, n'⟩ := by
  obtain ⟨left, w₁, right, brace, tail, rfl, names, block⟩ := h
  simp only [List.length_append, List.length_cons] at short
  simp only [List.append_assoc, List.cons_append]
  rw [Rules.functionRest, bind_of_ok (expect_cons left.2 (by decide)), rules_limit,
    bind_of_ok (read_parameters names right (by omega)),
    bind_of_ok (expect_cons brace.2 (by decide)), bind_of_ok (block limit rest (by omega))]
  rfl

theorem read_function (h : Reads .function n w f n') (role : String) (short : w.length ≤ limit) :
    (rules limit).function role ⟨w ++ rest, n⟩ = .ok f ⟨rest, n'⟩ := by
  obtain ⟨name, tail, rfl, named, line, body⟩ := h
  obtain ⟨_, params, ss, _⟩ := f
  subst named line
  simp only [List.length_cons] at short
  rw [Rules.function, List.cons_append, bind_of_ok (expectName_cons name.2)]
  exact read_functionRest body (some name.1) name.1.line role (by omega)

theorem reads_lambda (token : Terminal .kwFun) (h : ReadsFunction n w params body n') :
    Reads .primary n (token.1 :: w) (.lambda ⟨none, params, body, token.1.line⟩) n' := by
  intro limit rest short
  simp only [List.length_cons] at short
  simp only [Rules.primary, List.cons_append, peek_bind, List.headD_cons, token.2,
    advance_terminal token (by decide)]
  exact map_of_ok (read_functionRest h none token.1.line "lambda" (by omega))

theorem reads_group (left : Terminal .leftParen) (value : Reads .expression n w e n')
    (right : Terminal .rightParen) :
    Reads .primary n (left.1 :: (w ++ [right.1])) (.group e) n' := by
  intro limit rest short
  simp only [List.length_cons, List.length_append, List.length_nil] at short
  have inner : (rules limit).expression ⟨w ++ right.1 :: rest, n⟩ = .ok e ⟨right.1 :: rest, n'⟩ :=
    read_expression value _ (by omega) (by simp [looseness])
  simp only [Rules.primary, List.cons_append, List.append_assoc, List.nil_append, peek_bind,
    List.headD_cons, left.2, advance_terminal left (by decide), bind_of_ok inner,
    bind_of_ok (expect_cons right.2 (by decide))]
  rfl

theorem reads_super (token : Terminal .kwSuper) (dot : Terminal .dot)
    (method : Terminal .identifier) :
    Reads .primary n [token.1, dot.1, method.1] (.superRef ⟨n, token.1⟩ method.1) (n + 1) := by
  intro limit rest short
  simp only [Rules.primary, List.cons_append, List.nil_append, peek_bind, List.headD_cons,
    token.2, advance_terminal token (by decide), bind_of_ok (expect_cons dot.2 (by decide)),
    bind_of_ok (expectName_cons method.2)]
  rfl

theorem reads_expressionStatement (value : Reads .expression n w e n')
    (stop : Terminal .semicolon) :
    Reads .expressionStatement n (w ++ [stop.1]) (.expression e) n' := by
  intro limit rest short
  simp only [List.length_append, List.length_cons, List.length_nil] at short
  simp only [List.append_assoc, List.cons_append, List.nil_append]
  rw [Rules.expressionStatement,
    bind_of_ok (value limit (stop.1 :: rest) (by omega) (by simp [looseness])),
    bind_of_ok (expect_cons stop.2 (by decide))]
  rfl

theorem reads_initializer (equal : Terminal .equal) (value : Reads .expression n w e n') :
    Reads .initializer n (equal.1 :: w) (some e) n' := by
  intro limit rest short stops
  simp only [List.length_cons] at short
  have read : (rules limit).expression ⟨w ++ rest, n⟩ = .ok e ⟨rest, n'⟩ :=
    read_expression value rest (by omega) (by rw [stops]; decide)
  rw [Rules.initializer, List.cons_append, bind_of_ok (accept_cons equal.2 (by decide)),
    if_pos rfl, bind_of_ok read]
  rfl

theorem reads_noInitializer : Reads .initializer n [] none n := by
  intro limit rest short stops
  have noEqual : Cursor.kind ⟨rest, n⟩ ≠ .equal := by simp [stops]
  rw [Rules.initializer, List.nil_append, bind_of_ok (accept_other noEqual)]
  rfl

theorem reads_varDecl (keyword : Terminal .kwVar) (name : Terminal .identifier)
    (value : Reads .initializer n w e n') (stop : Terminal .semicolon) :
    Reads .varDecl n (keyword.1 :: name.1 :: (w ++ [stop.1])) (.varDecl name.1 e) n' := by
  refine ⟨keyword, name.1 :: (w ++ [stop.1]), rfl, ?_⟩
  intro limit rest short
  simp only [List.length_cons, List.length_append, List.length_nil] at short
  simp only [List.cons_append, List.append_assoc, List.nil_append]
  rw [Rules.varDeclaration, bind_of_ok (expectName_cons name.2),
    bind_of_ok (value limit (stop.1 :: rest) (by omega) stop.2),
    bind_of_ok (expect_cons stop.2 (by decide))]
  rfl

theorem reads_someExpression (d : Derives .expression n w e n')
    (value : Reads .expression n w e n') :
    Reads .maybeExpression n w (some e) n' := by
  intro limit stop rest short member stops
  have opens : opensExpression (Cursor.kind ⟨w ++ rest, n⟩) := d.begins.kind rfl
  have loose : opensExpression stop = false ∧ 8 < looseness stop := by
    simp only [List.mem_cons, List.not_mem_nil, or_false] at member
    obtain rfl | rfl := member <;> decide
  have read : (rules limit).expression ⟨w ++ rest, n⟩ = .ok e ⟨rest, n'⟩ :=
    read_expression value rest short (by rw [stops]; exact loose.2)
  rw [Rules.expressionUnless, bind_of_ok (check_eq _ _),
    if_neg (by simpa using ne_of_opens opens loose.1), bind_of_ok read]
  rfl

theorem reads_noExpression : Reads .maybeExpression n [] none n := by
  intro limit stop rest short member stops
  rw [Rules.expressionUnless, List.nil_append, bind_of_ok (check_eq _ _),
    if_pos (decide_eq_true stops)]
  rfl

theorem reads_noStart (stop : Terminal .semicolon) : Reads .forStart n [stop.1] none n := by
  intro limit rest short
  rw [Rules.forStart, List.cons_append, bind_of_ok (accept_cons stop.2 (by decide))]
  rfl

theorem reads_startVar (h : Reads .varDecl n w s n') : Reads .forStart n w (some s) n' := by
  intro limit rest short
  obtain ⟨keyword, tail, rfl, read⟩ := h
  simp only [List.length_cons] at short
  have noSemicolon : Cursor.kind ⟨keyword.1 :: (tail ++ rest), n⟩ ≠ .semicolon := by simp
  rw [Rules.forStart, List.cons_append, bind_of_ok (accept_other noSemicolon), if_neg (by decide),
    bind_of_ok (accept_cons keyword.2 (by decide)), if_pos rfl,
    bind_of_ok (read limit rest (by omega))]
  rfl

theorem reads_startExpression (d : Derives .expressionStatement n w s n')
    (h : Reads .expressionStatement n w s n') : Reads .forStart n w (some s) n' := by
  intro limit rest short
  have opens : opensExpression (Cursor.kind ⟨w ++ rest, n⟩) := d.begins.kind rfl
  rw [Rules.forStart, bind_of_ok (accept_other (ne_of_opens opens rfl)), if_neg (by decide),
    bind_of_ok (accept_other (ne_of_opens opens rfl)), if_neg (by decide),
    bind_of_ok (h limit rest short)]
  rfl

theorem read_statement (h : Reads (.statement dangling) n w s n') (rest : List Token)
    (short : w.length < limit) (free : dangling → Cursor.kind ⟨rest, n'⟩ ≠ .kwElse) :
    (rules limit).statement ⟨w ++ rest, n⟩ = .ok s ⟨rest, n'⟩ := by
  cases limit with
  | zero => omega
  | succ limit => exact h limit rest (by omega) free

theorem reads_forLoop (keyword : Terminal .kwFor) (left : Terminal .leftParen)
    (start : Reads .forStart n w₁ first n₁) (condition : Reads .maybeExpression n₁ w₂ c n₂)
    (stop : Terminal .semicolon) (increment : Reads .maybeExpression n₂ w₃ i n₃)
    (right : Terminal .rightParen) (body : Reads (.statement dangling) n₃ w₄ s n₄) :
    Reads (.statement dangling) n
      (keyword.1 :: left.1 :: (w₁ ++ w₂ ++ stop.1 :: w₃ ++ right.1 :: w₄))
      (forLoop first c i s) n₄ := by
  intro limit rest short free
  simp only [List.length_cons, List.length_append] at short
  simp only [Rules.statementRule, List.cons_append, List.append_assoc, peek_bind, List.headD_cons,
    keyword.2, advance_terminal keyword (by decide)]
  have asked := condition limit .semicolon (stop.1 :: (w₃ ++ right.1 :: (w₄ ++ rest))) (by omega)
    (by simp) stop.2
  have counted := increment limit .rightParen (right.1 :: (w₄ ++ rest)) (by omega) (by simp) right.2
  rw [Rules.forStatement, bind_of_ok (expect_cons left.2 (by decide)),
    bind_of_ok (start limit _ (by omega)), bind_of_ok asked,
    bind_of_ok (expect_cons stop.2 (by decide)), bind_of_ok counted,
    bind_of_ok (expect_cons right.2 (by decide)),
    bind_of_ok (read_statement body rest (by omega) free)]
  cases first <;> rfl

theorem reads_ifThen (keyword : Terminal .kwIf) (left : Terminal .leftParen)
    (condition : Reads .expression n w₁ e n₁) (right : Terminal .rightParen)
    (branch : Reads (.statement dangling) n₁ w₂ s n₂) :
    Reads (.statement true) n (keyword.1 :: left.1 :: (w₁ ++ right.1 :: w₂))
      (.ifElse e s none) n₂ := by
  intro limit rest short free
  simp only [List.length_cons, List.length_append] at short
  simp only [Rules.statementRule, List.cons_append, List.append_assoc, peek_bind, List.headD_cons,
    keyword.2, advance_terminal keyword (by decide)]
  have noElse : (rules limit).elseBranch ⟨rest, n₂⟩ = .ok none ⟨rest, n₂⟩ := by
    rw [Rules.elseBranch, bind_of_ok (accept_other (free rfl))]
    rfl
  rw [Rules.ifStatement, bind_of_ok (expect_cons left.2 (by decide)),
    bind_of_ok (read_expression condition _ (by omega) (by simp [looseness])),
    bind_of_ok (expect_cons right.2 (by decide)),
    bind_of_ok (read_statement branch rest (by omega) fun _ => free rfl), bind_of_ok noElse]
  rfl

theorem reads_ifThenElse (keyword : Terminal .kwIf) (left : Terminal .leftParen)
    (condition : Reads .expression n w₁ e n₁) (right : Terminal .rightParen)
    (branch : Reads (.statement false) n₁ w₂ s n₂) (otherwise : Terminal .kwElse)
    (other : Reads (.statement dangling) n₂ w₃ s' n₃) :
    Reads (.statement dangling) n
      (keyword.1 :: left.1 :: (w₁ ++ right.1 :: w₂ ++ otherwise.1 :: w₃))
      (.ifElse e s (some s')) n₃ := by
  intro limit rest short free
  simp only [List.length_cons, List.length_append] at short
  simp only [Rules.statementRule, List.cons_append, List.append_assoc, peek_bind, List.headD_cons,
    keyword.2, advance_terminal keyword (by decide)]
  have taken : (rules limit).elseBranch ⟨otherwise.1 :: (w₃ ++ rest), n₂⟩ =
      .ok (some s') ⟨rest, n₃⟩ := by
    rw [Rules.elseBranch, bind_of_ok (accept_cons otherwise.2 (by decide)), if_pos rfl,
      bind_of_ok (read_statement other rest (by omega) free)]
    rfl
  rw [Rules.ifStatement, bind_of_ok (expect_cons left.2 (by decide)),
    bind_of_ok (read_expression condition _ (by omega) (by simp [looseness])),
    bind_of_ok (expect_cons right.2 (by decide)),
    bind_of_ok (read_statement branch _ (by omega) nofun), bind_of_ok taken]
  rfl

theorem reads_whileLoop (keyword : Terminal .kwWhile) (left : Terminal .leftParen)
    (condition : Reads .expression n w₁ e n₁) (right : Terminal .rightParen)
    (body : Reads (.statement dangling) n₁ w₂ s n₂) :
    Reads (.statement dangling) n (keyword.1 :: left.1 :: (w₁ ++ right.1 :: w₂))
      (.loop e s none) n₂ := by
  intro limit rest short free
  simp only [List.length_cons, List.length_append] at short
  simp only [Rules.statementRule, List.cons_append, List.append_assoc, peek_bind, List.headD_cons,
    keyword.2, advance_terminal keyword (by decide)]
  rw [Rules.whileStatement, bind_of_ok (expect_cons left.2 (by decide)),
    bind_of_ok (read_expression condition _ (by omega) (by simp [looseness])),
    bind_of_ok (expect_cons right.2 (by decide)),
    bind_of_ok (read_statement body rest (by omega) free)]
  rfl

theorem reads_print (keyword : Terminal .kwPrint) (value : Reads .expression n w e n')
    (stop : Terminal .semicolon) :
    Reads (.statement false) n (keyword.1 :: (w ++ [stop.1])) (.print e) n' := by
  intro limit rest short free
  simp only [List.length_cons, List.length_append, List.length_nil] at short
  simp only [Rules.statementRule, List.cons_append, List.append_assoc, List.nil_append, peek_bind,
    List.headD_cons, keyword.2, advance_terminal keyword (by decide)]
  rw [Rules.printStatement,
    bind_of_ok (read_expression value (stop.1 :: rest) (by omega) (by simp [looseness])),
    bind_of_ok (expect_cons stop.2 (by decide))]
  rfl

theorem reads_returns (keyword : Terminal .kwReturn) (value : Reads .maybeExpression n w e n')
    (stop : Terminal .semicolon) :
    Reads (.statement false) n (keyword.1 :: (w ++ [stop.1])) (.returns keyword.1 e) n' := by
  intro limit rest short free
  simp only [List.length_cons, List.length_append, List.length_nil] at short
  simp only [Rules.statementRule, List.cons_append, List.append_assoc, List.nil_append, peek_bind,
    List.headD_cons, keyword.2, advance_terminal keyword (by decide)]
  rw [Rules.returnStatement,
    bind_of_ok (value limit .semicolon (stop.1 :: rest) (by omega) (by simp) stop.2),
    bind_of_ok (expect_cons stop.2 (by decide))]
  rfl

theorem reads_flow (signal : Signal) (word : Terminal (keyword signal))
    (stop : Terminal .semicolon) :
    Reads (.statement false) n [word.1, stop.1] (.flow signal word.1.line) n := by
  intro limit rest short free
  cases signal with
  | exitLoop =>
    simp only [Rules.statementRule, List.cons_append, List.nil_append, peek_bind, List.headD_cons,
      word.2, keyword, advance_terminal word (by decide)]
    rw [Rules.flowStatement, bind_of_ok (expect_cons stop.2 (by decide))]
    rfl
  | nextTurn =>
    simp only [Rules.statementRule, List.cons_append, List.nil_append, peek_bind, List.headD_cons,
      word.2, keyword, advance_terminal word (by decide)]
    rw [Rules.flowStatement, bind_of_ok (expect_cons stop.2 (by decide))]
    rfl

theorem reads_inner (body : Reads .block n w ss n') :
    Reads (.statement false) n w (.block ss) n' := by
  obtain ⟨left, tail, rfl, read⟩ := body
  intro limit rest short free
  simp only [List.length_cons] at short
  simp only [Rules.statementRule, List.cons_append, peek_bind, List.headD_cons, left.2,
    advance_terminal left (by decide), bind_of_ok (read limit rest (by omega))]
  rfl

/-- No word that stands for a kind of statement begins an expression. -/
theorem statementRule_expression {rules : Rules} (h : opensExpression (Cursor.kind c)) :
    rules.statementRule c = rules.expressionStatement c := by
  unfold Cursor.kind at h
  rw [Rules.statementRule, peek_bind]
  generalize (c.rest.headD (.eof 0)).kind = kind at h
  cases kind with
  | kwFor | kwIf | kwWhile | kwReturn | kwBreak | kwContinue | leftBrace | kwPrint =>
    exact absurd h (by decide)
  | _ => rfl

theorem reads_evaluate (d : Derives .expressionStatement n w s n')
    (h : Reads .expressionStatement n w s n') : Reads (.statement false) n w s n' := by
  intro limit rest short free
  rw [statementRule_expression (d.begins.kind rfl)]
  exact h limit rest short

theorem reads_noSuperclass : Reads .superclass n [] none n := by
  intro rest stops
  rw [Rules.superclass, List.nil_append, bind_of_ok (accept_other stops)]
  rfl

theorem reads_superclass (less : Terminal .less) (name : Terminal .identifier) :
    Reads .superclass n [less.1, name.1] (some ⟨n, name.1⟩) (n + 1) := by
  intro rest stops
  simp only [List.cons_append, List.nil_append]
  rw [Rules.superclass, bind_of_ok (accept_cons less.2 (by decide)), if_pos rfl,
    bind_of_ok (expectName_cons name.2)]
  rfl

theorem traitName_cons (name : Terminal .identifier) :
    Rules.traitName ⟨name.1 :: rest, n⟩ = .ok ⟨n, name.1⟩ ⟨rest, n + 1⟩ := by
  rw [Rules.traitName, bind_of_ok (expectName_cons name.2)]
  rfl

theorem reads_noMixins : Reads .mixins n [] [] n := by
  intro limit rest short stops
  have noWith : Cursor.kind ⟨rest, n⟩ ≠ .kwWith := by simp [stops]
  rw [Rules.mixins, List.nil_append, bind_of_ok (accept_other noWith)]
  rfl

theorem reads_mixins (d : Derives .traitNames n w ts n') (keyword : Terminal .kwWith)
    (names : Reads .traitNames n w ts n') : Reads .mixins n (keyword.1 :: w) ts n' := by
  intro limit rest short stops
  simp only [List.length_cons] at short
  have count : ts.length ≤ w.length := d.parts_le
  rw [Rules.mixins, List.cons_append, bind_of_ok (accept_cons keyword.2 (by decide)), rules_limit]
  exact separated_ok_iff.mpr ⟨names rest stops, nofun, by omega⟩

theorem reads_static (keyword : Terminal .kwClass) (method : Reads .function n w f n') :
    Reads .member n (keyword.1 :: w) (.static f) n' := by
  intro limit rest short
  simp only [List.length_cons] at short
  rw [Rules.member, List.cons_append, bind_of_ok (accept_cons keyword.2 (by decide)), if_pos rfl,
    bind_of_ok (read_function method _ (by omega))]
  rfl

theorem reads_getter (name : Terminal .identifier) (body : Reads .block n w ss n') :
    Reads .member n (name.1 :: w) (.method ⟨⟨some name.1, [], ss, name.1.line⟩, true⟩) n' := by
  obtain ⟨left, tail, rfl, read⟩ := body
  intro limit rest short
  simp only [List.length_cons] at short
  have noClass : Cursor.kind ⟨name.1 :: left.1 :: (tail ++ rest), n⟩ ≠ .kwClass := by simp
  simp only [List.cons_append]
  rw [Rules.member, bind_of_ok (accept_other noClass), if_neg (by decide),
    bind_of_ok (expectName_cons name.2), bind_of_ok (accept_cons left.2 (by decide)), if_pos rfl,
    bind_of_ok (read limit rest (by omega))]
  rfl

theorem reads_method (method : Reads .function n w f n') :
    Reads .member n w (.method ⟨f, false⟩) n' := by
  obtain ⟨name, tail, rfl, named, line, body⟩ := method
  obtain ⟨_, params, ss, _⟩ := f
  subst named line
  intro limit rest short
  simp only [List.length_cons] at short
  have noClass : Cursor.kind ⟨name.1 :: (tail ++ rest), n⟩ ≠ .kwClass := by simp
  have noBrace : Cursor.kind ⟨tail ++ rest, n⟩ ≠ .leftBrace := by
    obtain ⟨left, _, _, _, _, rfl, -⟩ := body
    simp
  have read : (rules limit).functionRest (some name.1) name.1.line "method" ⟨tail ++ rest, n⟩ =
      .ok ⟨some name.1, params, ss, name.1.line⟩ ⟨rest, n'⟩ :=
    read_functionRest body _ _ _ (Nat.le_of_succ_le short)
  rw [Rules.member, List.cons_append, bind_of_ok (accept_other noClass), if_neg (by decide),
    bind_of_ok (expectName_cons name.2), bind_of_ok (accept_other noBrace), if_neg (by decide),
    bind_of_ok read]
  rfl

theorem reads_noMembers : Reads .members n [] [] n := by
  intro limit rest short stops
  exact .nil (by simp [stops])

theorem reads_moreMembers (d : Derives .member n w₁ m n₁) (first : Reads .member n w₁ m n₁)
    (others : Reads .members n₁ w₂ ms n₂) : Reads .members n (w₁ ++ w₂) (m :: ms) n₂ := by
  intro limit rest short stops
  simp only [List.length_append] at short
  rw [List.append_assoc]
  exact .cons (d.begins.not_closed rfl rfl rfl) (first limit (w₂ ++ rest) (by omega))
    (others limit rest (by omega) stops)

theorem read_classDeclaration (members : Derives .members n₂ w₃ ms n₃)
    (name : Terminal .identifier) (mixed : Derives .mixins n₁ w₂ ts n₂)
    (parent : Reads .superclass n w₁ c n₁) (traits : Reads .mixins n₁ w₂ ts n₂)
    (left : Terminal .leftBrace) (body : Reads .members n₂ w₃ ms n₃)
    (right : Terminal .rightBrace) (limit : Nat) (rest : List Token)
    (short : w₁.length + w₂.length + w₃.length + 2 ≤ limit) :
    (rules limit).classDeclaration
      ⟨name.1 :: (w₁ ++ (w₂ ++ left.1 :: (w₃ ++ right.1 :: rest))), n⟩ =
      .ok (.classDecl ⟨name.1, c, ts, ms.filterMap Rules.Member.method?,
        ms.filterMap Rules.Member.static?⟩) ⟨rest, n₃⟩ := by
  have noLess : Cursor.kind ⟨w₂ ++ left.1 :: (w₃ ++ right.1 :: rest), n₁⟩ ≠ .less := by
    cases mixed with
    | noMixins => simp
    | mixins => simp
  have count : ms.length ≤ w₃.length := members.parts_le
  have repeated := body limit (right.1 :: rest) (by omega) right.2
  have read : untilBrace (rules limit).member limit ⟨w₃ ++ right.1 :: rest, n₂⟩ =
      .ok ms ⟨right.1 :: rest, n₃⟩ := itemsUntil_ok_iff.mpr ⟨repeated, by omega⟩
  have mixed := traits limit (left.1 :: (w₃ ++ right.1 :: rest)) (by omega) left.2
  rw [Rules.classDeclaration, bind_of_ok (expectName_cons name.2), bind_of_ok (parent _ noLess),
    bind_of_ok mixed, bind_of_ok (expect_cons left.2 (by decide)), rules_limit, bind_of_ok read,
    bind_of_ok (expect_cons right.2 (by decide))]
  rfl

theorem reads_asked (name : Terminal .identifier) (left : Terminal .leftParen)
    (names : Parameters w params) (right : Terminal .rightParen) (stop : Terminal .semicolon) :
    Reads .traitMember n (name.1 :: left.1 :: (w ++ [right.1, stop.1]))
      (.asked ⟨name.1, params.length⟩) n := by
  intro limit rest short
  simp only [List.length_cons, List.length_append, List.length_nil] at short
  simp only [List.cons_append, List.append_assoc, List.nil_append]
  rw [Rules.traitMember, bind_of_ok (expectName_cons name.2),
    bind_of_ok (expect_cons left.2 (by decide)), rules_limit,
    bind_of_ok (read_parameters names right (by omega)),
    bind_of_ok (accept_cons stop.2 (by decide)), if_pos rfl]
  rfl

theorem reads_default (method : Reads .function n w f n') :
    Reads .traitMember n w (.default f) n' := by
  obtain ⟨name, _, rfl, named, line, left, w₁, right, brace, tail, rfl, names, block⟩ := method
  obtain ⟨_, params, ss, _⟩ := f
  subst named line
  intro limit rest short
  simp only [List.length_cons, List.length_append] at short
  have noSemicolon : Cursor.kind ⟨brace.1 :: (tail ++ rest), n⟩ ≠ .semicolon := by simp
  simp only [List.cons_append, List.append_assoc]
  rw [Rules.traitMember, bind_of_ok (expectName_cons name.2),
    bind_of_ok (expect_cons left.2 (by decide)), rules_limit,
    bind_of_ok (read_parameters names right (by omega)), bind_of_ok (accept_other noSemicolon),
    if_neg (by decide), bind_of_ok (expect_cons brace.2 (by decide)),
    bind_of_ok (block limit rest (by omega))]
  rfl

theorem reads_noTraitMembers : Reads .traitMembers n [] [] n := by
  intro limit rest short stops
  exact .nil (by simp [stops])

theorem reads_moreTraitMembers (d : Derives .traitMember n w₁ m n₁)
    (first : Reads .traitMember n w₁ m n₁) (others : Reads .traitMembers n₁ w₂ ms n₂) :
    Reads .traitMembers n (w₁ ++ w₂) (m :: ms) n₂ := by
  intro limit rest short stops
  simp only [List.length_append] at short
  rw [List.append_assoc]
  exact .cons (d.begins.not_closed rfl rfl rfl) (first limit (w₂ ++ rest) (by omega))
    (others limit rest (by omega) stops)

theorem read_traitDeclaration (members : Derives .traitMembers n w ms n')
    (name : Terminal .identifier) (left : Terminal .leftBrace)
    (body : Reads .traitMembers n w ms n') (right : Terminal .rightBrace)
    (limit : Nat) (rest : List Token) (short : w.length + 1 ≤ limit) :
    (rules limit).traitDeclaration ⟨name.1 :: left.1 :: (w ++ right.1 :: rest), n⟩ =
      .ok (.traitDecl ⟨name.1, ms.filterMap Rules.TraitMember.asked?,
        ms.filterMap Rules.TraitMember.default?⟩) ⟨rest, n'⟩ := by
  have count : ms.length ≤ w.length := members.parts_le
  have repeated := body limit (right.1 :: rest) (by omega) right.2
  have read : untilBrace (rules limit).traitMember limit ⟨w ++ right.1 :: rest, n⟩ =
      .ok ms ⟨right.1 :: rest, n'⟩ := itemsUntil_ok_iff.mpr ⟨repeated, by omega⟩
  rw [Rules.traitDeclaration, bind_of_ok (expectName_cons name.2),
    bind_of_ok (expect_cons left.2 (by decide)), rules_limit, bind_of_ok read,
    bind_of_ok (expect_cons right.2 (by decide))]
  rfl

theorem reads_nil : Reads .declarations n [] [] n := by
  intro limit stops rest short closing stopped
  exact .nil stopped

theorem reads_cons (d₁ : Derives .declaration n w₁ s n₁) (d₂ : Derives .declarations n₁ w₂ ss n₂)
    (first : Reads .declaration n w₁ s n₁) (others : Reads .declarations n₁ w₂ ss n₂) :
    Reads .declarations n (w₁ ++ w₂) (s :: ss) n₂ := by
  intro limit stops rest short closing stopped
  simp only [List.length_append] at short
  rw [List.append_assoc]
  have noElse : Cursor.kind ⟨w₂ ++ rest, n₁⟩ ≠ .kwElse := by
    cases w₂ with
    | nil =>
      intro isElse
      have := closing (isElse ▸ stopped)
      simp at this
    | cons token tail => exact ne_of_opens d₂.begins rfl
  have read : (rules limit).declaration ⟨w₁ ++ (w₂ ++ rest), n⟩ = .ok s ⟨w₂ ++ rest, n₁⟩ := by
    cases limit with
    | zero => omega
    | succ limit => exact first limit (w₂ ++ rest) (by omega) noElse
  refine .cons (fun stop => ?_) read (others limit stops rest (by omega) closing stopped)
  exact d₁.begins.not_closed rfl rfl rfl (closing stop)

/-- Without a name after `fun`, the first token says what is declared. -/
theorem declarationRule_unnamed {rules : Rules} (h : ¬ NamesFunction c) :
    rules.declarationRule c = .ok s c' ↔ (match Cursor.kind c with
      | .kwClass => do advance; rules.classDeclaration
      | .kwTrait => do advance; rules.traitDeclaration
      | .kwVar => do advance; rules.varDeclaration
      | _ => rules.statementRule : Parser Stmt) c = .ok s c' := by
  rw [Rules.declarationRule, resync_ok_iff,
    bind_of_ok (namesFunction_false_iff.mpr ⟨h, rfl⟩), if_neg (by decide), peek_bind]
  rfl

theorem not_named {first : Terminal kind} (other : kind ≠ .kwFun) :
    ¬ NamesFunction ⟨first.1 :: rest, n⟩ := by
  rintro ⟨_, _, _, same, isFun, -⟩
  obtain ⟨rfl, -⟩ := List.cons.inj same
  exact other (first.2.symm.trans isFun)

theorem reads_functionDecl (keyword : Terminal .kwFun) (method : Reads .function n w f n') :
    Reads .declaration n (keyword.1 :: w) (.functionDecl f) n' := by
  intro limit rest short free
  simp only [List.length_cons] at short
  have named : NamesFunction ⟨keyword.1 :: (w ++ rest), n⟩ := by
    obtain ⟨name, tail, rfl, -⟩ := method
    exact ⟨keyword.1, name.1, tail ++ rest, rfl, keyword.2, name.2⟩
  rw [Rules.declarationRule, resync_ok_iff, List.cons_append,
    bind_of_ok (namesFunction_true_iff.mpr ⟨named, rfl⟩), if_pos rfl,
    advance_terminal keyword (by decide), bind_of_ok (read_function method "function" (by omega))]
  rfl

theorem reads_varDeclaration (h : Reads .varDecl n w s n') : Reads .declaration n w s n' := by
  obtain ⟨keyword, tail, rfl, read⟩ := h
  intro limit rest short free
  simp only [List.length_cons] at short
  rw [List.cons_append, declarationRule_unnamed (not_named (by decide))]
  simp only [kind_cons, keyword.2, advance_terminal keyword (by decide)]
  exact read limit rest (by omega)

theorem reads_statement (d : Derives (.statement dangling) n w s n')
    (h : Reads (.statement dangling) n w s n') : Reads .declaration n w s n' := by
  intro limit rest short free
  have opens : opensStatement (Cursor.kind ⟨w ++ rest, n⟩) := d.begins.kind rfl
  rw [declarationRule_unnamed (d.lambdaFirst rfl).not_named]
  have read := h limit rest short fun _ => free
  generalize Cursor.kind ⟨w ++ rest, n⟩ = kind at opens
  cases kind with
  | kwClass | kwTrait | kwVar => exact absurd opens (by decide)
  | _ => exact read

theorem Derives.reads (d : Derives N n w tree n') : Reads N n w tree n' := by
  induction d with
  | nil => exact reads_nil
  | cons d₁ d₂ first others => exact reads_cons d₁ d₂ first others
  | classDecl keyword name _ mixed left members right parent traits body =>
    intro limit rest short free
    simp only [List.length_cons, List.length_append, List.length_nil] at short
    simp only [List.cons_append, List.append_assoc, List.nil_append]
    rw [declarationRule_unnamed (not_named (by decide))]
    simp only [kind_cons, keyword.2, advance_terminal keyword (by decide)]
    exact read_classDeclaration members name mixed parent traits left body right limit rest
      (by omega)
  | noSuperclass => exact reads_noSuperclass
  | superclass less name => exact reads_superclass less name
  | noMixins => exact reads_noMixins
  | mixins keyword d names => exact reads_mixins d keyword names
  | traitName name =>
    intro rest stops
    exact .one (traitName_cons name) (fun isComma => by simp [stops] at isComma)
  | moreTraitNames name comma _ others =>
    intro rest stops
    exact .more (traitName_cons name) comma.2 (others rest stops)
  | noMembers => exact reads_noMembers
  | moreMembers d _ first others => exact reads_moreMembers d first others
  | static keyword _ method => exact reads_static keyword method
  | getter name _ body => exact reads_getter name body
  | method _ method => exact reads_method method
  | traitDecl keyword name left members right body =>
    intro limit rest short free
    simp only [List.length_cons, List.length_append, List.length_nil] at short
    simp only [List.cons_append, List.append_assoc, List.nil_append]
    rw [declarationRule_unnamed (not_named (by decide))]
    simp only [kind_cons, keyword.2, advance_terminal keyword (by decide)]
    exact read_traitDeclaration members name left body right limit rest (by omega)
  | noTraitMembers => exact reads_noTraitMembers
  | moreTraitMembers d _ first others => exact reads_moreTraitMembers d first others
  | asked name left names right stop => exact reads_asked name left names right stop
  | default _ method => exact reads_default method
  | functionDecl keyword _ method => exact reads_functionDecl keyword method
  | function name _ rest => exact ⟨name, _, rfl, rfl, rfl, rest⟩
  | functionRest left names right _ body => exact reads_functionRest left names right body
  | block left d right body => exact reads_block d left body right
  | varDeclaration _ declared => exact reads_varDeclaration declared
  | varDecl keyword name _ stop value => exact reads_varDecl keyword name value stop
  | noInitializer => exact reads_noInitializer
  | initializer equal _ value => exact reads_initializer equal value
  | statement d executed => exact reads_statement d executed
  | evaluate d value => exact reads_evaluate d value
  | expressionStatement _ stop value => exact reads_expressionStatement value stop
  | forLoop keyword left _ _ stop _ right _ start condition increment body =>
    exact reads_forLoop keyword left start condition stop increment right body
  | noStart stop => exact reads_noStart stop
  | startVar _ declared => exact reads_startVar declared
  | startExpression d value => exact reads_startExpression d value
  | ifThen keyword left _ right _ condition branch =>
    exact reads_ifThen keyword left condition right branch
  | ifThenElse keyword left _ right _ otherwise _ condition branch other =>
    exact reads_ifThenElse keyword left condition right branch otherwise other
  | whileLoop keyword left _ right _ condition body =>
    exact reads_whileLoop keyword left condition right body
  | print keyword _ stop value => exact reads_print keyword value stop
  | returns keyword _ stop value => exact reads_returns keyword value stop
  | flow signal word stop => exact reads_flow signal word stop
  | inner _ body => exact reads_inner body
  | noExpression => exact reads_noExpression
  | someExpression d value => exact reads_someExpression d value
  | assign name equal _ value => exact reads_assign name equal value
  | setProperty d dot name equal _ object value =>
    exact reads_setProperty d object dot name equal value
  | unassigned _ value => exact reads_unassigned value
  | ternary _ question _ colon _ condition thenValue elseValue =>
    exact reads_ternary condition question thenValue colon elseValue
  | unconditional _ value => exact reads_unconditional value
  | operation _ operator member d left right => exact reads_operation d left operator member right
  | first d value => exact reads_first d value
  | tighter next _ value => exact reads_tighter next value
  | tightest next _ value => exact reads_tightest next value
  | unary operator member _ right => exact reads_unary operator member right
  | positive d value => exact reads_positive d value
  | call _ left _ right callee given => exact reads_call callee left given right
  | property _ dot name object => exact reads_property object dot name
  | primary d value => exact reads_primary d value
  | noArguments => exact reads_noArguments
  | someArguments d few given => exact reads_someArguments d given few
  | argument _ value => exact reads_argument value
  | moreArguments _ comma _ value others => exact reads_moreArguments value comma others
  | name token => exact reads_name token
  | super token dot method => exact reads_super token dot method
  | lambda token _ rest => exact reads_lambda token rest
  | group left _ right value => exact reads_group left value right
  | no token | yes token | nothing token | number token | string token | this token =>
    intro limit rest short
    simp only [Rules.primary, List.cons_append, List.nil_append, peek_bind, List.headD_cons,
      token.2, advance_terminal token (by simp)]
    rfl

theorem program_complete (d : Derives .declarations n w ss n') (eof : Terminal .eof) :
    program ⟨w ++ [eof.1], n⟩ = .ok ss ⟨[eof.1], n'⟩ := by
  have repeated := d.reads ((w ++ [eof.1]).length + 1) [.eof] [eof.1]
    (by rw [List.length_append]; omega) (by simp)
    (by simp)
  have count : ss.length ≤ w.length := d.parts_le
  refine itemsUntil_ok_iff.mpr ⟨repeated, ?_⟩
  simp only [List.length_append, List.length_cons, List.length_nil]
  omega

theorem soleExpression_complete (d : Derives .expression n w e n') (eof : Terminal .eof) :
    soleExpression ⟨w ++ [eof.1], n⟩ = .ok e ⟨[eof.1], n'⟩ := by
  have read : (rules ((w ++ [eof.1]).length + 1)).expression ⟨w ++ [eof.1], n⟩ =
      .ok e ⟨[eof.1], n'⟩ :=
    read_expression d.reads [eof.1] (by rw [List.length_append]; omega) (by simp [looseness])
  refine (bind_of_ok read).trans ?_
  rw [peek_bind, if_pos (by simp)]
  rfl

end Lox.Grammar
