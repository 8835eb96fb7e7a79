import Lox.Syntax.Parser

/-! What the steps of a parser do to its cursor. A step that takes a token leaves the tokens after
it, every other step leaves the cursor where it is. -/

namespace Lox.Parser

/-- The kind of the next token. -/
def Cursor.kind (c : Cursor) : Kind := (c.rest.headD (.eof 0)).kind

/-- Items with commas between them and none after them. -/
inductive Listed (item : Parser α) : Cursor → List α → Cursor → Prop where
  | one (first : item c = .ok x c') (last : Cursor.kind c' ≠ .comma) : Listed item c [x] c'
  | more (first : item c = .ok x ⟨comma :: rest, n⟩) (separator : comma.kind = .comma)
      (others : Listed item ⟨rest, n⟩ xs c') : Listed item c (x :: xs) c'

/-- Items one after the other until a token of one of the given kinds stops them. -/
inductive Repeated (stops : List Kind) (item : Parser α) : Cursor → List α → Cursor → Prop where
  | nil (stopped : Cursor.kind c ∈ stops) : Repeated stops item c [] c
  | cons (more : Cursor.kind c ∉ stops) (first : item c = .ok x middle)
      (others : Repeated stops item middle xs c') : Repeated stops item c (x :: xs) c'

variable {p : Parser α} {f : α → Parser β} {c c' : Cursor}

theorem bind_ok_iff {b : β} :
    (p >>= f) c = .ok b c' ↔ ∃ a middle, p c = .ok a middle ∧ f a middle = .ok b c' := by
  change EStateM.bind p f c = _ ↔ _
  unfold EStateM.bind
  cases p c with
  | ok a middle => simp [and_assoc]
  | error e middle => simp

theorem bind_of_ok (h : p c = .ok a c') : (p >>= f) c = f a c' := by
  change EStateM.bind p f c = _
  simp only [EStateM.bind, h]

theorem pure_ok_iff {a b : α} : (pure a : Parser α) c = .ok b c' ↔ a = b ∧ c = c' := by
  change EStateM.Result.ok a c = _ ↔ _
  simp

theorem map_ok_iff {g : α → β} {b : β} :
    (g <$> p) c = .ok b c' ↔ ∃ a, p c = .ok a c' ∧ g a = b := by
  change EStateM.map g p c = _ ↔ _
  unfold EStateM.map
  cases p c with
  | ok a middle =>
    simp only [EStateM.Result.ok.injEq]
    constructor
    · rintro ⟨value, rfl⟩
      exact ⟨a, ⟨rfl, rfl⟩, value⟩
    · rintro ⟨_, ⟨rfl, rfl⟩, value⟩
      exact ⟨value, rfl⟩
  | error e middle => simp

theorem map_of_ok {g : α → β} (h : p c = .ok a c') : (g <$> p) c = .ok (g a) c' :=
  map_ok_iff.mpr ⟨a, h, rfl⟩

/-- A rule that fails is not resumed, so a result is that of the rule. -/
theorem resync_ok_iff {a : α} : resync p c = .ok a c' ↔ p c = .ok a c' := by
  change EStateM.tryCatch p _ c = _ ↔ _
  unfold EStateM.tryCatch
  cases p c with
  | ok b middle => simp
  | error e middle =>
    constructor
    · intro resumed
      cases resumed
    · intro failed
      cases failed

theorem failHere_not_ok {cause : ParseError.Cause} {a : α} : failHere cause c ≠ .ok a c' := by
  intro h
  cases h

theorem fail_not_ok {token : Token} {cause : ParseError.Cause} {a : α} :
    fail token cause c ≠ .ok a c' := by
  intro h
  cases h

@[simp] theorem kind_cons (t : Token) (rest : List Token) (n : NodeId) :
    Cursor.kind ⟨t :: rest, n⟩ = t.kind := rfl

theorem peek_eq (c : Cursor) : peek c = .ok (c.rest.headD (.eof 0)) c := rfl

theorem peek_bind (f : Token → Parser β) (c : Cursor) :
    (peek >>= f) c = f (c.rest.headD (.eof 0)) c := rfl

theorem check_eq (kind : Kind) (c : Cursor) :
    check kind c = .ok (decide (Cursor.kind c = kind)) c := rfl

/-- Whether the next two tokens are `fun` and a name. -/
def NamesFunction (c : Cursor) : Prop :=
  ∃ keyword name rest, c.rest = keyword :: name :: rest ∧ keyword.kind = .kwFun ∧
    name.kind = .identifier

theorem namesFunction_eq (c : Cursor) :
    ∃ names, namesFunction c = .ok names c ∧ (names = true ↔ NamesFunction c) := by
  obtain ⟨rest, n⟩ := c
  match rest with
  | [] => exact ⟨false, rfl, by simp [NamesFunction]⟩
  | [_] => exact ⟨false, rfl, by simp [NamesFunction]⟩
  | _ :: _ :: _ => exact ⟨_, rfl, by simp [NamesFunction, and_assoc]⟩

theorem namesFunction_true_iff :
    namesFunction c = .ok true c' ↔ NamesFunction c ∧ c' = c := by
  obtain ⟨names, h, same⟩ := namesFunction_eq c
  rw [h, EStateM.Result.ok.injEq, same, eq_comm (a := c)]

theorem namesFunction_false_iff :
    namesFunction c = .ok false c' ↔ ¬ NamesFunction c ∧ c' = c := by
  obtain ⟨names, h, same⟩ := namesFunction_eq c
  rw [h, EStateM.Result.ok.injEq, ← same, Bool.not_eq_true, eq_comm (a := c)]

theorem advance_cons {t : Token} {rest : List Token} {n : NodeId} (h : t.kind ≠ .eof) :
    advance ⟨t :: rest, n⟩ = .ok () ⟨rest, n⟩ := by
  change EStateM.Result.ok () (if t.kind = .eof then _ else _) = _
  rw [if_neg h]

/-- A token that is not the end of the input is the first of the tokens left. -/
theorem rest_of_kind {kind : Kind} (h : Cursor.kind c = kind) (notEnd : kind ≠ .eof) :
    ∃ t rest, t.kind = kind ∧ c.rest = t :: rest ∧ c.rest.headD (.eof 0) = t := by
  obtain ⟨rest, n⟩ := c
  cases rest with
  | nil => exact absurd h.symm notEnd
  | cons t rest => exact ⟨t, rest, h, rfl, rfl⟩

theorem accept?_cons {kinds : List Kind} {t : Token} {rest : List Token} {n : NodeId}
    (h : t.kind ∈ kinds) (notEnd : Kind.eof ∉ kinds) :
    accept? kinds ⟨t :: rest, n⟩ = .ok (some t) ⟨rest, n⟩ := by
  have notEof : t.kind ≠ .eof := fun same => notEnd (same ▸ h)
  change (if t.kind ∈ kinds then _ else _ : Parser (Option Token)) _ = _
  rw [if_pos h, bind_of_ok (advance_cons notEof)]
  rfl

theorem accept?_other {kinds : List Kind} (h : Cursor.kind c ∉ kinds) :
    accept? kinds c = .ok none c := by
  change (if Cursor.kind c ∈ kinds then _ else _ : Parser (Option Token)) _ = _
  rw [if_neg h]
  rfl

theorem accept?_some_iff {kinds : List Kind} (notEnd : Kind.eof ∉ kinds) :
    accept? kinds c = .ok (some t) c' ↔ t.kind ∈ kinds ∧ c = ⟨t :: c'.rest, c'.nextNode⟩ := by
  constructor
  · intro h
    obtain ⟨rest, n⟩ := c
    by_cases taken : Cursor.kind ⟨rest, n⟩ ∈ kinds
    · obtain ⟨u, tail, -, same, -⟩ := rest_of_kind rfl (fun eof => notEnd (eof ▸ taken))
      simp only at same
      subst same
      rw [accept?_cons (t := u) taken notEnd] at h
      cases h
      exact ⟨taken, rfl⟩
    · rw [accept?_other taken] at h
      cases h
  · rintro ⟨member, rfl⟩
    exact accept?_cons member notEnd

theorem accept?_none_iff {kinds : List Kind} (notEnd : Kind.eof ∉ kinds) :
    accept? kinds c = .ok none c' ↔ Cursor.kind c ∉ kinds ∧ c' = c := by
  by_cases taken : Cursor.kind c ∈ kinds
  · obtain ⟨rest, n⟩ := c
    obtain ⟨u, tail, -, same, -⟩ := rest_of_kind rfl (fun eof => notEnd (eof ▸ taken))
    simp only at same
    subst same
    rw [accept?_cons (t := u) taken notEnd]
    exact ⟨fun h => (by cases h), fun h => absurd taken h.1⟩
  · rw [accept?_other taken]
    constructor
    · intro h
      cases h
      exact ⟨taken, rfl⟩
    · rintro ⟨-, rfl⟩
      rfl

theorem accept_cons {kind : Kind} {t : Token} {rest : List Token} {n : NodeId}
    (h : t.kind = kind) (notEnd : kind ≠ .eof) :
    accept kind ⟨t :: rest, n⟩ = .ok true ⟨rest, n⟩ := by
  unfold accept
  rw [bind_of_ok (accept?_cons (by simpa using h) (by simpa using notEnd.symm))]
  rfl

theorem accept_other {kind : Kind} (h : Cursor.kind c ≠ kind) : accept kind c = .ok false c := by
  unfold accept
  rw [bind_of_ok (accept?_other (by simpa using h))]
  rfl

theorem accept_true_iff {kind : Kind} (notEnd : kind ≠ .eof) :
    accept kind c = .ok true c' ↔ ∃ t, t.kind = kind ∧ c = ⟨t :: c'.rest, c'.nextNode⟩ := by
  have noEof : Kind.eof ∉ [kind] := by simpa using notEnd.symm
  unfold accept
  simp only [bind_ok_iff, pure_ok_iff, Option.isSome_iff_exists]
  constructor
  · rintro ⟨_, _, taken, ⟨t, rfl⟩, rfl⟩
    obtain ⟨member, rest⟩ := (accept?_some_iff noEof).mp taken
    exact ⟨t, by simpa using member, rest⟩
  · rintro ⟨t, same, rest⟩
    exact ⟨_, _, (accept?_some_iff noEof).mpr ⟨by simpa using same, rest⟩, ⟨t, rfl⟩, rfl⟩

theorem accept_false_iff {kind : Kind} (notEnd : kind ≠ .eof) :
    accept kind c = .ok false c' ↔ Cursor.kind c ≠ kind ∧ c' = c := by
  by_cases same : Cursor.kind c = kind
  · obtain ⟨rest, n⟩ := c
    obtain ⟨t, tail, ht, shape, -⟩ := rest_of_kind same notEnd
    simp only at shape
    subst shape
    rw [accept_cons ht notEnd]
    exact ⟨fun h => (by cases h), fun h => absurd same h.1⟩
  · rw [accept_other same]
    constructor
    · intro h
      cases h
      exact ⟨same, rfl⟩
    · rintro ⟨-, rfl⟩
      rfl

theorem expect_cons {kind : Kind} {cause : ParseError.Cause} {t : Token} {rest : List Token}
    {n : NodeId} (h : t.kind = kind) (notEnd : kind ≠ .eof) :
    expect kind cause ⟨t :: rest, n⟩ = .ok t ⟨rest, n⟩ := by
  unfold expect
  rw [bind_of_ok (accept?_cons (by simpa using h) (by simpa using notEnd.symm))]
  rfl

theorem expect_ok_iff {kind : Kind} {cause : ParseError.Cause} (notEnd : kind ≠ .eof) :
    expect kind cause c = .ok t c' ↔ t.kind = kind ∧ c = ⟨t :: c'.rest, c'.nextNode⟩ := by
  have noEof : Kind.eof ∉ [kind] := by simpa using notEnd.symm
  unfold expect
  simp only [bind_ok_iff]
  constructor
  · rintro ⟨found, middle, taken, result⟩
    cases found with
    | none => exact absurd result failHere_not_ok
    | some u =>
      obtain ⟨rfl, rfl⟩ := pure_ok_iff.mp result
      simpa using (accept?_some_iff noEof).mp taken
  · intro h
    exact ⟨some t, c', (accept?_some_iff noEof).mpr (by simpa using h), rfl⟩

theorem expectName_cons {role : String} {t : Token} {rest : List Token} {n : NodeId}
    (h : t.kind = .identifier) : expectName role ⟨t :: rest, n⟩ = .ok t ⟨rest, n⟩ :=
  expect_cons h (by decide)

theorem expectName_ok_iff {role : String} :
    expectName role c = .ok t c' ↔ t.kind = .identifier ∧ c = ⟨t :: c'.rest, c'.nextNode⟩ :=
  expect_ok_iff (by decide)

theorem refer_eq (name : Token) (c : Cursor) :
    refer name c = .ok ⟨c.nextNode, name⟩ ⟨c.rest, c.nextNode + 1⟩ := rfl

theorem Repeated.stopped (h : Repeated stops item c xs c') : Cursor.kind c' ∈ stops := by
  induction h with
  | nil stopped => exact stopped
  | cons _ _ _ ih => exact ih

theorem roomFor_ok_iff {u : Unit} :
    roomFor what count c = .ok u c' ↔ (what.isSome → count < maxItems) ∧ c = c' := by
  unfold roomFor
  cases what with
  | none => simp [pure_ok_iff]
  | some text =>
    by_cases full : maxItems ≤ count
    · simp only [full, if_true, Option.isSome_some, forall_const]
      exact ⟨fun h => absurd h failHere_not_ok, fun h => absurd h.1 (by omega)⟩
    · simp [full, pure_ok_iff, Nat.lt_of_not_le full]

theorem separated_ok_iff {xs : List α} :
    separated what p limit count c = .ok xs c' ↔
      Listed p c xs c' ∧ (what.isSome → count + xs.length ≤ maxItems) ∧ xs.length ≤ limit := by
  induction limit generalizing count c xs with
  | zero =>
    constructor
    · exact fun h => absurd h failHere_not_ok
    · rintro ⟨listed, -, none⟩
      cases listed <;> simp at none
  | succ limit ih =>
    simp only [separated, bind_ok_iff, roomFor_ok_iff]
    constructor
    · rintro ⟨_, _, ⟨free, rfl⟩, x, c₁, first, more, c₂, comma, h⟩
      cases more with
      | false =>
        obtain ⟨last, rfl⟩ := (accept_false_iff (by decide)).mp comma
        obtain ⟨rfl, rfl⟩ := pure_ok_iff.mp h
        exact ⟨.one first last, free, by simp⟩
      | true =>
        obtain ⟨t, separator, rfl⟩ := (accept_true_iff (by decide)).mp comma
        simp only [if_true, bind_ok_iff, pure_ok_iff] at h
        obtain ⟨others, _, rest, rfl, rfl⟩ := h
        obtain ⟨listed, few, enough⟩ := ih.mp rest
        refine ⟨.more first separator listed, fun limited => ?_, by simpa using enough⟩
        have := few limited
        simp only [List.length_cons]
        omega
    · rintro ⟨listed, few, enough⟩
      cases listed with
      | one first last =>
        exact ⟨(), _, ⟨few, rfl⟩, _, _, first, false, _, accept_other last, rfl⟩
      | more first separator others =>
        simp only [List.length_cons] at few enough
        have rest := (@ih _ (count + 1) _).mpr
          ⟨others, fun limited => by have := few limited; omega, by omega⟩
        refine ⟨(), _, ⟨fun limited => by have := few limited; omega, rfl⟩, _, _, first, true, _,
          accept_cons separator (by decide), ?_⟩
        rw [if_pos rfl, bind_of_ok rest]
        rfl

theorem listed_ok_iff {xs : List α} :
    listed what p limit c = .ok xs c' ↔
      (Cursor.kind c = .rightParen ∧ xs = [] ∧ c = c') ∨
      (Cursor.kind c ≠ .rightParen ∧ Listed p c xs c' ∧ xs.length ≤ maxItems ∧
        xs.length ≤ limit) := by
  have unfolded : listed what p limit c =
      if Cursor.kind c = .rightParen then .ok [] c else separated (some what) p limit 0 c := by
    simp only [listed, bind_of_ok (check_eq _ _), decide_eq_true_eq]
    split <;> rfl
  rw [unfolded]
  by_cases atEnd : Cursor.kind c = .rightParen
  · rw [if_pos atEnd, EStateM.Result.ok.injEq, eq_comm (a := ([] : List α))]
    simp only [atEnd, true_and, ne_eq, not_true, false_and, or_false]
  · rw [if_neg atEnd, separated_ok_iff]
    simp [atEnd]

theorem itemsUntil_ok_iff {xs : List α} :
    itemsUntil stops p limit c = .ok xs c' ↔ Repeated stops p c xs c' ∧ xs.length < limit := by
  induction limit generalizing c xs with
  | zero => exact ⟨fun h => absurd h failHere_not_ok, fun h => absurd h.2 (by simp)⟩
  | succ limit ih =>
    have unfolded : itemsUntil stops p (limit + 1) c = if Cursor.kind c ∈ stops then .ok [] c
        else (p >>= fun x => (x :: ·) <$> itemsUntil stops p limit) c := by
      change (if Cursor.kind c ∈ stops then _ else _ : Parser (List α)) c = _
      split <;> rfl
    rw [unfolded]
    constructor
    · intro h
      split at h
      · rename_i stopped
        cases h
        exact ⟨.nil stopped, by simp⟩
      · rename_i more
        simp only [bind_ok_iff, map_ok_iff] at h
        obtain ⟨x, c₁, first, ys, rest, rfl⟩ := h
        obtain ⟨others, enough⟩ := ih.mp rest
        exact ⟨.cons more first others, by simpa using enough⟩
    · rintro ⟨repeated, enough⟩
      cases repeated with
      | nil stopped => rw [if_pos stopped]
      | cons more first others =>
        rw [if_neg more, bind_of_ok first]
        exact map_of_ok (ih.mpr ⟨others, by simpa using enough⟩)

end Lox.Parser
