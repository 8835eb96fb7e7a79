import Lox.Proofs.ParserSteps

/-! Parsing keeps within its input. Where the last token is an end, a parse has its result before
its limits are used up, the cursor moves onwards only and never past that token, and whatever stands
behind that token is not looked at: the parse would be the same with other tokens there. -/

namespace Lox

/-- The same place in an input that goes on behind its end. -/
def Cursor.prolonged (c : Cursor) (beyond : List Token) : Cursor := ⟨c.rest ++ beyond, c.nextNode⟩

namespace Parser

/-- The last of the tokens is an end. -/
def Ended (tokens : List Token) : Prop :=
  ∃ before last, tokens = before ++ [last] ∧ last.kind = .eof

theorem Ended.uncons (ended : Ended tokens) :
    ∃ t rest, tokens = t :: rest ∧ (t.kind ≠ .eof → Ended rest) := by
  obtain ⟨before, last, rfl, isEnd⟩ := ended
  cases before with
  | nil => exact ⟨last, [], rfl, fun other => absurd isEnd other⟩
  | cons t before => exact ⟨t, before ++ [last], rfl, fun _ => ⟨before, last, rfl, isEnd⟩⟩

theorem Ended.tail (ended : Ended (t :: rest)) (notEnd : t.kind ≠ .eof) : Ended rest := by
  obtain ⟨_, _, same, rest⟩ := ended.uncons
  cases same
  exact rest notEnd

/-- An input, and what stands behind its end. -/
structure Input where
  tokens : List Token
  beyond : List Token

namespace Input

variable (I : Input)

/-- A place in the input. -/
structure Holds (c : Cursor) : Prop where
  ended : Ended c.rest
  onwards : c.rest <:+ I.tokens

/-- Two parses that started with so many tokens left end alike, at the same place of the input. A
result has taken at least `least` of the tokens. An error is at a token of the input, and it is not
that the limits were too small. -/
inductive EndAlike (start least : Nat) :
    EStateM.Result ParseError Cursor α → EStateM.Result ParseError Cursor α → Prop where
  | ok (place : I.Holds c) (taken : c.rest.length + least ≤ start) :
      EndAlike start least (.ok a c) (.ok a (c.prolonged I.beyond))
  | error (place : I.Holds c) (shown : e.token ∈ I.tokens) (cause : e.cause ≠ .tooDeep) :
      EndAlike start least (.error e c) (.error e (c.prolonged I.beyond))

/-- From a place of the input, the parsers end alike if the second one has more tokens behind it. -/
def At (least : Nat) (c : Cursor) (p q : Parser α) : Prop :=
  I.EndAlike c.rest.length least (p c) (q (c.prolonged I.beyond))

/-- Wherever there are at most so many tokens left, the parsers end alike. -/
def InStep (room least : Nat) (p q : Parser α) : Prop :=
  ∀ c, I.Holds c → c.rest.length ≤ room → I.At least c p q

end Input

namespace Input

variable {I : Input} {room least : Nat} {p q : Parser α} {f g : α → Parser β}

theorem Holds.uncons (place : I.Holds c) : ∃ t rest, c.rest = t :: rest ∧ t ∈ I.tokens := by
  obtain ⟨t, rest, same, -⟩ := place.ended.uncons
  refine ⟨t, rest, same, place.onwards.subset ?_⟩
  rw [same]
  exact List.mem_cons_self ..

theorem Holds.tail (place : I.Holds ⟨t :: rest, n⟩) (notEnd : t.kind ≠ .eof) (n' : NodeId) :
    I.Holds ⟨rest, n'⟩ :=
  ⟨place.ended.tail notEnd, (List.suffix_cons t rest).trans place.onwards⟩

theorem EndAlike.weaken {r r' : EStateM.Result ParseError Cursor α}
    (alike : I.EndAlike start more r r') (earlier : start + m ≤ start')
    (enough : least ≤ m + more) : I.EndAlike start' least r r' := by
  cases alike with
  | ok place taken => exact .ok place (by omega)
  | error place shown cause => exact .error place shown cause

theorem At.bind (first : I.At m c p q)
    (later : ∀ a c', I.Holds c' → c'.rest.length + m ≤ c.rest.length → I.At more c' (f a) (g a))
    (enough : least ≤ m + more) : I.At least c (p >>= f) (q >>= g) := by
  unfold At at first ⊢
  change I.EndAlike _ _ (EStateM.bind p f c) (EStateM.bind q g (c.prolonged I.beyond))
  unfold EStateM.bind
  generalize p c = r, q (c.prolonged I.beyond) = r' at first
  cases first with
  | ok place taken => exact (later _ _ place taken).weaken taken enough
  | error place shown cause => exact .error place shown cause

namespace InStep

/-- No place of the input is without a token. -/
theorem nowhere : I.InStep 0 least p q := by
  intro c place few
  obtain ⟨t, rest, same, -⟩ := place.uncons
  rw [same] at few
  cases few

theorem weaken (steps : I.InStep room more p q) (fewer : room' ≤ room) (enough : least ≤ more) :
    I.InStep room' least p q := fun c place few =>
  (steps c place (Nat.le_trans few fewer)).weaken (m := 0) (Nat.le_refl _) (by omega)

theorem bind (first : I.InStep room m p q) (later : ∀ a, I.InStep room least (f a) (g a)) :
    I.InStep room least (p >>= f) (q >>= g) := fun c place few =>
  (first c place few).bind (fun a c' place' taken => later a c' place' (by omega)) (by omega)

/-- After its first token, a parser has room for one token less. -/
theorem andThen (first : I.InStep (room + 1) 1 p q) (later : ∀ a, I.InStep room 0 (f a) (g a)) :
    I.InStep (room + 1) 1 (p >>= f) (q >>= g) := fun c place few =>
  (first c place few).bind (fun a c' place' taken => later a c' place' (by omega)) (by omega)

theorem pure {a : α} : I.InStep room 0 (Pure.pure a) (Pure.pure a) := fun _ place _ =>
  .ok place (Nat.le_refl _)

theorem ite {condition : Prop} [Decidable condition] {p' q' : Parser α}
    (yes : I.InStep room least p q) (no : I.InStep room least p' q') :
    I.InStep room least (if condition then p else p') (if condition then q else q') := by
  split
  · exact yes
  · exact no

/-- At every place of the input there is a token next. -/
theorem of_next
    (next : ∀ t rest n, I.Holds ⟨t :: rest, n⟩ → t ∈ I.tokens → rest.length + 1 ≤ room →
      I.EndAlike (rest.length + 1) least (p ⟨t :: rest, n⟩) (q ⟨t :: (rest ++ I.beyond), n⟩)) :
    I.InStep room least p q := by
  rintro ⟨tokens, n⟩ place few
  obtain ⟨t, rest, same, member⟩ := place.uncons
  dsimp only at same
  subst same
  exact next t rest n place member few

theorem look {f g : Token → Parser β}
    (later : ∀ t rest n, I.Holds ⟨t :: rest, n⟩ → t ∈ I.tokens → rest.length + 1 ≤ room →
      I.At least ⟨t :: rest, n⟩ (f t) (g t)) :
    I.InStep room least (peek >>= f) (peek >>= g) :=
  of_next later

theorem fail {token : Token} {cause : ParseError.Cause} (shown : token ∈ I.tokens)
    (enough : cause ≠ .tooDeep) :
    I.InStep room least (fail token cause : Parser α) (fail token cause) :=
  fun _ place _ => .error place shown enough

theorem failHere {cause : ParseError.Cause} (enough : cause ≠ .tooDeep) :
    I.InStep room least (failHere cause : Parser α) (failHere cause) :=
  look fun _ _ _ place member _ => .error place member enough

theorem peek : I.InStep room 0 peek peek := by
  have steps : I.InStep room 0 (Parser.peek >>= Pure.pure) (Parser.peek >>= Pure.pure) :=
    look fun _ _ _ place _ _ => .ok place (Nat.le_refl _)
  exact steps

theorem check (kind : Kind) : I.InStep room 0 (check kind) (check kind) :=
  peek.bind fun _ => .pure

theorem refer (name : Token) : I.InStep room 0 (refer name) (refer name) :=
  fun _ place _ => .ok ⟨place.ended, place.onwards⟩ (Nat.le_refl _)

end InStep

/-- A token that is not an end is taken. -/
theorem At.advance {f g : Unit → Parser β} (place : I.Holds ⟨t :: rest, n⟩)
    (few : rest.length ≤ room) (notEnd : t.kind ≠ .eof) (later : I.InStep room 0 (f ()) (g ())) :
    I.At 1 ⟨t :: rest, n⟩ (Parser.advance >>= f) (Parser.advance >>= g) := by
  unfold At
  change I.EndAlike _ _ _ ((Parser.advance >>= g) ⟨t :: (rest ++ I.beyond), n⟩)
  rw [bind_of_ok (advance_cons notEnd), bind_of_ok (advance_cons notEnd)]
  exact (later ⟨rest, n⟩ (place.tail notEnd n) few).weaken (Nat.le_refl _) (by omega)

namespace InStep

/-- Either nothing is taken, or a token that is not an end. -/
theorem takeIf {f g : Option Token → Parser β} {kinds : List Kind} (notEnd : Kind.eof ∉ kinds)
    (small : least ≤ 1) (none : I.InStep (room + 1) least (f none) (g none))
    (some : ∀ t ∈ I.tokens, I.InStep room 0 (f (some t)) (g (some t))) :
    I.InStep (room + 1) least (accept? kinds >>= f) (accept? kinds >>= g) := by
  refine of_next fun t rest n place member few => ?_
  by_cases taken : t.kind ∈ kinds
  · have other : t.kind ≠ .eof := fun same => notEnd (same ▸ taken)
    rw [bind_of_ok (accept?_cons taken notEnd), bind_of_ok (accept?_cons taken notEnd)]
    exact (some t member ⟨rest, n⟩ (place.tail other n) (Nat.le_of_succ_le_succ few)).weaken
      (m := 1) (Nat.le_refl _) (by omega)
  · rw [bind_of_ok (accept?_other taken), bind_of_ok (accept?_other taken)]
    exact none _ place few

theorem accept?Then {f g : Option Token → Parser β} {kinds : List Kind}
    (notEnd : Kind.eof ∉ kinds) (none : I.InStep room 0 (f none) (g none))
    (some : ∀ t ∈ I.tokens, I.InStep room 0 (f (some t)) (g (some t))) :
    I.InStep room 0 (accept? kinds >>= f) (accept? kinds >>= g) := by
  cases room with
  | zero => exact nowhere
  | succ room =>
    exact takeIf notEnd (Nat.zero_le 1) none fun t member =>
      (some t member).weaken (Nat.le_succ room) (Nat.le_refl 0)

/-- A parser that takes a token of a kind first, or else goes on without it. -/
theorem takeOr {f g : Bool → Parser β} {kind : Kind} (notEnd : kind ≠ .eof) (small : least ≤ 1)
    (yes : I.InStep room 0 (f true) (g true))
    (no : I.InStep (room + 1) least (f false) (g false)) :
    I.InStep (room + 1) least (accept kind >>= f) (accept kind >>= g) := by
  unfold Parser.accept
  simp only [bind_assoc, pure_bind]
  exact takeIf (by simpa using notEnd.symm) small no fun _ _ => yes

theorem accept {kind : Kind} (notEnd : kind ≠ .eof) :
    I.InStep room 0 (accept kind) (accept kind) :=
  accept?Then (by simpa using notEnd.symm) .pure fun _ _ => .pure

/-- The token that is expected is taken. -/
theorem expect {kind : Kind} {cause : ParseError.Cause} (notEnd : kind ≠ .eof)
    (enough : cause ≠ .tooDeep) : I.InStep (room + 1) 1 (expect kind cause) (expect kind cause) :=
  takeIf (by simpa using notEnd.symm) (Nat.le_refl 1) (failHere enough) fun _ _ => .pure

theorem expectName (role : String) : I.InStep (room + 1) 1 (expectName role) (expectName role) :=
  expect (by decide) (by simp)

/-- Nothing is asked of the first token. -/
theorem anywhere (steps : I.InStep (room + 1) 1 p q) : I.InStep room 0 p q :=
  steps.weaken (Nat.le_succ room) (Nat.zero_le 1)

theorem mark (kind : Kind) (notEnd : kind ≠ .eof) {text place : String} :
    I.InStep room 0 (Parser.expect kind (.noMark text place))
      (Parser.expect kind (.noMark text place)) :=
  (expect notEnd (by simp)).anywhere

theorem name (role : String) : I.InStep room 0 (Parser.expectName role) (Parser.expectName role) :=
  (expectName role).anywhere

theorem roomFor (what : Option String) (count : Nat) :
    I.InStep room 0 (roomFor what count) (roomFor what count) := by
  cases what with
  | none => exact .pure
  | some what => exact .ite (failHere (by simp)) .pure

section

variable {item item' : Parser α} {limit limit' : Nat}

/-- An item takes a token at least, so the limits are not used up before the tokens are. -/
theorem separated (what : Option String) (one : I.InStep room 1 item item') (count : Nat)
    (enough : room ≤ limit) (enough' : room ≤ limit') :
    I.InStep room 0 (separated what item limit count) (separated what item' limit' count) := by
  induction room generalizing limit limit' count with
  | zero => exact nowhere
  | succ room ih =>
    obtain ⟨limit, rfl⟩ := Nat.exists_eq_succ_of_ne_zero (Nat.ne_zero_of_lt enough)
    obtain ⟨limit', rfl⟩ := Nat.exists_eq_succ_of_ne_zero (Nat.ne_zero_of_lt enough')
    have fewer : I.InStep room 1 item item' := one.weaken (Nat.le_succ room) (Nat.le_refl 1)
    have rest := ih fewer (count + 1) (Nat.le_of_succ_le_succ enough)
      (Nat.le_of_succ_le_succ enough')
    refine (roomFor what count).bind fun _ => weaken ?_ (Nat.le_refl _) (Nat.zero_le 1)
    exact one.andThen fun _ => (accept (by decide)).bind fun _ =>
      .ite (rest.bind fun _ => .pure) .pure

theorem listed (what : String) (one : I.InStep room 1 item item') (enough : room ≤ limit)
    (enough' : room ≤ limit') :
    I.InStep room 0 (listed what item limit) (listed what item' limit') :=
  (check .rightParen).bind fun _ => .ite .pure (separated (some what) one 0 enough enough')

theorem itemsUntil (stops : List Kind) (one : I.InStep room 1 item item') (enough : room ≤ limit)
    (enough' : room ≤ limit') :
    I.InStep room 0 (itemsUntil stops item limit) (itemsUntil stops item' limit') := by
  induction room generalizing limit limit' with
  | zero => exact nowhere
  | succ room ih =>
    obtain ⟨limit, rfl⟩ := Nat.exists_eq_succ_of_ne_zero (Nat.ne_zero_of_lt enough)
    obtain ⟨limit', rfl⟩ := Nat.exists_eq_succ_of_ne_zero (Nat.ne_zero_of_lt enough')
    have fewer : I.InStep room 1 item item' := one.weaken (Nat.le_succ room) (Nat.le_refl 1)
    have rest := ih fewer (Nat.le_of_succ_le_succ enough) (Nat.le_of_succ_le_succ enough')
    refine peek.bind fun _ => .ite .pure (weaken ?_ (Nat.le_refl _) (Nat.zero_le 1))
    exact one.andThen fun _ => rest.bind fun _ => .pure

end

section

variable {operand operand' : Parser Expr} {operators : List Kind} {limit limit' : Nat}

/-- Each round takes an operator. -/
theorem chain (notEnd : Kind.eof ∉ operators) (node : Expr → Token → Expr → Expr)
    (one : I.InStep room 1 operand operand') (left : Expr) (enough : room ≤ limit)
    (enough' : room ≤ limit') :
    I.InStep room 0 (chain operators node operand limit left)
      (chain operators node operand' limit' left) := by
  induction room generalizing limit limit' left with
  | zero => exact nowhere
  | succ room ih =>
    obtain ⟨limit, rfl⟩ := Nat.exists_eq_succ_of_ne_zero (Nat.ne_zero_of_lt enough)
    obtain ⟨limit', rfl⟩ := Nat.exists_eq_succ_of_ne_zero (Nat.ne_zero_of_lt enough')
    have fewer : I.InStep room 1 operand operand' := one.weaken (Nat.le_succ room) (Nat.le_refl 1)
    exact takeIf notEnd (Nat.zero_le 1) .pure fun operator _ => fewer.bind fun _ =>
      ih fewer _ (Nat.le_of_succ_le_succ enough) (Nat.le_of_succ_le_succ enough')

theorem level (notEnd : Kind.eof ∉ operators) {node : Expr → Token → Expr → Expr}
    (enough : room ≤ limit) (enough' : room ≤ limit')
    (one : I.InStep (room + 1) 1 operand operand') :
    I.InStep (room + 1) 1 (level limit operators node operand)
      (level limit' operators node operand') :=
  one.andThen fun first =>
    chain notEnd node (one.weaken (Nat.le_succ room) (Nat.le_refl 1)) first enough enough'

end

theorem parameters (enough : room ≤ limit) (enough' : room ≤ limit') :
    I.InStep room 0 (parameters limit) (parameters limit') := by
  have one : I.InStep room 1 (Parser.expectName "parameter") (Parser.expectName "parameter") :=
    (expectName "parameter").weaken (Nat.le_succ room) (Nat.le_refl 1)
  exact (listed _ one enough enough').bind fun _ => (mark .rightParen (by decide)).bind fun _ =>
    .pure

end InStep

end Input

theorem skipFrom_append (beyond : List Token) (ended : Ended rest) (last : Token) :
    skipFrom last (rest ++ beyond) = skipFrom last rest ++ beyond := by
  induction rest generalizing last with
  | nil =>
    obtain ⟨_, _, same, -⟩ := ended.uncons
    cases same
  | cons t rest ih =>
    rw [List.cons_append, skipFrom, skipFrom]
    split
    · rfl
    case isFalse goesOn => exact ih (ended.tail fun isEnd => goesOn (.inl isEnd)) t

theorem skipFrom_ended (ended : Ended rest) (last : Token) :
    Ended (skipFrom last rest) ∧ skipFrom last rest <:+ rest := by
  induction rest generalizing last with
  | nil => exact ⟨ended, List.suffix_refl _⟩
  | cons t rest ih =>
    rw [skipFrom]
    split
    · exact ⟨ended, List.suffix_refl _⟩
    case isFalse goesOn =>
      obtain ⟨ended', onwards⟩ := ih (ended.tail fun isEnd => goesOn (.inl isEnd)) t
      exact ⟨ended', onwards.trans (List.suffix_cons t rest)⟩

theorem skipToStatement_append (beyond : List Token) (ended : Ended tokens) :
    skipToStatement (tokens ++ beyond) = skipToStatement tokens ++ beyond := by
  obtain ⟨t, rest, rfl, tail⟩ := ended.uncons
  rw [List.cons_append, skipToStatement, skipToStatement]
  split
  · rfl
  case isFalse goesOn => exact skipFrom_append beyond (tail goesOn) t

theorem skipToStatement_ended (ended : Ended tokens) :
    Ended (skipToStatement tokens) ∧ skipToStatement tokens <:+ tokens := by
  obtain ⟨t, rest, rfl, tail⟩ := ended.uncons
  rw [skipToStatement]
  split
  · exact ⟨ended, List.suffix_refl _⟩
  case isFalse goesOn =>
    obtain ⟨ended', onwards⟩ := skipFrom_ended (tail goesOn) t
    exact ⟨ended', onwards.trans (List.suffix_cons t rest)⟩

namespace Input

variable {I : Input} {room least : Nat}

/-- Looking for the next statement stops at the end of the input too. -/
theorem InStep.resync {p q : Parser α} (steps : I.InStep room least p q) :
    I.InStep room least (resync p) (resync q) := by
  intro c place few
  have alike := steps c place few
  unfold At at alike ⊢
  change I.EndAlike _ _ (EStateM.tryCatch p _ c) (EStateM.tryCatch q _ (c.prolonged I.beyond))
  unfold EStateM.tryCatch
  generalize p c = result, q (c.prolonged I.beyond) = result' at alike
  cases alike with
  | ok place taken => exact .ok place taken
  | error place shown cause =>
    rename_i c' e
    obtain ⟨ended, onwards⟩ := skipToStatement_ended place.ended
    have after : I.Holds ⟨skipToStatement c'.rest, c'.nextNode⟩ :=
      ⟨ended, onwards.trans place.onwards⟩
    change I.EndAlike _ _ (.error e _) (.error e ⟨skipToStatement (c'.rest ++ I.beyond), _⟩)
    rw [skipToStatement_append I.beyond place.ended]
    exact .error after shown cause

/-- A name of a function is looked for one token ahead, and only behind `fun`. -/
theorem Holds.namesFunction (place : I.Holds ⟨t :: rest, n⟩) :
    NamesFunction ⟨t :: (rest ++ I.beyond), n⟩ ↔ NamesFunction ⟨t :: rest, n⟩ := by
  constructor
  · rintro ⟨keyword, name, after, same, isFun, isName⟩
    obtain ⟨rfl, behind⟩ := List.cons.inj same
    obtain ⟨second, after', next, -⟩ := (place.tail (by simp [isFun]) n).ended.uncons
    dsimp only at next
    subst next
    obtain ⟨rfl, -⟩ := List.cons.inj behind
    exact ⟨t, second, after', rfl, isFun, isName⟩
  · rintro ⟨keyword, name, after, same, isFun, isName⟩
    obtain ⟨rfl, rfl⟩ := List.cons.inj same
    exact ⟨t, name, after ++ I.beyond, rfl, isFun, isName⟩

/-- Either `fun` stands before a name, or the parser goes on from the same place. -/
theorem InStep.namesFunction {f g : Bool → Parser β}
    (named : ∀ t rest n, I.Holds ⟨t :: rest, n⟩ → t.kind = .kwFun → rest.length + 1 ≤ room →
      I.At least ⟨t :: rest, n⟩ (f true) (g true))
    (other : I.InStep room least (f false) (g false)) :
    I.InStep room least (namesFunction >>= f) (namesFunction >>= g) := by
  refine InStep.of_next fun t rest n place _ few => ?_
  by_cases names : NamesFunction ⟨t :: rest, n⟩
  · rw [bind_of_ok (namesFunction_true_iff.mpr ⟨names, rfl⟩),
      bind_of_ok (namesFunction_true_iff.mpr ⟨place.namesFunction.mpr names, rfl⟩)]
    obtain ⟨_, _, _, same, isFun, -⟩ := names
    cases same
    exact named _ _ n place isFun few
  · rw [bind_of_ok (namesFunction_false_iff.mpr ⟨names, rfl⟩),
      bind_of_ok (namesFunction_false_iff.mpr ⟨mt place.namesFunction.mp names, rfl⟩)]
    exact other _ place few

end Input

/-- Rules that keep in step wherever there are at most so many tokens left, with limits above that
number. -/
structure Rules.InStep (I : Input) (room : Nat) (R S : Rules) : Prop where
  enough : room ≤ R.limit
  enough' : room ≤ S.limit
  expression : I.InStep room 1 R.expression S.expression
  ternary : I.InStep room 1 R.ternary S.ternary
  unary : I.InStep room 1 R.unary S.unary
  statement : I.InStep room 1 R.statement S.statement
  declaration : I.InStep room 1 R.declaration S.declaration

open Lox.Parser.Input

namespace Rules.InStep

variable {I : Input} {room : Nat} {R S : Rules}

section

variable (parts : Rules.InStep I room R S)
include parts

theorem block : I.InStep room 0 R.block S.block :=
  (InStep.itemsUntil _ parts.declaration parts.enough parts.enough').bind fun _ =>
    (InStep.mark .rightBrace (by decide)).bind fun _ => .pure

theorem functionRest (name : Option Token) (line : Nat) (role : String) :
    I.InStep room 0 (R.functionRest name line role) (S.functionRest name line role) :=
  (InStep.mark .leftParen (by decide)).bind fun _ =>
    (InStep.parameters parts.enough parts.enough').bind fun _ =>
      (InStep.mark .leftBrace (by decide)).bind fun _ => parts.block.bind fun _ => .pure

theorem function (role : String) : I.InStep room 0 (R.function role) (S.function role) :=
  (InStep.name role).bind fun _ => parts.functionRest _ _ _

theorem arguments : I.InStep room 0 R.arguments S.arguments :=
  InStep.listed _ parts.expression parts.enough parts.enough'

theorem primary : I.InStep (room + 1) 1 R.primary S.primary := by
  refine InStep.look fun t rest n place member few => ?_
  have few := Nat.le_of_succ_le_succ few
  cases kind : t.kind with
  | kwFalse | kwTrue | kwNil | number _ | string _ =>
    exact At.advance place few (by simp [kind]) .pure
  | identifier | kwThis =>
    exact At.advance place few (by simp [kind]) ((InStep.refer t).bind fun _ => .pure)
  | kwSuper =>
    exact At.advance place few (by simp [kind]) <| (InStep.mark .dot (by decide)).bind fun _ =>
      (InStep.name _).bind fun _ => (InStep.refer t).bind fun _ => .pure
  | kwFun =>
    exact At.advance place few (by simp [kind]) ((parts.functionRest _ _ _).bind fun _ => .pure)
  | leftParen =>
    exact At.advance place few (by simp [kind]) <| parts.expression.bind fun _ =>
      (InStep.mark .rightParen (by decide)).bind fun _ => .pure
  | _ => exact .error place member (by simp)

theorem weaken (fewer : room' ≤ room) : Rules.InStep I room' R S where
  enough := Nat.le_trans fewer parts.enough
  enough' := Nat.le_trans fewer parts.enough'
  expression := parts.expression.weaken fewer (Nat.le_refl 1)
  ternary := parts.ternary.weaken fewer (Nat.le_refl 1)
  unary := parts.unary.weaken fewer (Nat.le_refl 1)
  statement := parts.statement.weaken fewer (Nat.le_refl 1)
  declaration := parts.declaration.weaken fewer (Nat.le_refl 1)

end

/-- Each call and each access takes a token. -/
theorem suffixes {limit limit' : Nat} (parts : Rules.InStep I room R S) (object : Expr)
    (enough : room ≤ limit) (enough' : room ≤ limit') :
    I.InStep room 0 (R.suffixes limit object) (S.suffixes limit' object) := by
  induction room generalizing limit limit' object with
  | zero => exact InStep.nowhere
  | succ room ih =>
    obtain ⟨limit, rfl⟩ := Nat.exists_eq_succ_of_ne_zero (Nat.ne_zero_of_lt enough)
    obtain ⟨limit', rfl⟩ := Nat.exists_eq_succ_of_ne_zero (Nat.ne_zero_of_lt enough')
    have fewer := parts.weaken (Nat.le_succ room)
    have rest (object : Expr) : I.InStep room 0 (R.suffixes limit object)
        (S.suffixes limit' object) :=
      ih fewer object (Nat.le_of_succ_le_succ enough) (Nat.le_of_succ_le_succ enough')
    refine InStep.takeOr (by decide) (Nat.zero_le 1) ?_ ?_
    · exact fewer.arguments.bind fun _ => (InStep.mark .rightParen (by decide)).bind fun _ =>
        rest _
    · refine InStep.takeOr (by decide) (Nat.zero_le 1) ?_ .pure
      exact (InStep.expect (by decide) (by simp)).anywhere.bind fun _ => rest _

section

variable (parts : Rules.InStep I room R S)
include parts

theorem unaryRule : I.InStep (room + 1) 1 R.unaryRule S.unaryRule := by
  have call : I.InStep (room + 1) 1 R.call S.call :=
    parts.primary.andThen fun first => parts.suffixes first parts.enough parts.enough'
  exact InStep.takeIf (by decide) (Nat.le_refl 1) call fun _ _ => parts.unary.bind fun _ => .pure

theorem disjunction : I.InStep (room + 1) 1 R.disjunction S.disjunction := by
  have level {operators : List Kind} (notEnd : Kind.eof ∉ operators)
      {node : Expr → Token → Expr → Expr} {operand operand' : Parser Expr}
      (one : I.InStep (room + 1) 1 operand operand') :
      I.InStep (room + 1) 1 (level R.limit operators node operand)
        (level S.limit operators node operand') :=
    InStep.level notEnd parts.enough parts.enough' one
  exact level (by decide) <| level (by decide) <| level (by decide) <| level (by decide) <|
    level (by decide) <| level (by decide) parts.unaryRule

theorem ternaryRule : I.InStep (room + 1) 1 R.ternaryRule S.ternaryRule :=
  parts.disjunction.andThen fun _ => (InStep.accept (by decide)).bind fun _ =>
    .ite (parts.expression.bind fun _ => (InStep.mark .colon (by decide)).bind fun _ =>
      parts.ternary.bind fun _ => .pure) .pure

omit parts in
/-- An assignment to something else is reported at its equals sign. -/
theorem assignTo (left value : Expr) (member : equals ∈ I.tokens) :
    I.InStep room 0 (Rules.assignTo left equals value) (Rules.assignTo left equals value) := by
  cases left with
  | varRef target => exact (InStep.refer _).bind fun _ => .pure
  | property object name => exact .pure
  | _ => exact .fail member (by simp)

theorem expressionRule : I.InStep (room + 1) 1 R.expressionRule S.expressionRule :=
  parts.ternaryRule.andThen fun left => .accept?Then (by decide) .pure fun _ member =>
    parts.expression.bind fun value => assignTo left value member

theorem expressionStatement : I.InStep (room + 1) 1 R.expressionStatement S.expressionStatement :=
  parts.expressionRule.andThen fun _ => (InStep.mark .semicolon (by decide)).bind fun _ => .pure

theorem varDeclaration : I.InStep room 0 R.varDeclaration S.varDeclaration := by
  have initializer : I.InStep room 0 R.initializer S.initializer :=
    (InStep.accept (by decide)).bind fun _ => .ite (parts.expression.bind fun _ => .pure) .pure
  exact (InStep.name _).bind fun _ => initializer.bind fun _ =>
    (InStep.mark .semicolon (by decide)).bind fun _ => .pure

theorem expressionUnless (stop : Kind) :
    I.InStep room 0 (R.expressionUnless stop) (S.expressionUnless stop) :=
  (InStep.check stop).bind fun _ => .ite .pure (parts.expression.bind fun _ => .pure)

theorem forStatement : I.InStep room 0 R.forStatement S.forStatement := by
  have start : I.InStep room 0 R.forStart S.forStart :=
    (InStep.accept (by decide)).bind fun _ => .ite .pure <|
      (InStep.accept (by decide)).bind fun _ => .ite (parts.varDeclaration.bind fun _ => .pure)
        (parts.expressionStatement.anywhere.bind fun _ => .pure)
  refine (InStep.mark .leftParen (by decide)).bind fun _ => start.bind fun first =>
    (parts.expressionUnless _).bind fun _ => (InStep.mark .semicolon (by decide)).bind fun _ =>
      (parts.expressionUnless _).bind fun _ => (InStep.mark .rightParen (by decide)).bind fun _ =>
        parts.statement.bind fun _ => ?_
  cases first <;> exact .pure

theorem ifStatement : I.InStep room 0 R.ifStatement S.ifStatement := by
  have otherwise : I.InStep room 0 R.elseBranch S.elseBranch :=
    (InStep.accept (by decide)).bind fun _ => .ite (parts.statement.bind fun _ => .pure) .pure
  exact (InStep.mark .leftParen (by decide)).bind fun _ => parts.expression.bind fun _ =>
    (InStep.mark .rightParen (by decide)).bind fun _ => parts.statement.bind fun _ =>
      otherwise.bind fun _ => .pure

theorem whileStatement : I.InStep room 0 R.whileStatement S.whileStatement :=
  (InStep.mark .leftParen (by decide)).bind fun _ => parts.expression.bind fun _ =>
    (InStep.mark .rightParen (by decide)).bind fun _ => parts.statement.bind fun _ => .pure

theorem statementRule : I.InStep (room + 1) 1 R.statementRule S.statementRule := by
  have flow (signal : Signal) (keyword : Token) :
      I.InStep room 0 (flowStatement signal keyword) (flowStatement signal keyword) :=
    (InStep.mark .semicolon (by decide)).bind fun _ => .pure
  refine InStep.look fun t rest n place member few => ?_
  have behind := Nat.le_of_succ_le_succ few
  cases kind : t.kind with
  | kwFor => exact At.advance place behind (by simp [kind]) parts.forStatement
  | kwIf => exact At.advance place behind (by simp [kind]) parts.ifStatement
  | kwWhile => exact At.advance place behind (by simp [kind]) parts.whileStatement
  | kwReturn =>
    exact At.advance place behind (by simp [kind]) <| (parts.expressionUnless _).bind fun _ =>
      (InStep.mark .semicolon (by decide)).bind fun _ => .pure
  | kwBreak | kwContinue => exact At.advance place behind (by simp [kind]) (flow _ t)
  | leftBrace => exact At.advance place behind (by simp [kind]) (parts.block.bind fun _ => .pure)
  | kwPrint =>
    exact At.advance place behind (by simp [kind]) <| parts.expression.bind fun _ =>
      (InStep.mark .semicolon (by decide)).bind fun _ => .pure
  | _ => exact parts.expressionStatement _ place few

theorem member : I.InStep (room + 1) 1 R.member S.member := by
  refine InStep.takeOr (by decide) (Nat.le_refl 1) ((parts.function _).bind fun _ => .pure) ?_
  exact (InStep.expectName _).andThen fun _ => (InStep.accept (by decide)).bind fun _ =>
    .ite (parts.block.bind fun _ => .pure) ((parts.functionRest _ _ _).bind fun _ => .pure)

theorem classDeclaration : I.InStep room 0 R.classDeclaration S.classDeclaration := by
  have superclass : I.InStep room 0 Rules.superclass Rules.superclass :=
    (InStep.accept (by decide)).bind fun _ => .ite ((InStep.name _).bind fun name =>
      (InStep.refer name).bind fun _ => .pure) .pure
  have traitName : I.InStep (room + 1) 1 Rules.traitName Rules.traitName :=
    (InStep.expectName _).andThen fun name => InStep.refer name
  have mixins : I.InStep room 0 R.mixins S.mixins :=
    (InStep.accept (by decide)).bind fun _ => .ite (InStep.separated none
      (traitName.weaken (Nat.le_succ room) (Nat.le_refl 1)) 0 parts.enough parts.enough') .pure
  have members : I.InStep room 0 (untilBrace R.member R.limit) (untilBrace S.member S.limit) :=
    InStep.itemsUntil _ (parts.member.weaken (Nat.le_succ room) (Nat.le_refl 1)) parts.enough
      parts.enough'
  exact (InStep.name _).bind fun _ => superclass.bind fun _ => mixins.bind fun _ =>
    (InStep.mark .leftBrace (by decide)).bind fun _ => members.bind fun _ =>
      (InStep.mark .rightBrace (by decide)).bind fun _ => .pure

theorem traitMember : I.InStep (room + 1) 1 R.traitMember S.traitMember :=
  (InStep.expectName _).andThen fun _ => (InStep.mark .leftParen (by decide)).bind fun _ =>
    (InStep.parameters parts.enough parts.enough').bind fun _ =>
      (InStep.accept (by decide)).bind fun _ => .ite .pure <|
        (InStep.mark .leftBrace (by decide)).bind fun _ => parts.block.bind fun _ => .pure

theorem traitDeclaration : I.InStep room 0 R.traitDeclaration S.traitDeclaration := by
  have members : I.InStep room 0 (untilBrace R.traitMember R.limit)
      (untilBrace S.traitMember S.limit) :=
    InStep.itemsUntil _ (parts.traitMember.weaken (Nat.le_succ room) (Nat.le_refl 1)) parts.enough
      parts.enough'
  exact (InStep.name _).bind fun _ => (InStep.mark .leftBrace (by decide)).bind fun _ =>
    members.bind fun _ => (InStep.mark .rightBrace (by decide)).bind fun _ => .pure

theorem declarationRule : I.InStep (room + 1) 1 R.declarationRule S.declarationRule := by
  refine InStep.resync (InStep.namesFunction (fun t rest n place isFun few => ?_)
    (InStep.look fun t rest n place member few => ?_))
  · exact At.advance place (Nat.le_of_succ_le_succ few) (by simp [isFun])
      ((parts.function _).bind fun _ => .pure)
  · have behind := Nat.le_of_succ_le_succ few
    cases kind : t.kind with
    | kwClass => exact At.advance place behind (by simp [kind]) parts.classDeclaration
    | kwTrait => exact At.advance place behind (by simp [kind]) parts.traitDeclaration
    | kwVar => exact At.advance place behind (by simp [kind]) parts.varDeclaration
    | _ => exact parts.statementRule _ place few

end

end Rules.InStep

/-- Every rule takes a token before it uses another one inside, so limits above the number of tokens
left are never used up. -/
theorem rules_inStep (I : Input) (enough : room < limit) (enough' : room < limit') :
    Rules.InStep I room (rules limit) (rules limit') := by
  induction room generalizing limit limit' with
  | zero =>
    exact ⟨Nat.zero_le _, Nat.zero_le _, .nowhere, .nowhere, .nowhere, .nowhere, .nowhere⟩
  | succ room ih =>
    obtain ⟨limit, rfl⟩ := Nat.exists_eq_succ_of_ne_zero (Nat.ne_zero_of_lt enough)
    obtain ⟨limit', rfl⟩ := Nat.exists_eq_succ_of_ne_zero (Nat.ne_zero_of_lt enough')
    have parts := ih (Nat.lt_of_succ_lt_succ enough) (Nat.lt_of_succ_lt_succ enough')
    exact ⟨Nat.le_of_lt enough, Nat.le_of_lt enough', parts.expressionRule, parts.ternaryRule,
      parts.unaryRule, parts.statementRule, parts.declarationRule⟩

/-- A parse that has its result within the tokens it is given. -/
structure Contained (parser : List Token → NodeId → Except ParseError α × Cursor)
    (tokens : List Token) (n : NodeId) : Prop where
  /-- An error is at one of the tokens, and it is not that a limit was too small. -/
  fails : ∀ e, (parser tokens n).1 = .error e → e.token ∈ tokens ∧ e.cause ≠ .tooDeep
  /-- The cursor ends within the tokens, with the last of them not yet passed. -/
  within : Ended (parser tokens n).2.rest ∧ (parser tokens n).2.rest <:+ tokens
  /-- Tokens behind the last one change nothing. -/
  blind : ∀ beyond, parser (tokens ++ beyond) n =
    ((parser tokens n).1, (parser tokens n).2.prolonged beyond)

section

variable {I : Input} {c : Cursor} {tokens : List Token} {n : NodeId}

theorem contained_of_at {p : Parser α}
    (alike : ∀ beyond, (Input.mk tokens beyond).At least ⟨tokens, n⟩ p p) :
    Contained p.outcome tokens n := by
  have ends (beyond : List Token) :
      (∀ e, (p.outcome tokens n).1 = .error e → e.token ∈ tokens ∧ e.cause ≠ .tooDeep) ∧
      (Ended (p.outcome tokens n).2.rest ∧ (p.outcome tokens n).2.rest <:+ tokens) ∧
      p.outcome (tokens ++ beyond) n =
        ((p.outcome tokens n).1, (p.outcome tokens n).2.prolonged beyond) := by
    have both := alike beyond
    unfold Input.At Cursor.prolonged at both
    unfold outcome EStateM.run
    generalize p ⟨tokens, n⟩ = result, p ⟨tokens ++ beyond, n⟩ = result' at both
    cases both with
    | ok place taken =>
      refine ⟨fun e fails => ?_, ⟨place.ended, place.onwards⟩, rfl⟩
      cases fails
    | error place shown cause =>
      refine ⟨fun e fails => ?_, ⟨place.ended, place.onwards⟩, rfl⟩
      cases fails
      exact ⟨shown, cause⟩
  exact ⟨(ends []).1, (ends []).2.1, fun beyond => (ends beyond).2.2⟩

theorem length_prolonged (c : Cursor) (beyond : List Token) :
    c.rest.length ≤ (c.prolonged beyond).rest.length := by
  rw [show (c.prolonged beyond).rest = c.rest ++ beyond from rfl, List.length_append]
  exact Nat.le_add_right ..

/-- A parse has as many rules inside one another as it has tokens, and one more. -/
theorem rules_at (I : Input) (c : Cursor) :
    Rules.InStep I c.rest.length (rules (c.rest.length + 1))
      (rules ((c.prolonged I.beyond).rest.length + 1)) :=
  rules_inStep I (Nat.lt_succ_self _) (Nat.lt_succ_of_le (length_prolonged c I.beyond))

theorem program_eq (c : Cursor) : program c =
    itemsUntil [.eof] (rules (c.rest.length + 1)).declaration (c.rest.length + 1) c :=
  bind_of_ok (c := c) rfl

theorem soleExpression_eq (c : Cursor) : soleExpression c =
    ((rules (c.rest.length + 1)).expression >>= fun value => peek >>= fun token =>
      if token.kind = .eof then pure value else fail token .noEnd) c :=
  bind_of_ok (c := c) rfl

theorem program_at (place : I.Holds c) : I.At 0 c program program := by
  have items := InStep.itemsUntil [.eof] (rules_at I c).declaration (Nat.le_succ _)
    (Nat.le_succ_of_le (length_prolonged c I.beyond)) c place (Nat.le_refl _)
  unfold Input.At at items ⊢
  rw [program_eq, program_eq]
  exact items

theorem soleExpression_at (place : I.Holds c) : I.At 0 c soleExpression soleExpression := by
  have alone (value : Expr) : I.InStep c.rest.length 0
      (peek >>= fun token => if token.kind = .eof then pure value else fail token .noEnd)
      (peek >>= fun token => if token.kind = .eof then pure value else fail token .noEnd) := by
    refine InStep.look fun t rest n place member few => ?_
    exact InStep.ite .pure (.fail member (by simp)) _ place few
  have whole := (rules_at I c).expression.weaken (Nat.le_refl _) (Nat.zero_le 1) |>.bind alone c
    place (Nat.le_refl _)
  unfold Input.At at whole ⊢
  rw [soleExpression_eq, soleExpression_eq]
  exact whole

theorem cursor_of_ok {p : Parser α} (parsed : (p.outcome tokens n).1 = .ok a) :
    p ⟨tokens, n⟩ = .ok a (p.outcome tokens n).2 := by
  unfold outcome EStateM.run at *
  cases result : p ⟨tokens, n⟩ with
  | ok b c =>
    rw [result] at parsed
    cases parsed
    rfl
  | error e c =>
    rw [result] at parsed
    cases parsed

end

end Parser

open Lox.Parser

/-- Whatever the tokens before the last one are, if that is an end then a program and an expression
are parsed within the tokens, and so is a declaration at any depth, also where looking for the next
statement follows an error. A program that is parsed leaves the cursor at an end. -/
theorem parsing_keeps_within (ends : Ended tokens) (n : NodeId) :
    Contained parse tokens n ∧ Contained parseExpression tokens n ∧
    (∀ limit, tokens.length < limit → Contained (rules limit).declaration.outcome tokens n) ∧
    ∀ statements, (parse tokens n).1 = .ok statements →
      ∃ last rest, (parse tokens n).2.rest = last :: rest ∧ last.kind = .eof := by
  have place (beyond : List Token) : (Input.mk tokens beyond).Holds ⟨tokens, n⟩ :=
    ⟨ends, List.suffix_refl tokens⟩
  have whole : Contained parse tokens n := contained_of_at fun beyond => program_at (place beyond)
  refine ⟨whole, contained_of_at fun beyond => soleExpression_at (place beyond), ?_, ?_⟩
  · intro limit enough
    exact contained_of_at fun beyond =>
      (rules_inStep _ enough enough).declaration _ (place beyond) (Nat.le_refl _)
  · intro statements parsed
    have accepted := cursor_of_ok parsed
    rw [program_eq, itemsUntil_ok_iff] at accepted
    have atEnd := List.mem_singleton.mp accepted.1.stopped
    obtain ⟨last, rest, same, -⟩ := whole.within.1.uncons
    refine ⟨last, rest, same, ?_⟩
    rwa [Cursor.kind, show (program.outcome tokens n).2.rest = last :: rest from same] at atEnd

/-- The tokens of two blocks that are never closed, around a declaration without a name and a
statement behind it. -/
def unclosedBlocks : List Token :=
  [⟨.leftBrace, "\x7b", 1⟩, ⟨.leftBrace, "\x7b", 1⟩, ⟨.kwVar, "var", 1⟩, ⟨.equal, "=", 1⟩,
   ⟨.semicolon, ";", 1⟩, ⟨.kwPrint, "print", 2⟩, ⟨.identifier, "x", 2⟩, .eof 2]

/-- The next statement is looked for in all three declarations, one after another, and so the cursor
comes to the end. -/
theorem unclosedBlocks_keep_within : Ended unclosedBlocks ∧
    parse unclosedBlocks 0 = (.error ⟨⟨.equal, "=", 1⟩, .noName "variable"⟩, ⟨[.eof 2], 0⟩) ∧
    Contained parse unclosedBlocks 0 := by
  have ends : Ended unclosedBlocks := ⟨unclosedBlocks.dropLast, .eof 2, rfl, rfl⟩
  exact ⟨ends, rfl, (parsing_keeps_within ends 0).1⟩

end Lox
