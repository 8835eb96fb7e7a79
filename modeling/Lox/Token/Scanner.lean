import Lox.Token

/-!
Scanning: a cursor over the bytes of a source cuts it into tokens by longest match. Each round
moves the cursor forward, so scanning ends; an unreadable stretch becomes an error and scanning
goes on after it.
-/

namespace Lox

/-- Why a stretch of the source is no token. -/
inductive LexError.Cause where
  | unexpected (text : String)
  | unterminated
deriving DecidableEq

structure LexError where
  line : Nat
  cause : LexError.Cause
deriving DecidableEq

def LexError.Cause.message : LexError.Cause → String
  | unexpected text => "Unexpected character: " ++ text
  | unterminated => "Unterminated string."

def LexError.message (e : LexError) : String :=
  "[line " ++ toString e.line ++ "] Error: " ++ e.cause.message

namespace Scanner

def isSpace (c : Char) : Bool := c == ' ' || c == '\r' || c == '\t'

def isDigit (c : Char) : Bool := '0' ≤ c && c ≤ '9'

def isWordStart (c : Char) : Bool :=
  ('a' ≤ c && c ≤ 'z') || ('A' ≤ c && c ≤ 'Z') || c == '_'

def isWordRest (c : Char) : Bool := isWordStart c || isDigit c

/-- The mark that a character is by itself. -/
def mark? : Char → Option Kind
  | '(' => some .leftParen
  | ')' => some .rightParen
  | '{' => some .leftBrace
  | '}' => some .rightBrace
  | ',' => some .comma
  | '.' => some .dot
  | '-' => some .minus
  | '+' => some .plus
  | ';' => some .semicolon
  | '*' => some .star
  | '%' => some .percent
  | '?' => some .question
  | ':' => some .colon
  | '/' => some .slash
  | '!' => some .bang
  | '=' => some .equal
  | '<' => some .less
  | '>' => some .greater
  | _ => none

/-- The mark that a character is together with an equals sign after it. -/
def markEqual? : Char → Option Kind
  | '!' => some .bangEqual
  | '=' => some .equalEqual
  | '<' => some .lessEqual
  | '>' => some .greaterEqual
  | _ => none

/-- The value of digits read from the left. -/
def decimalValue (digits : List Char) : Nat :=
  digits.foldl (fun n c => 10 * n + (c.toNat - '0'.toNat)) 0

/-- The number that the digits before and after a point denote, rounded to the nearest double. -/
def numberValue (whole fraction : List Char) : Float :=
  Float.ofScientific (decimalValue (whole ++ fraction)) true fraction.length

/-- The number that digits with at most one point among them denote. -/
def numberOf (lexeme : String) : Float :=
  let isWhole (c : Char) : Bool := c != '.'
  numberValue (lexeme.toList.takeWhile isWhole) ((lexeme.toList.dropWhile isWhole).drop 1)

end Scanner

/-- A cursor over the bytes of a text, and the line it is on. -/
structure ByteCursor where
  text : String
  /-- The first byte of the lexeme that is being scanned. -/
  start : Nat := 0
  /-- The next byte to examine. -/
  pos : Nat := 0
  line : Nat := 1
  /-- Whether the end token has been given out. -/
  ended : Bool := false

namespace ByteCursor

/-- What would break a scan off: a byte that the text does not have, or a stretch of it that
does not end within it or that splits a character. -/
inductive Panic where
  | noByte (index : Nat)
  | noStretch (start stop : Nat)
deriving DecidableEq

/-- A computation that reads a text and moves the cursor over it. -/
abbrev Scan := EStateM Panic ByteCursor

def bytes (s : ByteCursor) : ByteArray := s.text.toUTF8

def atEnd (s : ByteCursor) : Bool := s.bytes.size ≤ s.pos

/-- The byte that many places after the next one, zero beyond the end. -/
def look (s : ByteCursor) (ahead : Nat) : UInt8 := s.bytes[s.pos + ahead]?.getD 0

def skip (count : Nat) (s : ByteCursor) : ByteCursor := { s with pos := s.pos + count }

def nextLine (count : Nat) (s : ByteCursor) : ByteCursor := { s with line := s.line + count }

/-- Moves on for as long as the next byte is in a class of characters. -/
def skipWhile (p : Char → Bool) (s : ByteCursor) : ByteCursor :=
  if s.pos < s.bytes.size ∧ p (.ofUInt8 (s.look 0)) then (s.skip 1).skipWhile p else s
termination_by s.bytes.size - s.pos
decreasing_by
  rename_i here
  exact Nat.sub_lt_sub_left here.1 (Nat.lt_succ_self _)

/-- Moves on to the next place between two characters. -/
def skipToBoundary (s : ByteCursor) : ByteCursor :=
  if s.pos < s.bytes.size ∧ ¬ String.Pos.Raw.IsValid s.text ⟨s.pos⟩ then
    (s.skip 1).skipToBoundary
  else s
termination_by s.bytes.size - s.pos
decreasing_by
  rename_i here
  exact Nat.sub_lt_sub_left here.1 (Nat.lt_succ_self _)

/-- Takes the next byte. -/
def bump : Scan UInt8 := do
  let s ← get
  match s.bytes[s.pos]? with
  | some b =>
    set (s.skip 1)
    return b
  | none => throw (.noByte s.pos)

/-- Takes the next byte if it is the given character. -/
def eat (c : Char) : Scan Bool := do
  let s ← get
  if s.look 0 = c.toUInt8 then
    set (s.skip 1)
    return true
  else return false

/-- The bytes from the cursor on. -/
def rest : Scan (List UInt8) := do
  let s ← get
  if s.pos ≤ s.bytes.size then return s.bytes.data.toList.drop s.pos
  else throw (.noStretch s.pos s.bytes.size)

/-- The text between two bytes, if they are within the text and split no character. -/
def stretch? (text : String) (start stop : Nat) : Option String :=
  if h : String.Pos.Raw.IsValid text ⟨start⟩ ∧ String.Pos.Raw.IsValid text ⟨stop⟩ ∧
      start ≤ stop then
    some (text.extract ⟨⟨start⟩, h.1⟩ ⟨⟨stop⟩, h.2.1⟩)
  else none

def stretch (start stop : Nat) : Scan String := do
  match stretch? (← get).text start stop with
  | some text => return text
  | none => throw (.noStretch start stop)

/-- The text from the start of the lexeme to the cursor. -/
def lexeme : Scan String := do
  let s ← get
  stretch s.start s.pos

/-- A string runs to the next quote, over lines if need be, and ends on that quote's line. -/
def scanString : Scan (Except LexError Kind) := do
  let rest ← rest
  match rest.findIdx? (· == '"'.toUInt8) with
  | none =>
    modify fun s => (s.nextLine (rest.count '\n'.toUInt8)).skip rest.length
    return .error ⟨(← get).line, .unterminated⟩
  | some close =>
    modify (nextLine ((rest.take close).count '\n'.toUInt8))
    let s ← get
    let contents ← stretch s.pos (s.pos + close)
    modify (skip (close + 1))
    return .ok (.string contents)

/-- Moves on over a point and the digits after it, if there are any. -/
def skipFraction (s : ByteCursor) : ByteCursor :=
  if s.look 0 = '.'.toUInt8 ∧ Scanner.isDigit (.ofUInt8 (s.look 1)) then
    (s.skip 1).skipWhile Scanner.isDigit
  else s

def scanNumber : Scan Kind := do
  modify (skipWhile Scanner.isDigit)
  modify skipFraction
  return .number (Scanner.numberOf (← lexeme))

def scanWord : Scan Kind := do
  modify (skipWhile Scanner.isWordRest)
  return .ofWord (← lexeme)

/-- A comment runs to the end of its line. -/
def skipComment : Scan Unit := do
  let rest ← rest
  modify (skip ((rest.findIdx? (· == '\n'.toUInt8)).getD rest.length))

/-- A character by itself is a mark or an error, which takes the whole character. -/
def scanSingle (c : Char) : Scan (Except LexError Kind) := do
  match Scanner.mark? c with
  | some kind => return .ok kind
  | none =>
    modify skipToBoundary
    return .error ⟨(← get).line, .unexpected (← lexeme)⟩

/-- A mark of two characters is preferred to its first character alone. -/
def scanMark (c : Char) : Scan (Except LexError Kind) := do
  match Scanner.markEqual? c with
  | some kind => if ← eat '=' then return .ok kind else scanSingle c
  | none => scanSingle c

/-- Scans on after a first character. A blank or a comment has no kind. -/
def scanAfter (c : Char) : Scan (Except LexError (Option Kind)) := do
  if c = '\n' then
    modify (nextLine 1)
    return .ok none
  else if Scanner.isSpace c then return .ok none
  else if c = '"' then return (← scanString).map some
  else if Scanner.isDigit c then return .ok (← scanNumber)
  else if Scanner.isWordStart c then return .ok (← scanWord)
  else if c = '/' then
    if ← eat '/' then
      skipComment
      return .ok none
    else return .ok (some .slash)
  else return (← scanMark c).map some

def scanToken : Scan (Except LexError (Option Kind)) := do
  scanAfter (.ofUInt8 (← bump))

/-- The item that was scanned; there is none for a blank or a comment. -/
def emit : Except LexError (Option Kind) → Scan (Option (Except LexError Token))
  | .error e => return some (.error e)
  | .ok none => return none
  | .ok (some kind) => return some (.ok ⟨kind, ← lexeme, (← get).line⟩)

/-- One round starts a lexeme at the cursor and moves on to its end. -/
def round : Scan (Option (Except LexError Token)) := do
  modify fun s => { s with start := s.pos }
  emit (← scanToken)

/-- The second cursor is over the same text as the first one, and not before it. -/
structure Follows (s s' : ByteCursor) : Prop where
  text : s'.text = s.text
  ended : s'.ended = s.ended
  pos : s.pos ≤ s'.pos

theorem Follows.refl (s : ByteCursor) : Follows s s := ⟨rfl, rfl, Nat.le_refl _⟩

theorem Follows.trans (first : Follows s s') (second : Follows s' s'') : Follows s s'' :=
  ⟨second.text.trans first.text, second.ended.trans first.ended, Nat.le_trans first.pos second.pos⟩

theorem follows_skip (count : Nat) (s : ByteCursor) : Follows s (s.skip count) :=
  ⟨rfl, rfl, Nat.le_add_right ..⟩

theorem follows_nextLine (count : Nat) (s : ByteCursor) : Follows s (s.nextLine count) :=
  ⟨rfl, rfl, Nat.le_refl _⟩

theorem follows_skipWhile (p : Char → Bool) (s : ByteCursor) : Follows s (s.skipWhile p) := by
  fun_induction skipWhile p s with
  | case1 s _ ih => exact (follows_skip 1 s).trans ih
  | case2 s _ => exact .refl s

theorem follows_skipToBoundary (s : ByteCursor) : Follows s s.skipToBoundary := by
  fun_induction skipToBoundary s with
  | case1 s _ ih => exact (follows_skip 1 s).trans ih
  | case2 s _ => exact .refl s

theorem bump_eq (s : ByteCursor) : bump s = match s.bytes[s.pos]? with
    | some b => .ok b (s.skip 1)
    | none => .error (.noByte s.pos) s := by
  change (match s.bytes[s.pos]? with | some b => _ | none => _ : Scan UInt8) s = _
  cases s.bytes[s.pos]? <;> rfl

theorem eat_eq (c : Char) (s : ByteCursor) :
    eat c s = if s.look 0 = c.toUInt8 then .ok true (s.skip 1) else .ok false s := by
  change (if s.look 0 = c.toUInt8 then _ else _ : Scan Bool) s = _
  split <;> rfl

theorem rest_eq (s : ByteCursor) :
    rest s = if s.pos ≤ s.bytes.size then .ok (s.bytes.data.toList.drop s.pos) s
      else .error (.noStretch s.pos s.bytes.size) s := by
  change (if s.pos ≤ s.bytes.size then _ else _ : Scan (List UInt8)) s = _
  split <;> rfl

theorem stretch_eq (start stop : Nat) (s : ByteCursor) :
    stretch start stop s = match stretch? s.text start stop with
      | some text => .ok text s
      | none => .error (.noStretch start stop) s := by
  change (match stretch? s.text start stop with | some text => _ | none => _ : Scan String) s = _
  cases stretch? s.text start stop <;> rfl

/-- The cursor never goes back. -/
def Forward (x : Scan α) : Prop :=
  ∀ s a s', x s = .ok a s' → Follows s s'

theorem Forward.pure (a : α) : Forward (pure a : Scan α) := by
  intro s a' s' ran
  cases ran
  exact .refl s

theorem Forward.bind {x : Scan α} {f : α → Scan β} (first : Forward x)
    (second : ∀ a, Forward (f a)) : Forward (x >>= f) := by
  intro s b s'' ran
  simp only [Bind.bind, EStateM.bind] at ran
  split at ran
  · rename_i ran'
    exact (first _ _ _ ran').trans (second _ _ _ _ ran)
  · cases ran

theorem Forward.get : Forward (get : Scan ByteCursor) := by
  intro s a s' ran
  cases ran
  exact .refl s

theorem Forward.modify {f : ByteCursor → ByteCursor} (follows : ∀ s, Follows s (f s)) :
    Forward (modify f : Scan Unit) := by
  intro s a s' ran
  cases ran
  exact follows s

theorem forward_eat (c : Char) : Forward (eat c) := by
  intro s a s' ran
  rw [eat_eq] at ran
  split at ran
  · cases ran
    exact follows_skip 1 s
  · cases ran
    exact .refl s

theorem forward_rest : Forward rest := by
  intro s a s' ran
  rw [rest_eq] at ran
  split at ran
  · cases ran
    exact .refl s
  · cases ran

theorem forward_stretch (start stop : Nat) : Forward (stretch start stop) := by
  intro s a s' ran
  rw [stretch_eq] at ran
  split at ran
  · cases ran
    exact .refl s
  · cases ran

theorem forward_lexeme : Forward lexeme :=
  .bind .get fun _ => forward_stretch _ _

theorem forward_scanString : Forward scanString := by
  refine .bind forward_rest fun rest => ?_
  split
  · exact .bind (.modify fun s => (follows_nextLine _ s).trans (follows_skip _ _)) fun _ =>
      .bind .get fun _ => .pure _
  · exact .bind (.modify (follows_nextLine _)) fun _ => .bind .get fun _ =>
      .bind (forward_stretch _ _) fun _ => .bind (.modify (follows_skip _)) fun _ => .pure _

theorem follows_skipFraction (s : ByteCursor) : Follows s s.skipFraction := by
  unfold skipFraction
  split
  · exact (follows_skip 1 s).trans (follows_skipWhile _ _)
  · exact .refl s

theorem forward_scanNumber : Forward scanNumber :=
  .bind (.modify (follows_skipWhile _)) fun _ => .bind (.modify follows_skipFraction) fun _ =>
    .bind forward_lexeme fun _ => .pure _

theorem forward_scanWord : Forward scanWord :=
  .bind (.modify (follows_skipWhile _)) fun _ => .bind forward_lexeme fun _ => .pure _

theorem forward_skipComment : Forward skipComment :=
  .bind forward_rest fun _ => .modify (follows_skip _)

theorem forward_scanSingle (c : Char) : Forward (scanSingle c) := by
  unfold scanSingle
  split
  · exact .pure _
  · exact .bind (.modify follows_skipToBoundary) fun _ => .bind .get fun _ =>
      .bind forward_lexeme fun _ => .pure _

theorem forward_scanMark (c : Char) : Forward (scanMark c) := by
  unfold scanMark
  split
  · refine .bind (forward_eat '=') fun eaten => ?_
    split
    · exact .pure _
    · exact forward_scanSingle c
  · exact forward_scanSingle c

theorem forward_scanAfter (c : Char) : Forward (scanAfter c) := by
  unfold scanAfter
  split
  · exact .bind (.modify (follows_nextLine 1)) fun _ => .pure _
  split
  · exact .pure _
  split
  · exact .bind forward_scanString fun _ => .pure _
  split
  · exact .bind forward_scanNumber fun _ => .pure _
  split
  · exact .bind forward_scanWord fun _ => .pure _
  split
  · refine .bind (forward_eat '/') fun eaten => ?_
    split
    · exact .bind forward_skipComment fun _ => .pure _
    · exact .pure _
  · exact .bind (forward_scanMark c) fun _ => .pure _

/-- The cursor goes forward by at least one byte. -/
def Advances (x : Scan α) : Prop :=
  ∀ s a s', x s = .ok a s' → Follows s s' ∧ s.pos < s'.pos

theorem Advances.bind {x : Scan α} {f : α → Scan β} (first : Advances x)
    (second : ∀ a, Forward (f a)) : Advances (x >>= f) := by
  intro s b s'' ran
  simp only [Bind.bind, EStateM.bind] at ran
  split at ran
  · rename_i ran'
    obtain ⟨follows, before⟩ := first _ _ _ ran'
    have follows' := second _ _ _ _ ran
    exact ⟨follows.trans follows', Nat.lt_of_lt_of_le before follows'.pos⟩
  · cases ran

theorem advances_bump : Advances bump := by
  intro s b s' ran
  rw [bump_eq] at ran
  split at ran
  · cases ran
    exact ⟨follows_skip 1 s, Nat.lt_succ_self _⟩
  · cases ran

theorem forward_emit (result : Except LexError (Option Kind)) : Forward (emit result) := by
  unfold emit
  split
  · exact .pure _
  · exact .pure _
  · exact .bind forward_lexeme fun _ => .bind .get fun _ => .pure _

theorem round_follows (ran : round s = .ok found s') : Follows s s' ∧ s.pos < s'.pos := by
  have advances : Advances (do emit (← scanToken)) :=
    .bind (.bind advances_bump fun _ => forward_scanAfter _) forward_emit
  obtain ⟨⟨text, ended, pos⟩, before⟩ := advances { s with start := s.pos } _ _ ran
  exact ⟨⟨text, ended, pos⟩, before⟩

/-- How much is left to scan: the bytes from the cursor on, and the end token. -/
def remaining (s : ByteCursor) : Nat := s.bytes.size - s.pos + (!s.ended).toNat

theorem remaining_round {s s' : ByteCursor} (more : ¬ s.atEnd) (ran : round s = .ok found s') :
    s'.remaining < s.remaining := by
  obtain ⟨follows, before⟩ := round_follows ran
  have within : s.pos < s.bytes.size := by simpa [atEnd] using more
  unfold remaining bytes
  rw [follows.text, follows.ended]
  exact Nat.add_lt_add_right (Nat.sub_lt_sub_left within before) _

/-- The next item. The end token is given out once; after it there is nothing. -/
def next (s : ByteCursor) : EStateM.Result Panic ByteCursor (Option (Except LexError Token)) :=
  if _ : s.atEnd then
    if s.ended then .ok none s else .ok (some (.ok (.eof s.line))) { s with ended := true }
  else match _ : round s with
    | .ok none s' => next s'
    | result => result
termination_by s.remaining
decreasing_by exact remaining_round ‹_› ‹_›

theorem remaining_next (found : next s = .ok (some item) s') : s'.remaining < s.remaining := by
  fun_induction next s with
  | case1 => cases found
  | case2 s _ fresh =>
    cases found
    simp [remaining, bytes, fresh]
  | case3 s more s'' ran ih => exact Nat.lt_trans (ih found) (remaining_round more ran)
  | case4 s more => exact remaining_round more found

/-- All items in order. -/
def collect (s : ByteCursor) : Except Panic (List (Except LexError Token)) :=
  match _ : next s with
  | .error panic _ => .error panic
  | .ok none _ => .ok []
  | .ok (some item) s' => (collect s').map (item :: ·)
termination_by s.remaining
decreasing_by exact remaining_next ‹_›

end ByteCursor

/-- Every token and every lexical error of a source, in order. A scan of a source does not break
off. -/
def scanItems (source : String) : List (Except LexError Token) :=
  match ByteCursor.collect { text := source } with
  | .ok items => items
  | .error _ => []

/-- The tokens of a source, or its first lexical error. -/
def scan (source : String) : Except LexError (List Token) :=
  (scanItems source).mapM id

/-- Whether a word occurs in a source. -/
def mentions (source word : String) : Bool :=
  (scanItems source).any fun
    | .ok token => token.lexeme == word
    | .error _ => false

end Lox
