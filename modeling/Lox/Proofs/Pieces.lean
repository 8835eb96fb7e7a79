import Lox.Token.Scanner

/-! The pieces of a source, read off its characters: what the scanner takes in one round is the
longest piece at its place, and what it gives out are the items of the pieces. -/

namespace Lox

namespace Scanner

/-- A stretch of the source, the token or error it is (nothing for blanks and comments), and the
line on which it ends. -/
structure Piece where
  text : List Char
  item : Option (Except LexError Token)
  line : Nat

namespace Piece

def skipped (text : List Char) (line : Nat) : Piece := ⟨text, none, line⟩

def token (kind : Kind) (text : List Char) (line : Nat) : Piece :=
  ⟨text, some (.ok ⟨kind, String.ofList text, line⟩), line⟩

def error (cause : LexError.Cause) (text : List Char) (line : Nat) : Piece :=
  ⟨text, some (.error ⟨line, cause⟩), line⟩

/-- The stretch of the source that a piece covers. -/
def stretch (piece : Piece) : String := String.ofList piece.text

end Piece

/-- A string runs to the next quote, over lines if need be, and ends on that quote's line. -/
def string (line : Nat) (cs : List Char) : Piece × List Char :=
  let body := cs.takeWhile (· != '"')
  let last := line + body.count '\n'
  match cs.dropWhile (· != '"') with
  | [] => (.error .unterminated ('"' :: body) last, [])
  | quote :: rest =>
    (.token (.string (String.ofList body)) ('"' :: body ++ [quote]) last, rest)

theorem span_until {d : Char} {xs : List Char} (absent : d ∉ xs) (ys : List Char) :
    (xs ++ d :: ys).takeWhile (· != d) = xs ∧ (xs ++ d :: ys).dropWhile (· != d) = d :: ys := by
  have all : ∀ c ∈ xs, (c != d) = true := fun c member =>
    bne_iff_ne.mpr fun same => absent (same ▸ member)
  rw [List.takeWhile_append_of_pos all, List.dropWhile_append_of_pos all]
  simp

theorem span_absent {d : Char} {xs : List Char} (absent : d ∉ xs) :
    xs.takeWhile (· != d) = xs ∧ xs.dropWhile (· != d) = [] := by
  induction xs with
  | nil => exact ⟨rfl, rfl⟩
  | cons c xs ih =>
    obtain ⟨other, later⟩ := List.ne_and_not_mem_of_not_mem_cons absent
    obtain ⟨taken, dropped⟩ := ih later
    simp [other.symm, taken, dropped]

theorem string_closed (unquoted : '"' ∉ contents) (line : Nat) (rest : List Char) :
    string line (contents ++ '"' :: rest) =
      (.token (.string (String.ofList contents)) ('"' :: contents ++ ['"'])
        (line + contents.count '\n'), rest) := by
  obtain ⟨taken, dropped⟩ := span_until unquoted rest
  simp only [string, taken, dropped]

theorem string_unclosed (unquoted : '"' ∉ cs) (line : Nat) :
    string line cs = (.error .unterminated ('"' :: cs) (line + cs.count '\n'), []) := by
  obtain ⟨taken, dropped⟩ := span_absent unquoted
  simp only [string, taken, dropped]

/-- A number is a run of digits, with a second run after a point if a digit follows the point. -/
def number (line : Nat) (c : Char) (cs : List Char) : Piece × List Char :=
  let whole := c :: cs.takeWhile isDigit
  match cs.dropWhile isDigit with
  | '.' :: d :: rest =>
    if isDigit d then
      let fraction := d :: rest.takeWhile isDigit
      (.token (.number (numberValue whole fraction)) (whole ++ '.' :: fraction) line,
        rest.dropWhile isDigit)
    else (.token (.number (numberValue whole [])) whole line, '.' :: d :: rest)
  | rest => (.token (.number (numberValue whole [])) whole line, rest)

theorem number_decimal (behind : cs.dropWhile isDigit = '.' :: d :: rest) (digit : isDigit d)
    (line : Nat) (c : Char) :
    number line c cs =
      (.token (.number (numberValue (c :: cs.takeWhile isDigit) (d :: rest.takeWhile isDigit)))
        (c :: cs.takeWhile isDigit ++ '.' :: d :: rest.takeWhile isDigit) line,
        rest.dropWhile isDigit) := by
  simp only [number, behind, digit, if_true]

theorem number_whole
    (behind : ∀ d rest, cs.dropWhile isDigit = '.' :: d :: rest → isDigit d = false)
    (line : Nat) (c : Char) :
    number line c cs =
      (.token (.number (numberValue (c :: cs.takeWhile isDigit) [])) (c :: cs.takeWhile isDigit)
        line, cs.dropWhile isDigit) := by
  unfold number
  dsimp only
  split
  · rename_i d rest found
    rw [behind d rest found, found]
    rfl
  · rfl

theorem numberOf_decimal (noPoint : '.' ∉ whole) (fraction : List Char) :
    numberOf (String.ofList (whole ++ '.' :: fraction)) = numberValue whole fraction := by
  obtain ⟨taken, dropped⟩ := span_until noPoint fraction
  simp only [numberOf, String.toList_ofList, taken, dropped, List.drop_one, List.tail_cons]

theorem numberOf_whole (noPoint : '.' ∉ whole) :
    numberOf (String.ofList whole) = numberValue whole [] := by
  obtain ⟨taken, dropped⟩ := span_absent noPoint
  simp only [numberOf, String.toList_ofList, taken, dropped, List.drop_nil]

theorem point_not_mem (digit : isDigit c) (cs : List Char) : '.' ∉ c :: cs.takeWhile isDigit := by
  intro member
  obtain rfl | member := List.mem_cons.mp member
  · cases digit
  · have := List.all_eq_true.mp List.all_takeWhile _ member
    cases this

def word (line : Nat) (c : Char) (cs : List Char) : Piece × List Char :=
  let text := c :: cs.takeWhile isWordRest
  (.token (.ofWord (String.ofList text)) text line, cs.dropWhile isWordRest)

/-- A mark of two characters is preferred to its first character alone. -/
def mark (line : Nat) (c : Char) (cs : List Char) : Piece × List Char :=
  match markEqual? c, cs with
  | some kind, '=' :: rest => (.token kind [c, '='] line, rest)
  | _, _ =>
    match mark? c with
    | some kind => (.token kind [c] line, cs)
    | none => (.error (.unexpected (String.singleton c)) [c] line, cs)

theorem mark_pair (found : markEqual? c = some kind) (line : Nat) (rest : List Char) :
    mark line c ('=' :: rest) = (.token kind [c, '='] line, rest) := by
  simp only [mark, found]

theorem mark_single (alone : markEqual? c = none ∨ cs.head? ≠ some '=') (line : Nat) :
    mark line c cs = (match mark? c with
      | some kind => .token kind [c] line
      | none => .error (.unexpected (String.singleton c)) [c] line, cs) := by
  unfold mark
  split
  · rename_i found
    rw [found] at alone
    exact alone.elim nofun fun other => (other rfl).elim
  · cases mark? c <;> rfl

/-- The next piece of a source that is not empty, and what follows it. -/
def next (line : Nat) (c : Char) (cs : List Char) : Piece × List Char :=
  if c = '\n' then (.skipped [c] (line + 1), cs)
  else if isSpace c then (.skipped [c] line, cs)
  else if c = '"' then string line cs
  else if isDigit c then number line c cs
  else if isWordStart c then word line c cs
  else match c, cs with
    | '/', '/' :: rest =>
      (.skipped ('/' :: '/' :: rest.takeWhile (· != '\n')) line, rest.dropWhile (· != '\n'))
    | c, cs => mark line c cs

/-- A piece that starts with the character and goes on to what follows it. -/
def Takes (c : Char) (cs : List Char) (step : Piece × List Char) : Prop :=
  ∃ more, step.1.text = c :: more ∧ more ++ step.2 = cs

theorem Takes.text {step : Piece × List Char} (takes : Takes c cs step) :
    step.1.text ++ step.2 = c :: cs := by
  obtain ⟨more, text, rest⟩ := takes
  rw [text, List.cons_append, rest]

theorem string_takes (line : Nat) (cs : List Char) : Takes '"' cs (string line cs) := by
  have whole := List.takeWhile_append_dropWhile (p := (· != '"')) (l := cs)
  unfold string
  dsimp only
  split
  · rename_i behind
    rw [behind] at whole
    exact ⟨_, rfl, whole⟩
  · rename_i quote rest behind
    rw [behind] at whole
    exact ⟨_, rfl, (List.append_assoc ..).trans whole⟩

theorem number_takes (line : Nat) (c : Char) (cs : List Char) :
    Takes c cs (number line c cs) := by
  have whole := List.takeWhile_append_dropWhile (p := isDigit) (l := cs)
  unfold number
  dsimp only
  split
  · rename_i d rest behind
    rw [behind] at whole
    split
    · refine ⟨_, rfl, (List.append_assoc ..).trans ?_⟩
      rwa [List.cons_append, List.cons_append, List.takeWhile_append_dropWhile]
    · exact ⟨_, rfl, whole⟩
  · exact ⟨_, rfl, whole⟩

theorem mark_takes (line : Nat) (c : Char) (cs : List Char) : Takes c cs (mark line c cs) := by
  unfold mark
  split
  · exact ⟨_, rfl, rfl⟩
  · split <;> exact ⟨_, rfl, rfl⟩

theorem next_takes (line : Nat) (c : Char) (cs : List Char) : Takes c cs (next line c cs) := by
  unfold next
  split
  · exact ⟨_, rfl, rfl⟩
  split
  · exact ⟨_, rfl, rfl⟩
  split
  · rename_i quote
    rw [quote]
    exact string_takes line cs
  split
  · exact number_takes line c cs
  split
  · exact ⟨_, rfl, List.takeWhile_append_dropWhile⟩
  split
  · exact ⟨_, rfl, congrArg ('/' :: ·) List.takeWhile_append_dropWhile⟩
  · exact mark_takes ..

theorem next_text (line : Nat) (c : Char) (cs : List Char) :
    (next line c cs).1.text ++ (next line c cs).2 = c :: cs := (next_takes line c cs).text

theorem next_rest_length (line : Nat) (c : Char) (cs : List Char) :
    (next line c cs).2.length < (c :: cs).length := by
  obtain ⟨more, -, rest⟩ := next_takes line c cs
  have suffix := (List.suffix_append more (next line c cs).2).length_le
  rw [rest] at suffix
  exact Nat.lt_succ_of_le suffix

/-- A token has the text and the line of its piece. -/
def Piece.Labelled (piece : Piece) : Prop :=
  ∀ token, piece.item = some (.ok token) → token = ⟨token.kind, piece.stretch, piece.line⟩

theorem Piece.labelled_token (kind : Kind) (text : List Char) (line : Nat) :
    Labelled (.token kind text line) := by
  intro token found
  cases found
  rfl

theorem next_labelled (line : Nat) (c : Char) (cs : List Char) : (next line c cs).1.Labelled := by
  unfold next
  split
  · exact nofun
  split
  · exact nofun
  split
  · unfold string
    dsimp only
    split
    · exact nofun
    · exact Piece.labelled_token _ _ _
  split
  · unfold number
    dsimp only
    split
    · split <;> exact Piece.labelled_token _ _ _
    · exact Piece.labelled_token _ _ _
  split
  · exact Piece.labelled_token _ _ _
  split
  · exact nofun
  · unfold mark
    split
    · exact Piece.labelled_token _ _ _
    · split
      · exact Piece.labelled_token _ _ _
      · exact nofun

/-- The tokens and errors of a source that starts on a given line, closed by the end token. -/
def itemsFrom (line : Nat) : List Char → List (Except LexError Token)
  | [] => [.ok (.eof line)]
  | c :: cs =>
    let step := next line c cs
    match step.1.item with
    | none => itemsFrom step.1.line step.2
    | some item => item :: itemsFrom step.1.line step.2
termination_by cs => cs.length
decreasing_by
  all_goals exact next_rest_length line c cs

/-- The pieces of a source that starts on a given line. -/
def piecesFrom (line : Nat) : List Char → List Piece
  | [] => []
  | c :: cs =>
    let step := next line c cs
    step.1 :: piecesFrom step.1.line step.2
termination_by cs => cs.length
decreasing_by exact next_rest_length line c cs

/-- The line on which the last of the pieces ends. -/
def lastLine (line : Nat) (pieces : List Piece) : Nat :=
  (pieces.getLast?.map Piece.line).getD line

theorem lastLine_cons (line : Nat) (piece : Piece) (pieces : List Piece) :
    lastLine line (piece :: pieces) = lastLine piece.line pieces := by
  unfold lastLine
  rw [List.getLast?_cons]
  cases pieces.getLast? <;> rfl

theorem itemsFrom_eq_pieces (line : Nat) (cs : List Char) :
    itemsFrom line cs = (piecesFrom line cs).filterMap Piece.item ++
      [.ok (.eof (lastLine line (piecesFrom line cs)))] := by
  fun_induction itemsFrom line cs with
  | case1 line => rw [piecesFrom]; rfl
  | case2 line c cs step skipped ih =>
    rw [piecesFrom, lastLine_cons, List.filterMap_cons_none skipped]
    exact ih
  | case3 line c cs step item found ih =>
    rw [piecesFrom, lastLine_cons, List.filterMap_cons_some found, List.cons_append]
    exact congrArg (item :: ·) ih

end Scanner

end Lox
