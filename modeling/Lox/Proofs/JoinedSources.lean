import Lox.Proofs.LexicalGrammar
import Lox.Proofs.MovedDerivations
import Lox.Proofs.ParserCorrectness

/-! Two sources with a line end between them: the tokens of the first are followed by those of the
second, and its statements by those of the second. Whatever belongs to the second source stands as
many lines further down as the first one has, the line end between them included. -/

namespace Lox

namespace Scanner

def movedItem (lines : Nat) : Except LexError Token → Except LexError Token
  | .ok token => .ok ((Relabelling.down lines).token token)
  | .error e => .error { e with line := e.line + lines }

def Piece.moved (lines : Nat) (piece : Piece) : Piece :=
  ⟨piece.text, piece.item.map (movedItem lines), piece.line + lines⟩

theorem string_moved (lines line : Nat) (cs : List Char) :
    string (line + lines) cs = ((string line cs).1.moved lines, (string line cs).2) := by
  unfold string
  dsimp only
  rw [Nat.add_right_comm]
  split <;> rfl

theorem number_moved (lines line : Nat) (c : Char) (cs : List Char) :
    number (line + lines) c cs = ((number line c cs).1.moved lines, (number line c cs).2) := by
  unfold number
  dsimp only
  split
  · split <;> rfl
  · rfl

theorem mark_moved (lines line : Nat) (c : Char) (cs : List Char) :
    mark (line + lines) c cs = ((mark line c cs).1.moved lines, (mark line c cs).2) := by
  unfold mark
  split
  · rfl
  · split <;> rfl

theorem next_moved (lines line : Nat) (c : Char) (cs : List Char) :
    next (line + lines) c cs = ((next line c cs).1.moved lines, (next line c cs).2) := by
  unfold next
  split
  · rw [Nat.add_right_comm]
    rfl
  split
  · rfl
  split
  · exact string_moved ..
  split
  · exact number_moved ..
  split
  · rfl
  split
  · rfl
  · exact mark_moved ..

theorem itemsFrom_moved (lines line : Nat) (cs : List Char) :
    itemsFrom (line + lines) cs = (itemsFrom line cs).map (movedItem lines) := by
  fun_induction itemsFrom line cs with
  | case1 line =>
    rw [itemsFrom]
    rfl
  | case2 line c cs step skipped ih =>
    rw [itemsFrom, next_moved]
    dsimp only [Piece.moved]
    rw [show (next line c cs).1.item = none from skipped]
    exact ih
  | case3 line c cs step item found ih =>
    rw [itemsFrom, next_moved]
    dsimp only [Piece.moved]
    rw [show (next line c cs).1.item = some item from found]
    exact congrArg (movedItem lines item :: ·) ih

theorem count_takeWhile {p : Char → Bool} (stop : p c = false) (cs : List Char) :
    (cs.takeWhile p).count c = 0 := by
  refine List.count_eq_zero.mpr fun member => ?_
  rw [mem_takeWhile member] at stop
  cases stop

theorem string_line (line : Nat) (cs : List Char) :
    (string line cs).1.line = line + (string line cs).1.text.count '\n' := by
  unfold string
  dsimp only
  split
  · simp [Piece.error]
  · rename_i quote rest behind
    simp [Piece.token, eq_quote behind]

theorem number_line (line : Nat) (other : c ≠ '\n') (cs : List Char) :
    (number line c cs).1.line = line + (number line c cs).1.text.count '\n' := by
  have digits := count_takeWhile (p := isDigit) (c := '\n') rfl
  unfold number
  dsimp only
  split
  · rename_i d rest behind
    split
    · rename_i digit
      have first : d ≠ '\n' := by
        rintro rfl
        cases digit
      simp [Piece.token, digits, other, first]
    · simp [Piece.token, digits, other]
  · simp [Piece.token, digits, other]

theorem mark_line (line : Nat) (other : c ≠ '\n') (cs : List Char) :
    (mark line c cs).1.line = line + (mark line c cs).1.text.count '\n' := by
  unfold mark
  split
  · simp [Piece.token, other]
  · split <;> simp [Piece.token, Piece.error, other]

/-- A piece ends on the line that its line ends lead to. -/
theorem next_line (line : Nat) (c : Char) (cs : List Char) :
    (next line c cs).1.line = line + (next line c cs).1.text.count '\n' := by
  unfold next
  split
  · rename_i newline
    simp [Piece.skipped, newline]
  rename_i other
  split
  · simp [Piece.skipped, other]
  split
  · exact string_line ..
  split
  · exact number_line line other cs
  split
  · simp [word, Piece.token, other, count_takeWhile (p := isWordRest) (c := '\n') rfl]
  split
  · simp [Piece.skipped, count_takeWhile (p := (· != '\n')) (c := '\n') rfl]
  · exact mark_line line other _

section

variable {p : Char → Bool} (stop : p c = false)
include stop

theorem takeWhile_append_stop (cs more : List Char) :
    (cs ++ c :: more).takeWhile p = cs.takeWhile p := by
  induction cs with
  | nil => simp [stop]
  | cons d cs ih =>
    rw [List.cons_append, List.takeWhile_cons, List.takeWhile_cons, ih]

theorem dropWhile_append_stop (cs more : List Char) :
    (cs ++ c :: more).dropWhile p = cs.dropWhile p ++ c :: more := by
  induction cs with
  | nil => simp [stop]
  | cons d cs ih =>
    rw [List.cons_append, List.dropWhile_cons, List.dropWhile_cons, ih]
    split <;> rfl

end

/-- A string that is not closed before the line end may be closed after it. -/
def Piece.isOpen (piece : Piece) : Prop :=
  ∃ line, piece.item = some (.error ⟨line, .unterminated⟩)

theorem string_joined (line : Nat) (cs more : List Char) (closed : ¬ (string line cs).1.isOpen) :
    string line (cs ++ '\n' :: more) =
      ((string line cs).1, (string line cs).2 ++ '\n' :: more) := by
  unfold string at closed ⊢
  dsimp only at closed ⊢
  rw [List.takeWhile_append, List.dropWhile_append]
  split at closed
  · exact absurd ⟨_, rfl⟩ closed
  · rename_i quote rest behind
    rw [behind]
    have shorter : (cs.takeWhile (· != '"')).length ≠ cs.length := by
      intro whole
      have split := List.takeWhile_append_dropWhile (p := (· != '"')) (l := cs)
      have lengths := congrArg List.length split
      rw [behind, List.length_append, whole] at lengths
      simp at lengths
    simp [shorter]

theorem number_joined (line : Nat) (c : Char) (cs more : List Char) :
    number line c (cs ++ '\n' :: more) =
      ((number line c cs).1, (number line c cs).2 ++ '\n' :: more) := by
  have whole := takeWhile_append_stop (p := isDigit) (c := '\n') rfl
  have behind := dropWhile_append_stop (p := isDigit) (c := '\n') rfl
  unfold number
  dsimp only
  rw [whole, behind]
  generalize cs.dropWhile isDigit = rest
  cases rest with
  | nil => rfl
  | cons point rest =>
    by_cases dot : point = '.'
    · rw [dot]
      cases rest with
      | nil => rfl
      | cons d rest =>
        by_cases digit : isDigit d
        · simp [digit, whole, behind]
        · simp [digit]
    · simp [dot]

theorem mark_joined (line : Nat) (c : Char) (cs more : List Char) :
    mark line c (cs ++ '\n' :: more) =
      ((mark line c cs).1, (mark line c cs).2 ++ '\n' :: more) := by
  unfold mark
  cases markEqual? c with
  | none => cases mark? c <;> rfl
  | some kind =>
    cases cs with
    | nil => cases mark? c <;> rfl
    | cons d cs =>
      by_cases equal : d = '='
      · rw [equal]
        rfl
      · simp only [List.cons_append, Option.some.injEq, List.cons.injEq, equal, false_and, imp_self,
          implies_true]
        cases mark? c <;> rfl

/-- No other piece reaches over a line end. -/
theorem next_joined (line : Nat) (c : Char) (cs more : List Char)
    (closed : ¬ (next line c cs).1.isOpen) :
    next line c (cs ++ '\n' :: more) =
      ((next line c cs).1, (next line c cs).2 ++ '\n' :: more) := by
  unfold next at closed ⊢
  by_cases newline : c = '\n'
  · simp only [if_pos newline]
  simp only [if_neg newline] at closed ⊢
  by_cases space : isSpace c
  · simp only [if_pos space]
  simp only [if_neg space] at closed ⊢
  by_cases quote : c = '"'
  · simp only [if_pos quote] at closed ⊢
    exact string_joined line cs more closed
  simp only [if_neg quote]
  by_cases digit : isDigit c
  · simp only [if_pos digit]
    exact number_joined ..
  simp only [if_neg digit]
  by_cases start : isWordStart c
  · simp only [if_pos start, word]
    rw [takeWhile_append_stop (p := isWordRest) rfl, dropWhile_append_stop (p := isWordRest) rfl]
  simp only [if_neg start]
  by_cases slash : c = '/'
  · rw [slash]
    cases cs with
    | nil => exact mark_joined line '/' [] more
    | cons d cs =>
      by_cases twice : d = '/'
      · simp [twice, takeWhile_append_stop (p := (· != '\n')) (c := '\n') rfl,
          dropWhile_append_stop (p := (· != '\n')) (c := '\n') rfl]
      · simp only [List.cons_append, List.cons.injEq, twice, false_and, imp_self, implies_true]
        exact mark_joined line '/' (d :: cs) more
  · simp only [slash, imp_false, IsEmpty.forall_iff, implies_true]
    exact mark_joined ..

theorem count_next (line : Nat) (c : Char) (cs : List Char) :
    (next line c cs).1.line + (next line c cs).2.count '\n' = line + (c :: cs).count '\n' := by
  rw [next_line, ← next_text line c cs, List.count_append, Nat.add_assoc]

/-- The items of the first source without its end, then those of the second. -/
theorem itemsFrom_joined (line : Nat) (cs more : List Char)
    (closed : ∀ line' cause, .error ⟨line', cause⟩ ∈ itemsFrom line cs → cause ≠ .unterminated) :
    ∃ items, itemsFrom line cs = items ++ [.ok (.eof (line + cs.count '\n'))] ∧
      itemsFrom line (cs ++ '\n' :: more) =
        items ++ itemsFrom (line + cs.count '\n' + 1) more := by
  fun_induction itemsFrom line cs with
  | case1 line =>
    refine ⟨[], rfl, ?_⟩
    rw [List.nil_append, itemsFrom]
    rfl
  | case2 line c cs step skipped ih =>
    obtain ⟨items, first, joined⟩ := ih closed
    rw [count_next] at first joined
    refine ⟨items, first, ?_⟩
    have settled : ¬ (next line c cs).1.isOpen := by
      rintro ⟨line', found⟩
      cases skipped.symm.trans found
    rw [List.cons_append, itemsFrom, next_joined line c cs more settled]
    dsimp only
    rw [show (next line c cs).1.item = none from skipped]
    exact joined
  | case3 line c cs step item found ih =>
    obtain ⟨items, first, joined⟩ :=
      ih fun line' cause member => closed line' cause (List.mem_cons_of_mem _ member)
    rw [count_next] at first joined
    refine ⟨item :: items, congrArg (item :: ·) first, ?_⟩
    have settled : ¬ (next line c cs).1.isOpen := by
      rintro ⟨line', unclosed⟩
      obtain rfl := Option.some.inj (found.symm.trans unclosed)
      exact closed _ _ (List.mem_cons_self ..) rfl
    rw [List.cons_append, itemsFrom, next_joined line c cs more settled]
    dsimp only
    rw [show (next line c cs).1.item = some item from found]
    exact congrArg (item :: ·) joined

end Scanner

/-- The number of line ends in a source. -/
def newlines (source : String) : Nat := source.toList.count '\n'

/-- A source can be scanned if all its items are tokens. -/
theorem scan_of_items (items : scanItems source = tokens.map .ok) : scan source = .ok tokens := by
  unfold scan
  rw [items]
  clear items
  induction tokens with
  | nil => rfl
  | cons token tokens ih =>
    rw [List.map_cons, List.mapM_cons, ih]
    rfl

theorem items_of_scan (scanned : scan source = .ok tokens) :
    scanItems source = tokens.map .ok := by
  unfold scan at scanned
  generalize scanItems source = items at scanned
  induction items generalizing tokens with
  | nil =>
    cases scanned
    rfl
  | cons item items ih =>
    rw [List.mapM_cons] at scanned
    cases item with
    | error e => cases scanned
    | ok first =>
      cases rest : items.mapM id with
      | error e =>
        rw [rest] at scanned
        cases scanned
      | ok others =>
        rw [rest] at scanned
        cases scanned
        exact congrArg (.ok first :: ·) (ih rest)

theorem scan_joined (scanned : scan p = .ok tokens) (scanned' : scan q = .ok tokens') :
    ∃ word, tokens = word ++ [.eof (1 + newlines p)] ∧ Grammar.NoEnd word ∧
      scan (p ++ "\n" ++ q) =
        .ok (word ++ tokens'.map (Relabelling.down (newlines p + 1)).token) := by
  replace scanned := items_of_scan scanned
  rw [scanItems_eq] at scanned
  have closed : ∀ line cause, .error ⟨line, cause⟩ ∈ Scanner.itemsFrom 1 p.toList →
      cause ≠ .unterminated := by
    intro line cause member
    rw [scanned] at member
    obtain ⟨_, -, same⟩ := List.mem_map.mp member
    cases same
  obtain ⟨items, first, joined⟩ := Scanner.itemsFrom_joined 1 p.toList q.toList closed
  obtain ⟨word, last, rfl, rfl, ends⟩ := List.map_eq_append_iff.mp (scanned.symm.trans first)
  obtain ⟨eof, rest, rfl, same, none⟩ := List.map_eq_cons_iff.mp ends
  cases List.map_eq_nil_iff.mp none
  cases same
  refine ⟨word, rfl, ?_, ?_⟩
  · have cut := Scanner.piecesFrom_cut 1 p.toList
    have pieces := (Scanner.itemsFrom_eq_pieces 1 p.toList).symm.trans first
    intro token member
    refine cut.ne_eof ?_
    rw [(List.append_inj' pieces rfl).1]
    exact List.mem_map_of_mem member
  · refine scan_of_items ?_
    have text : (p ++ "\n" ++ q).toList = p.toList ++ '\n' :: q.toList := by
      simp [String.toList_append]
    have lines : 1 + p.toList.count '\n' + 1 = 1 + (newlines p + 1) := Nat.add_assoc ..
    have second : (scanItems q).map (Scanner.movedItem (newlines p + 1)) =
        (tokens'.map (Relabelling.down (newlines p + 1)).token).map .ok := by
      rw [items_of_scan scanned', List.map_map, List.map_map]
      rfl
    rw [scanItems_eq] at second ⊢
    rw [text, joined, lines, Scanner.itemsFrom_moved, second, List.map_append]

theorem line_ne_zero_of_scan (scanned : scan source = .ok tokens) :
    ∀ token ∈ tokens, token.line ≠ 0 := by
  intro token member
  have item : .ok token ∈ scanItems source := by
    rw [items_of_scan scanned]
    exact List.mem_map_of_mem member
  rw [scanItems_eq, Scanner.itemsFrom_moved 1 0] at item
  obtain ⟨earlier, -, moved⟩ := List.mem_map.mp item
  cases earlier with
  | error e => cases moved
  | ok earlier =>
    cases moved
    exact Nat.succ_ne_zero earlier.line

theorem derives_of_parse (noEnd : Grammar.NoEnd word) (isEnd : eof.kind = .eof)
    (parsed : parse (word ++ [eof]) n = (.ok program, cursor)) :
    Grammar.Derives .declarations n word program cursor.nextNode := by
  unfold parse Parser.outcome EStateM.run at parsed
  split at parsed
  · rename_i accepted
    cases parsed
    obtain ⟨w, _, same, derived, atEnd⟩ := Grammar.program_sound accepted
    obtain ⟨tokens, rfl⟩ := Cursor.mk.inj same
    obtain rfl := Grammar.word_of_end isEnd noEnd derived.noEnd atEnd tokens
    exact derived
  · cases parsed

theorem parse_of_derives (derived : Grammar.Derives .declarations n word program n')
    (isEnd : eof.kind = .eof) : parse (word ++ [eof]) n = (.ok program, ⟨[eof], n'⟩) := by
  unfold parse Parser.outcome EStateM.run
  rw [Grammar.program_complete derived ⟨eof, isEnd⟩]

/-- The program of two sources with a line end between them. -/
theorem parse_joined (scanned : scan p = .ok tokens) (scanned' : scan q = .ok tokens')
    (parsed : parse tokens n = (.ok program, cursor))
    (parsed' : parse tokens' cursor.nextNode = (.ok program', cursor')) :
    ∃ joined last, scan (p ++ "\n" ++ q) = .ok joined ∧
      parse joined n =
        (.ok (program ++ (Relabelling.down (newlines p + 1)).stmts program'), last) ∧
      last.nextNode = cursor'.nextNode := by
  obtain ⟨word, rfl, noEnd, joined⟩ := scan_joined scanned scanned'
  obtain ⟨word', rfl, noEnd', -⟩ := scan_joined scanned' scanned'
  have first := derives_of_parse noEnd rfl parsed
  have second := (derives_of_parse noEnd' rfl parsed').moved fun line => line + (newlines p + 1)
  rw [List.map_append, ← List.append_assoc] at joined
  exact ⟨_, _, joined, parse_of_derives (first.append second) rfl, rfl⟩

/-- All that a program is made of stands on some line. -/
theorem below_parsed (lines : Nat) (scanned : scan source = .ok tokens)
    (parsed : parse tokens n = (.ok program, cursor)) :
    (Relabelling.below lines).stmts program = (Relabelling.down lines).stmts program := by
  have placed := line_ne_zero_of_scan scanned
  obtain ⟨word, rfl, noEnd, -⟩ := scan_joined scanned scanned
  have derived := derives_of_parse noEnd rfl parsed
  have words : word.map (Relabelling.below lines).token =
      word.map (Relabelling.down lines).token := by
    refine List.map_congr_left fun token member => ?_
    have line := placed token (List.mem_append_left _ member)
    simp [Relabelling.token, Relabelling.below, Relabelling.onLines, line]
  have lowered := derived.moved (Relabelling.below lines).line
  have moved := derived.moved (· + lines)
  -- One word has one tree only.
  have same := (parse_of_derives (words ▸ lowered) rfl).symm.trans
    (parse_of_derives moved (Eq.refl (Token.eof 0).kind))
  exact Except.ok.inj (Prod.mk.inj same).1

end Lox
