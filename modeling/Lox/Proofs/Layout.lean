import Lox.Proofs.JoinedSources

/-! Layout: what stands between the tokens of a source does not matter, as long as it keeps them
apart. Each token is cut off at the first white space after it, wherever else its text stands. -/

namespace Lox

/-- Tokens that differ in their lines at most. -/
def Token.Alike (token other : Token) : Prop :=
  other.kind = token.kind ∧ other.lexeme = token.lexeme

namespace Lexical

/-- White space, and comments that are closed by the ends of their lines. -/
inductive Layout : List Char → Prop where
  | nil : Layout []
  | space (blank : c ∈ [' ', '\r', '\t', '\n']) (more : Layout text) : Layout (c :: text)
  | comment (oneLine : '\n' ∉ text) (more : Layout rest) :
      Layout ('/' :: '/' :: text ++ '\n' :: rest)

/-- Layout that keeps two lexemes apart: it starts with white space. -/
inductive Separator : List Char → Prop where
  | intro (blank : c ∈ [' ', '\r', '\t', '\n']) (more : Layout text) : Separator (c :: text)

/-- Lexemes in order with a separator after each of them, which may be missing after the last. -/
inductive Spaced : List String → List Char → Prop where
  | nil : Spaced [] []
  | cons (apart : Separator gap ∨ gap = [] ∧ lexemes = []) (more : Spaced lexemes text) :
      Spaced (lexeme :: lexemes) (lexeme.toList ++ (gap ++ text))

/-- Lexemes that are spaced, with a separator before the first of them or without one. -/
def LaidOut (lexemes : List String) (text : List Char) : Prop :=
  ∃ margin spaced, (Separator margin ∨ margin = []) ∧ Spaced lexemes spaced ∧
    text = margin ++ spaced

theorem Separator.layout (separator : Separator gap) : Layout gap := by
  cases separator with
  | intro blank more => exact .space blank more

end Lexical

namespace Scanner

open Lexical

/-- The text is empty or starts with white space. -/
def Apart (tail : List Char) : Prop := ∀ c ∈ tail.head?, c ∈ [' ', '\r', '\t', '\n']

theorem forall_blank {p : Char → Bool} (space : p ' ' = false) (carriage : p '\r' = false)
    (tab : p '\t' = false) (newline : p '\n' = false) :
    ∀ c ∈ [' ', '\r', '\t', '\n'], p c = false := by
  intro c blank
  simp only [List.mem_cons, List.not_mem_nil, or_false] at blank
  obtain rfl | rfl | rfl | rfl := blank
  · exact space
  · exact carriage
  · exact tab
  · exact newline

/-- What is taken while a test holds ends before white space that fails the test. -/
theorem Apart.split (apart : Apart tail) {p : Char → Bool}
    (stops : ∀ c ∈ [' ', '\r', '\t', '\n'], p c = false) (all : ∀ c ∈ text, p c) :
    (text ++ tail).takeWhile p = text ∧ (text ++ tail).dropWhile p = tail := by
  rw [List.takeWhile_append_of_pos all, List.dropWhile_append_of_pos all]
  cases tail with
  | nil => simp
  | cons c tail =>
    have stop := stops c (apart c rfl)
    simp [stop]

/-- A token that starts with `c` and goes on with `text` is cut off wherever `tail` follows it. -/
def CutsOff (scan : Nat → List Char → Piece × List Char) (token : Token) (c : Char)
    (text tail : List Char) : Prop :=
  token.lexeme.toList = c :: text ∧ ∀ line, ∃ last,
    scan line (text ++ tail) = (.token token.kind (c :: text) last, tail)

theorem string_cutsOff (found : (string line cs).1.item = some (.ok token)) (tail : List Char) :
    ∃ text, CutsOff string token '"' text tail := by
  unfold string at found
  dsimp only at found
  split at found
  · cases found
  · rename_i quote rest behind
    cases found
    obtain rfl : quote = '"' := eq_quote behind
    have inside : ∀ c ∈ cs.takeWhile (· != '"'), (c != '"') = true := fun _ => mem_takeWhile
    refine ⟨cs.takeWhile (· != '"') ++ ['"'], String.toList_ofList, fun line => ⟨?last, ?_⟩⟩
    case last => exact line + (cs.takeWhile (· != '"')).count '\n'
    unfold string
    dsimp only
    rw [List.append_assoc, List.takeWhile_append_of_pos inside,
      List.dropWhile_append_of_pos inside]
    simp

theorem number_cutsOff (found : (number line c cs).1.item = some (.ok token))
    (apart : Apart tail) : ∃ text, CutsOff (number · c) token c text tail := by
  have stops : ∀ c ∈ [' ', '\r', '\t', '\n'], isDigit c = false := forall_blank rfl rfl rfl rfl
  have whole : ∀ d ∈ cs.takeWhile isDigit, isDigit d := fun _ => mem_takeWhile
  -- No point follows, since the text behind the digits is empty or starts with white space.
  have undivided : CutsOff (number · c) ⟨.number (numberValue (c :: cs.takeWhile isDigit) []),
      .ofList (c :: cs.takeWhile isDigit), line⟩ c (cs.takeWhile isDigit) tail := by
    refine ⟨String.toList_ofList, fun line => ⟨line, ?_⟩⟩
    unfold number
    dsimp only
    rw [(apart.split stops whole).1, (apart.split stops whole).2]
    split
    · have point := apart '.' rfl
      simp at point
    · rfl
  unfold number at found
  dsimp only at found
  split at found
  · rename_i d rest behind
    split at found
    · rename_i digit
      cases found
      have digits : ∀ d ∈ rest.takeWhile isDigit, isDigit d := fun _ => mem_takeWhile
      have fraction := apart.split stops digits
      refine ⟨cs.takeWhile isDigit ++ '.' :: d :: rest.takeWhile isDigit, String.toList_ofList,
        fun line => ⟨line, ?_⟩⟩
      have stop : isDigit '.' = false := rfl
      unfold number
      dsimp only
      rw [List.append_assoc, List.takeWhile_append_of_pos whole,
        List.dropWhile_append_of_pos whole]
      simp [stop, digit, fraction]
    · cases found
      exact ⟨_, undivided⟩
  · cases found
    exact ⟨_, undivided⟩

theorem word_cutsOff (found : (word line c cs).1.item = some (.ok token)) (apart : Apart tail) :
    ∃ text, CutsOff (word · c) token c text tail := by
  have stops : ∀ c ∈ [' ', '\r', '\t', '\n'], isWordRest c = false :=
    forall_blank rfl rfl rfl rfl
  have inside : ∀ d ∈ cs.takeWhile isWordRest, isWordRest d := fun _ => mem_takeWhile
  have split := apart.split stops inside
  cases found
  refine ⟨cs.takeWhile isWordRest, String.toList_ofList, fun line => ⟨line, ?_⟩⟩
  unfold word
  dsimp only
  rw [split.1, split.2]

/-- A slash is a mark by itself. -/
theorem mark_cutsOff (found : (mark line c cs).1.item = some (.ok token)) (apart : Apart tail) :
    ∃ text, CutsOff (mark · c) token c text tail ∧ (c = '/' → text = []) := by
  unfold mark at found
  split at found
  · rename_i kind rest double
    cases found
    refine ⟨['='], ⟨String.toList_ofList, fun line => ⟨line, ?_⟩⟩, ?_⟩
    · unfold mark
      simp [double]
    · rintro rfl
      cases double
  · split at found
    · rename_i kind single
      cases found
      refine ⟨[], ⟨String.toList_ofList, fun line => ⟨line, ?_⟩⟩, fun _ => rfl⟩
      change mark line c tail = _
      unfold mark
      split
      · have equals := apart '=' rfl
        simp at equals
      · rw [single]
    · cases found

theorem next_cutsOff (found : (next line c cs).1.item = some (.ok token)) (apart : Apart tail) :
    ∃ text, CutsOff (next · c) token c text tail := by
  by_cases newline : c = '\n'
  · simp only [next, if_pos newline] at found
    cases found
  by_cases space : isSpace c
  · simp only [next, if_neg newline, if_pos space] at found
    cases found
  by_cases quote : c = '"'
  · simp only [next, if_neg newline, if_neg space, if_pos quote] at found
    obtain ⟨text, cuts⟩ := string_cutsOff found tail
    subst quote
    exact ⟨text, cuts⟩
  by_cases digit : isDigit c
  · simp only [next, if_neg newline, if_neg space, if_neg quote, if_pos digit] at found
    obtain ⟨text, lexeme, cuts⟩ := number_cutsOff found apart
    refine ⟨text, lexeme, fun line => ?_⟩
    simp only [next, if_neg newline, if_neg space, if_neg quote, if_pos digit]
    exact cuts line
  by_cases start : isWordStart c
  · simp only [next, if_neg newline, if_neg space, if_neg quote, if_neg digit,
      if_pos start] at found
    obtain ⟨text, lexeme, cuts⟩ := word_cutsOff found apart
    refine ⟨text, lexeme, fun line => ?_⟩
    simp only [next, if_neg newline, if_neg space, if_neg quote, if_neg digit, if_pos start]
    exact cuts line
  simp only [next, if_neg newline, if_neg space, if_neg quote, if_neg digit, if_neg start] at found
  split at found
  · cases found
  · rename_i plain
    obtain ⟨text, ⟨lexeme, cuts⟩, single⟩ := mark_cutsOff found apart
    refine ⟨text, lexeme, fun line => ?_⟩
    simp only [next, if_neg newline, if_neg space, if_neg quote, if_neg digit, if_neg start]
    split
    · rename_i behind
      rw [single rfl] at behind
      subst behind
      have slash := apart '/' rfl
      simp at slash
    · exact cuts line

theorem next_blank (blank : c ∈ [' ', '\r', '\t', '\n']) (line : Nat) (cs : List Char) :
    ∃ last, next line c cs = (.skipped [c] last, cs) := by
  fin_cases blank <;> exact ⟨_, rfl⟩

theorem itemsFrom_blank (blank : c ∈ [' ', '\r', '\t', '\n']) (line : Nat) (cs : List Char) :
    ∃ last, itemsFrom line (c :: cs) = itemsFrom last cs := by
  obtain ⟨last, skips⟩ := next_blank blank line cs
  refine ⟨last, ?_⟩
  rw [itemsFrom, skips]
  rfl

theorem itemsFrom_comment (oneLine : '\n' ∉ text) (line : Nat) (cs : List Char) :
    itemsFrom line ('/' :: '/' :: text ++ '\n' :: cs) = itemsFrom line ('\n' :: cs) := by
  have inside : ∀ c ∈ text, (c != '\n') = true := fun c member =>
    bne_iff_ne.mpr fun newline => oneLine (newline ▸ member)
  have skips : next line '/' ('/' :: text ++ '\n' :: cs) =
      (.skipped ('/' :: '/' :: text) line, '\n' :: cs) := by
    change (Piece.skipped ('/' :: '/' :: (text ++ '\n' :: cs).takeWhile (· != '\n')) line,
      (text ++ '\n' :: cs).dropWhile (· != '\n')) = _
    rw [List.takeWhile_append_of_pos inside, List.dropWhile_append_of_pos inside]
    simp
  rw [List.cons_append, itemsFrom, skips]
  rfl

/-- Layout only moves what follows it to another line. -/
theorem itemsFrom_layout (layout : Layout gap) (line : Nat) (cs : List Char) :
    ∃ last, itemsFrom line (gap ++ cs) = itemsFrom last cs := by
  induction layout generalizing line with
  | nil => exact ⟨line, rfl⟩
  | @space c text blank more ih =>
    obtain ⟨line', same⟩ := itemsFrom_blank blank line (text ++ cs)
    rw [List.cons_append, same]
    exact ih line'
  | @comment text rest oneLine more ih =>
    obtain ⟨line', same⟩ := itemsFrom_blank (c := '\n') (by simp) line (rest ++ cs)
    have skipped := itemsFrom_comment oneLine line (rest ++ cs)
    rw [List.append_assoc, List.cons_append (a := '\n'), skipped, same]
    exact ih line'

/-- The token is cut off at some place of some source. -/
def Scanned (token : Token) : Prop :=
  ∃ line c cs, (next line c cs).1.item = some (.ok token)

theorem piecesFrom_scanned (line : Nat) (cs : List Char) :
    ∀ piece ∈ piecesFrom line cs, ∀ token, piece.item = some (.ok token) → Scanned token := by
  fun_induction piecesFrom line cs with
  | case1 => exact fun piece member => absurd member List.not_mem_nil
  | case2 line c cs step ih =>
    intro piece member token found
    obtain rfl | member := List.mem_cons.mp member
    · exact ⟨line, c, cs, found⟩
    · exact ih piece member token found

theorem apart_of_separator (separator : Separator gap) (text : List Char) :
    Apart (gap ++ text) := by
  cases separator with
  | intro blank more =>
    intro c head
    cases head
    exact blank

/-- Layout behind a lexeme keeps it apart from the next one. -/
theorem itemsFrom_spaced {tokens : List Token} (scanned : ∀ token ∈ tokens, Scanned token)
    (spaced : Spaced (tokens.map Token.lexeme) text) (line : Nat) :
    ∃ (others : List Token) (last : Nat), List.Forall₂ Token.Alike tokens others ∧
      itemsFrom line text = others.map .ok ++ [.ok (.eof last)] := by
  induction tokens generalizing text line with
  | nil =>
    cases spaced
    refine ⟨[], line, .nil, ?_⟩
    rw [itemsFrom]
    rfl
  | cons token tokens ih =>
    obtain ⟨⟨line₀, c, cs, found⟩, rest⟩ := List.forall_mem_cons.mp scanned
    cases spaced with
    | @cons gap _ behind _ between more =>
      have kept : Apart (gap ++ behind) ∧ Layout gap := by
        obtain separator | ⟨rfl, none⟩ := between
        · exact ⟨apart_of_separator separator behind, separator.layout⟩
        · rw [none] at more
          cases more
          exact ⟨fun c head => (by cases head), .nil⟩
      obtain ⟨text, lexeme, cuts⟩ := next_cutsOff found kept.1
      obtain ⟨line₁, cut⟩ := cuts line
      obtain ⟨line₂, skipped⟩ := itemsFrom_layout kept.2 line₁ behind
      obtain ⟨others, last, alike, same⟩ := ih rest more line₂
      refine ⟨⟨token.kind, .ofList (c :: text), line₁⟩ :: others, last, .cons ⟨rfl, ?_⟩ alike, ?_⟩
      · rw [← lexeme, String.ofList_toList]
      · change next line c _ = _ at cut
        rw [lexeme, List.cons_append, itemsFrom, cut]
        dsimp only [Piece.token]
        rw [skipped, same]
        rfl

end Scanner

/-- A source that can be scanned is made of lexemes. However these are laid out, scanning gives the
same tokens again, on other lines perhaps. -/
theorem layout_keeps_tokens (scanned : scan source = .ok tokens) : ∃ before line,
    tokens = before ++ [.eof line] ∧
    ∀ text : String, Lexical.LaidOut (before.map Token.lexeme) text.toList → ∃ after line',
      scan text = .ok (after ++ [.eof line']) ∧ List.Forall₂ Token.Alike before after := by
  have items := items_of_scan scanned
  rw [scanItems_eq, Scanner.itemsFrom_eq_pieces] at items
  replace items := items.symm
  obtain ⟨before, ends, rfl, pieces, closed⟩ := List.map_eq_append_iff.mp items
  obtain ⟨last, rest, rfl, same, none⟩ := List.map_eq_cons_iff.mp closed
  cases List.map_eq_nil_iff.mp none
  cases same
  refine ⟨before, _, rfl, ?_⟩
  rintro text ⟨margin, spaced, gap, lexemes, same⟩
  have all : ∀ token ∈ before, Scanner.Scanned token := by
    intro token member
    obtain ⟨piece, among, found⟩ := List.mem_filterMap.mp (pieces ▸ List.mem_map_of_mem member)
    exact Scanner.piecesFrom_scanned 1 _ piece among token found
  have layout : Lexical.Layout margin := by
    obtain separator | rfl := gap
    · exact separator.layout
    · exact .nil
  obtain ⟨line, skipped⟩ := Scanner.itemsFrom_layout layout 1 spaced
  obtain ⟨after, line', alike, found⟩ := Scanner.itemsFrom_spaced all lexemes line
  refine ⟨after, line', scan_of_items ?_, alike⟩
  rw [scanItems_eq, same, skipped, found, List.map_append]
  rfl

/-- A comparison, a division and a string that looks like a comment, written closely. -/
def closeSource : String := "a==b/\"//\";"

/-- The same lexemes with comments behind the slash and at the end. -/
def wideSource : String := "\n\ta == b / // half\n\"//\"\r; // end\n"

theorem wideSource_laidOut :
    Lexical.LaidOut ["a", "==", "b", "/", "\"//\"", ";"] wideSource.toList := by
  have space (c : Char) (blank : c ∈ [' ', '\r', '\t', '\n']) : Lexical.Separator [c] :=
    .intro blank .nil
  have comment (text : List Char) (oneLine : '\n' ∉ text) :
      Lexical.Separator (' ' :: ('/' :: '/' :: text ++ ['\n'])) :=
    .intro (by decide) (.comment oneLine .nil)
  refine ⟨['\n', '\t'], ?text, .inl (.intro (by decide) (.space (by decide) .nil)), ?_, ?_⟩
  case refine_1 =>
    exact .cons (.inl (space ' ' (by decide))) <| .cons (.inl (space ' ' (by decide))) <|
      .cons (.inl (space ' ' (by decide))) <| .cons (.inl (comment " half".toList (by decide))) <|
      .cons (.inl (space '\r' (by decide))) <|
      .cons (.inl (comment " end".toList (by decide))) .nil
  case refine_2 => decide

theorem closeSource_tokens : scan closeSource = .ok
    ([⟨.identifier, "a", 1⟩, ⟨.equalEqual, "==", 1⟩, ⟨.identifier, "b", 1⟩, ⟨.slash, "/", 1⟩,
      ⟨.string "//", "\"//\"", 1⟩, ⟨.semicolon, ";", 1⟩] ++ [.eof 1]) := by
  decide +kernel

theorem wideSource_keeps_tokens : ∃ before after line line',
    scan closeSource = .ok (before ++ [.eof line]) ∧
    Lexical.LaidOut (before.map Token.lexeme) wideSource.toList ∧
    scan wideSource = .ok (after ++ [.eof line']) ∧ List.Forall₂ Token.Alike before after := by
  obtain ⟨before, line, same, keeps⟩ := layout_keeps_tokens closeSource_tokens
  obtain ⟨rfl, ends⟩ := List.append_inj' same rfl
  obtain ⟨after, line', scanned, alike⟩ := keeps wideSource wideSource_laidOut
  exact ⟨_, after, 1, line', closeSource_tokens, wideSource_laidOut, scanned, alike⟩

end Lox
