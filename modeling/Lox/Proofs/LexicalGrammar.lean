import Lox.Proofs.Sources
import Mathlib.Tactic.FinCases

/-! Scanning against the lexical grammar: a source is cut into pieces without a gap, each token,
blank and comment among them is the longest piece that the grammar has at its place, and a piece
is an error only where the grammar has nothing. -/

namespace Lox

namespace Lexical

/-- The marks as they are written. -/
def marks : List (String × Kind) :=
  [("(", .leftParen), (")", .rightParen), ("\x7b", .leftBrace), ("\x7d", .rightBrace),
   (",", .comma), (".", .dot), ("-", .minus), ("+", .plus), (";", .semicolon), ("/", .slash),
   ("*", .star), ("%", .percent), ("?", .question), (":", .colon),
   ("!", .bang), ("!=", .bangEqual), ("=", .equal), ("==", .equalEqual),
   (">", .greater), (">=", .greaterEqual), ("<", .less), ("<=", .lessEqual)]

def Digits (text : List Char) : Prop := text ≠ [] ∧ ∀ c ∈ text, c.isDigit

/-- A letter or an underscore, then letters, digits and underscores. -/
def Word : List Char → Prop
  | [] => False
  | c :: text => (c.isAlpha ∨ c = '_') ∧ ∀ d ∈ text, d.isAlphanum ∨ d = '_'

inductive Lexeme : Kind → List Char → Prop where
  | mark (written : (text, kind) ∈ marks) : Lexeme kind text.toList
  | string (unquoted : '"' ∉ contents) :
      Lexeme (.string (String.ofList contents)) ('"' :: contents ++ ['"'])
  | whole (digits : Digits whole) : Lexeme (.number (Scanner.numberValue whole [])) whole
  | decimal (digits : Digits whole) (digits' : Digits fraction) :
      Lexeme (.number (Scanner.numberValue whole fraction)) (whole ++ '.' :: fraction)
  | keyword (reserved : (text, kind) ∈ Kind.keywords) : Lexeme kind text.toList
  | identifier (word : Word text) (free : String.ofList text ∉ Kind.keywords.map Prod.fst) :
      Lexeme .identifier text

/-- What stands between tokens: a single blank, or a comment without the end of its line. -/
inductive Blank : List Char → Prop where
  | space (blank : c ∈ [' ', '\r', '\t', '\n']) : Blank [c]
  | comment (oneLine : '\n' ∉ text) : Blank ('/' :: '/' :: text)

def Known (text : List Char) : Prop := Blank text ∨ ∃ kind, Lexeme kind text

/-- Of all that the grammar has at this place, nothing is longer than `text`. -/
def Longest (text rest : List Char) : Prop :=
  ∀ other rest', other ++ rest' = text ++ rest → Known other → other.length ≤ text.length

/-- A piece of a source, with what follows it there. -/
inductive Fits : Scanner.Piece → List Char → Prop where
  | token (lexeme : Lexeme kind text) (longest : Longest text rest) :
      Fits (.token kind text line) rest
  | skipped (blank : Blank text) (longest : Longest text rest) : Fits (.skipped text line) rest
  | unexpected (unquoted : c ≠ '"') (nothing : Longest [] (c :: rest)) :
      Fits (.error (.unexpected (String.singleton c)) [c] line) rest
  | unterminated (unquoted : '"' ∉ text) : Fits (.error .unterminated ('"' :: text) line) []

/-- The pieces that a text is cut into, in order and without a gap. -/
inductive Cut : List Char → List Scanner.Piece → Prop where
  | nil : Cut [] []
  | cons (fits : Fits piece rest) (cut : Cut rest pieces) :
      Cut (piece.text ++ rest) (piece :: pieces)

theorem Cut.text (cut : Cut cs pieces) :
    cs = pieces.flatMap Scanner.Piece.text := by
  induction cut with
  | nil => rfl
  | cons _ _ ih => rw [List.flatMap_cons, ← ih]

end Lexical

namespace Scanner

open Lexical

theorem isDigit_eq (c : Char) : isDigit c = c.isDigit := rfl

theorem isWordStart_iff (c : Char) : isWordStart c ↔ c.isAlpha ∨ c = '_' := by
  have lower : c.isLower ↔ 'a' ≤ c ∧ c ≤ 'z' := by
    change (decide ('a'.val ≤ c.val) && decide (c.val ≤ 'z'.val)) = true ↔ _
    rw [Bool.and_eq_true, decide_eq_true_eq, decide_eq_true_eq]
    rfl
  have upper : c.isUpper ↔ 'A' ≤ c ∧ c ≤ 'Z' := decide_eq_true_iff
  have letters : c.isAlpha ↔ c.isLower ∨ c.isUpper := Bool.or_eq_true_iff.trans or_comm
  simp only [isWordStart, Bool.or_eq_true, Bool.and_eq_true, decide_eq_true_eq, beq_iff_eq]
  rw [letters, lower, upper]

theorem isWordRest_iff (c : Char) : isWordRest c ↔ c.isAlphanum ∨ c = '_' := by
  simp only [isWordRest, Bool.or_eq_true, isWordStart_iff, isDigit_eq, Char.isAlphanum]
  exact or_right_comm

theorem not_wordStart_of_digit (digit : isDigit c) : isWordStart c = false := by
  have upper : c.toNat ≤ 57 := by
    simp only [isDigit, Bool.and_eq_true, decide_eq_true_eq] at digit
    exact digit.2
  have other : ¬ isWordStart c := by
    intro letter
    simp only [isWordStart, Bool.or_eq_true, Bool.and_eq_true, decide_eq_true_eq,
      beq_iff_eq] at letter
    obtain (lower | capital) | rfl := letter
    · have low : 97 ≤ c.toNat := lower.1
      omega
    · have low : 65 ≤ c.toNat := capital.1
      omega
    · revert upper
      decide
  exact Bool.eq_false_iff.mpr other

theorem mem_of_markEqual? (found : markEqual? c = some kind) : c ∈ ['!', '=', '<', '>'] := by
  unfold markEqual? at found
  split at found <;> simp_all

theorem mark?_of_markEqual? (found : markEqual? c = some kind) : (mark? c).isSome := by
  have member := mem_of_markEqual? found
  fin_cases member <;> rfl

/-- The grammar has something that starts with `c` and goes on with the text. -/
inductive Goes (c : Char) : List Char → Prop where
  | blank (blank : c = '\n' ∨ isSpace c) : Goes c []
  | string (quote : c = '"') (unquoted : '"' ∉ contents) : Goes c (contents ++ ['"'])
  | whole (digit : isDigit c) (digits : ∀ d ∈ more, isDigit d) : Goes c more
  | decimal (digit : isDigit c) (digits : ∀ d ∈ more, isDigit d) (digit' : isDigit d)
      (digits' : ∀ d ∈ fraction, isDigit d) : Goes c (more ++ '.' :: d :: fraction)
  | word (start : isWordStart c) (others : ∀ d ∈ text, isWordRest d) : Goes c text
  | comment (slash : c = '/') (oneLine : '\n' ∉ text) : Goes c ('/' :: text)
  | mark (found : mark? c = some kind) : Goes c []
  | markEqual (found : markEqual? c = some kind) : Goes c ['=']

theorem goes_of_word (word : Word (c :: text)) : Goes c text := by
  refine .word ((isWordStart_iff c).mpr word.1) fun d member => ?_
  exact (isWordRest_iff d).mpr (word.2 d member)

theorem keyword_word (reserved : (text, kind) ∈ Kind.keywords) : Word text.toList := by
  have all : ∀ entry ∈ Kind.keywords, ∃ c rest, entry.1.toList = c :: rest ∧
      isWordStart c ∧ rest.all isWordRest := by
    intro entry member
    fin_cases member <;> exact ⟨_, _, rfl, rfl, rfl⟩
  obtain ⟨c, rest, same, start, others⟩ := all _ reserved
  rw [same]
  refine ⟨(isWordStart_iff c).mp start, fun d member => ?_⟩
  exact (isWordRest_iff d).mp (List.all_eq_true.mp others d member)

theorem mark_written (written : (text, kind) ∈ marks) : ∃ c,
    (text.toList = [c] ∧ mark? c = some kind) ∨
      (text.toList = [c, '='] ∧ markEqual? c = some kind) := by
  have all : ∀ entry ∈ marks, ∃ c, (entry.1.toList = [c] ∧ mark? c = some entry.2) ∨
      (entry.1.toList = [c, '='] ∧ markEqual? c = some entry.2) := by
    intro entry member
    fin_cases member
    all_goals first
      | exact ⟨_, .inl ⟨rfl, rfl⟩⟩
      | exact ⟨_, .inr ⟨rfl, rfl⟩⟩
  exact all _ written

theorem known_goes (known : Known text) : ∃ c rest, text = c :: rest ∧ Goes c rest := by
  obtain blank | ⟨kind, lexeme⟩ := known
  · cases blank with
    | @space c blank =>
      refine ⟨c, [], rfl, .blank ?_⟩
      fin_cases blank <;> decide
    | @comment text oneLine => exact ⟨'/', '/' :: text, rfl, .comment rfl oneLine⟩
  · cases lexeme with
    | mark written =>
      obtain ⟨c, ⟨same, found⟩ | ⟨same, found⟩⟩ := mark_written written
      · exact ⟨c, [], same, .mark found⟩
      · exact ⟨c, ['='], same, .markEqual found⟩
    | @string contents unquoted => exact ⟨'"', _, rfl, .string rfl unquoted⟩
    | whole digits =>
      cases text with
      | nil => exact (digits.1 rfl).elim
      | cons c text =>
        obtain ⟨digit, others⟩ := List.forall_mem_cons.mp digits.2
        exact ⟨c, text, rfl, .whole digit others⟩
    | @decimal whole fraction digits digits' =>
      cases whole with
      | nil => exact (digits.1 rfl).elim
      | cons c whole =>
        cases fraction with
        | nil => exact (digits'.1 rfl).elim
        | cons d fraction =>
          obtain ⟨digit, others⟩ := List.forall_mem_cons.mp digits.2
          obtain ⟨digit', others'⟩ := List.forall_mem_cons.mp digits'.2
          exact ⟨c, _, rfl, .decimal digit others digit' others'⟩
    | keyword reserved =>
      have word := keyword_word reserved
      generalize String.toList _ = text at word
      cases text with
      | nil => exact word.elim
      | cons c text => exact ⟨c, text, rfl, goes_of_word word⟩
    | identifier word free =>
      cases text with
      | nil => exact word.elim
      | cons c text => exact ⟨c, text, rfl, goes_of_word word⟩

/-- A text is the longest at its place if nothing longer goes on from its first character. -/
theorem longest_of_goes
    (bound : ∀ more rest', more ++ rest' = taken ++ rest → Goes c more →
      more.length ≤ taken.length) : Longest (c :: taken) rest := by
  intro other rest' same known
  obtain ⟨c', more, rfl, goes⟩ := known_goes known
  obtain ⟨rfl, behind⟩ := List.cons.inj same
  exact Nat.succ_le_succ (bound more rest' behind goes)

theorem mem_takeWhile {p : Char → Bool} {cs : List Char} (member : c ∈ cs.takeWhile p) : p c :=
  List.all_eq_true.mp List.all_takeWhile c member

theorem length_le_takeWhile {p : Char → Bool} {xs ys cs : List Char} (same : xs ++ ys = cs)
    (all : ∀ x ∈ xs, p x) : xs.length ≤ (cs.takeWhile p).length := by
  rw [← same, List.takeWhile_append_of_pos all, List.length_append]
  exact Nat.le_add_right ..

theorem blank_longest (blank : c ∈ [' ', '\r', '\t', '\n']) (rest : List Char) :
    Longest [c] rest := by
  refine longest_of_goes fun more rest' same goes => ?_
  cases goes with
  | blank | mark => exact Nat.le_refl _
  | string quote => subst quote; simp at blank
  | whole digit | decimal digit => fin_cases blank <;> cases digit
  | word start => fin_cases blank <;> cases start
  | comment slash => subst slash; simp at blank
  | markEqual found => fin_cases blank <;> cases found

theorem comment_longest (rest : List Char) :
    Longest ('/' :: '/' :: rest.takeWhile (· != '\n')) (rest.dropWhile (· != '\n')) := by
  refine longest_of_goes fun more rest' same goes => ?_
  rw [List.cons_append, List.takeWhile_append_dropWhile] at same
  cases goes with
  | blank | mark => exact Nat.zero_le _
  | string quote => cases quote
  | whole digit | decimal digit => cases digit
  | word start => cases start
  | comment slash oneLine =>
    refine Nat.succ_le_succ (length_le_takeWhile (List.cons.inj same).2 fun c member => ?_)
    exact bne_iff_ne.mpr fun newline => oneLine (newline ▸ member)
  | markEqual found => cases found

/-- Only a quote ends the contents of a string. -/
theorem eq_quote {cs rest : List Char} (behind : cs.dropWhile (· != '"') = quote :: rest) :
    quote = '"' := by
  have stops := List.head?_dropWhile_not (· != '"') cs
  rw [behind] at stops
  simpa using stops

theorem string_fits (line : Nat) (cs : List Char) :
    Fits (string line cs).1 (string line cs).2 := by
  have unquoted : '"' ∉ cs.takeWhile (· != '"') := fun member =>
    bne_iff_ne.mp (mem_takeWhile (p := (· != '"')) member) rfl
  have split := List.takeWhile_append_dropWhile (p := (· != '"')) (l := cs)
  unfold string
  dsimp only
  cases behind : cs.dropWhile (· != '"') with
  | nil => exact .unterminated unquoted
  | cons quote rest =>
    obtain rfl : quote = '"' := eq_quote behind
    have longest : Longest ('"' :: (cs.takeWhile (· != '"') ++ ['"'])) rest := by
      refine longest_of_goes fun more rest' same goes => ?_
      rw [List.append_assoc, List.singleton_append, ← behind, split] at same
      cases goes with
      | blank | mark => exact Nat.zero_le _
      | string quote' unquoted' =>
        have bound := length_le_takeWhile (p := (· != '"'))
          ((List.append_assoc ..).symm.trans same) fun c member =>
            bne_iff_ne.mpr fun quoted => unquoted' (quoted ▸ member)
        simpa using bound
      | whole digit | decimal digit => cases digit
      | word start => cases start
      | comment slash => cases slash
      | markEqual found => cases found
    exact .token (.string unquoted) longest

/-- What starts with a digit is a number: it ends with the digits, or a point and a digit follow
them. -/
theorem number_longest (digit : isDigit c) (same : taken ++ rest = cs)
    (whole : (cs.takeWhile isDigit).length ≤ taken.length)
    (decimal : ∀ d fraction rest', isDigit d → (∀ d ∈ fraction, isDigit d) →
      cs.dropWhile isDigit = '.' :: d :: (fraction ++ rest') →
      (cs.takeWhile isDigit).length + (fraction.length + 2) ≤ taken.length) :
    Longest (c :: taken) rest := by
  have point : isDigit '.' = false := rfl
  refine longest_of_goes fun more rest' same' goes => ?_
  rw [same] at same'
  cases goes with
  | blank | mark => exact Nat.zero_le _
  | string quote => subst quote; cases digit
  | whole _ digits => exact Nat.le_trans (length_le_takeWhile same' digits) whole
  | @decimal before d fraction _ digits digit' digits' =>
    rw [List.append_assoc, List.cons_append, List.cons_append] at same'
    have taken : cs.takeWhile isDigit = before := by
      rw [← same', List.takeWhile_append_of_pos digits]
      simp [point]
    have behind : cs.dropWhile isDigit = '.' :: d :: (fraction ++ rest') := by
      rw [← same', List.dropWhile_append_of_pos digits]
      simp [point]
    have bound := decimal d fraction rest' digit' digits' behind
    rw [taken] at bound
    simpa using bound
  | word start =>
    rw [not_wordStart_of_digit digit] at start
    cases start
  | comment slash => subst slash; cases digit
  | markEqual found =>
    have member := mem_of_markEqual? found
    fin_cases member <;> cases digit

theorem number_fits (line : Nat) (digit : isDigit c) (cs : List Char) :
    Fits (number line c cs).1 (number line c cs).2 := by
  have digits : Digits (c :: cs.takeWhile isDigit) :=
    ⟨List.cons_ne_nil _ _, List.forall_mem_cons.mpr ⟨digit, fun _ => mem_takeWhile⟩⟩
  have split := List.takeWhile_append_dropWhile (p := isDigit) (l := cs)
  unfold number
  dsimp only
  split
  · rename_i d rest behind
    rw [behind] at split
    split
    · rename_i digit'
      have digits' : Digits (d :: rest.takeWhile isDigit) :=
        ⟨List.cons_ne_nil _ _, List.forall_mem_cons.mpr ⟨digit', fun _ => mem_takeWhile⟩⟩
      have longest : Longest
          (c :: (cs.takeWhile isDigit ++ '.' :: d :: rest.takeWhile isDigit))
          (rest.dropWhile isDigit) := by
        have same : cs.takeWhile isDigit ++ '.' :: d :: rest.takeWhile isDigit ++
            rest.dropWhile isDigit = cs := by
          rw [List.append_assoc, List.cons_append, List.cons_append,
            List.takeWhile_append_dropWhile, split]
        refine number_longest digit same ?_ ?_
        · simp
        · intro e fraction rest' _ others same
          rw [behind] at same
          obtain ⟨rfl, after⟩ := List.cons.inj (List.cons.inj same).2
          have bound := length_le_takeWhile after.symm others
          simp only [List.length_append, List.length_cons]
          omega
      exact .token (.decimal digits digits') longest
    · rename_i other
      refine .token (.whole digits) (number_longest digit split (Nat.le_refl _) ?_)
      intro e fraction rest' digit' _ same
      rw [behind] at same
      obtain ⟨rfl, _⟩ := List.cons.inj (List.cons.inj same).2
      exact (other digit').elim
  · rename_i other
    refine .token (.whole digits) (number_longest digit split (Nat.le_refl _) ?_)
    intro e fraction rest' _ _ same
    exact (other e _ same).elim

theorem keyword_reserved (member : (text, kind) ∈ Kind.keywords) :
    Kind.ofWord text ≠ .identifier := by
  have all : ∀ entry ∈ Kind.keywords, Kind.ofWord entry.1 ≠ .identifier := by decide
  exact all _ member

theorem word_lexeme (word : Word text) : Lexeme (.ofWord (String.ofList text)) text := by
  by_cases reserved : Kind.ofWord (String.ofList text) = .identifier
  · rw [reserved]
    refine .identifier word fun member => ?_
    obtain ⟨⟨text', kind⟩, member, same⟩ := List.mem_map.mp member
    rw [← same] at reserved
    exact keyword_reserved member reserved
  · have lexeme := Lexeme.keyword (keyword_of_word rfl reserved)
    rwa [String.toList_ofList] at lexeme

theorem word_fits (line : Nat) (start : isWordStart c) (cs : List Char) :
    Fits (word line c cs).1 (word line c cs).2 := by
  have isWord : Word (c :: cs.takeWhile isWordRest) :=
    ⟨(isWordStart_iff c).mp start, fun d member => (isWordRest_iff d).mp (mem_takeWhile member)⟩
  refine .token (word_lexeme isWord) (longest_of_goes fun more rest' same goes => ?_)
  replace same : more ++ rest' = cs := same.trans List.takeWhile_append_dropWhile
  cases goes with
  | blank | mark => exact Nat.zero_le _
  | string quote => subst quote; cases start
  | whole digit | decimal digit =>
    rw [not_wordStart_of_digit digit] at start
    cases start
  | word _ others => exact length_le_takeWhile same others
  | comment slash => subst slash; cases start
  | markEqual found =>
    have member := mem_of_markEqual? found
    fin_cases member <;> cases start

theorem mark?_lexeme (found : mark? c = some kind) : Lexeme kind [c] := by
  have written : (String.ofList [c], kind) ∈ marks := by
    unfold mark? at found
    split at found <;> cases found <;> decide
  have lexeme := Lexeme.mark written
  rwa [String.toList_ofList] at lexeme

theorem markEqual?_lexeme (found : markEqual? c = some kind) : Lexeme kind [c, '='] := by
  have written : (String.ofList [c, '='], kind) ∈ marks := by
    unfold markEqual? at found
    split at found <;> cases found <;> decide
  have lexeme := Lexeme.mark written
  rwa [String.toList_ofList] at lexeme

theorem mark_fits (line : Nat) (blank : ¬ (c = '\n' ∨ isSpace c)) (quote : c ≠ '"')
    (digit : isDigit c = false) (start : isWordStart c = false)
    (slashes : c = '/' → cs.head? ≠ some '/') :
    Fits (mark line c cs).1 (mark line c cs).2 := by
  have goes_of {more rest' : List Char} (goes : Goes c more) (same : more ++ rest' = cs) :
      (more = [] ∧ (mark? c).isSome) ∨ more = ['='] ∧ (markEqual? c).isSome := by
    cases goes with
    | blank blank' => exact (blank blank').elim
    | mark found => exact .inl ⟨rfl, Option.isSome_of_eq_some found⟩
    | string quote' => exact (quote quote').elim
    | whole digit' | decimal digit' => rw [digit] at digit'; cases digit'
    | word start' => rw [start] at start'; cases start'
    | comment slash =>
      subst same
      exact (slashes slash rfl).elim
    | markEqual found => exact .inr ⟨rfl, Option.isSome_of_eq_some found⟩
  unfold mark
  split
  · rename_i kind rest found
    refine .token (markEqual?_lexeme found) (longest_of_goes fun more rest' same goes => ?_)
    · obtain ⟨rfl, _⟩ | ⟨rfl, _⟩ := goes_of goes same <;> simp
  · rename_i single
    cases found : mark? c with
    | some kind =>
      refine .token (mark?_lexeme found) (longest_of_goes fun more rest' same goes => ?_)
      · obtain ⟨rfl, _⟩ | ⟨rfl, two⟩ := goes_of goes same
        · exact Nat.le_refl _
        · obtain ⟨kind', found'⟩ := Option.isSome_iff_exists.mp two
          exact (single kind' rest' found' same.symm).elim
    | none =>
      refine .unexpected quote fun other rest' same known => ?_
      obtain ⟨c', more, rfl, goes⟩ := known_goes known
      obtain ⟨rfl, behind⟩ := List.cons.inj same
      obtain ⟨-, one⟩ | ⟨-, two⟩ := goes_of goes behind
      · rw [found] at one
        cases one
      · obtain ⟨kind, found'⟩ := Option.isSome_iff_exists.mp two
        have one := mark?_of_markEqual? found'
        rw [found] at one
        cases one

theorem next_fits (line : Nat) (c : Char) (cs : List Char) :
    Fits (next line c cs).1 (next line c cs).2 := by
  unfold next
  split
  · rename_i newline
    have blank : c ∈ [' ', '\r', '\t', '\n'] := by simp [newline]
    exact .skipped (.space blank) (blank_longest blank cs)
  split
  · rename_i space
    have blank : c ∈ [' ', '\r', '\t', '\n'] := by
      simp only [isSpace, Bool.or_eq_true, beq_iff_eq] at space
      obtain (rfl | rfl) | rfl := space <;> simp
    exact .skipped (.space blank) (blank_longest blank cs)
  split
  · exact string_fits line cs
  split
  · rename_i digit
    exact number_fits line digit cs
  split
  · rename_i start
    exact word_fits line start cs
  split
  · rename_i rest _ _ _ _ _
    refine .skipped (.comment fun member => ?_) (comment_longest rest)
    exact bne_iff_ne.mp (mem_takeWhile (p := (· != '\n')) member) rfl
  · rename_i newline space quote digit start c cs slashes
    refine mark_fits line (not_or.mpr ⟨newline, space⟩) quote (Bool.eq_false_iff.mpr digit)
      (Bool.eq_false_iff.mpr start) fun slash head => ?_
    obtain ⟨rest, rfl⟩ := List.head?_eq_some_iff.mp head
    exact slashes rest slash rfl

theorem piecesFrom_cut (line : Nat) (cs : List Char) : Cut cs (piecesFrom line cs) := by
  fun_induction piecesFrom line cs with
  | case1 => exact .nil
  | case2 line c cs step ih =>
    have cut := Cut.cons (next_fits line c cs) ih
    rwa [next_text] at cut

end Scanner

namespace Lexical

theorem Lexeme.ne_eof (lexeme : Lexeme kind text) : kind ≠ .eof := by
  cases lexeme with
  | mark written =>
    have all : ∀ entry ∈ marks, entry.2 ≠ .eof := by decide
    exact all _ written
  | keyword reserved =>
    have all : ∀ entry ∈ Kind.keywords, entry.2 ≠ .eof := by decide
    exact all _ reserved
  | string | whole | decimal | identifier =>
    intro same
    cases same

theorem Cut.ne_eof (cut : Cut cs pieces)
    (member : .ok token ∈ pieces.filterMap Scanner.Piece.item) : token.kind ≠ .eof := by
  induction cut with
  | nil => cases member
  | @cons piece rest pieces fits cut ih =>
    obtain ⟨piece', among, found⟩ := List.mem_filterMap.mp member
    obtain rfl | among := List.mem_cons.mp among
    · cases fits with
      | token lexeme =>
        cases found
        exact lexeme.ne_eof
      | skipped | unexpected | unterminated => cases found
    · exact ih (List.mem_filterMap.mpr ⟨piece', among, found⟩)

end Lexical

theorem Scanner.toList_join (pieces : List Piece) :
    (String.join (pieces.map Piece.stretch)).toList = pieces.flatMap Piece.text := by
  rw [String.toList_join, List.flatMap_map]
  simp only [Piece.stretch, String.toList_ofList]

theorem Lexical.Cut.join (cut : Cut source.toList pieces) :
    String.join (pieces.map Scanner.Piece.stretch) = source := by
  apply String.toList_injective
  rw [Scanner.toList_join, ← cut.text]

/-- A scan ends without breaking off. Its rounds cover the source from the first byte to the last,
each starts where the one before it stopped, and every cut lies between two characters. The items
are those of the pieces, closed by the end token, which is not among them; after it nothing is
given out. -/
theorem scan_cuts_source (source : String) : ∃ pieces last,
    ByteCursor.Walk { text := source } pieces last ∧ last.pos = source.utf8ByteSize ∧
    Lexical.Cut source.toList pieces ∧
    String.join (pieces.map Scanner.Piece.stretch) = source ∧
    ByteCursor.collect { text := source } = .ok (scanItems source) ∧
    scanItems source = pieces.filterMap Scanner.Piece.item ++ [.ok (.eof last.line)] ∧
    (∀ token, .ok token ∈ pieces.filterMap Scanner.Piece.item → token.kind ≠ .eof) ∧
    last.next = .ok (some (.ok (.eof last.line))) { last with ended := true } ∧
    ByteCursor.next { last with ended := true } = .ok none { last with ended := true } := by
  obtain ⟨last, walk, pos, line, fresh⟩ := ByteCursor.walk_pieces 1 _ (at_start source) rfl rfl
  have cut := Scanner.piecesFrom_cut 1 source.toList
  have stopped : last.atEnd := walk.atEnd
  refine ⟨_, last, walk, pos, cut, cut.join, ?_, ?_, fun _ => cut.ne_eof,
    ByteCursor.next_end stopped fresh, ByteCursor.next_ended stopped rfl⟩
  · rw [collect_source, scanItems_eq]
  · rw [scanItems_eq, line]
    exact Scanner.itemsFrom_eq_pieces 1 _

end Lox
