import Lox.Proofs.ParserCompleteness
import Lox.Proofs.ParserSoundness

/-! The parser and the grammar agree: a token list is accepted if and only if the grammar derives
the tokens before its end, and then the result is the tree of the derivation. -/

namespace Lox.Grammar

open Lox.Parser

theorem outcome_ok_iff {p : Parser α} :
    (p.outcome tokens n).1 = .ok a ↔ ∃ c, p ⟨tokens, n⟩ = .ok a c := by
  unfold outcome EStateM.run
  cases p ⟨tokens, n⟩ with
  | ok b c => simp
  | error e c => simp

/-- A derived word that ends at an end of the input is the word before the only one. -/
theorem word_of_end (isEnd : eof.kind = .eof) (noEnd : NoEnd word) (derived : NoEnd w)
    (atEnd : Cursor.kind ⟨rest, n⟩ = .eof) (same : word ++ [eof] = w ++ rest) : w = word := by
  induction word generalizing w with
  | nil =>
    cases w with
    | nil => rfl
    | cons first tail =>
      obtain ⟨rfl, -⟩ := List.cons.inj same
      exact absurd isEnd (noEnd_cons.mp derived).1
  | cons token word ih =>
    cases w with
    | nil =>
      obtain rfl : rest = token :: (word ++ [eof]) := same.symm
      exact absurd atEnd (noEnd_cons.mp noEnd).1
    | cons first tail =>
      obtain ⟨rfl, tails⟩ := List.cons.inj same
      rw [ih (noEnd_cons.mp noEnd).2 (noEnd_cons.mp derived).2 tails]

/-- The parser accepts exactly the language of the grammar and builds the tree of the derivation,
for programs and for single expressions. -/
theorem parse_ok_iff_derives (word : List Token) (eof : Token) (n : NodeId)
    (noEnd : ∀ token ∈ word, token.kind ≠ .eof) (isEnd : eof.kind = .eof) :
    (∀ statements, (parse (word ++ [eof]) n).1 = .ok statements ↔
      ∃ n', Derives .declarations n word statements n') ∧
    (∀ value, (parseExpression (word ++ [eof]) n).1 = .ok value ↔
      ∃ n', Derives .expression n word value n') := by
  constructor
  · intro statements
    refine outcome_ok_iff.trans ⟨?_, ?_⟩
    · rintro ⟨c, accepted⟩
      obtain ⟨w, _, same, d, atEnd⟩ := program_sound accepted
      obtain ⟨tokens, rfl⟩ := Cursor.mk.inj same
      obtain rfl := word_of_end isEnd noEnd d.noEnd atEnd tokens
      exact ⟨c.nextNode, d⟩
    · rintro ⟨n', d⟩
      exact ⟨_, program_complete d ⟨eof, isEnd⟩⟩
  · intro value
    refine outcome_ok_iff.trans ⟨?_, ?_⟩
    · rintro ⟨c, accepted⟩
      obtain ⟨w, _, same, d, atEnd⟩ := soleExpression_sound accepted
      obtain ⟨tokens, rfl⟩ := Cursor.mk.inj same
      obtain rfl := word_of_end isEnd noEnd d.noEnd atEnd tokens
      exact ⟨c.nextNode, d⟩
    · rintro ⟨n', d⟩
      exact ⟨_, soleExpression_complete d ⟨eof, isEnd⟩⟩

/-- The tokens of `if (a) if (b) break; else x = y;`. -/
def nestedIf : List Token :=
  [⟨.kwIf, "if", 1⟩, ⟨.leftParen, "(", 1⟩, ⟨.identifier, "a", 1⟩, ⟨.rightParen, ")", 1⟩,
   ⟨.kwIf, "if", 1⟩, ⟨.leftParen, "(", 1⟩, ⟨.identifier, "b", 1⟩, ⟨.rightParen, ")", 1⟩,
   ⟨.kwBreak, "break", 1⟩, ⟨.semicolon, ";", 1⟩, ⟨.kwElse, "else", 1⟩, ⟨.identifier, "x", 1⟩,
   ⟨.equal, "=", 1⟩, ⟨.identifier, "y", 1⟩, ⟨.semicolon, ";", 1⟩]

/-- The `else` belongs to the inner `if`, and the assigned variable is numbered last. -/
theorem derives_nestedIf : (∀ token ∈ nestedIf, token.kind ≠ .eof) ∧
    ∃ n', Derives .declarations 0 nestedIf
      [.ifElse (.varRef ⟨0, ⟨.identifier, "a", 1⟩⟩)
        (.ifElse (.varRef ⟨1, ⟨.identifier, "b", 1⟩⟩) (.flow .exitLoop 1)
          (some (.expression (.assign ⟨4, ⟨.identifier, "x", 1⟩⟩
            (.varRef ⟨3, ⟨.identifier, "y", 1⟩⟩))))) none] n' :=
  ⟨by decide,
    ((parse_ok_iff_derives nestedIf (.eof 1) 0 (by decide) rfl).1 _).mp (by rfl)⟩

end Lox.Grammar
