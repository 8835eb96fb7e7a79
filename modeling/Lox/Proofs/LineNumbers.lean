import Lox.Proofs.JoinedSources

/-! Lines of tokens and of lexical errors: each item stands on the line that the line ends up to the
end of its text lead to, and so the lines of a source never go back. -/

namespace Lox

/-- The line ends among the bytes of a text. -/
def newlineBytes (text : String) : Nat := text.toUTF8.data.toList.count 10

theorem newlineBytes_ofList (cs : List Char) : newlineBytes (String.ofList cs) = cs.count '\n' := by
  unfold newlineBytes
  rw [String.toUTF8_eq_toByteArray, String.toByteArray_ofList, utf8Encode_eq_encoded]
  exact count_encoded (show '\n'.toNat < 128 by decide) cs

namespace Scanner

/-- The line that a token or an error is reported on. -/
def itemLine : Except LexError Token → Nat
  | .ok token => token.line
  | .error e => e.line

end Scanner

namespace Lexical

theorem Fits.itemLine (fits : Fits piece rest) (found : piece.item = some item) :
    Scanner.itemLine item = piece.line := by
  cases fits with
  | token | unexpected | unterminated =>
    cases found
    rfl
  | skipped => cases found

theorem Cut.fits (cut : Cut cs pieces) (member : piece ∈ pieces) : ∃ rest, Fits piece rest := by
  induction cut with
  | nil => cases member
  | cons fits _ ih =>
    obtain rfl | member := List.mem_cons.mp member
    · exact ⟨_, fits⟩
    · exact ih member

end Lexical

namespace Scanner

/-- The line ends before a piece and in it lead to its line. -/
theorem piecesFrom_line (line : Nat) (cs : List Char) :
    ∀ before piece after, piecesFrom line cs = before ++ piece :: after →
      piece.line = line + ((before ++ [piece]).flatMap Piece.text).count '\n' := by
  fun_induction piecesFrom line cs with
  | case1 line =>
    intro before piece after split
    simp at split
  | case2 line c cs step ih =>
    intro before piece after split
    have own : step.1.line = line + step.1.text.count '\n' := next_line line c cs
    cases before with
    | nil =>
      obtain ⟨rfl, -⟩ := List.cons.inj split
      simpa using own
    | cons first before =>
      obtain ⟨rfl, rest⟩ := List.cons.inj split
      rw [ih before piece after rest, own, List.cons_append, List.flatMap_cons, List.count_append,
        Nat.add_assoc]

theorem lastLine_piecesFrom (line : Nat) (cs : List Char) :
    lastLine line (piecesFrom line cs) = line + cs.count '\n' := by
  fun_induction piecesFrom line cs with
  | case1 line => rfl
  | case2 line c cs step ih => rw [lastLine_cons, ih, count_next]

theorem itemsFrom_lines (line : Nat) (cs : List Char) :
    (∀ item ∈ itemsFrom line cs, line ≤ itemLine item) ∧
      (itemsFrom line cs).Pairwise fun item later => itemLine item ≤ itemLine later := by
  fun_induction itemsFrom line cs with
  | case1 line =>
    refine ⟨fun item member => ?_, List.pairwise_singleton ..⟩
    obtain rfl := List.mem_singleton.mp member
    exact Nat.le_refl line
  | case2 line c cs step skipped ih =>
    have onwards : line ≤ step.1.line := Nat.le.intro (next_line line c cs).symm
    exact ⟨fun item member => Nat.le_trans onwards (ih.1 item member), ih.2⟩
  | case3 line c cs step item found ih =>
    have onwards : line ≤ step.1.line := Nat.le.intro (next_line line c cs).symm
    have own : itemLine item = step.1.line := (next_fits line c cs).itemLine found
    refine ⟨fun other member => ?_, List.pairwise_cons.mpr ⟨fun later member => ?_, ih.2⟩⟩
    · obtain rfl | member := List.mem_cons.mp member
      · rwa [own]
      · exact Nat.le_trans onwards (ih.1 other member)
    · rw [own]
      exact ih.1 later member

end Scanner

/-- Every token and every lexical error is on the line that the line ends before the end of its
stretch lead to, counted from one, and the end token is on the last line of the source. So no item
is on a line before that of an earlier one. -/
theorem item_lines_are_exact (source : String) : ∃ pieces last,
    Lexical.Cut source.toList pieces ∧
    String.join (pieces.map Scanner.Piece.stretch) = source ∧
    scanItems source = pieces.filterMap Scanner.Piece.item ++ [.ok (.eof last)] ∧
    (∀ before piece after item, pieces = before ++ piece :: after → piece.item = some item →
      Scanner.itemLine item =
        1 + newlineBytes (String.join ((before ++ [piece]).map Scanner.Piece.stretch))) ∧
    last = 1 + newlineBytes source ∧
    (scanItems source).Pairwise fun item later =>
      Scanner.itemLine item ≤ Scanner.itemLine later := by
  have cut := Scanner.piecesFrom_cut 1 source.toList
  rw [scanItems_eq]
  refine ⟨_, _, cut, cut.join, Scanner.itemsFrom_eq_pieces 1 _, ?_, ?_,
    (Scanner.itemsFrom_lines 1 _).2⟩
  · intro before piece after item split found
    have member : piece ∈ Scanner.piecesFrom 1 source.toList := by
      rw [split]
      exact List.mem_append_right _ (List.mem_cons_self ..)
    obtain ⟨rest, fits⟩ := cut.fits member
    rw [fits.itemLine found, Scanner.piecesFrom_line 1 _ before piece after split,
      ← Scanner.toList_join, ← newlineBytes_ofList, String.ofList_toList]
  · rw [Scanner.lastLine_piecesFrom, ← newlineBytes_ofList, String.ofList_toList]

end Lox
