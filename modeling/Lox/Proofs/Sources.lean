import Lox.Proofs.ByteCursors
import Lox.Proofs.DerivedTrees
import Lox.Proofs.ParserSoundness
import Lox.Proofs.RenumberedParses
import Lox.Proofs.Surroundings

/-! Sources that are accepted: what scanning, parsing and resolution together promise about the
tree of a source. -/

namespace Lox

namespace Scanner

open Grammar

theorem keyword_of_word (keyword : Kind.ofWord text = kind) (reserved : kind ≠ .identifier) :
    (text, kind) ∈ Kind.keywords := by
  unfold Kind.ofWord at keyword
  cases found : Kind.keywords.lookup text with
  | none =>
    rw [found] at keyword
    exact (reserved keyword.symm).elim
  | some kind' =>
    rw [found] at keyword
    obtain ⟨before, after, same, -⟩ := List.lookup_eq_some_iff.mp found
    rw [same]
    obtain rfl : kind' = kind := keyword
    simp

theorem word_spelled (text : String) (line : Nat) : WellSpelled ⟨.ofWord text, text, line⟩ := by
  refine ⟨fun identifier => ⟨?_, ?_⟩, fun this => ?_, fun super => ?_⟩
  · rintro rfl
    exact (show Kind.ofWord "this" ≠ .identifier by decide) identifier
  · rintro rfl
    exact (show Kind.ofWord "super" ≠ .identifier by decide) identifier
  · have member := keyword_of_word this nofun
    simpa [Kind.keywords] using member
  · have member := keyword_of_word super nofun
    simpa [Kind.keywords] using member

/-- Tokens of these kinds have no name. -/
def Unnamed (kind : Kind) : Prop := kind ≠ .identifier ∧ kind ≠ .kwThis ∧ kind ≠ .kwSuper

theorem Unnamed.spelled (unnamed : Unnamed token.kind) : WellSpelled token :=
  ⟨fun same => (unnamed.1 same).elim, fun same => (unnamed.2.1 same).elim,
    fun same => (unnamed.2.2 same).elim⟩

theorem mark?_unnamed (found : mark? c = some kind) : Unnamed kind := by
  unfold mark? at found
  split at found <;> cases found <;> exact ⟨nofun, nofun, nofun⟩

theorem markEqual?_unnamed (found : markEqual? c = some kind) : Unnamed kind := by
  unfold markEqual? at found
  split at found <;> cases found <;> exact ⟨nofun, nofun, nofun⟩

theorem mark_spelled (item : (mark line c cs).1.item = some (.ok token)) : WellSpelled token := by
  unfold mark at item
  split at item
  · rename_i kind rest found
    cases item
    exact (markEqual?_unnamed found).spelled
  · split at item
    · rename_i kind found
      cases item
      exact (mark?_unnamed found).spelled
    · cases item

theorem string_spelled (item : (string line cs).1.item = some (.ok token)) : WellSpelled token := by
  unfold string at item
  dsimp only at item
  split at item
  · cases item
  · cases item
    exact Unnamed.spelled ⟨by simp, by simp, by simp⟩

theorem number_spelled (item : (number line c cs).1.item = some (.ok token)) :
    WellSpelled token := by
  unfold number at item
  dsimp only at item
  split at item
  · split at item
    · cases item
      exact Unnamed.spelled ⟨by simp, by simp, by simp⟩
    · cases item
      exact Unnamed.spelled ⟨by simp, by simp, by simp⟩
  · cases item
    exact Unnamed.spelled ⟨by simp, by simp, by simp⟩

theorem next_spelled (item : (next line c cs).1.item = some (.ok token)) : WellSpelled token := by
  unfold next at item
  split at item
  · cases item
  split at item
  · cases item
  split at item
  · exact string_spelled item
  split at item
  · exact number_spelled item
  split at item
  · cases item
    exact word_spelled _ _
  split at item
  · cases item
  · exact mark_spelled item

theorem itemsFrom_spelled (member : .ok token ∈ itemsFrom line cs) : WellSpelled token := by
  fun_induction itemsFrom line cs with
  | case1 line =>
    cases List.mem_singleton.mp member
    exact Unnamed.spelled ⟨by simp [Token.eof], by simp [Token.eof], by simp [Token.eof]⟩
  | case2 line c cs step skipped ih => exact ih member
  | case3 line c cs step item found ih =>
    obtain rfl | member := List.mem_cons.mp member
    · exact next_spelled found
    · exact ih member

end Scanner

theorem mem_of_mapM_ok {items : List (Except ε α)} (all : items.mapM id = .ok values) :
    ∀ value ∈ values, .ok value ∈ items := by
  induction items generalizing values with
  | nil =>
    cases all
    exact fun _ member => nomatch member
  | cons item items ih =>
    rw [List.mapM_cons] at all
    cases item with
    | error e => cases all
    | ok first =>
      cases rest : items.mapM id with
      | error e =>
        rw [rest] at all
        cases all
      | ok others =>
        rw [rest] at all
        cases all
        intro value member
        obtain rfl | member := List.mem_cons.mp member
        · exact List.mem_cons_self ..
        · exact List.mem_cons_of_mem _ (ih rest value member)

theorem scan_spelled (scanned : scan source = .ok tokens) : Grammar.Spelled tokens := by
  intro token member
  have item := mem_of_mapM_ok scanned token member
  rw [scanItems_eq] at item
  exact Scanner.itemsFrom_spelled item

theorem parse_derives (parsed : parse tokens n = (.ok program, cursor)) :
    ∃ word, tokens = word ++ cursor.rest ∧
      Grammar.Derives .declarations n word program cursor.nextNode := by
  unfold parse Parser.outcome EStateM.run at parsed
  split at parsed
  · rename_i accepted
    cases parsed
    obtain ⟨word, _, same, derives, -⟩ := Grammar.program_sound accepted
    obtain ⟨rfl, rfl⟩ := Cursor.mk.inj same
    exact ⟨word, rfl, derives⟩
  · cases parsed

theorem parseExpression_derives (parsed : parseExpression tokens n = (.ok e, cursor)) :
    ∃ word, tokens = word ++ cursor.rest ∧
      Grammar.Derives .expression n word e cursor.nextNode := by
  unfold parseExpression Parser.outcome EStateM.run at parsed
  split at parsed
  · rename_i accepted
    cases parsed
    obtain ⟨word, _, same, derives, -⟩ := Grammar.soleExpression_sound accepted
    obtain ⟨rfl, rfl⟩ := Cursor.mk.inj same
    exact ⟨word, rfl, derives⟩
  · cases parsed

theorem parse_proper (scanned : scan source = .ok tokens)
    (parsed : parse tokens n = (.ok program, cursor)) :
    Proper.stmts program ∧
      Grammar.Numbered n (Reference.inStmts true program) cursor.nextNode := by
  obtain ⟨word, rfl, derives⟩ := parse_derives parsed
  exact ⟨derives.proper (Grammar.spelled_append.mp (scan_spelled scanned)).1,
    derives.fills.numbered (Made.inStmts_sublist program)⟩

theorem parseExpression_proper (scanned : scan source = .ok tokens)
    (parsed : parseExpression tokens n = (.ok e, cursor)) :
    Proper.expr e ∧ Grammar.Numbered n (Reference.inExpr true e) cursor.nextNode := by
  obtain ⟨word, rfl, derives⟩ := parseExpression_derives parsed
  exact ⟨derives.proper (Grammar.spelled_append.mp (scan_spelled scanned)).1,
    derives.fills.numbered (Made.inExpr_sublist e)⟩

/-- The program that a source holds; it is empty if the source cannot be parsed. -/
def programOf (source : String) : List Stmt :=
  match scan source with
  | .error _ => []
  | .ok tokens =>
    match (parse tokens 0).1 with
    | .error _ => []
    | .ok program => program

theorem parsed_of_nonempty (some : (programOf source).isEmpty = false) :
    ∃ tokens cursor,
      scan source = .ok tokens ∧ parse tokens 0 = (.ok (programOf source), cursor) := by
  unfold programOf at *
  cases scanned : scan source with
  | error e =>
    rw [scanned] at some
    cases some
  | ok tokens =>
    rw [scanned] at some
    cases outcome : parse tokens 0 with
    | mk parsed cursor =>
      dsimp only at some ⊢
      rw [outcome] at some ⊢
      cases parsed with
      | error e => cases some
      | ok program => exact ⟨tokens, cursor, rfl, outcome⟩

/-- A source as a whole, before its resolution. -/
def Site.top (part : Part) (registry : Registry) : Site := ⟨part, [], { registry }⟩

/-- The tree of a source that has been scanned, parsed and resolved without an error. -/
inductive Prepared : Site → Prop where
  | program (scanned : scan source = .ok tokens) (parsed : parse tokens n = (.ok program, cursor))
      (resolved : (resolve program registry).1 = .ok warnings) :
      Prepared (.top (.stmts program) registry)
  | expression (scanned : scan source = .ok tokens)
      (parsed : parseExpression tokens n = (.ok e, cursor))
      (resolved : (resolveExpression e registry).1 = .ok warnings) :
      Prepared (.top (.expr e) registry)

theorem sited_top (proper : part.Proper)
    (numbered : Grammar.Numbered n (part.references true) n')
    (unused : ∀ id, n ≤ id → registry.addresses[id]? = none)
    (clean : (Site.top part registry).final.Clean)
    (whole : (∃ e, part = .expr e) ∨ ∃ ss, part = .stmts ss) :
    Sited (.top part registry) (.top part registry) := by
  refine ⟨⟨proper, clean, numbered.distinct, ?_, fun _ _ => rfl⟩, ?_, trivial, nofun⟩
  · exact fun r member => unused r.id (numbered.within r member).1
  · obtain ⟨e, rfl⟩ | ⟨ss, rfl⟩ := whole
    · exact ⟨⟨rfl, .inl rfl, nofun⟩, trivial⟩
    · exact ⟨⟨rfl, .inl rfl, nofun⟩, trivial⟩

end Lox
