import Lox.Proofs.CoherentSteps

/-! A source that is made ready to run leaves a coherent state behind, in which the addresses of
all its references are recorded. -/

namespace Lox

/-- The two ways of reading a source: as a program and as one expression. -/
structure Reads (parser : List Token → NodeId → Except ParseError α × Cursor)
    (pass : Eval.Pass α) (part : α → Part) : Prop where
  counts : ∀ tokens n, n ≤ (parser tokens n).2.nextNode
  proper : ∀ {source tokens n tree cursor}, scan source = .ok tokens →
    parser tokens n = (.ok tree, cursor) →
    (part tree).Proper ∧ Grammar.Numbered n ((part tree).references true) cursor.nextNode
  resolves : ∀ tree registry, pass tree registry = (Site.top (part tree) registry).final.verdict
  prepared : ∀ {source tokens n tree cursor registry warnings}, scan source = .ok tokens →
    parser tokens n = (.ok tree, cursor) → (pass tree registry).1 = .ok warnings →
    Prepared (.top (part tree) registry)
  whole : ∀ tree, (∃ e, part tree = .expr e) ∨ ∃ ss, part tree = .stmts ss

theorem reads_program : Reads parse resolve .stmts :=
  ⟨parse_counts, parse_proper, fun _ _ => rfl, .program, fun ss => .inr ⟨ss, rfl⟩⟩

theorem reads_expression : Reads parseExpression resolveExpression .expr :=
  ⟨parseExpression_counts, parseExpression_proper, fun _ _ => rfl, .expression,
    fun e => .inl ⟨e, rfl⟩⟩

variable {past : History} {parser : List Token → NodeId → Except ParseError α × Cursor}
  {pass : Eval.Pass α} {part : α → Part}

/-- A step that gives out new numbers may only resolve references that have them. -/
theorem Snapshot.registered (w : Snapshot past) {n : NodeId} {registry : Registry}
    (ordered : w.machine.nextNode ≤ n)
    (kept : ∀ number : NodeId, number < w.machine.nextNode ∨ n ≤ number →
      registry.addresses[number]? = w.machine.registry.addresses[number]?) :
    ∃ w' : Snapshot past, w'.machine = { w.machine with nextNode := n, registry } ∧
      Later none w w' := by
  obtain ⟨w', ends, -, later⟩ := w.next (m := { w.machine with nextNode := n, registry }) rfl
    List.prefix_rfl (.refl _) ⟨ordered, fun number old => kept number (.inl old)⟩
    w.coherent.planned w.coherent.names (fun _ member => .inl member) (fun _ has => .inl has)
    (fun number unused => (kept number (.inr unused)).trans
      (w.coherent.unused number (Nat.le_trans ordered unused)))
  exact ⟨w', ends, later⟩

/-- Resolution records addresses of no references but those in the tree. -/
theorem Site.final_kept (root : Site) {n n' number : NodeId}
    (numbered : Grammar.Numbered n (root.part.references true) n')
    (outside : number < n ∨ n' ≤ number) :
    root.final.registry.addresses[number]? = root.resolver.registry.addresses[number]? := by
  refine root.extends.addresses number fun seen => ?_
  obtain ⟨r, member, rfl⟩ := List.mem_map.mp seen
  obtain ⟨lower, upper⟩ := numbered.within r member
  obtain before | after := outside
  · exact Nat.lt_irrefl _ (Nat.lt_of_lt_of_le before lower)
  · exact Nat.lt_irrefl _ (Nat.lt_of_lt_of_le upper after)

section

variable {m : Machine} {tokens : List Token} {source : String}

theorem parseWith_eq (scanned : scan source = .ok tokens)
    (outcome : parser tokens m.nextNode = (parsed, cursor)) :
    Eval.parseWith parser source m =
      .ok (parsed.mapError Failure.parse) { m with nextNode := cursor.nextNode } := by
  unfold Eval.parseWith
  rw [scanned]
  dsimp only
  rw [Eval.bind_get, outcome]
  rfl

theorem resolveWith_eq (pass : Eval.Pass α) (tree : α) : Eval.resolveWith pass tree m =
    .ok ((pass tree m.registry).1.mapError Failure.resolve)
      { m with registry := (pass tree m.registry).2 } := rfl

theorem prepare_unscanned (failed : scan source = .error e) :
    Eval.prepare parser pass source m = .ok (.error (.lex e)) m := by
  unfold Eval.prepare Eval.parseWith
  rw [failed]
  rfl

theorem prepare_unparsed (scanned : scan source = .ok tokens)
    (outcome : parser tokens m.nextNode = (.error e, cursor)) :
    Eval.prepare parser pass source m =
      .ok (.error (.parse e)) { m with nextNode := cursor.nextNode } :=
  Eval.bind_of_ok (parseWith_eq scanned outcome)

theorem prepare_parsed (scanned : scan source = .ok tokens)
    (outcome : parser tokens m.nextNode = (.ok tree, cursor)) :
    Eval.prepare parser pass source m =
      .ok (((pass tree m.registry).1.mapError Failure.resolve).map (tree, ·))
        { m with nextNode := cursor.nextNode, registry := (pass tree m.registry).2 } := by
  unfold Eval.prepare
  rw [Eval.bind_of_ok (parseWith_eq scanned outcome)]
  refine (Eval.bind_of_ok (resolveWith_eq pass tree)).trans ?_
  dsimp only
  cases (pass tree m.registry).1 <;> rfl

end

theorem prepare_steps (reads : Reads parser pass part) {w : Snapshot past} (source : String) :
    Steps complaint none (Eval.prepare parser pass source) (Eval.prepare parser pass source) w
      fun result w' => ∀ tree warnings, result = .ok (tree, warnings) →
        ∃ registry, Loaded (.top (part tree) registry) w'.machine := by
  cases scanned : scan source with
  | error e => exact .of_ok (prepare_unscanned scanned) ⟨w, rfl, .refl w, nofun⟩
  | ok tokens =>
    have counted := reads.counts tokens w.machine.nextNode
    cases outcome : parser tokens w.machine.nextNode with
    | mk parsed cursor =>
      rw [outcome] at counted
      cases parsed with
      | error e =>
        obtain ⟨w', ends, later⟩ := w.registered counted (fun _ _ => rfl)
        exact .of_ok (prepare_unparsed scanned outcome) ⟨w', ends, later, nofun⟩
      | ok tree =>
        obtain ⟨proper, numbered⟩ := reads.proper scanned outcome
        let root := Site.top (part tree) w.machine.registry
        obtain ⟨w', ends, later⟩ := w.registered numbered.ordered
          (fun number outside => root.final_kept numbered outside)
        have ran : Eval.prepare parser pass source w.machine = _ := prepare_parsed scanned outcome
        rw [reads.resolves] at ran
        refine .of_ok ran ⟨w', ends, later, fun tree' warnings accepted => ?_⟩
        cases verdict : root.final.verdict.1 with
        | error diagnostics =>
          rw [verdict] at accepted
          cases accepted
        | ok warnings =>
          rw [verdict] at accepted
          cases accepted
          have clean := (Resolver.clean_of_verdict (Prod.ext verdict rfl)).1
          refine ⟨w.machine.registry, ?_, ?_, ?_, ?_⟩
          · exact reads.prepared scanned outcome ((congrArg _ (reads.resolves ..)).trans verdict)
          · exact sited_top proper numbered w.coherent.unused clean (reads.whole tree)
          · exact fun r member => ends ▸ (numbered.within r member).2
          · exact fun r member => ends ▸ rfl

end Lox
