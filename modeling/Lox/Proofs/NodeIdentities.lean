import Lox.Proofs.NumberedMachines
import Lox.Proofs.SourceReadings

/-! The numbers and the addresses of references. In a session no number is given out twice, a pass of
the resolver gives a reference of its tree at most one address, and neither this address nor the
lack of one changes in anything that runs later. -/

namespace Lox

section

variable {root q : Site} {id : NodeId} {address : Address}

/-- The references of a tree are seen before a part of it is entered, in this part, or after it. -/
theorem Reaches.split (path : Reaches root q) : ∃ before after,
    root.part.references true = before ++ q.part.references true ++ after ∧
      Resolver.Extends before root.resolver q.resolver ∧
      Resolver.Extends after q.final root.final := by
  induction path with
  | refl => exact ⟨[], [], (List.append_nil _).symm, .refl .., .refl ..⟩
  | step _ enters ih =>
    obtain ⟨before, after, parts, early, late⟩ := ih
    obtain ⟨before', after', parts', early', late'⟩ := enters.split
    refine ⟨before ++ before', after' ++ after, ?_, early.trans early', late'.trans late⟩
    rw [parts, parts']
    simp only [List.append_assoc]

/-- An address that has been recorded anywhere in a tree is still there at the end of the pass. -/
theorem Reaches.address_stays (path : Reaches root q)
    (distinct : ((root.part.references true).map Reference.id).Nodup)
    (unresolved : ∀ r ∈ root.part.references true,
      root.resolver.registry.addresses[r.id]? = none)
    (recorded : q.resolver.registry.addresses[id]? = some address ∨
      q.final.registry.addresses[id]? = some address) :
    root.final.registry.addresses[id]? = some address := by
  obtain ⟨before, after, parts, early, late⟩ := path.split
  have here := q.extends
  have blank (member : id ∈ (root.part.references true).map Reference.id) :
      root.resolver.registry.addresses[id]? = none := by
    obtain ⟨r, inTree, rfl⟩ := List.mem_map.mp member
    exact unresolved r inTree
  rw [parts, List.map_append, List.map_append] at distinct blank
  obtain ⟨distinct, -, last⟩ := List.nodup_append.mp distinct
  obtain ⟨-, -, first⟩ := List.nodup_append.mp distinct
  -- What is seen in the part or after it has not been seen before, so it enters without an address.
  have unseen (member : id ∈ (q.part.references true).map Reference.id ∨
      id ∈ after.map Reference.id) : q.resolver.registry.addresses[id]? = none := by
    have apart : id ∉ before.map Reference.id := by
      intro seen
      obtain inside | behind := member
      · exact first id seen id inside rfl
      · exact last id (List.mem_append_left _ seen) id behind rfl
    rw [early.addresses id apart]
    apply blank
    obtain inside | behind := member
    · exact List.mem_append_left _ (List.mem_append_right _ inside)
    · exact List.mem_append_right _ behind
  have present : q.final.registry.addresses[id]? = some address := by
    obtain entered | done := recorded
    · rw [here.addresses id]
      · exact entered
      · intro inside
        rw [unseen (.inl inside)] at entered
        cases entered
    · exact done
  rw [late.addresses id]
  · exact present
  · intro behind
    have apart : id ∉ (q.part.references true).map Reference.id := fun inside =>
      last id (List.mem_append_right _ inside) id behind rfl
    rw [here.addresses id apart, unseen (.inr behind)] at present
    cases present

end

section

variable {parser : List Token → NodeId → Except ParseError α × Cursor} {pass : Eval.Pass α}
  {part : α → Part} {source : String} {n : NodeId} {tree : α}

/-- The tree of a source, with references numbered from `n` on. -/
def treeOf? (parser : List Token → NodeId → Except ParseError α × Cursor) (source : String)
    (n : NodeId) : Option α :=
  match scan source with
  | .error _ => none
  | .ok tokens => (parser tokens n).1.toOption

theorem parsed_of_treeOf? (found : treeOf? parser source n = some tree) :
    ∃ tokens cursor, scan source = .ok tokens ∧ parser tokens n = (.ok tree, cursor) := by
  unfold treeOf? at found
  cases scanned : scan source with
  | error e =>
    rw [scanned] at found
    cases found
  | ok tokens =>
    rw [scanned] at found
    cases outcome : parser tokens n with
    | mk parsed cursor =>
      dsimp only at found
      rw [outcome] at found
      cases parsed with
      | error e => cases found
      | ok tree' =>
        cases found
        exact ⟨tokens, cursor, rfl, outcome⟩

theorem prepare_of_parsed (reads : Reads parser pass part) (scanned : scan source = .ok tokens)
    (parsed : parser tokens m.nextNode = (.ok tree, cursor)) :
    left (Eval.prepare parser pass source m) =
      { m with
        nextNode := cursor.nextNode
        registry := (Site.top (part tree) m.registry).final.registry } := by
  rw [prepare_parsed scanned parsed, reads.resolves]
  rfl

end

/-- The tree that is read, if the source has one. -/
def Reading.part? (n : NodeId) : Reading → Option Part
  | program source => (treeOf? parse source n).map .stmts
  | expression source => (treeOf? parseExpression source n).map .expr

/-- Reading a tree gives a number to each reference that is made, and addresses by one pass. -/
theorem Reading.after_eq {x : Reading} (found : x.part? m.nextNode = some part) :
    ∃ n, Grammar.Fills m.nextNode part.made n ∧
      x.after m =
        { m with nextNode := n, registry := (Site.top part m.registry).final.registry } := by
  cases x with
  | program source =>
    obtain ⟨tree, has, rfl⟩ := Option.map_eq_some_iff.mp found
    obtain ⟨tokens, cursor, scanned, parsed⟩ := parsed_of_treeOf? has
    obtain ⟨word, -, derives⟩ := parse_derives parsed
    exact ⟨cursor.nextNode, derives.fills, prepare_of_parsed reads_program scanned parsed⟩
  | expression source =>
    obtain ⟨tree, has, rfl⟩ := Option.map_eq_some_iff.mp found
    obtain ⟨tokens, cursor, scanned, parsed⟩ := parsed_of_treeOf? has
    obtain ⟨word, -, derives⟩ := parseExpression_derives parsed
    exact ⟨cursor.nextNode, derives.fills, prepare_of_parsed reads_expression scanned parsed⟩

/-- What the reading of a tree does to numbers and addresses. -/
structure Reading.Settles (x : Reading) (m : Machine) (part : Part) : Prop where
  numbers : Grammar.Fills m.nextNode part.made (x.after m).nextNode
  unresolved : ∀ r ∈ part.made, m.registry.addresses[r.id]? = none
  others : ∀ id : NodeId, id ∉ (part.references true).map Reference.id →
    (x.after m).registry.addresses[id]? = m.registry.addresses[id]?
  once : ∀ q, Reaches (.top part m.registry) q → ∀ (id : NodeId) address,
    q.resolver.registry.addresses[id]? = some address ∨
      q.final.registry.addresses[id]? = some address →
    (x.after m).registry.addresses[id]? = some address

theorem Reading.settles {x : Reading} {m : Machine} (orderly : m.Orderly)
    (found : x.part? m.nextNode = some part) : x.Settles m part := by
  obtain ⟨n, fills, after⟩ := x.after_eq found
  have unresolved (r : Reference) (member : r ∈ part.made) :
      m.registry.addresses[r.id]? = none := orderly.unused r.id (fills.within r member).1
  have numbered := fills.numbered part.references_sublist
  constructor
  · rw [after]
    exact fills
  · exact unresolved
  · intro id foreign
    rw [after]
    exact (Site.top part m.registry).extends.addresses id foreign
  · intro q path id address recorded
    rw [after]
    exact path.address_stays numbered.distinct
      (fun r member => unresolved r (part.references_sublist.subset member)) recorded

namespace Grammar

open Lox.Parser Lox.Parser.Rules

/-- The reference that is made for an assignment and is not in its tree is the variable that has
been read in front of the equals sign. -/
theorem made_of_assign (limit : Nat) (named : (rules limit).ternaryRule c = .ok (.varRef r) c₁)
    (read : (rules limit).expressionRule c = .ok (.assign target value) c') :
    Made.inExpr (.assign target value) = r :: (Made.inExpr value ++ [target]) := by
  simp only [Rules.expressionRule, bind_ok_iff] at read
  obtain ⟨left, c₂, ternary, equals, c₃, taken, read⟩ := read
  rw [named] at ternary
  cases ternary
  obtain ⟨w₁, n, rfl, d₁⟩ := ternary_sound (rules_sound limit) named
  cases equals with
  | none =>
    obtain ⟨same, -⟩ := pure_ok_iff.mp read
    cases same
  | some equal =>
    obtain ⟨-, rfl⟩ := (accept?_some_iff (by decide)).mp taken
    simp only [bind_ok_iff] at read
    obtain ⟨value', c₄, assigned, read⟩ := read
    obtain ⟨w₂, n₂, same, d₂⟩ := (rules_sound limit).expression assigned
    obtain rfl : c₃ = ⟨w₂ ++ c₄.rest, n₂⟩ := same
    cases d₁.targetsAreCalls (.inl ⟨_, rfl⟩) with
    | primary derived =>
      cases derived with
      | name token =>
        cases read
        exact (d₂.fills.assign token.1).1

end Grammar

section

variable {depth : Nat} {world : World} {steps : List HostStep} {x y : Reading} {m m' : Machine}
  {part part' : Part} {r r' : Reference}

/-- Two readings never give out the same number. -/
theorem IsRead.numbers_apart (first : IsRead depth world steps x m)
    (second : IsRead depth world steps y m') (tree : x.part? m.nextNode = some part)
    (tree' : y.part? m'.nextNode = some part') (other : ¬(x = y ∧ m = m'))
    (member : r ∈ part.made) (member' : r' ∈ part'.made) : r.id ≠ r'.id := by
  obtain ⟨low, high⟩ := (x.settles first.continues.1 tree).numbers.within r member
  obtain ⟨low', high'⟩ := (y.settles second.continues.1 tree').numbers.within r' member'
  obtain same | later | earlier := first.turns second
  · exact (other same).elim
  · exact Nat.ne_of_lt (Nat.lt_of_lt_of_le high (Nat.le_trans later.remembers.nodes low'))
  · exact (Nat.ne_of_lt
      (Nat.lt_of_lt_of_le high' (Nat.le_trans earlier.remembers.nodes low))).symm

/-- Wherever a session comes to after a reading, the addresses are those that the reading left. -/
theorem IsRead.address_lasts (read : IsRead depth world steps x m)
    (tree : x.part? m.nextNode = some part) (member : r ∈ part.made)
    (reached : Reached depth world steps m') (counted : r.id < m'.nextNode) :
    m'.registry.addresses[r.id]? = (x.after m).registry.addresses[r.id]? := by
  obtain ⟨orderly, continues⟩ := read.continues
  have high := ((x.settles orderly tree).numbers.within r member).2
  rw [← reached.continues.2.remembers.addresses r.id counted]
  exact continues.remembers.addresses r.id high

/-- What a machine knows of references is kept by everything it may be asked to run. -/
structure Machine.Lasting (m : Machine) (depth : Nat) : Prop where
  runSource : ∀ source, Remembers m (left ((engine depth).runSource source m))
  evaluateSource : ∀ source, Remembers m (left ((engine depth).evaluateSource source m))
  runFile : ∀ path, Remembers m (left ((engine depth).runFile path m))
  load : ∀ line path, Remembers m (left ((engine depth).load line path m))
  reload : ∀ line paths, Remembers m (left ((engine depth).loadAll line paths m))
  session : ∀ steps, Remembers m (left ((engine depth).session steps m))

theorem Machine.Orderly.lasting (orderly : m.Orderly) (depth : Nat) : m.Lasting depth := by
  have related := Bookkeeping.engineOf_related depth
  have kept {α : Type} {c : Watched α} (keeps : Bookkeeping.Keeps c) :
      Remembers m (left (c none m)) := (keeps.left m orderly).2.remembers
  constructor
  · exact fun source => kept (related.runSource source)
  · exact fun source => kept (related.evaluateSource source)
  · exact fun path => kept (related.runFile path)
  · exact fun line path => kept (related.load line path)
  · exact fun line paths => kept (related.loadAll line paths)
  · exact fun steps => kept (Bookkeeping.session depth steps)

end

/-- The references made for all trees that a session reads have different numbers, a variable that
turned out to be the target of an assignment among them. A pass of the resolver gives addresses to
references of its tree only, to none of them a second time, and what it leaves stays: in every state
that the session comes to later, through whatever is run from there, and so for the functions and
methods that a session leaves behind. Readings of one source in one state count as one reading: by
`Settles.numbers` a machine that has made references does not come back to that state. -/
theorem identities_unique_and_addresses_fixed (depth : Nat) (world : World)
    (steps : List HostStep) :
    (∀ x m part, IsRead depth world steps x m → x.part? m.nextNode = some part →
      (part.made.map Reference.id).Nodup ∧ (part.references true).Sublist part.made ∧
      x.Settles m part ∧
      (∀ y m' part', IsRead depth world steps y m' → y.part? m'.nextNode = some part' →
        ¬(x = y ∧ m = m') → ∀ r ∈ part.made, ∀ r' ∈ part'.made, r.id ≠ r'.id) ∧
      ∀ r ∈ part.made, ∀ m', Reached depth world steps m' → r.id < m'.nextNode →
        m'.registry.addresses[r.id]? = (x.after m).registry.addresses[r.id]?) ∧
    (∀ m, Reached depth world steps m → ∀ depth', m.Lasting depth') ∧
    (∀ m, (engine depth).session steps (.fresh world) = .ok () m → ∀ depth' later,
      (∀ f ∈ m.store.functions, ∀ r ∈ Reference.inFunction true f.declaration,
        (left ((engine depth').session later m)).registry.addresses[r.id]? =
          m.registry.addresses[r.id]?) ∧
      ∀ method, m.store.Has method →
        ∀ r ∈ Reference.inFunction true method.closure.declaration,
          (left ((engine depth').session later m)).registry.addresses[r.id]? =
            m.registry.addresses[r.id]?) ∧
    ∀ limit c c' c'' r target value,
      (Parser.rules limit).ternaryRule c = .ok (.varRef r) c' →
      (Parser.rules limit).expressionRule c = .ok (.assign target value) c'' →
      Made.inExpr (.assign target value) = r :: (Made.inExpr value ++ [target]) := by
  refine ⟨fun x m part read tree => ?_, fun m reached => reached.continues.1.lasting,
    fun m ran depth' later => ?_, fun limit _ _ _ _ _ _ => Grammar.made_of_assign limit⟩
  · have settles := x.settles read.continues.1 tree
    refine ⟨settles.numbers.distinct, part.references_sublist, settles, ?_, ?_⟩
    · intro y m' part' read' tree' other r member r' member'
      exact read.numbers_apart read' tree tree' other member member'
    · intro r member m' reached counted
      exact read.address_lasts tree member reached counted
  · have numbered := session_numbered ran
    have reached : Reached depth world steps (left ((engine depth).session steps (.fresh world))) :=
      .between (List.append_nil _)
    rw [ran] at reached
    have kept := (reached.continues.1.lasting depth').session later
    exact ⟨fun f member r inside => kept.addresses r.id (numbered.functions f member r inside),
      fun method has r inside => kept.addresses r.id (numbered.methods method has r inside)⟩

/-- A function with an assignment to a variable of its own. -/
def assigningFunction : String := "fun f() \x7b var c; c = 1; return c; \x7d"

/-- The next number after a session that comes to its end. -/
def countAfter? : EStateM.Result Halt Machine Unit → Option NodeId
  | .ok _ m => some m.nextNode
  | .error _ _ => none

/-- The numbers 0 and 1 go to the target of the assignment, before and after it is known as one, and
2 to the variable that is returned. The call that is evaluated later has 3, and leaves the address
of 2 alone. -/
theorem assigningFunction_identities : ∃ m part part',
    (engine 9).session [.run assigningFunction] (.fresh {}) = .ok () m ∧
    (Reading.program assigningFunction).part? 0 = some part ∧
    (Reading.expression "f()").part? m.nextNode = some part' ∧
    part.made.map Reference.id = [0, 1, 2] ∧ part'.made.map Reference.id = [3] ∧
    (∀ r ∈ part.made, ∀ r' ∈ part'.made, r.id ≠ r'.id) ∧
    (∀ r ∈ part.made, m.registry.addresses[r.id]? =
      ((Reading.program assigningFunction).after (.fresh {})).registry.addresses[r.id]?) ∧
    (∀ f ∈ m.store.functions, ∀ r ∈ Reference.inFunction true f.declaration,
      (left ((engine 9).session [.evaluate "f()"] m)).registry.addresses[r.id]? =
        m.registry.addresses[r.id]?) ∧
    m.Lasting 9 ∧
    Made.inExpr (.assign ⟨6, .mk .identifier "c" 1⟩ (.varRef ⟨5, .mk .identifier "a" 1⟩)) =
      [⟨4, .mk .identifier "c" 1⟩, ⟨5, .mk .identifier "a" 1⟩, ⟨6, .mk .identifier "c" 1⟩] := by
  obtain ⟨readings, states, -, assignments⟩ := identities_unique_and_addresses_fixed 9 {}
    [.run assigningFunction, .evaluate "f()"]
  obtain ⟨-, -, closures, -⟩ := identities_unique_and_addresses_fixed 9 {}
    [.run assigningFunction]
  have counted : countAfter? ((engine 9).session [.run assigningFunction] (.fresh {})) = some 3 := by
    decide +kernel
  have numbers : ((Reading.program assigningFunction).part? 0).map
      (fun part => part.made.map Reference.id) = some [0, 1, 2] := by decide +kernel
  have numbers' : ((Reading.expression "f()").part? 3).map
      (fun part => part.made.map Reference.id) = some [3] := by decide +kernel
  obtain ⟨part, tree, ids⟩ := Option.map_eq_some_iff.mp numbers
  obtain ⟨part', tree', ids'⟩ := Option.map_eq_some_iff.mp numbers'
  cases ran : (engine 9).session [.run assigningFunction] (.fresh {}) with
  | error halt m =>
    rw [ran] at counted
    cases counted
  | ok value m =>
    rw [ran] at counted
    have nodes : m.nextNode = 3 := Option.some.inj counted
    rw [← nodes] at tree'
    have first : IsRead 9 {} [.run assigningFunction, .evaluate "f()"]
        (.program assigningFunction) (.fresh {}) :=
      isRead_step [] rfl rfl _
    have second : IsRead 9 {} [.run assigningFunction, .evaluate "f()"] (.expression "f()") m :=
      isRead_step [.run assigningFunction] ran rfl []
    have reached : Reached 9 {} [.run assigningFunction, .evaluate "f()"]
        (left ((engine 9).session [.run assigningFunction] (.fresh {}))) := .between rfl
    rw [ran] at reached
    obtain ⟨-, -, -, apart, lasting⟩ := readings _ _ part first tree
    have below (r : Reference) (member : r ∈ part.made) : r.id < m.nextNode := by
      have number := List.mem_map_of_mem (f := Reference.id) member
      rw [ids] at number
      rw [nodes]
      exact (by decide : ∀ id ∈ [0, 1, 2], id < 3) r.id number
    exact ⟨m, part, part', rfl, tree, tree', ids, ids',
      apart _ m part' second tree' (fun same => by cases same.1),
      fun r member => lasting r member m reached (below r member),
      (closures m ran 9 [.evaluate "f()"]).1, states m reached 9,
      assignments 3 ⟨[.mk .identifier "c" 1, .mk .equal "=" 1, .mk .identifier "a" 1, .eof 1], 4⟩
        _ _ _ _ _ rfl rfl⟩

end Lox
