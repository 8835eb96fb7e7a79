import Lox.Proofs.ResolverWalk

/-! Every reference in a program that a resolution pass accepts gets the address that its name has
in the scopes around it. -/

namespace Lox

/-- The innermost scope that has the name, and the slot it has there. -/
def find (name : String) : List (List String) → Option Address
  | [] => none
  | names :: outer =>
    match names.findIdx? (· == name) with
    | some index => some ⟨0, index⟩
    | none => (find name outer).map fun a => ⟨a.distance + 1, a.index⟩

theorem locate_eq_find (name : String) (frames : List Frame) :
    locate name frames = find name (frames.map (·.map Local.name)) := by
  induction frames with
  | nil => rfl
  | cons frame outer ih =>
    simp only [locate, find, List.map_cons, ih, Frame.slot?, List.findIdx?_map]
    rfl

/-- What is found is the name. -/
theorem find_some {scopes : List (List String)} (found : find name scopes = some address) :
    ∃ names, scopes[address.distance]? = some names ∧ names[address.index]? = some name := by
  induction scopes generalizing address with
  | nil => cases found
  | cons names outer ih =>
    unfold find at found
    split at found
    · rename_i index here
      cases found
      obtain ⟨bound, same, _⟩ := List.findIdx?_eq_some_iff_getElem.mp here
      exact ⟨names, rfl, by rw [List.getElem?_eq_getElem bound, eq_of_beq same]⟩
    · obtain ⟨inner, later, rfl⟩ := Option.map_eq_some_iff.mp found
      exact ih later

/-- A name that is not in the innermost scope is looked up further out. -/
theorem find_outer (absent : name ∉ names) :
    find name (names :: outer) =
      (find name outer).map fun a => ⟨a.distance + 1, a.index⟩ := by
  have none : names.findIdx? (· == name) = none := by
    rw [List.findIdx?_eq_none_iff]
    intro other member
    exact beq_false_of_ne fun same => absent (same ▸ member)
  rw [find, none]

namespace Resolver

theorem bind_address {r : Resolver} (fresh : r.registry.addresses[reference.id]? = none) :
    (r.bind reference).registry.addresses[reference.id]? = find reference.name.lexeme r.names := by
  unfold bind
  rw [names, ← locate_eq_find]
  split
  · rename_i missing
    rw [missing, fresh]
  · rename_i address found
    rw [found]
    exact Std.TreeMap.getElem?_insert_self

theorem read_address {r : Resolver} (fresh : r.registry.addresses[reference.id]? = none) :
    (r.read reference).registry.addresses[reference.id]? = find reference.name.lexeme r.names := by
  unfold read
  extract_lets awaited
  cases awaited with
  | true => exact bind_address fresh
  | false => exact bind_address fresh

theorem mixins_address {r : Resolver} (distinct : (traits.map Reference.id).Nodup)
    (fresh : ∀ t ∈ traits, r.registry.addresses[t.id]? = none) (member : t ∈ traits) :
    (r.mixins traits required).2.registry.addresses[t.id]? = find t.name.lexeme r.names := by
  induction traits generalizing required r with
  | nil => cases member
  | cons first rest ih =>
    rw [List.map_cons, List.nodup_cons] at distinct
    have later (required : Required) (r' : Resolver) (names : r'.names = r.names)
        (registry : r'.registry = (r.read first).registry) :
        (r'.mixins rest required).2.registry.addresses[t.id]? = find t.name.lexeme r.names := by
      obtain rfl | member := List.mem_cons.mp member
      · rw [(mixins_extends rest required r').addresses _ distinct.1, registry]
        exact read_address (fresh t (List.mem_cons_self ..))
      · rw [← names]
        refine ih distinct.2 (fun t member => ?_) member
        have other : t.id ∉ [first].map Reference.id := by
          intro same
          rw [List.map_singleton, List.mem_singleton] at same
          exact distinct.1 (same ▸ List.mem_map_of_mem member)
        rw [registry, (read_extends first r).addresses _ other]
        exact fresh t (List.mem_cons_of_mem _ member)
    have same : (r.read first).names = r.names := (read_keeps first r).names.trans (addNames_nil _)
    unfold mixins
    dsimp only
    split
    · exact later _ _ same rfl
    · exact later _ _ same rfl

theorem superclass_address {r : Resolver} (fresh : r.registry.addresses[parent.id]? = none) :
    (r.superclass owner (some parent)).registry.addresses[parent.id]? =
      find parent.name.lexeme r.names := by
  unfold superclass
  dsimp only
  split
  · exact read_address fresh
  · exact read_address fresh

theorem enterClass_address {r : Resolver}
    (distinct : ((parent.toList ++ traits).map Reference.id).Nodup)
    (fresh : ∀ reference ∈ parent.toList ++ traits, r.registry.addresses[reference.id]? = none)
    (member : reference ∈ parent.toList ++ traits) :
    (r.enterClass name parent traits).2.registry.addresses[reference.id]? =
      find reference.name.lexeme r.names := by
  rw [List.map_append, List.nodup_append] at distinct
  obtain ⟨_, distinct, apart⟩ := distinct
  let mixed := (r.superclass name parent).mixins traits {}
  have behind : Extends [] mixed.2 (r.enterClass name parent traits).2 :=
    (introduce_extends ..).trans (openClass_extends ..)
  rw [behind.addresses _ List.not_mem_nil]
  obtain here | member := List.mem_append.mp member
  · have elsewhere : reference.id ∉ traits.map Reference.id := fun there =>
      apart _ (List.mem_map_of_mem here) _ there rfl
    rw [(mixins_extends traits {} _).addresses _ elsewhere]
    obtain rfl := Option.mem_toList.mp here
    exact superclass_address (fresh reference member)
  · rw [← (superclass_keeps name parent r).1]
    refine mixins_address distinct (fun t member => ?_) member
    have elsewhere : t.id ∉ parent.toList.map Reference.id := fun there =>
      apart _ there _ (List.mem_map_of_mem member) rfl
    rw [(superclass_extends name parent r).addresses _ elsewhere]
    exact fresh t (List.mem_append_right _ member)

end Resolver

theorem Enters.proper (enters : Enters p q) (proper : p.part.Proper) : q.part.Proper := by
  cases enters
  case object | grouped | lambda | operand | evaluated | printed | returned | block => exact proper
  case binaryLeft | logicalLeft | callee | firstExpr | setObject | asked | firstFunction |
      firstStmt => exact proper.1
  case assigned | binaryRight | logicalRight | arguments | otherExprs | setValue |
      otherFunctions | otherMethods | function | initializer | otherStmts => exact proper.2
  case body f _ _ =>
    cases f
    exact proper.2
  case firstMethod => exact proper.1.2
  case thenValue => exact proper.2.1
  case elseValue | increment => exact proper.2.2
  case methods c _ _ =>
    cases c
    exact proper.2.2.1
  case statics c _ _ =>
    cases c
    exact proper.2.2.2
  case defaults t _ _ =>
    cases t
    exact proper.2
  case elseBranch => exact proper.2.2.2
  case ifCondition elseBranch _ _ => cases elseBranch <;> exact proper.1
  case loopCondition increment _ _ => cases increment <;> exact proper.1
  case thenBranch elseBranch _ _ =>
    cases elseBranch with
    | none => exact proper.2.2
    | some => exact proper.2.1.2
  case loopBody increment _ _ =>
    cases increment with
    | none => exact proper.2.2
    | some => exact proper.2.1.2

/-- The pass over a part is the pass over any part directly inside it, with something before and
something after. -/
theorem Enters.split (enters : Enters p q) : ∃ before after,
    p.part.references true = before ++ q.part.references true ++ after ∧
      Resolver.Extends before p.resolver q.resolver ∧
      Resolver.Extends after q.final p.final := by
  cases enters
  case assigned target value context r =>
    exact ⟨[], [target], rfl, .refl .., Resolver.bind_extends ..⟩
  case binaryLeft left operator right context r | logicalLeft left operator right context r =>
    exact ⟨[], Reference.inExpr true right, rfl, .refl .., Resolver.expr_extends ..⟩
  case binaryRight left operator right context r | logicalRight left operator right context r =>
    exact ⟨Reference.inExpr true left, [], (List.append_nil _).symm, Resolver.expr_extends ..,
      .refl ..⟩
  case callee callee paren arguments context r =>
    exact ⟨[], Reference.inExprs true arguments, rfl, .refl .., Resolver.exprs_extends ..⟩
  case arguments callee paren arguments context r =>
    exact ⟨Reference.inExpr true callee, [], (List.append_nil _).symm, Resolver.expr_extends ..,
      .refl ..⟩
  case firstExpr e es context r =>
    exact ⟨[], Reference.inExprs true es, rfl, .refl .., Resolver.exprs_extends ..⟩
  case otherExprs e es context r =>
    exact ⟨Reference.inExpr true e, [], (List.append_nil _).symm, Resolver.expr_extends ..,
      .refl ..⟩
  case object | grouped | lambda | operand | evaluated | printed =>
    exact ⟨[], [], (List.append_nil _).symm, .refl .., .refl ..⟩
  case setValue object name value context r =>
    exact ⟨[], Reference.inExpr true object, rfl, .refl .., Resolver.expr_extends ..⟩
  case setObject object name value context r =>
    exact ⟨Reference.inExpr true value, [], (List.append_nil _).symm, Resolver.expr_extends ..,
      .refl ..⟩
  case asked condition thenValue elseValue context r =>
    exact ⟨[], _, rfl, .refl ..,
      (Resolver.expr_extends thenValue _).trans (Resolver.expr_extends elseValue _)⟩
  case thenValue condition thenValue elseValue context r =>
    exact ⟨Reference.inExpr true condition, Reference.inExpr true elseValue,
      (List.append_assoc ..).symm, Resolver.expr_extends .., Resolver.expr_extends ..⟩
  case elseValue condition thenValue elseValue context r =>
    refine ⟨_, [], ?_,
      (Resolver.expr_extends condition r).trans (Resolver.expr_extends thenValue _), .refl ..⟩
    rw [List.append_nil, List.append_assoc]
    rfl
  case body kind f context r =>
    cases f
    exact ⟨[], [], (List.append_nil _).symm, Resolver.enterFunction_extends ..,
      (Resolver.closeScope_extends _).trans (Resolver.functionKind_extends ..)⟩
  case firstFunction kind f fs context r =>
    exact ⟨[], Reference.inFunctions true fs, rfl, .refl .., Resolver.functions_extends ..⟩
  case otherFunctions kind f fs context r =>
    exact ⟨Reference.inFunction true f, [], (List.append_nil _).symm, Resolver.function_extends ..,
      .refl ..⟩
  case firstMethod owner f isGetter ms required context r =>
    exact ⟨[], Reference.inMethods true ms, rfl, Resolver.provide_extends ..,
      Resolver.methods_extends ..⟩
  case otherMethods owner f isGetter ms required context r =>
    exact ⟨Reference.inFunction true f, [], (List.append_nil _).symm,
      (Resolver.provide_extends ..).quiet_trans (Resolver.function_extends ..), .refl ..⟩
  case block ss context r =>
    exact ⟨[], [], (List.append_nil _).symm, Resolver.openScope_extends r,
      Resolver.closeScope_extends _⟩
  case methods c context r =>
    cases c with
    | mk name parent traits ms statics =>
      refine ⟨parent.toList ++ traits, Reference.inFunctions true statics, ?_,
        Resolver.enterClass_extends .., ?_⟩
      · simp [Part.references, Reference.inStmt, Reference.inClass]
      · exact (Resolver.enterStatics_extends ..).quiet_trans <|
          (Resolver.functions_extends .method statics _).trans_quiet <|
            (Resolver.closeClass_extends parent _).trans (Resolver.classKind_extends ..)
  case statics c context r =>
    cases c with
    | mk name parent traits ms statics =>
      refine ⟨parent.toList ++ traits ++ Reference.inMethods true ms, [], ?_, ?_, ?_⟩
      · simp [Part.references, Reference.inStmt, Reference.inClass]
      · exact (Resolver.enterClass_extends name parent traits r).trans <|
          (Resolver.methods_extends name ms _ _).trans_quiet (Resolver.enterStatics_extends ..)
      · exact (Resolver.closeClass_extends parent _).trans (Resolver.classKind_extends ..)
  case function name params ss line context r =>
    exact ⟨[], [], (List.append_nil _).symm, Resolver.introduce_extends .., .refl ..⟩
  case ifCondition condition thenBranch elseBranch context r =>
    cases elseBranch with
    | none => exact ⟨[], _, rfl, .refl .., Resolver.stmt_extends ..⟩
    | some elseBranch =>
      exact ⟨[], _, rfl, .refl ..,
        (Resolver.stmt_extends thenBranch _).trans (Resolver.stmt_extends elseBranch _)⟩
  case thenBranch condition thenBranch elseBranch context r =>
    cases elseBranch with
    | none =>
      exact ⟨Reference.inExpr true condition, [], (List.append_nil _).symm,
        Resolver.expr_extends .., .refl ..⟩
    | some elseBranch =>
      exact ⟨Reference.inExpr true condition, Reference.inStmt true elseBranch,
        (List.append_assoc ..).symm, Resolver.expr_extends .., Resolver.stmt_extends ..⟩
  case elseBranch condition thenBranch elseBranch context r =>
    refine ⟨_, [], ?_,
      (Resolver.expr_extends condition r).trans (Resolver.stmt_extends thenBranch _), .refl ..⟩
    rw [List.append_nil, List.append_assoc]
    rfl
  case returned keyword value context r =>
    exact ⟨[], [], (List.append_nil _).symm, Resolver.checkReturn_extends .., .refl ..⟩
  case defaults t context r =>
    cases t
    exact ⟨[], [], (List.append_nil _).symm, Resolver.enterTrait_extends ..,
      (Resolver.closeScope_extends _).trans ⟨List.prefix_rfl, fun _ _ => rfl⟩⟩
  case initializer name value context r =>
    exact ⟨[], [], (List.append_nil _).symm, Resolver.declare_extends ..,
      Resolver.define_extends ..⟩
  case loopCondition condition loopBody increment context r =>
    cases increment with
    | none => exact ⟨[], _, rfl, .refl .., Resolver.stmt_extends ..⟩
    | some increment =>
      exact ⟨[], _, rfl, .refl ..,
        (Resolver.stmt_extends loopBody _).trans (Resolver.expr_extends increment _)⟩
  case loopBody condition loopBody increment context r =>
    cases increment with
    | none =>
      exact ⟨Reference.inExpr true condition, [], (List.append_nil _).symm,
        Resolver.expr_extends .., .refl ..⟩
    | some increment =>
      exact ⟨Reference.inExpr true condition, Reference.inExpr true increment,
        (List.append_assoc ..).symm, Resolver.expr_extends .., Resolver.expr_extends ..⟩
  case increment condition loopBody increment context r =>
    refine ⟨_, [], ?_,
      (Resolver.expr_extends condition r).trans (Resolver.stmt_extends loopBody _), .refl ..⟩
    rw [List.append_nil, List.append_assoc]
    rfl
  case firstStmt s ss context r =>
    exact ⟨[], Reference.inStmts true ss, rfl, .refl .., Resolver.stmts_extends ..⟩
  case otherStmts s ss context r =>
    exact ⟨Reference.inStmt true s, [], (List.append_nil _).symm, Resolver.stmt_extends ..,
      .refl ..⟩

theorem Site.extends (p : Site) :
    Resolver.Extends (p.part.references true) p.resolver p.final := by
  obtain ⟨part, context, r⟩ := p
  cases part with
  | expr e => exact Resolver.expr_extends e r
  | exprs es => exact Resolver.exprs_extends es r
  | function kind f => exact Resolver.function_extends kind f r
  | functions kind fs => exact Resolver.functions_extends kind fs r
  | methods owner ms required => exact Resolver.methods_extends owner ms required r
  | stmt s => exact Resolver.stmt_extends s r
  | stmts ss => exact Resolver.stmts_extends ss r

/-- A place in a program that is accepted as a whole, in a pass that starts at `root`. -/
structure Accepted (root p : Site) : Prop where
  proper : p.part.Proper
  clean : p.final.Clean
  distinct : ((p.part.references true).map Reference.id).Nodup
  fresh : ∀ reference ∈ p.part.references true,
    p.resolver.registry.addresses[reference.id]? = none
  kept : ∀ reference ∈ p.part.references true,
    root.final.registry.addresses[reference.id]? = p.final.registry.addresses[reference.id]?

theorem Accepted.enter (accepted : Accepted root p) (enters : Enters p q) : Accepted root q := by
  obtain ⟨before, after, same, earlier, later⟩ := enters.split
  have distinct := accepted.distinct
  rw [same, List.map_append, List.map_append, List.nodup_append, List.nodup_append] at distinct
  obtain ⟨⟨_, distinct, apart⟩, _, apart'⟩ := distinct
  have inside : ∀ reference ∈ q.part.references true, reference ∈ p.part.references true :=
    fun reference member => same ▸ List.mem_append_left _ (List.mem_append_right _ member)
  refine ⟨enters.proper accepted.proper, later.clean accepted.clean, distinct, ?_, ?_⟩
  · intro reference member
    have elsewhere : reference.id ∉ before.map Reference.id := fun there =>
      apart _ there _ (List.mem_map_of_mem member) rfl
    rw [earlier.addresses _ elsewhere]
    exact accepted.fresh reference (inside reference member)
  · intro reference member
    have elsewhere : reference.id ∉ after.map Reference.id := fun there =>
      apart' _ (List.mem_append_right _ (List.mem_map_of_mem member)) _ there rfl
    rw [accepted.kept reference (inside reference member), later.addresses _ elsewhere]

namespace Resolver

theorem readThis_eq_bind {r : Resolver} (clean : (r.readThis keyword).Clean) :
    r.readThis keyword = r.bind keyword ∧ r.classKind ≠ .none := by
  unfold readThis at clean ⊢
  split at clean
  case h_1 | h_2 => exact (not_clean_error clean).elim
  case h_3 kind | h_4 kind | h_5 kind =>
    rw [kind]
    exact ⟨rfl, nofun⟩

theorem readSuper_eq_bind {r : Resolver} (clean : (r.readSuper keyword).Clean) :
    r.readSuper keyword = r.bind keyword ∧ r.classKind = .subclass := by
  unfold readSuper at clean ⊢
  split at clean
  case h_1 | h_2 | h_3 | h_4 => exact (not_clean_error clean).elim
  case h_5 kind =>
    rw [kind]
    exact ⟨rfl, rfl⟩

end Resolver

/-- A reference has the address of its name in the scopes that the pass sees. -/
theorem Accepted.address (accepted : Accepted root p) (own : reference ∈ p.part.ownReferences) :
    root.final.registry.addresses[reference.id]? =
      find reference.name.lexeme p.resolver.names := by
  obtain ⟨part, context, r⟩ := p
  obtain ⟨_, clean, distinct, fresh, kept⟩ := accepted
  cases part with
  | expr e =>
    cases e with
    | assign target value =>
      obtain rfl := List.mem_singleton.mp own
      have member : reference ∈ Reference.inExpr true value ++ [reference] := by simp
      have elsewhere : reference.id ∉ (Reference.inExpr true value).map Reference.id := by
        intro there
        simp only [Part.references, Reference.inExpr, List.map_append,
          List.nodup_append] at distinct
        exact distinct.2.2 _ there _ (List.mem_singleton_self _) rfl
      have inside : (Resolver.expr value r).Clean := (Resolver.bind_extends ..).clean clean
      have names := (Resolver.expr_keeps value r inside).names
      rw [Resolver.addNames_nil] at names
      rw [kept reference member, ← names]
      refine Resolver.bind_address ?_
      rw [(Resolver.expr_extends value r).addresses _ elsewhere]
      exact fresh reference member
    | superRef keyword method =>
      obtain rfl := List.mem_singleton.mp own
      have member := List.mem_singleton_self reference
      rw [kept reference member]
      change (r.readSuper reference).registry.addresses[reference.id]? = _
      rw [(Resolver.readSuper_eq_bind clean).1]
      exact Resolver.bind_address (fresh reference member)
    | thisRef keyword =>
      obtain rfl := List.mem_singleton.mp own
      have member := List.mem_singleton_self reference
      rw [kept reference member]
      change (r.readThis reference).registry.addresses[reference.id]? = _
      rw [(Resolver.readThis_eq_bind clean).1]
      exact Resolver.bind_address (fresh reference member)
    | varRef target =>
      obtain rfl := List.mem_singleton.mp own
      have member := List.mem_singleton_self reference
      rw [kept reference member]
      exact Resolver.read_address (fresh reference member)
    | _ => cases own
  | stmt s =>
    cases s with
    | classDecl c =>
      have whole : Reference.inClass true c = (c.superclass.toList ++ c.traits) ++
          (Reference.inMethods true c.methods ++ Reference.inFunctions true c.statics) := by
        cases c
        simp [Reference.inClass]
      simp only [Part.references, Reference.inStmt] at distinct fresh kept
      rw [whole] at distinct fresh kept
      have member := List.mem_append_left
        (Reference.inMethods true c.methods ++ Reference.inFunctions true c.statics) own
      rw [List.map_append, List.nodup_append] at distinct
      obtain ⟨distinct, _, apart⟩ := distinct
      rw [kept reference member, Site.final, Part.resolve, Resolver.stmt,
        (Resolver.members_extends c r).addresses _ fun there =>
          apart _ (List.mem_map_of_mem own) _ there rfl]
      exact Resolver.enterClass_address distinct
        (fun reference own => fresh reference (List.mem_append_left _ own)) own
    | _ => cases own
  | _ => cases own

end Lox
