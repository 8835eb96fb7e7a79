import Lox.Proofs.LocalScopes

/-! What the steps of a resolution pass do to the variables around them: which are declared, which
are marked as used, and what is recorded about it. A pass that has found errors goes on like any
other. -/

namespace Lox

open Resolver (addNames classNames)

/-- What a reference is resolved to in the scopes around it. -/
def Scoping.resolved (place : Reference × Scopes) : Option Address :=
  find place.1.name.lexeme (place.2.map (firstsBy id))

/-- A reference to a variable among these is resolved to this slot. -/
def Scoping.Hits (located : List (Reference × Scopes)) (level slot : Nat) : Prop :=
  ∃ place ∈ ordinary located, resolved place = some ⟨place.2.length - (level + 1), slot⟩

namespace Scoping

variable {a b : List (Reference × Scopes)}

theorem ordinary_append : ordinary (a ++ b) = ordinary a ++ ordinary b := List.filter_append ..

theorem hits_append : Hits (a ++ b) level slot ↔ Hits a level slot ∨ Hits b level slot := by
  simp only [Hits, ordinary_append, List.mem_append, or_and_right, exists_or]

theorem mem_of_ordinary (member : place ∈ ordinary a) : place ∈ a :=
  (List.mem_filter.mp member).1

theorem not_hits_of_none (none : ordinary located = []) : ¬ Hits located level slot := by
  rintro ⟨place, member, -⟩
  rw [none] at member
  cases member

theorem ordinary_keyword (keyword : ¬ Plain reference.name.lexeme) (scopes : Scopes) :
    ordinary [(reference, scopes)] = [] := by
  simp [ordinary, keyword]

theorem ordinary_plain (plain : Plain reference.name.lexeme) (scopes : Scopes) :
    ordinary [(reference, scopes)] = [(reference, scopes)] := by
  simp [ordinary, plain]

end Scoping

namespace Resolver

/-- The variables of all scopes. -/
def entries (r : Resolver) : List (List (String × Nat)) := r.frames.map (·.map Local.entry)

/-- The innermost scope gets new variables. -/
def grow (new : List Token) : List (List (String × Nat)) → List (List (String × Nat))
  | [] => []
  | inner :: outer => (new.map Token.entry).foldl (enroll Prod.fst) inner :: outer

@[simp] theorem grow_nil (entries : List (List (String × Nat))) : grow [] entries = entries := by
  cases entries <;> rfl

theorem grow_grow (a b : List Token) (entries : List (List (String × Nat))) :
    grow b (grow a entries) = grow (a ++ b) entries := by
  cases entries <;> simp [grow]

theorem length_grow (new : List Token) (entries : List (List (String × Nat))) :
    (grow new entries).length = entries.length := by
  cases entries <;> rfl

theorem names_eq_entries (r : Resolver) : r.names = r.entries.map (·.map Prod.fst) := by
  simp only [names, entries, List.map_map]
  refine List.map_congr_left fun frame _ => ?_
  simp only [Function.comp_apply, List.map_map]
  rfl

theorem length_entries (r : Resolver) : r.entries.length = r.frames.length := List.length_map ..

/-- The scopes of `this` and `super` count as used. -/
def Bound (r : Resolver) : Prop :=
  ∀ frame ∈ r.frames, ∀ v ∈ frame, ¬ Plain v.name → v.used = true

/-- The state of a pass among these scopes. -/
structure Among (scopes : Scoping.Scopes) (r : Resolver) : Prop where
  names : r.names = scopes.map (firstsBy id)
  bound : r.Bound

theorem Among.length {r : Resolver} (among : Among scopes r) : r.frames.length = scopes.length := by
  simpa [Resolver.names] using congrArg List.length among.names

theorem Among.distinct {r : Resolver} (among : Among scopes r) :
    ∀ frame ∈ r.frames, (frame.map Local.name).Nodup := by
  intro frame member
  have named : frame.map Local.name ∈ r.names := List.mem_map_of_mem member
  rw [among.names] at named
  obtain ⟨names, -, same⟩ := List.mem_map.mp named
  rw [← same]
  simpa using firstsBy_nodup id names

/-- A later state of a pass, with new variables, after it has come to these references and has left
these scopes. -/
structure Marks (new : List Token) (located : List (Reference × Scoping.Scopes))
    (left : List LocalScope) (r r' : Resolver) : Prop where
  entries : r'.entries = grow new r.entries
  bound : r.Bound → r'.Bound
  later : Extends (located.map Prod.fst) r r'
  used : ∀ level < r.frames.length, ∀ slot, usedAt r'.frames level slot = true ↔
    usedAt r.frames level slot = true ∨ Scoping.Hits located level slot
  recorded : (located.map (·.1.id)).Nodup →
    (∀ place ∈ located, r.registry.addresses[place.1.id]? = none) →
    ∀ place ∈ Scoping.ordinary located,
      r'.registry.addresses[place.1.id]? = Scoping.resolved place
  said : ∀ address : Reference → Option Address,
    (∀ place ∈ Scoping.ordinary located, address place.1 = Scoping.resolved place) →
    r'.diagnostics.filter (!·.isError) =
      r.diagnostics.filter (!·.isError) ++ left.flatMap (LocalScope.warnings address)
  plain : ∀ s ∈ left, ∀ name ∈ s.declarations, Plain name.lexeme

section

variable {r r' r'' : Resolver}

theorem Marks.length (marks : Marks new located left r r') :
    r'.frames.length = r.frames.length := by
  rw [← length_entries, marks.entries, length_grow, length_entries]

theorem Marks.trans (first : Marks a m s r r') (second : Marks b n t r' r'') :
    Marks (a ++ b) (m ++ n) (s ++ t) r r'' where
  entries := by rw [second.entries, first.entries, grow_grow]
  bound := second.bound ∘ first.bound
  later := List.map_append ▸ first.later.trans second.later
  used level below slot := by
    rw [second.used level (first.length ▸ below), first.used level below, Scoping.hits_append,
      or_assoc]
  recorded distinct fresh := by
    rw [List.map_append, List.nodup_append] at distinct
    obtain ⟨distinctFirst, distinctSecond, apart⟩ := distinct
    obtain ⟨freshFirst, freshSecond⟩ := List.forall_mem_append.mp fresh
    rw [Scoping.ordinary_append]
    refine List.forall_mem_append.mpr ⟨fun place member => ?_, ?_⟩
    · have there := List.mem_map_of_mem (f := (·.1.id)) (Scoping.mem_of_ordinary member)
      rw [second.later.addresses _ fun seen => ?_]
      · exact first.recorded distinctFirst freshFirst place member
      · rw [List.map_map] at seen
        exact apart _ there _ seen rfl
    · refine second.recorded distinctSecond fun place member => ?_
      have there := List.mem_map_of_mem (f := (·.1.id)) member
      rw [first.later.addresses _ fun seen => ?_]
      · exact freshSecond place member
      · rw [List.map_map] at seen
        exact apart _ seen _ there rfl
  said address agrees := by
    rw [Scoping.ordinary_append] at agrees
    obtain ⟨agreesFirst, agreesSecond⟩ := List.forall_mem_append.mp agrees
    rw [second.said address agreesSecond, first.said address agreesFirst, List.flatMap_append,
      List.append_assoc]
  plain := List.forall_mem_append.mpr ⟨first.plain, second.plain⟩

theorem Marks.quiet_trans (first : Marks [] [] [] r r') (second : Marks b n t r' r'') :
    Marks b n t r r'' := first.trans second

theorem Marks.trans_quiet (first : Marks a m s r r') (second : Marks [] [] [] r' r'') :
    Marks a m s r r'' := by
  simpa using first.trans second

theorem Marks.then_bare (first : Marks [] m s r r') (second : Marks [] n [] r' r'') :
    Marks [] (m ++ n) s r r'' := by
  have both := first.trans second
  rwa [List.append_nil s] at both

/-- A step that changes no scope. -/
theorem Marks.still (same : r'.frames = r.frames) (later : Extends (located.map Prod.fst) r r')
    (keywords : Scoping.ordinary located = [])
    (silent : r'.diagnostics.filter (!·.isError) = r.diagnostics.filter (!·.isError)) :
    Marks [] located [] r r' where
  entries := by rw [Resolver.entries, same, grow_nil, Resolver.entries]
  bound bound := by
    rw [Bound, same]
    exact bound
  later := later
  used level _ slot := by
    rw [same]
    exact (or_iff_left (Scoping.not_hits_of_none keywords)).symm
  recorded _ _ place member := by
    rw [keywords] at member
    cases member
  said _ _ := by rw [silent, List.flatMap_nil, List.append_nil]
  plain _ member := by cases member

theorem Marks.refl (r : Resolver) : Marks [] [] [] r r :=
  .still rfl (.refl [] r) rfl rfl

theorem Among.after (among : Among scopes r) (marks : Marks new located left r r') :
    Among (addNames (new.map Token.lexeme) scopes) r' := by
  refine ⟨?_, marks.bound among.bound⟩
  have before := among.names
  rw [names_eq_entries] at before ⊢
  rw [marks.entries]
  cases there : r.entries with
  | nil =>
    rw [there, List.map_nil, eq_comm, List.map_eq_nil_iff] at before
    rw [before]
    rfl
  | cons inner outer =>
    rw [there, List.map_cons] at before
    cases scopes with
    | nil => cases before
    | cons names scopes =>
      obtain ⟨here, around⟩ := List.cons.inj before
      rw [grow, List.map_cons, addNames, List.map_cons, around, firstsBy_append, ← here]
      congr 1
      refine (map_foldl_enroll Prod.fst id inner _).trans ?_
      rw [List.map_map]
      rfl

theorem Among.stay (among : Among scopes r) (marks : Marks [] located left r r') :
    Among scopes r' := addNames_nil scopes ▸ among.after marks

end

theorem error_marks (token : Token) (cause : Diagnostic.Cause) (r : Resolver) :
    Marks [] [] [] r (r.error token cause) := by
  refine .still rfl (error_extends token cause r) rfl ?_
  simp [error, Diagnostic.isError]

/-- Changes of variables that leave their names and lines alone, and marks in place. -/
structure Tame (f : Local → Local) : Prop where
  entry : ∀ v, (f v).entry = v.entry
  used : ∀ v, v.used = true → (f v).used = true

theorem Tame.update_entries {f : Local → Local} (tame : Tame f) (name : String) (frame : Frame) :
    (frame.update name f).map Local.entry = frame.map Local.entry := by
  rw [Frame.update, List.map_map]
  refine List.map_congr_left fun v _ => ?_
  simp only [Function.comp_apply]
  split
  · exact tame.entry v
  · rfl

theorem Tame.update_bound {f : Local → Local} (tame : Tame f) (name : String) {frame : Frame}
    (bound : ∀ v ∈ frame, ¬ Plain v.name → v.used = true) :
    ∀ v ∈ frame.update name f, ¬ Plain v.name → v.used = true := by
  intro _ member keyword
  obtain ⟨v, there, rfl⟩ := List.mem_map.mp member
  split
  · rename_i same
    rw [if_pos same, show (f v).name = v.name from congrArg Prod.fst (tame.entry v)] at keyword
    exact tame.used v (bound v there keyword)
  · rename_i other
    rw [if_neg other] at keyword
    exact bound v there keyword

theorem tame_define : Tame ({ · with defined := true }) := ⟨fun _ => rfl, fun _ used => used⟩

theorem tame_use : Tame ({ · with used := true }) := ⟨fun _ => rfl, fun _ _ => rfl⟩

theorem markUsed_entries (name : String) (frames : List Frame) :
    (markUsed name frames).map (·.map Local.entry) = frames.map (·.map Local.entry) := by
  induction frames with
  | nil => rfl
  | cons frame outer ih =>
    unfold markUsed
    split
    · rw [List.map_cons, List.map_cons, tame_use.update_entries]
    · rw [List.map_cons, List.map_cons, ih]

theorem markUsed_bound {frames : List Frame}
    (bound : ∀ frame ∈ frames, ∀ v ∈ frame, ¬ Plain v.name → v.used = true) (name : String) :
    ∀ frame ∈ markUsed name frames, ∀ v ∈ frame, ¬ Plain v.name → v.used = true := by
  induction frames with
  | nil => exact bound
  | cons frame outer ih =>
    obtain ⟨here, around⟩ := List.forall_mem_cons.mp bound
    unfold markUsed
    split
    · exact List.forall_mem_cons.mpr ⟨tame_use.update_bound name here, around⟩
    · exact List.forall_mem_cons.mpr ⟨here, ih around⟩

/-- A variable that is used already is not changed by a further use. -/
theorem markUsed_eq_self {frames : List Frame}
    (all : ∀ frame ∈ frames, ∀ v ∈ frame, v.name = name → v.used = true) :
    markUsed name frames = frames := by
  induction frames with
  | nil => rfl
  | cons frame outer ih =>
    obtain ⟨here, around⟩ := List.forall_mem_cons.mp all
    have same : frame.update name ({ · with used := true }) = frame := by
      refine (List.map_congr_left fun v member => ?_).trans (List.map_id frame)
      split
      · rename_i named
        have used := here v member named
        obtain ⟨own, line, defined, mark⟩ := v
        cases used
        rfl
      · rfl
    unfold markUsed
    rw [same, ih around, ite_self]

/-- A step in the innermost scope that leaves the marks alone. -/
theorem Marks.here {r r' : Resolver} (frames : r.frames = frame :: outer)
    (frames' : r'.frames = frame' :: outer)
    (entries : frame'.map Local.entry =
      (new.map Token.entry).foldl (enroll Prod.fst) (frame.map Local.entry))
    (bound : (∀ v ∈ frame, ¬ Plain v.name → v.used = true) →
      ∀ v ∈ frame', ¬ Plain v.name → v.used = true)
    (marks : ∀ slot : Nat, frame'[slot]?.any Local.used = frame[slot]?.any Local.used)
    (later : Extends [] r r') (same : r'.diagnostics = r.diagnostics) : Marks new [] [] r r' where
  entries := by
    rw [Resolver.entries, frames', Resolver.entries, frames, List.map_cons, List.map_cons, grow,
      entries]
  bound all := by
    rw [Bound, frames, List.forall_mem_cons] at all
    rw [Bound, frames', List.forall_mem_cons]
    exact ⟨bound all.1, all.2⟩
  later := later
  used level _ slot := by
    rw [frames, frames', usedAt_congr_head marks]
    exact (or_iff_left (Scoping.not_hits_of_none rfl)).symm
  recorded _ _ _ member := by cases member
  said _ _ := by rw [same, List.flatMap_nil, List.append_nil]
  plain _ member := by cases member

theorem define_marks (name : Token) (r : Resolver) : Marks [] [] [] r (r.define name) := by
  have later := define_extends name r
  unfold define at later ⊢
  cases frames : r.frames with
  | nil => exact .refl r
  | cons frame outer =>
    rw [frames] at later
    refine .here frames rfl (tame_define.update_entries _ _) (tame_define.update_bound _)
      (fun slot => ?_) later rfl
    rw [Frame.update, List.getElem?_map]
    cases frame[slot]? with
    | none => rfl
    | some v =>
      rw [Option.map_some, Option.any_some, Option.any_some]
      split <;> rfl

/-- Names that are known already, or for which there is no scope. -/
theorem Marks.known {r r' : Resolver} (marks : Marks [] located left r r')
    (known : grow new r.entries = r.entries) : Marks new located left r r' :=
  { marks with entries := marks.entries.trans ((grow_nil _).trans known.symm) }

theorem declare_marks {name : Token} (plain : Plain name.lexeme) (r : Resolver) :
    Marks [name] [] [] r (r.declare name) := by
  have later := declare_extends name r
  unfold declare extend at *
  cases frames : r.frames with
  | nil =>
    refine (Marks.refl r).known ?_
    rw [entries, frames]
    rfl
  | cons frame outer =>
    rw [frames] at later
    dsimp only at later ⊢
    have declares : frame.declares name.lexeme = true ↔
        name.lexeme ∈ (frame.map Local.entry).map Prod.fst := by
      simp [Frame.declares, Local.entry]
    split
    · rename_i twice
      refine (error_marks name .redeclared r).known ?_
      rw [entries, frames, List.map_cons, grow]
      congr 1
      exact if_pos (declares.mp twice)
    · rename_i new
      rw [if_neg new] at later
      refine .here frames rfl ?_ (fun bound => ?_) (fun slot => ?_) later rfl
      · refine (List.map_append ..).trans (if_neg (mt declares.mpr new)).symm
      · refine List.forall_mem_append.mpr ⟨bound, fun v member keyword => ?_⟩
        obtain rfl := List.mem_singleton.mp member
        exact (keyword plain).elim
      · rw [List.getElem?_append]
        split
        · rfl
        · rename_i behind
          rw [List.getElem?_eq_none (Nat.le_of_not_lt behind), List.getElem?_singleton]
          split <;> rfl

theorem introduce_marks {name : Token} (plain : Plain name.lexeme) (r : Resolver) :
    Marks [name] [] [] r (r.introduce name) :=
  (declare_marks plain r).trans (define_marks name _)

theorem introduceAll_marks {params : List Token} (plain : ∀ p ∈ params, Plain p.lexeme)
    (r : Resolver) : Marks params [] [] r (params.foldl (fun r p => r.introduce p) r) := by
  induction params generalizing r with
  | nil => exact .refl r
  | cons p ps ih =>
    obtain ⟨first, rest⟩ := List.forall_mem_cons.mp plain
    exact (introduce_marks first r).trans (ih rest _)

theorem bind_marks {r : Resolver} (among : Among scopes r) (plain : Plain reference.name.lexeme) :
    Marks [] [(reference, scopes)] [] r (r.bind reference) := by
  have later := bind_extends reference r
  have found : locate reference.name.lexeme r.frames =
      Scoping.resolved (reference, scopes) := by
    rw [locate_eq_find, Scoping.resolved]
    exact congrArg _ among.names
  have recorded (_ : ([(reference, scopes)].map (·.1.id)).Nodup)
      (fresh : ∀ place ∈ [(reference, scopes)], r.registry.addresses[place.1.id]? = none) :
      ∀ place ∈ Scoping.ordinary [(reference, scopes)],
        (r.bind reference).registry.addresses[place.1.id]? = Scoping.resolved place := by
    intro place member
    obtain rfl := List.mem_singleton.mp (Scoping.mem_of_ordinary member)
    rw [← found, locate_eq_find]
    exact bind_address (fresh _ (List.mem_singleton_self _))
  have hits (level slot : Nat) : Scoping.Hits [(reference, scopes)] level slot ↔
      Scoping.resolved (reference, scopes) = some ⟨scopes.length - (level + 1), slot⟩ := by
    rw [Scoping.Hits, Scoping.ordinary_plain plain]
    simp
  unfold bind at later recorded ⊢
  rw [found] at later recorded ⊢
  cases target : Scoping.resolved (reference, scopes) with
  | none =>
    rw [target] at later recorded hits
    refine ⟨(grow_nil _).symm, id, later, fun level _ slot => ?_, recorded, fun _ _ => ?_,
      fun _ member => by cases member⟩
    · rw [hits]
      simp
    · simp
  | some address =>
    rw [target] at later recorded hits found
    refine ⟨(markUsed_entries ..).trans (grow_nil _).symm, fun bound => markUsed_bound bound _, later,
      fun level below slot => ?_, recorded, fun _ _ => ?_, fun _ member => by cases member⟩
    · rw [usedAt_markUsed among.distinct found below, hits, Option.some.injEq, among.length]
    · simp

theorem bind_keyword {r : Resolver} (bound : r.Bound) (keyword : ¬ Plain reference.name.lexeme)
    (scopes : Scoping.Scopes) : Marks [] [(reference, scopes)] [] r (r.bind reference) := by
  refine .still ?_ (bind_extends reference r) (Scoping.ordinary_keyword keyword scopes) ?_
  · unfold bind
    split
    · rfl
    · refine markUsed_eq_self fun frame member v inside named => ?_
      exact bound frame member v inside (named ▸ keyword)
  · unfold bind
    split <;> rfl

theorem Among.error {r : Resolver} (among : Among scopes r) (token : Token)
    (cause : Diagnostic.Cause) : Among scopes (r.error token cause) := ⟨among.names, among.bound⟩

theorem read_marks {r : Resolver} (among : Among scopes r) (plain : Plain reference.name.lexeme) :
    Marks [] [(reference, scopes)] [] r (r.read reference) := by
  unfold read
  extract_lets awaited
  cases awaited with
  | true => exact (error_marks ..).quiet_trans (bind_marks (among.error ..) plain)
  | false => exact bind_marks among plain

/-- A keyword that is out of place is resolved to nothing. -/
theorem error_keyword (keyword : ¬ Plain reference.name.lexeme) (scopes : Scoping.Scopes)
    (token : Token) (cause : Diagnostic.Cause) (r : Resolver) :
    Marks [] [(reference, scopes)] [] r (r.error token cause) :=
  .still rfl ((error_extends token cause r).quiet_trans (.refl ..))
    (Scoping.ordinary_keyword keyword scopes) (by simp [error, Diagnostic.isError])

theorem readThis_marks {r : Resolver} (bound : r.Bound) (keyword : reference.name.lexeme = "this")
    (scopes : Scoping.Scopes) : Marks [] [(reference, scopes)] [] r (r.readThis reference) := by
  have keyword : ¬ Plain reference.name.lexeme := fun plain => plain.1 keyword
  unfold readThis
  split
  case h_1 | h_2 => exact error_keyword keyword ..
  case h_3 | h_4 | h_5 => exact bind_keyword bound keyword scopes

theorem readSuper_marks {r : Resolver} (bound : r.Bound) (keyword : reference.name.lexeme = "super")
    (scopes : Scoping.Scopes) : Marks [] [(reference, scopes)] [] r (r.readSuper reference) := by
  have keyword : ¬ Plain reference.name.lexeme := fun plain => plain.2 keyword
  unfold readSuper
  split
  case h_1 | h_2 | h_3 | h_4 => exact error_keyword keyword ..
  case h_5 => exact bind_keyword bound keyword scopes

theorem mixins_marks {traits : List Reference} {r : Resolver} (among : Among scopes r)
    (plain : ∀ t ∈ traits, Plain t.name.lexeme) (required : Required) :
    Marks [] (traits.map (·, scopes)) [] r (r.mixins traits required).2 := by
  induction traits generalizing required r with
  | nil => exact .refl r
  | cons t ts ih =>
    obtain ⟨first, rest⟩ := List.forall_mem_cons.mp plain
    have here := read_marks among first
    unfold mixins
    refine here.trans ?_
    dsimp only
    split
    · exact ih (among.stay here) rest _
    · exact (error_marks ..).quiet_trans (ih ((among.stay here).error ..) rest _)

theorem classKind_marks (kind : ClassKind) (r : Resolver) :
    Marks [] [] [] r { r with classKind := kind } := .still rfl (classKind_extends kind r) rfl rfl

theorem functionKind_marks (kind : FunctionKind) (r : Resolver) :
    Marks [] [] [] r { r with functionKind := kind } :=
  .still rfl (functionKind_extends kind r) rfl rfl

theorem superclass_marks {r : Resolver} (among : Among scopes r) (owner : Token)
    {parent : Option Reference} (plain : ∀ p ∈ parent.toList, Plain p.name.lexeme) :
    Marks [] (parent.toList.map (·, scopes)) [] r (r.superclass owner parent) := by
  unfold superclass
  cases parent with
  | none => exact classKind_marks .plain r
  | some parent =>
    have plain := plain parent (List.mem_singleton_self _)
    dsimp only
    split
    · refine (error_marks parent.name .selfInheritance r).quiet_trans ?_
      refine (classKind_marks .subclass _).quiet_trans (read_marks ?_ plain)
      exact ⟨among.names, among.bound⟩
    · exact (classKind_marks .subclass r).quiet_trans (read_marks ⟨among.names, among.bound⟩ plain)

theorem provide_marks (owner : Token) (f : FunctionDecl) (required : Required) (r : Resolver) :
    Marks [] [] [] r (r.provide owner f required).2 := by
  unfold provide
  split
  · dsimp only
    split
    · exact .refl r
    · exact error_marks ..
  · exact .refl r

theorem checkReturn_marks (keyword : Token) (r : Resolver) :
    Marks [] [] [] r (r.checkReturn keyword) := by
  unfold checkReturn
  split
  case h_1 | h_2 => exact error_marks ..
  case h_3 | h_4 => exact .refl r

theorem enterStatics_marks (name : Token) (required : Required) (r : Resolver) :
    Marks [] [] [] r (r.enterStatics name required) := by
  refine Marks.trans_quiet ?_ (classKind_marks .static _)
  unfold checkProvided
  split
  · exact .refl r
  · exact error_marks ..

end Resolver

end Lox
