import Lox.Proofs.DistinctNames
import Lox.Proofs.Renaming

/-! A resolution pass over a renamed program. It gives every reference the same address, and says
the same, but for the name in the warning about the variable itself. -/

namespace Lox

namespace Focus

/-- How many scopes lie between the part and the scope in focus, if the part lies in it. -/
def depth? : Focus → Option Nat
  | inside distance => some distance
  | _ => none

@[simp] theorem depth?_first (f : Focus) : f.first.depth? = f.depth? := by
  unfold first
  split <;> rfl

@[simp] theorem depth?_others (f : Focus) : f.others.depth? = f.depth? := by
  unfold others
  split <;> rfl

@[simp] theorem depth?_deeper (f : Focus) : f.deeper.depth? = f.depth?.map (· + 1) := by
  cases f <;> rfl

theorem depth?_eq_some {f : Focus} : f.depth? = some distance ↔ f = inside distance := by
  cases f <;> simp [depth?]

/-- How many scopes in focus end in the part: one, if it lies around it. -/
def ends : Focus → Nat
  | toward _ => 1
  | _ => 0

theorem ends_split (f : Focus) : f.first.ends + f.others.ends ≤ f.ends := by
  cases f with
  | apart | inside distance => exact Nat.le_refl 0
  | toward path =>
    cases path with
    | nil => exact Nat.zero_le 1
    | cons turn path => cases turn <;> exact Nat.le_refl 1

@[simp] theorem ends_deeper (f : Focus) : f.deeper.ends = f.ends := by
  cases f <;> rfl

@[simp] theorem ends_members (parent : Option Reference) (f : Focus) :
    (f.members parent).ends = f.ends := by
  unfold members
  split <;> simp

end Focus

/-- The depth seen from the next scope outwards. -/
def outward : Option Nat → Option Nat
  | some (distance + 1) => some distance
  | _ => none

@[simp] theorem outward_map (depth : Option Nat) : outward (depth.map (· + 1)) = depth := by
  cases depth <;> rfl

namespace Renaming

variable (R : Renaming)

/-- The name of a variable that is declared at the given depth. -/
def title (depth : Option Nat) (name : String) : String :=
  if depth = some 0 ∧ name = R.name.lexeme then R.new else name

def relabel (depth : Option Nat) (v : Local) : Local := { v with name := R.title depth v.name }

/-- The frames that a pass over the renamed program sees. -/
def retitle : Option Nat → List Frame → List Frame
  | _, [] => []
  | depth, frame :: frames => frame.map (R.relabel depth) :: retitle (outward depth) frames

/-- The name of a reference that leads to the given address. -/
def resolved (depth : Option Nat) (name : String) : Option Address → String
  | none => name
  | some address =>
    if depth = some address.distance ∧ name = R.name.lexeme then R.new else name

variable {R}

theorem title_inj (fresh : a ≠ R.new) (fresh' : b ≠ R.new) :
    R.title depth a = R.title depth b ↔ a = b := by
  unfold title
  split <;> split <;> grind

theorem title_of_ne (other : depth ≠ some 0) (name : String) : R.title depth name = name :=
  if_neg fun h => other h.1

theorem binder_lexeme (f : Focus) (name : Token) :
    (R.binder f name).lexeme = R.title f.depth? name.lexeme := by
  unfold binder title
  simp only [Focus.depth?_eq_some]
  split <;> rfl

theorem binder_line (f : Focus) (name : Token) : (R.binder f name).line = name.line := by
  unfold binder
  split <;> rfl

theorem reference_id (f : Focus) (r : Reference) : (R.reference f r).id = r.id := by
  unfold reference
  split <;> rfl

theorem reference_lexeme (f : Focus) (r : Reference) :
    (R.reference f r).name.lexeme = R.resolved f.depth? r.name.lexeme R.addresses[r.id]? := by
  unfold reference targets
  cases R.addresses[r.id]? with
  | none => cases f <;> rfl
  | some address =>
    unfold resolved
    cases f with
    | apart => simp [Focus.depth?]
    | toward path => simp [Focus.depth?]
    | inside distance =>
      simp only [Focus.depth?, Bool.and_eq_true, beq_iff_eq, Option.some.injEq]
      split <;> split <;> grind

/-- No frame has a variable of the new name. -/
def Fresh (R : Renaming) (frames : List Frame) : Prop :=
  ∀ frame ∈ frames, ∀ v ∈ frame, v.name ≠ R.new

section

variable {frame : Frame} {frames : List Frame} {depth : Option Nat} {name name' : String}

/-- A frame with its variables retitled answers to one name as it has answered to another. -/
def Answers (R : Renaming) (depth : Option Nat) (frame : Frame) (name name' : String) : Prop :=
  ∀ v ∈ frame, (R.title depth v.name = name' ↔ v.name = name)

theorem Answers.slot? (answers : R.Answers depth frame name name') :
    Frame.slot? (frame.map (R.relabel depth)) name' = frame.slot? name := by
  unfold Frame.slot?
  induction frame with
  | nil => rfl
  | cons v frame ih =>
    obtain ⟨here, rest⟩ := List.forall_mem_cons.mp answers
    have same : ((R.relabel depth v).name == name') = (v.name == name) :=
      Bool.eq_iff_iff.mpr (beq_iff_eq.trans (here.trans beq_iff_eq.symm))
    rw [List.map_cons, List.findIdx?_cons, List.findIdx?_cons, ih rest, same]

theorem declares_eq (frame : Frame) (name : String) :
    frame.declares name = (frame.slot? name).isSome := by
  unfold Frame.declares Frame.slot?
  rw [List.findIdx?_isSome]

theorem Answers.declares (answers : R.Answers depth frame name name') :
    Frame.declares (frame.map (R.relabel depth)) name' = frame.declares name := by
  rw [declares_eq, declares_eq, answers.slot?]

theorem Answers.awaits (answers : R.Answers depth frame name name') :
    Frame.awaits (frame.map (R.relabel depth)) name' = frame.awaits name := by
  unfold Frame.awaits
  induction frame with
  | nil => rfl
  | cons v frame ih =>
    obtain ⟨here, rest⟩ := List.forall_mem_cons.mp answers
    have same : ((R.relabel depth v).name == name') = (v.name == name) :=
      Bool.eq_iff_iff.mpr (beq_iff_eq.trans (here.trans beq_iff_eq.symm))
    rw [List.map_cons, List.any_cons, List.any_cons, ih rest, same]
    rfl

/-- Variables are marked as used or as defined, whatever they are called. -/
theorem Answers.update (answers : R.Answers depth frame name name') {g : Local → Local}
    (commutes : ∀ v, g (R.relabel depth v) = R.relabel depth (g v)) :
    Frame.update name' g (frame.map (R.relabel depth)) =
      (frame.update name g).map (R.relabel depth) := by
  unfold Frame.update
  rw [List.map_map, List.map_map]
  refine List.map_congr_left fun v member => ?_
  simp only [Function.comp_apply]
  change (if R.title depth v.name = name' then g (R.relabel depth v) else R.relabel depth v) = _
  by_cases named : v.name = name
  · rw [if_pos named, if_pos ((answers v member).mpr named), commutes]
  · rw [if_neg named, if_neg fun h => named ((answers v member).mp h)]

theorem answers_title (fresh : ∀ v ∈ frame, v.name ≠ R.new) (other : name ≠ R.new) :
    R.Answers depth frame name (R.title depth name) :=
  fun v member => title_inj (fresh v member) other

theorem resolved_outward (depth : Option Nat) (name : String) (address : Option Address) :
    R.resolved depth name (address.map fun a => ⟨a.distance + 1, a.index⟩) =
      R.resolved (outward depth) name address := by
  cases address with
  | none => rfl
  | some address =>
    unfold resolved outward
    simp only [Option.map_some]
    grind

/-- A scope that declares a name declares it afterwards under its title. A scope that does not
declare it still does not, under whatever name it is found further out. -/
theorem answers_resolved (fresh : ∀ v ∈ frame, v.name ≠ R.new) (other : name ≠ R.new) :
    R.Answers depth frame name (R.resolved depth name (locate name (frame :: frames))) := by
  unfold locate
  split
  · exact fun v member => title_inj (fresh v member) other
  · rename_i missing
    rw [resolved_outward]
    intro v member
    have absent : v.name ≠ name := by
      intro same
      have found := List.findIdx?_eq_none_iff.mp missing v member
      exact Bool.false_ne_true (found.symm.trans (beq_iff_eq.mpr same))
    refine iff_of_false (fun same => ?_) absent
    have unnamed := fresh v member
    unfold title resolved outward at same
    grind

/-- The renamed reference finds in the retitled frames what the reference finds in the frames. -/
theorem locate_retitle (fresh : R.Fresh frames) (other : name ≠ R.new) :
    locate (R.resolved depth name (locate name frames)) (R.retitle depth frames) =
        locate name frames ∧
      markUsed (R.resolved depth name (locate name frames)) (R.retitle depth frames) =
        R.retitle depth (markUsed name frames) := by
  induction frames generalizing depth with
  | nil => exact ⟨rfl, rfl⟩
  | cons frame frames ih =>
    obtain ⟨here, rest⟩ := List.forall_mem_cons.mp fresh
    have answers : R.Answers depth frame name
        (R.resolved depth name (locate name (frame :: frames))) := answers_resolved here other
    rw [retitle, markUsed, answers.declares, markUsed, declares_eq]
    cases found : frame.slot? name with
    | some index =>
      constructor
      · rw [locate, answers.slot?, found, locate, found]
      · exact congrArg (· :: _) (answers.update fun _ => rfl)
    | none =>
      have located : locate name (frame :: frames) =
          (locate name frames).map fun a => ⟨a.distance + 1, a.index⟩ := by rw [locate, found]
      obtain ⟨found', marked⟩ := @ih (outward depth) rest
      constructor
      · rw [locate, answers.slot?, found, located, resolved_outward, found']
      · rw [located, resolved_outward, marked]
        rfl

end

/-- The same diagnostics, but for at most `count` warnings about the variable, which give its new
name. -/
inductive Rewords (R : Renaming) : (count : Nat) → List Diagnostic → List Diagnostic → Prop where
  | nil : R.Rewords k [] []
  | keep (d : Diagnostic) (rest : R.Rewords k ds ds') : R.Rewords k (d :: ds) (d :: ds')
  | change (rest : R.Rewords k ds ds') :
    R.Rewords (k + 1) (.unused R.name.lexeme R.name.line :: ds) (.unused R.new R.name.line :: ds')

namespace Rewords

theorem refl (k : Nat) : (ds : List Diagnostic) → R.Rewords k ds ds
  | [] => .nil
  | d :: ds => .keep d (refl k ds)

theorem weaken (rewords : R.Rewords k ds ds') (more : k ≤ l) : R.Rewords l ds ds' := by
  induction rewords generalizing l with
  | nil => exact .nil
  | keep d _ ih => exact .keep d (ih more)
  | change _ ih =>
    obtain ⟨l, rfl⟩ := Nat.exists_eq_add_of_lt more
    exact .change (ih (by omega))

theorem append (first : R.Rewords k as as') (second : R.Rewords l bs bs') :
    R.Rewords (k + l) (as ++ bs) (as' ++ bs') := by
  induction first with
  | nil => exact second.weaken (Nat.le_add_left _ _)
  | keep d _ ih => exact .keep d ih
  | @change k _ _ _ ih =>
    rw [Nat.add_right_comm]
    exact .change ih

theorem errors (rewords : R.Rewords k ds ds') :
    ds'.any Diagnostic.isError = ds.any Diagnostic.isError := by
  induction rewords with
  | nil => rfl
  | keep d _ ih => rw [List.any_cons, List.any_cons, ih]
  | change _ ih => rw [List.any_cons, List.any_cons, ih]; rfl

end Rewords

/-- Every variable of the old name in the frame is the one that is renamed. -/
def Owned (R : Renaming) (frame : Frame) : Prop :=
  ∀ v ∈ frame, v.name = R.name.lexeme → v.line = R.name.line

theorem relabel_of_ne (other : depth ≠ some 0) (v : Local) : R.relabel depth v = v := by
  unfold relabel
  rw [title_of_ne other]

theorem map_relabel_of_ne (other : depth ≠ some 0) (frame : Frame) :
    frame.map (R.relabel depth) = frame := by
  rw [List.map_congr_left fun v _ => relabel_of_ne other v, List.map_id']

theorem map_relabel_of_absent {frame : Frame} (absent : ∀ v ∈ frame, v.name ≠ R.name.lexeme) :
    frame.map (R.relabel depth) = frame := by
  refine (List.map_congr_left fun v member => ?_).trans (List.map_id' frame)
  unfold relabel title
  rw [if_neg fun h => absent v member h.2]

/-- A scope has at most one variable of the old name, so at most one of its warnings changes. -/
theorem rewords_warnings {frame : Frame} (distinct : (frame.map Local.name).Nodup)
    (owned : R.Owned frame) :
    R.Rewords 1 frame.warnings (Frame.warnings (frame.map (R.relabel (some 0)))) := by
  induction frame with
  | nil => exact .nil
  | cons v frame ih =>
    rw [List.map_cons, List.nodup_cons] at distinct
    obtain ⟨here, rest⟩ := List.forall_mem_cons.mp owned
    by_cases named : v.name = R.name.lexeme
    · have absent : ∀ w ∈ frame, w.name ≠ R.name.lexeme := fun w member same =>
        distinct.1 (named ▸ same ▸ List.mem_map_of_mem member)
      have titled : R.relabel (some 0) v = { v with name := R.new } := by
        simp [relabel, title, named]
      rw [List.map_cons, map_relabel_of_absent absent, titled]
      cases v with
      | mk name line defined used =>
        cases named
        cases here rfl
        cases used with
        | true => exact .refl 1 _
        | false => exact .change (.refl 0 _)
    · have titled : R.relabel (some 0) v = v := by simp [relabel, title, named]
      rw [List.map_cons, titled]
      cases used : v.used with
      | true =>
        simp only [Frame.warnings, List.filter_cons, used, Bool.not_true] at ih ⊢
        exact ih distinct.2 rest
      | false =>
        simp only [Frame.warnings, List.filter_cons, used, Bool.not_false] at ih ⊢
        exact .keep _ (ih distinct.2 rest)

/-- No frame has a variable of the new name, and in the scope in focus only the variable that is
renamed has the old one. -/
def Kept (R : Renaming) : Option Nat → List Frame → Prop
  | _, [] => True
  | depth, frame :: frames =>
    ((∀ v ∈ frame, v.name ≠ R.new) ∧ (depth = some 0 → R.Owned frame)) ∧
      R.Kept (outward depth) frames

theorem Kept.fresh (kept : R.Kept depth frames) : R.Fresh frames := by
  induction frames generalizing depth with
  | nil => exact List.forall_mem_nil _
  | cons frame frames ih => exact List.forall_mem_cons.mpr ⟨kept.1.1, ih kept.2⟩

/-- The two passes have come to the same point, `depth` scopes inside the scope in focus. -/
structure Seen (R : Renaming) (k : Nat) (depth : Option Nat) (r r' : Resolver) : Prop where
  frames : r'.frames = R.retitle depth r.frames
  functionKind : r'.functionKind = r.functionKind
  classKind : r'.classKind = r.classKind
  registry : r'.registry = r.registry
  diagnostics : R.Rewords k r.diagnostics r'.diagnostics
  kept : R.Kept depth r.frames

namespace Seen

variable {r r' : Resolver}

theorem weaken (seen : R.Seen k depth r r') (more : k ≤ l) : R.Seen l depth r r' :=
  { seen with diagnostics := seen.diagnostics.weaken more }

theorem withFunctionKind (seen : R.Seen k depth r r') (kind : FunctionKind) :
    R.Seen k depth { r with functionKind := kind } { r' with functionKind := kind } :=
  { seen with functionKind := rfl }

theorem withClassKind (seen : R.Seen k depth r r') (kind : ClassKind) :
    R.Seen k depth { r with classKind := kind } { r' with classKind := kind } :=
  { seen with classKind := rfl }

end Seen

/-- Marking variables changes neither their names nor their lines. -/
theorem kept_update {frame : Frame} {g : Local → Local} (names : ∀ v, (g v).name = v.name)
    (lines : ∀ v, (g v).line = v.line) (kept : R.Kept depth (frame :: frames)) (name : String) :
    R.Kept depth (frame.update name g :: frames) := by
  obtain ⟨⟨fresh, owned⟩, rest⟩ := kept
  have from_frame {w : Local} (member : w ∈ frame.update name g) :
      ∃ v ∈ frame, w.name = v.name ∧ w.line = v.line := by
    obtain ⟨v, inside, rfl⟩ := List.mem_map.mp member
    refine ⟨v, inside, ?_⟩
    split
    · exact ⟨names v, lines v⟩
    · exact ⟨rfl, rfl⟩
  refine ⟨⟨fun w member => ?_, fun here w member named => ?_⟩, rest⟩
  · obtain ⟨v, member, same, -⟩ := from_frame member
    exact same ▸ fresh v member
  · obtain ⟨v, member, same, line⟩ := from_frame member
    exact line.trans (owned here v member (same.symm.trans named))

theorem kept_markUsed (kept : R.Kept depth frames) (name : String) :
    R.Kept depth (markUsed name frames) := by
  induction frames generalizing depth with
  | nil => exact kept
  | cons frame frames ih =>
    unfold markUsed
    split
    · refine kept_update ?_ ?_ kept name
      · exact fun _ => rfl
      · exact fun _ => rfl
    · exact ⟨kept.1, ih kept.2⟩

namespace Seen

variable {r r' : Resolver} {f : Focus} {reference : Reference} {name : Token}

theorem bind (seen : R.Seen k f.depth? r r') (other : reference.name.lexeme ≠ R.new)
    (address : R.addresses[reference.id]? = find reference.name.lexeme r.names) :
    R.Seen k f.depth? (r.bind reference) (r'.bind (R.reference f reference)) := by
  have lexeme := R.reference_lexeme f reference
  rw [address, Resolver.names, ← locate_eq_find] at lexeme
  obtain ⟨located, marked⟩ := @locate_retitle R r.frames f.depth? _ seen.kept.fresh other
  unfold Resolver.bind
  rw [lexeme, seen.frames, located, marked, reference_id, seen.registry]
  cases locate reference.name.lexeme r.frames with
  | none => exact seen
  | some address =>
    exact ⟨rfl, seen.functionKind, seen.classKind, rfl, seen.diagnostics,
      kept_markUsed seen.kept _⟩

theorem read (seen : R.Seen k f.depth? r r') (other : reference.name.lexeme ≠ R.new)
    (address : R.addresses[reference.id]? = find reference.name.lexeme r.names)
    (clean : (r.read reference).Clean) :
    R.Seen k f.depth? (r.read reference) (r'.read (R.reference f reference)) := by
  have bound := seen.bind other address
  have lexeme := R.reference_lexeme f reference
  rw [address, Resolver.names, ← locate_eq_find] at lexeme
  unfold Resolver.read at clean ⊢
  rw [seen.frames]
  cases frames : r.frames with
  | nil => exact bound
  | cons frame outer =>
    have kept := seen.kept
    rw [frames] at lexeme kept clean
    have answers : R.Answers f.depth? frame reference.name.lexeme
        (R.reference f reference).name.lexeme := lexeme ▸ answers_resolved kept.1.1 other
    dsimp only [retitle] at clean ⊢
    rw [answers.awaits]
    split at clean
    · exact (Resolver.not_clean_error ((Resolver.bind_extends ..).clean clean)).elim
    · rename_i settled
      rw [if_neg settled, if_neg settled]
      exact bound

theorem declare (seen : R.Seen k f.depth? r r') (other : name.lexeme ≠ R.new)
    (owned : f = .inside 0 → name.lexeme = R.name.lexeme → name.line = R.name.line)
    (clean : (r.declare name).Clean) :
    R.Seen k f.depth? (r.declare name) (r'.declare (R.binder f name)) := by
  unfold Resolver.declare at clean ⊢
  rw [seen.frames]
  cases frames : r.frames with
  | nil => exact seen
  | cons frame outer =>
    have kept := seen.kept
    rw [frames] at clean kept
    dsimp only [retitle] at clean ⊢
    obtain ⟨⟨fresh, here⟩, rest⟩ := kept
    rw [binder_lexeme, (answers_title fresh other).declares]
    split at clean
    · exact (Resolver.not_clean_error clean).elim
    · rename_i absent
      rw [if_neg absent, if_neg absent]
      unfold Resolver.extend
      rw [seen.frames, frames]
      refine ⟨?_, seen.functionKind, seen.classKind, seen.registry, seen.diagnostics,
        ⟨?_, fun inmost => ?_⟩, rest⟩
      · dsimp only [retitle]
        rw [List.map_append, List.map_singleton, binder_line]
        rfl
      · exact List.forall_mem_append.mpr ⟨fresh, List.forall_mem_singleton.mpr other⟩
      · exact List.forall_mem_append.mpr ⟨here inmost,
          List.forall_mem_singleton.mpr (owned (Focus.depth?_eq_some.mp inmost))⟩

theorem define (seen : R.Seen k f.depth? r r') (other : name.lexeme ≠ R.new) :
    R.Seen k f.depth? (r.define name) (r'.define (R.binder f name)) := by
  unfold Resolver.define
  rw [seen.frames]
  cases frames : r.frames with
  | nil => exact seen
  | cons frame outer =>
    have kept := seen.kept
    rw [frames] at kept
    refine ⟨?_, seen.functionKind, seen.classKind, seen.registry, seen.diagnostics,
      kept_update ?_ ?_ kept _⟩
    · dsimp only [retitle]
      rw [binder_lexeme]
      exact congrArg (· :: _) ((answers_title kept.1.1 other).update fun _ => rfl)
    · exact fun _ => rfl
    · exact fun _ => rfl

theorem introduce (seen : R.Seen k f.depth? r r') (other : name.lexeme ≠ R.new)
    (owned : f = .inside 0 → name.lexeme = R.name.lexeme → name.line = R.name.line)
    (clean : (r.introduce name).Clean) :
    R.Seen k f.depth? (r.introduce name) (r'.introduce (R.binder f name)) :=
  (seen.declare other owned ((Resolver.define_extends ..).clean clean)).define other

/-- A name that is not that of a variable in the scope in focus keeps its name. -/
theorem introduceOther (seen : R.Seen k f.depth? r r') (other : name.lexeme ≠ R.new)
    (apart : f = .inside 0 → name.lexeme ≠ R.name.lexeme) (clean : (r.introduce name).Clean) :
    R.Seen k f.depth? (r.introduce name) (r'.introduce name) := by
  have kept : R.binder f name = name := if_neg fun h => apart h.1 h.2
  have introduced := seen.introduce other (fun inmost same => absurd same (apart inmost)) clean
  rw [kept] at introduced
  exact introduced

theorem openScope (seen : R.Seen k f.depth? r r') :
    R.Seen k f.enter.depth? r.openScope r'.openScope := by
  have back : outward f.enter.depth? = f.depth? := by
    cases f with
    | apart | inside distance => rfl
    | toward path => cases path <;> rfl
  refine { seen with frames := ?_, kept := ?_ }
  · change [] :: r'.frames = [] :: R.retitle (outward f.enter.depth?) r.frames
    rw [back, seen.frames]
  · refine ⟨⟨List.forall_mem_nil _, fun _ => List.forall_mem_nil _⟩, ?_⟩
    rw [back]
    exact seen.kept

/-- The scope of `this` or `super` is never the one in focus. -/
theorem openBound (seen : R.Seen k depth r r') (other : bound ≠ R.new) :
    R.Seen k (depth.map (· + 1)) (r.openBound bound) (r'.openBound bound) := by
  have beyond : depth.map (· + 1) ≠ some 0 := by cases depth <;> simp
  refine { seen with frames := ?_, kept := ?_ }
  · change [⟨bound, 0, true, true⟩] :: r'.frames = _ :: R.retitle (outward _) r.frames
    rw [outward_map, seen.frames, List.nil_append, map_relabel_of_ne beyond]
  · refine ⟨⟨List.forall_mem_singleton.mpr other, fun here => absurd here beyond⟩, ?_⟩
    rw [outward_map]
    exact seen.kept

/-- Only at the end of the scope in focus can a warning change. -/
theorem closeScope (seen : R.Seen k depth r r')
    (distinct : depth = some 0 → ∀ names ∈ r.names.head?, names.Nodup) :
    R.Seen (k + if depth = some 0 then 1 else 0) (outward depth) r.closeScope r'.closeScope := by
  unfold Resolver.closeScope
  have kept := seen.kept
  have names := distinct
  rw [seen.frames]
  unfold Resolver.names at names
  cases frames : r.frames with
  | nil =>
    refine { seen.weaken (Nat.le_add_right ..) with frames := ?_, kept := ?_ }
    · change r'.frames = R.retitle (outward depth) r.frames
      rw [seen.frames, frames]
      rfl
    · change R.Kept (outward depth) r.frames
      rw [frames]
      trivial
  | cons frame outer =>
    rw [frames] at kept names
    refine ⟨rfl, seen.functionKind, seen.classKind, seen.registry,
      seen.diagnostics.append ?_, kept.2⟩
    split
    · rename_i here
      subst here
      exact rewords_warnings (names rfl _ rfl) (kept.1.2 rfl)
    · rename_i elsewhere
      rw [map_relabel_of_ne elsewhere]
      exact .refl 0 _

theorem closeBound (seen : R.Seen k (depth.map (· + 1)) r r') :
    R.Seen k depth r.closeScope r'.closeScope := by
  have beyond : depth.map (· + 1) ≠ some 0 := by cases depth <;> simp
  have closed := seen.closeScope fun here => absurd here beyond
  rw [if_neg beyond, outward_map] at closed
  exact closed

theorem introduceAll {params : List Token} (seen : R.Seen k f.depth? r r')
    (other : ∀ p ∈ params, p.lexeme ≠ R.new)
    (owned : f = .inside 0 → ∀ p ∈ params, p.lexeme = R.name.lexeme → p.line = R.name.line)
    (clean : (params.foldl (fun r p => r.introduce p) r).Clean) :
    R.Seen k f.depth? (params.foldl (fun r p => r.introduce p) r)
      ((params.map (R.binder f)).foldl (fun r p => r.introduce p) r') := by
  induction params generalizing r r' with
  | nil => exact seen
  | cons p ps ih =>
    obtain ⟨here, rest⟩ := List.forall_mem_cons.mp other
    have first : (r.introduce p).Clean := (Resolver.introduceAll_extends ps _).clean clean
    have introduced :=
      seen.introduce here (fun inmost => owned inmost p (List.mem_cons_self ..)) first
    exact ih introduced rest (fun inmost q member => owned inmost q (List.mem_cons_of_mem _ member))
      clean

theorem superclass {owner : Token} {parent : Option Reference} (seen : R.Seen k f.depth? r r')
    (other : ∀ p ∈ parent, p.name.lexeme ≠ R.new) (apart : owner.lexeme ≠ R.new)
    (address : ∀ p ∈ parent, R.addresses[p.id]? = find p.name.lexeme r.names)
    (clean : (r.superclass owner parent).Clean) :
    R.Seen k f.depth? (r.superclass owner parent)
      (r'.superclass owner (parent.map (R.reference f))) := by
  unfold Resolver.superclass at clean ⊢
  cases parent with
  | none => exact seen.withClassKind .plain
  | some p =>
    dsimp only [Option.map_some] at clean ⊢
    split at clean
    · have spoiled := (Resolver.classKind_extends .subclass _).clean
        ((Resolver.read_extends p _).clean clean)
      exact (Resolver.not_clean_error spoiled).elim
    · rename_i different
      have different' : ¬ (R.reference f p).name.lexeme = owner.lexeme := by
        unfold reference
        split
        · exact fun same => apart same.symm
        · exact different
      rw [if_neg different, if_neg different']
      exact (seen.withClassKind .subclass).read (other p rfl) (address p rfl) clean

/-- No trait that is mixed in is renamed, so all their signatures are found. -/
theorem mixins {traits : List Reference} {required : Resolver.Required}
    (seen : R.Seen k f.depth? r r') (other : ∀ t ∈ traits, t.name.lexeme ≠ R.new)
    (untouched : ∀ t ∈ traits, R.targets f t = false)
    (address : ∀ t ∈ traits, R.addresses[t.id]? = find t.name.lexeme r.names)
    (clean : (r.mixins traits required).2.Clean) :
    (r'.mixins (traits.map (R.reference f)) required).1 = (r.mixins traits required).1 ∧
      R.Seen k f.depth? (r.mixins traits required).2
        (r'.mixins (traits.map (R.reference f)) required).2 := by
  induction traits generalizing r r' required with
  | nil => exact ⟨rfl, seen⟩
  | cons t ts ih =>
    obtain ⟨here, others⟩ := List.forall_mem_cons.mp other
    obtain ⟨still, untouched⟩ := List.forall_mem_cons.mp untouched
    obtain ⟨at_home, addresses⟩ := List.forall_mem_cons.mp address
    have kept : R.reference f t = t := if_neg (by rw [still]; exact Bool.false_ne_true)
    rw [List.map_cons, kept]
    unfold Resolver.mixins at clean ⊢
    dsimp only at clean ⊢
    have names : (r.read t).names = r.names :=
      (Resolver.read_keeps t r).names.trans (Resolver.addNames_nil _)
    cases wishes : (r.read t).registry.traits[t.name.lexeme]? with
    | none =>
      rw [wishes] at clean
      exact (Resolver.not_clean_error ((Resolver.mixins_extends ts _ _).clean clean)).elim
    | some wanted =>
      rw [wishes] at clean
      have read := seen.read here at_home ((Resolver.mixins_extends ts _ _).clean clean)
      rw [kept] at read
      rw [read.registry, wishes]
      exact ih read others untouched (fun u member => names ▸ addresses u member) clean

theorem openClass (seen : R.Seen k f.depth? r r') (parent : Option Reference)
    (plain : Plain R.new) :
    R.Seen k (f.members parent).depth? (r.openClass parent) (r'.openClass parent) := by
  unfold Resolver.openClass Focus.members
  split
  · rw [Focus.depth?_deeper, Focus.depth?_deeper]
    exact (seen.openBound plain.2.symm).openBound plain.1.symm
  · rw [Focus.depth?_deeper]
    exact seen.openBound plain.1.symm

theorem closeClass {parent : Option Reference} (seen : R.Seen k (f.members parent).depth? r r') :
    R.Seen k f.depth? (r.closeClass parent) (r'.closeClass parent) := by
  unfold Focus.members at seen
  unfold Resolver.closeClass
  split
  · rename_i subclass
    rw [if_pos subclass, Focus.depth?_deeper, Focus.depth?_deeper] at seen
    exact seen.closeBound.closeBound
  · rename_i plain
    rw [if_neg plain, Focus.depth?_deeper] at seen
    exact seen.closeBound

/-- Functions with the same title and number of parameters provide the same. -/
theorem provide {owner : Token} {g g' : FunctionDecl} {required : Resolver.Required}
    (seen : R.Seen k depth r r') (title : g'.title = g.title) (arity : g'.arity = g.arity)
    (clean : (r.provide owner g required).2.Clean) :
    R.Seen k depth (r.provide owner g required).2 (r'.provide owner g' required).2 := by
  have kind : Resolver.methodKind g' = Resolver.methodKind g := by
    unfold Resolver.methodKind
    rw [title]
  unfold Resolver.provide at clean ⊢
  rw [kind, title, arity]
  generalize Resolver.methodKind g = kind, required[g.title]? = wanted at clean ⊢
  cases kind with
  | none | function | initializer => exact seen
  | method =>
    cases wanted with
    | none => exact seen
    | some expected =>
      dsimp only at clean ⊢
      split at clean
      · rename_i agreed
        rw [if_pos agreed, if_pos agreed]
        exact seen
      · exact (Resolver.not_clean_error clean).elim

theorem checkReturn {keyword : Token} (seen : R.Seen k depth r r')
    (clean : (r.checkReturn keyword).Clean) :
    R.Seen k depth (r.checkReturn keyword) (r'.checkReturn keyword) := by
  unfold Resolver.checkReturn at clean ⊢
  rw [seen.functionKind]
  split at clean
  case h_1 | h_2 => exact (Resolver.not_clean_error clean).elim
  case h_3 | h_4 => exact seen

theorem registerTrait (seen : R.Seen k depth r r') (name : Token) (signatures : List Signature) :
    R.Seen k depth (r.registerTrait name signatures) (r'.registerTrait name signatures) := by
  refine { seen with registry := ?_ }
  unfold Resolver.registerTrait
  dsimp only
  rw [seen.registry]

theorem enterStatics {owner : Token} {required : Resolver.Required} (seen : R.Seen k depth r r')
    (clean : (r.enterStatics owner required).Clean) :
    R.Seen k depth (r.enterStatics owner required) (r'.enterStatics owner required) := by
  unfold Resolver.enterStatics Resolver.checkProvided at clean ⊢
  split at clean
  · rename_i provided
    rw [if_pos provided, if_pos provided]
    exact seen.withClassKind .static
  · exact (Resolver.not_clean_error clean).elim

end Seen

end Renaming

end Lox
