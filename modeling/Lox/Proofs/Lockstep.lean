/-! Two computations in lockstep: started in states that belong together they end alike, with
values, errors and states that belong together. Lockstep is kept by sequencing, so it is carried
through a program from its primitive steps. -/

namespace Lox

/-- Which states and which errors of two computations belong together. -/
structure Lockstep (ε σ ε' σ' : Type) where
  states : σ → σ' → Prop
  errors : ε → ε' → Prop

namespace Lockstep

variable {ε σ ε' σ' α β γ δ : Type} {K : Lockstep ε σ ε' σ'}

/-- Outcomes that belong together. -/
inductive Ends (K : Lockstep ε σ ε' σ') (V : α → β → Prop) :
    EStateM.Result ε σ α → EStateM.Result ε' σ' β → Prop where
  | ok {a : α} {b : β} {s : σ} {s' : σ'} (values : V a b) (states : K.states s s') :
    K.Ends V (.ok a s) (.ok b s')
  | error {e : ε} {e' : ε'} {s : σ} {s' : σ'} (errors : K.errors e e') (states : K.states s s') :
    K.Ends V (.error e s) (.error e' s')

/-- Computations that end alike wherever they start. -/
def Runs (K : Lockstep ε σ ε' σ') (V : α → β → Prop) (p : EStateM ε σ α) (q : EStateM ε' σ' β) :
    Prop :=
  ∀ ⦃s s'⦄, K.states s s' → K.Ends V (p s) (q s')

namespace Runs

variable {V : α → β → Prop} {W : γ → δ → Prop} {p : EStateM ε σ α} {q : EStateM ε' σ' β}

theorem pure {a : α} {b : β} (values : V a b) : K.Runs V (Pure.pure a) (Pure.pure b) :=
  fun _ _ states => .ok values states

theorem throw {e : ε} {e' : ε'} (errors : K.errors e e') :
    K.Runs V (MonadExcept.throw e) (MonadExcept.throw e') :=
  fun _ _ states => .error errors states

theorem get :
    K.Runs K.states (MonadState.get : EStateM ε σ σ) (MonadState.get : EStateM ε' σ' σ') :=
  fun _ _ states => .ok states states

theorem modify {f : σ → σ} {g : σ' → σ'} (step : ∀ ⦃s s'⦄, K.states s s' → K.states (f s) (g s')) :
    K.Runs Eq (modify f : EStateM ε σ PUnit) (modify g : EStateM ε' σ' PUnit) :=
  fun _ _ states => .ok rfl (step states)

theorem bind {f : α → EStateM ε σ γ} {g : β → EStateM ε' σ' δ} (first : K.Runs V p q)
    (later : ∀ ⦃a b⦄, V a b → K.Runs W (f a) (g b)) : K.Runs W (p >>= f) (q >>= g) := by
  intro s s' states
  have ended := first states
  change K.Ends W (EStateM.bind p f s) (EStateM.bind q g s')
  unfold EStateM.bind
  generalize p s = result, q s' = result' at ended
  cases ended with
  | ok values states => exact later values states
  | error errors states => exact .error errors states

/-- Sequencing after a result that is the same on both sides. -/
theorem next {p : EStateM ε σ α} {q : EStateM ε' σ' α} {f : α → EStateM ε σ γ}
    {g : α → EStateM ε' σ' δ} (first : K.Runs Eq p q) (later : ∀ a, K.Runs W (f a) (g a)) :
    K.Runs W (p >>= f) (q >>= g) :=
  first.bind fun a b same => by
    cases same
    exact later a

theorem weaken {V' : α → β → Prop} (runs : K.Runs V p q) (values : ∀ ⦃a b⦄, V a b → V' a b) :
    K.Runs V' p q := by
  intro s s' states
  have ended := runs states
  generalize p s = result, q s' = result' at ended
  cases ended with
  | ok related states => exact .ok (values related) states
  | error errors states => exact .error errors states

theorem ite {condition : Prop} [Decidable condition] {p p' : EStateM ε σ α}
    {q q' : EStateM ε' σ' β} (yes : K.Runs V p q) (no : K.Runs V p' q') :
    K.Runs V (if condition then p else p') (if condition then q else q') := by
  split
  · exact yes
  · exact no

end Runs

end Lockstep

/-- Results that belong together, where an error is a result too. -/
inductive Results {ε ε' α β : Type} (E : ε → ε' → Prop) (V : α → β → Prop) :
    Except ε α → Except ε' β → Prop where
  | ok {a : α} {b : β} (values : V a b) : Results E V (.ok a) (.ok b)
  | error {e : ε} {e' : ε'} (errors : E e e') : Results E V (.error e) (.error e')

end Lox
