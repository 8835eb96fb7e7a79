import Lox.Evaluation

/-! A class declaration enters the scope that the methods close over, makes the class there and goes
back. Nothing that happens inside looks at the active scope, so it makes no difference if that scope
is made aside and the declaration stays where it is. -/

namespace Lox.Engine

/-- The methods of a subclass lie in a scope of their own, which holds the superclass. -/
def methodScope : Option ClassId → Eval (Option ScopeId)
  | none => return (← get).active
  | some id => do
    return some (← Eval.newScope (← get).active [("super", .classRef id)])

/-- What is left of a declaration when all that it refers to has been found. -/
def finishClass (c : ClassDecl) (superclass : Option ClassId) (traits : List TraitId) :
    Eval Unit := do
  let binding ← Eval.declare c.name.lexeme .nil
  let scope ← methodScope superclass
  let value ← Eval.newClass (classOf c superclass traits scope)
  Eval.rebind binding c.name.lexeme value

/-- To make a class inside and to come back is the same as to make it from outside. -/
theorem enterSuper_newClass (superclass : Option ClassId) (k : Option ScopeId → Class)
    (next : Value → Eval α) :
    (do
      let enclosing := (← get).active
      enterSuper superclass
      let value ← Eval.newClass (k (← get).active)
      modify fun m => { m with active := enclosing }
      next value) =
    (do
      let scope ← methodScope superclass
      let value ← Eval.newClass (k scope)
      next value) := by
  funext m
  cases superclass with
  | none => rfl
  | some id => rfl

theorem declareClass_eq (E : Engine) (c : ClassDecl) : E.declareClass c = (do
    let superclass ← E.superclassOf c.superclass
    let traits ← E.traitsOf c.traits
    finishClass c superclass traits) := by
  unfold declareClass finishClass
  apply bind_congr
  intro superclass
  apply bind_congr
  intro traits
  apply bind_congr
  intro binding
  exact enterSuper_newClass superclass (classOf c superclass traits) _

end Lox.Engine
