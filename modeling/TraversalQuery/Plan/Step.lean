import TraversalQuery.Plan.Builder

/-!
# Building steps

The operations on a builder as values, so that whole histories of a builder can be written down,
run and reasoned about. A step that fails does not end a history.
-/

namespace TraversalQuery

/-- An operation on a builder with its arguments. -/
inductive BuilderStep where
  | start
  | enterEntity (tag typeName : String)
  | enterConcrete (entity : ConcreteEntity) (typeName tag : String)
  | enterRelation (relationType : String) (direction : Direction) (tag : String)
  | addProperty (property : Property)
  | addGroup (fields : List (String × Option Constraint)) (quantifier : Quantifier)
  | addQuantifier (quantifier : Quantifier)
  | moveTo (id : NodeId)
  | ascend (accepts : NodeId → Node → Bool)

/-- What an operation on a builder answers. -/
inductive StepAnswer where
  | inserted (id : NodeId)
  | moved
  | climbed (ascent : Ascent)
deriving DecidableEq, Inhabited, Repr

namespace BuilderStep

/-- The operation that a step stands for. -/
def perform : BuilderStep → Build StepAnswer
  | .start => .inserted <$> Builder.start
  | .enterEntity tag typeName => .inserted <$> Builder.enterEntity tag typeName
  | .enterConcrete entity typeName tag => .inserted <$> Builder.enterConcrete entity typeName tag
  | .enterRelation relationType direction tag =>
    .inserted <$> Builder.enterRelation relationType direction tag
  | .addProperty property => .inserted <$> Builder.addProperty property
  | .addGroup fields quantifier => .inserted <$> Builder.addGroup fields quantifier
  | .addQuantifier quantifier => .inserted <$> Builder.addQuantifier quantifier
  | .moveTo id => do
    Builder.moveTo id
    return .moved
  | .ascend accepts => .climbed <$> Builder.ascend accepts

end BuilderStep

namespace Builder

/-- What a step answers, and the builder after it. -/
def step (builder : Builder) (step : BuilderStep) : Except BuilderError StepAnswer × Builder :=
  Id.run (step.perform.run.run builder)

/-- The builder after a history of steps. -/
def after (builder : Builder) (steps : List BuilderStep) : Builder :=
  steps.foldl (fun builder step => (builder.step step).2) builder

end Builder

end TraversalQuery
