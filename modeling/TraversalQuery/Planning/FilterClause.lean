import TraversalQuery.Planning.Error

/-!
# Filter clauses

A filter says which tests entities have to pass, all of them or any. It comes as JSON:

    {"operator": "AND", "constraints": [{"operand": "name", "operator": "like", "expression": "a"}]}

Operators are looked up when a clause is decoded. Whether an entity has the properties that are
tested is asked later, when the entity is known.
-/

namespace TraversalQuery

/-- A filter: tests of properties, and how many of them have to be passed. -/
structure FilterClause where
  quantifier : Quantifier
  constraints : List (String × Constraint)
deriving DecidableEq, Inhabited, Repr

/-- A test of a property as it is written. -/
structure WrittenConstraint where
  operand : String
  operator : String
  expression? : Option String
deriving DecidableEq, Inhabited, Repr

/-- A filter as it is written. -/
structure WrittenClause where
  quantifier : Quantifier
  constraints : List WrittenConstraint
deriving DecidableEq, Inhabited, Repr

open Json (Decoder Fields)

namespace WrittenConstraint

/-- The form of written tests. -/
def decoder : Decoder WrittenConstraint :=
  .record "RawConstraint" <|
    (((Fields.none WrittenConstraint.mk).required "operand" .text).required
      "operator" .text).defaulted "expression" (.optional .text) none

/-- A test with its operator looked up. A comparison with the empty text is one with nothing. -/
def read (path : String) (written : WrittenConstraint) :
    Except PlanError (String × Constraint) :=
  match Operator.read written.operator with
  | .error _ => .error (.unknownOperator written.operator path)
  | .ok operator =>
    .ok (written.operand, ⟨operator, written.expression?.filter fun text => !text.isEmpty⟩)

end WrittenConstraint

namespace WrittenClause

/-- The names for how tests are combined. -/
def combinations : List (String × Quantifier) :=
  [("AND", .every), ("OR", .any)]

/-- The form of written filters. -/
def decoder : Decoder WrittenClause :=
  .record "RawClause" <|
    ((Fields.none WrittenClause.mk).defaulted "operator" (.choice combinations) .every).required
      "constraints" (.list WrittenConstraint.decoder)

end WrittenClause

namespace FilterClause

/-- The name of the argument that holds a filter. -/
def argumentName : String := "where"

/-- The filter that a value at a path writes. -/
def decode (value : Json) (path : String) : Except PlanError FilterClause := do
  let written ← (WrittenClause.decoder.decode value).mapError (.malformedFilter path)
  let constraints ← written.constraints.mapM (WrittenConstraint.read path)
  return ⟨written.quantifier, constraints⟩

/-- The properties that are tested and not known, each once, in the order of the tests. -/
def unknownOperands (clause : FilterClause) (known : String → Bool) : List String :=
  (clause.constraints.map Prod.fst).foldl (fun unknown operand =>
    if known operand || unknown.contains operand then unknown else unknown ++ [operand]) []

end FilterClause

end TraversalQuery
