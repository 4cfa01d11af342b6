import TraversalQuery.Text.Blank

/-!
# Constraint operators

The operators with which a property can be tested. Each has a spelling, in which it is shown, and
most of those that are more than one word have an alias with blanks; both name the operator.
-/

namespace TraversalQuery

/-- An operator of a constraint. -/
inductive Operator where
  | empty
  | notEmpty
  | eq
  | ne
  | gt
  | ge
  | lt
  | le
  | inSet
  | notInSet
  | inRange
  | notInRange
  | within
  | contains
  | notContains
  | distinct
  | startsWith
  | notStartsWith
  | endsWith
  | notEndsWith
  | matches
  | matchPhrase
  | queryString
  | notMatches
  | fuzzyEq
  | fuzzyNe
  | like
  | likeAny
deriving DecidableEq, Inhabited, Repr

namespace Operator

/-- Every operator, in the order in which they are listed. -/
def all : List Operator :=
  [.empty, .notEmpty, .eq, .ne, .gt, .ge, .lt, .le, .inSet, .notInSet, .inRange, .notInRange,
    .within, .contains, .notContains, .distinct, .startsWith, .notStartsWith, .endsWith,
    .notEndsWith, .matches, .matchPhrase, .queryString, .notMatches, .fuzzyEq, .fuzzyNe, .like,
    .likeAny]

/-- The spelling of an operator. -/
def text : Operator → String
  | .empty => "empty"
  | .notEmpty => "notEmpty"
  | .eq => "eq"
  | .ne => "ne"
  | .gt => "gt"
  | .ge => "ge"
  | .lt => "lt"
  | .le => "le"
  | .inSet => "inSet"
  | .notInSet => "notInSet"
  | .inRange => "inRange"
  | .notInRange => "notInRange"
  | .within => "within"
  | .contains => "contains"
  | .notContains => "notContains"
  | .distinct => "distinct"
  | .startsWith => "startsWith"
  | .notStartsWith => "notStartsWith"
  | .endsWith => "endsWith"
  | .notEndsWith => "notEndsWith"
  | .matches => "match"
  | .matchPhrase => "match_phrase"
  | .queryString => "query_string"
  | .notMatches => "notMatch"
  | .fuzzyEq => "fuzzyEq"
  | .fuzzyNe => "fuzzyNe"
  | .like => "like"
  | .likeAny => "likeAny"

/-- The spelling with blanks, where there is one. -/
def alias? : Operator → Option String
  | .notEmpty => some "not empty"
  | .inSet => some "in set"
  | .notInSet => some "not in set"
  | .inRange => some "in range"
  | .notInRange => some "not in range"
  | .notContains => some "not contains"
  | .startsWith => some "starts with"
  | .notStartsWith => some "not starts with"
  | .endsWith => some "ends with"
  | .notEndsWith => some "not ends with"
  | .matchPhrase => some "match phrase"
  | .queryString => some "query string"
  | .notMatches => some "not match"
  | .fuzzyEq => some "fuzzy eq"
  | .fuzzyNe => some "fuzzy ne"
  | .likeAny => some "like any"
  | _ => none

/-- The name under which an operator is stored. -/
def storedName : Operator → String
  | .empty => "Empty"
  | .notEmpty => "NotEmpty"
  | .eq => "Eq"
  | .ne => "Ne"
  | .gt => "Gt"
  | .ge => "Ge"
  | .lt => "Lt"
  | .le => "Le"
  | .inSet => "InSet"
  | .notInSet => "NotInSet"
  | .inRange => "InRange"
  | .notInRange => "NotInRange"
  | .within => "Within"
  | .contains => "Contains"
  | .notContains => "NotContains"
  | .distinct => "Distinct"
  | .startsWith => "StartsWith"
  | .notStartsWith => "NotStartsWith"
  | .endsWith => "EndsWith"
  | .notEndsWith => "NotEndsWith"
  | .matches => "Match"
  | .matchPhrase => "MatchPhrase"
  | .queryString => "QueryString"
  | .notMatches => "NotMatch"
  | .fuzzyEq => "FuzzyEq"
  | .fuzzyNe => "FuzzyNe"
  | .like => "Like"
  | .likeAny => "LikeAny"

/-- Whether a text is the spelling or the alias of an operator. -/
def isNamed (operator : Operator) (name : String) : Bool :=
  operator.text == name || operator.alias? == some name

end Operator

/-- A text that names no operator. -/
structure UnknownOperator where
  name : String
deriving DecidableEq, Inhabited, Repr

namespace UnknownOperator

/-- What is wrong with a text that names no operator. -/
def message (unknown : UnknownOperator) : String :=
  s!"unknown constraint operator `{unknown.name}`"

end UnknownOperator

namespace Operator

/-- The operator that a text names. Blanks around the name do not count. -/
def read (text : String) : Except UnknownOperator Operator :=
  let name := String.ofList (Text.trim text.toList)
  match all.find? (·.isNamed name) with
  | some operator => .ok operator
  | none => .error ⟨name⟩

end Operator

end TraversalQuery
