import TraversalQuery.Number.Format
import TraversalQuery.Text.Quoted

/-!
# JSON values

Integers and doubles are kept apart, because they are written apart. The members of an object stand
in a list; objects that are put together with `Members.insert` hold each name once, in ascending
order of the names.
-/

namespace TraversalQuery

/-- A JSON value. -/
inductive Json where
  | null
  | bool (value : Bool)
  | int (value : Int)
  | float (value : Binary64)
  | string (text : String)
  | array (items : List Json)
  | object (members : List (String × Json))
deriving Inhabited

/-- The members of an object. -/
abbrev Members := List (String × Json)

namespace Members

/-- The members with `name` set to `value`, in their place by name. -/
def insert (name : String) (value : Json) : Members → Members
  | [] => [(name, value)]
  | (other, held) :: rest =>
    if name < other then (name, value) :: (other, held) :: rest
    else if name = other then (name, value) :: rest
    else (other, held) :: insert name value rest

/-- The value held under `name`. -/
def get? (name : String) : Members → Option Json
  | [] => none
  | (other, held) :: rest => if name = other then some held else get? name rest

/-- The names of the members. -/
def names (members : Members) : List String :=
  members.map Prod.fst

/-- The members of a list of pairs, a later pair replacing an earlier one of its name. -/
def ofList (pairs : List (String × Json)) : Members :=
  pairs.foldl (fun members (name, value) => insert name value members) []

@[simp] theorem get?_nil (name : String) : get? name [] = none := rfl

theorem get?_cons (name other : String) (held : Json) (rest : Members) :
    get? name ((other, held) :: rest) = if name = other then some held else get? name rest := rfl

@[simp] theorem get?_insert_self (name : String) (value : Json) (members : Members) :
    get? name (insert name value members) = some value := by
  induction members with
  | nil => simp [insert, get?]
  | cons entry rest ih =>
    obtain ⟨other, held⟩ := entry
    unfold insert
    split
    · simp [get?]
    · split
      · simp [get?]
      · simp [get?, *]

theorem get?_insert_of_ne {name other : String} (value : Json) (members : Members)
    (different : other ≠ name) :
    get? other (insert name value members) = get? other members := by
  induction members with
  | nil => simp [insert, get?, different]
  | cons entry rest ih =>
    obtain ⟨third, held⟩ := entry
    unfold insert
    split
    · simp [get?, different]
    · split
      · subst_vars
        simp [get?, different]
      · simp [get?, ih]

end Members

namespace Json

/-- A double as a JSON value: an infinity has no JSON form and becomes `null`. -/
def ofFloat (value : Binary64) : Json :=
  if value.isInfinite then .null else .float value

/-- A text, or `null` when there is none. -/
def ofText? : Option String → Json
  | none => .null
  | some text => .string text

/-- A list of texts. -/
def ofTexts (texts : List String) : Json :=
  .array (texts.map .string)

/-- A natural number. -/
def ofNat (value : Nat) : Json :=
  .int value

/-- Whether a value is `null`. -/
def isNull : Json → Bool
  | .null => true
  | _ => false

/-- Whether a value is an array. -/
def isArray : Json → Bool
  | .array _ => true
  | _ => false

/-- The text of a string value. -/
def text? : Json → Option String
  | .string text => some text
  | _ => none

/-- The number of an integer value. -/
def int? : Json → Option Int
  | .int value => some value
  | _ => none

end Json

end TraversalQuery
