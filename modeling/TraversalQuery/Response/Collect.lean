import TraversalQuery.Schema.Basic
import TraversalQuery.Json.Basic
import TraversalQuery.Typing.Spread

/-!
# Collecting fields

The fields that selections ask of one object, grouped by the name they have in the response.
Fragments count where their type condition admits the object, and each of them once; selections that
are skipped or not included do not count.
-/

namespace TraversalQuery

/-- What a walk over a query looks things up in. -/
structure QueryScope where
  schema : Schema
  fragments : List Fragment
  variableValues : Members

/-- A field together with the selections inside it. -/
structure SelectedField where
  field : Field
  selections : List Selection
deriving Inhabited

/-- Selected fields by response key, in the order in which the keys are first met. -/
abbrev FieldGroups := List (String × List SelectedField)

namespace FieldGroups

/-- The groups with one more field. -/
def add (key : String) (selected : SelectedField) : FieldGroups → FieldGroups
  | [] => [(key, [selected])]
  | (other, fields) :: rest =>
    if other = key then (other, fields ++ [selected]) :: rest
    else (other, fields) :: add key selected rest

/-- The response keys of the groups. -/
def keys (groups : FieldGroups) : List String :=
  groups.map Prod.fst

/-- Adding a field adds its key if it is new. -/
theorem keys_add (key : String) (selected : SelectedField) (groups : FieldGroups) :
    (groups.add key selected).keys =
      if key ∈ groups.keys then groups.keys else groups.keys ++ [key] := by
  induction groups with
  | nil => simp [add, keys]
  | cons group rest ih =>
    obtain ⟨other, fields⟩ := group
    by_cases same : other = key
    · simp [add, keys, same]
    · have distinct : key ≠ other := fun equal => same equal.symm
      unfold keys at ih ⊢
      simp only [add, if_neg same, List.map_cons, List.mem_cons, distinct, false_or, ih]
      split <;> simp

/-- Groups keep keys of their own when a field is added. -/
theorem nodup_keys_add {key : String} {selected : SelectedField} {groups : FieldGroups}
    (nodup : groups.keys.Nodup) : (groups.add key selected).keys.Nodup := by
  rw [keys_add]
  split
  · exact nodup
  · rename_i absent
    refine List.nodup_append.mpr ⟨nodup, by simp, ?_⟩
    intro present member new isNew same
    obtain rfl := List.mem_singleton.mp isNew
    exact absent (same ▸ member)

end FieldGroups

/-- The fields found so far, and the fragments that were spread. -/
structure Collected where
  groups : FieldGroups
  visited : List String
deriving Inhabited

namespace QueryScope

/-- The condition of the first directive of a name, if it has one. A variable counts only when its
value is true. -/
def condition? (scope : QueryScope) (directives : List Directive) (name : String) : Option Bool :=
  ((findDirective? directives name).bind (·.argument? "if")).map fun
    | .bool value => value
    | .reference name =>
      match Members.get? name scope.variableValues with
      | some (.bool value) => value
      | _ => false
    | _ => false

/-- Whether directives leave a selection in. -/
def includes (scope : QueryScope) (directives : List Directive) : Bool :=
  scope.condition? directives "skip" != some true &&
    scope.condition? directives "include" != some false

/-- Whether an inline fragment admits an object. -/
def admits (object : SchemaType) : Option String → Bool
  | none => true
  | some condition => object.satisfies condition

/-- How the selections of a fragment are collected. -/
abbrev CollectFragment := Fragment → Collected → Collected

mutual

/-- The fields collected after one more selection on an object. -/
def collectSelection (scope : QueryScope) (enter : CollectFragment) (object : SchemaType)
    (collected : Collected) : Selection → Collected
  | .field field selections _ =>
    if scope.includes field.directives then
      { collected with groups := collected.groups.add field.responseKey ⟨field, selections⟩ }
    else collected
  | .spread name directives _ =>
    if scope.includes directives && !collected.visited.contains name then
      let collected := { collected with visited := name :: collected.visited }
      match Fragment.find? scope.fragments name with
      | none => collected
      | some fragment =>
        if object.satisfies fragment.condition then enter fragment collected else collected
    else collected
  | .inline condition? directives selections _ _ =>
    if scope.includes directives && admits object condition? then
      collectSelections scope enter object collected selections
    else collected

/-- The fields collected after more selections on an object. -/
def collectSelections (scope : QueryScope) (enter : CollectFragment) (object : SchemaType)
    (collected : Collected) : List Selection → Collected
  | [] => collected
  | selection :: rest =>
    collectSelections scope enter object
      (collectSelection scope enter object collected selection) rest

end

/-- The fields collected after the selections of a fragment. No fragment is entered twice, so
`rounds` need not exceed the number of fragments. -/
def collectFragment (scope : QueryScope) (object : SchemaType) : Nat → CollectFragment
  | 0, _, collected => collected
  | rounds + 1, fragment, collected =>
    collectSelections scope (collectFragment scope object rounds) object collected
      fragment.selections

/-- The fields that selections ask of an object. -/
def collect (scope : QueryScope) (object : SchemaType) (selections : List Selection) :
    FieldGroups :=
  (collectSelections scope (collectFragment scope object scope.fragments.length) object ⟨[], []⟩
    selections).groups

end QueryScope

end TraversalQuery
