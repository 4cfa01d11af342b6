import Mathlib.Tactic.Tauto
import TraversalQuery.Proofs.Document.Writing
import TraversalQuery.Typing.Literal

/-!
# What the checks of literals find out

A literal without problems is one whose parts have none where they stand: each item of a list, and
each field of an object for the field of the type that has its name. Constants are checked without
regard to the variables of an operation.
-/

namespace TraversalQuery

namespace TypeRef

theorem namedType_nullable (type : TypeRef) : type.nullable.namedType = type.namedType := by
  induction type with
  | nonNull inner ih => exact ih
  | _ => rfl

theorem itemType_of_nullable {type item : TypeRef} (isList : type.nullable = .list item) :
    type.itemType = item := by
  induction type with
  | named name => cases isList
  | list other => exact TypeRef.list.inj isList
  | nonNull inner ih => exact ih isList

/-- A type that is no list names its type. -/
theorem nullable_eq_named {type : TypeRef} (noList : ∀ item, type.nullable ≠ .list item) :
    type.nullable = .named type.namedType := by
  induction type with
  | named name => rfl
  | list item => exact absurd rfl (noList item)
  | nonNull inner ih => exact ih noList

end TypeRef

namespace Literal

/-- Induction on a literal, over the items of lists and the fields of objects. -/
@[elab_as_elim]
theorem deepInduction {motive : Literal → Prop} (reference : ∀ name, motive (.reference name))
    (int : ∀ value, motive (.int value)) (float : ∀ value, motive (.float value))
    (string : ∀ text, motive (.string text)) (bool : ∀ value, motive (.bool value))
    (null : motive .null) (enumValue : ∀ name, motive (.enumValue name))
    (list : ∀ items, (∀ item ∈ items, motive item) → motive (.list items))
    (object : ∀ fields, (∀ field ∈ fields, motive field.2) → motive (.object fields)) :
    ∀ literal, motive literal
  | .reference name => reference name
  | .int value => int value
  | .float value => float value
  | .string text => string text
  | .bool value => bool value
  | .null => null
  | .enumValue name => enumValue name
  | .list items => list items fun item _ =>
      deepInduction reference int float string bool null enumValue list object item
  | .object fields => object fields fun field _ =>
      deepInduction reference int float string bool null enumValue list object field.2
termination_by literal => sizeOf literal
decreasing_by
  · have := List.sizeOf_lt_of_mem ‹_›
    simp only [Literal.list.sizeOf_spec]
    omega
  · have := List.sizeOf_lt_of_mem ‹_›
    obtain ⟨name, value⟩ := field
    simp only [Literal.object.sizeOf_spec, Prod.mk.sizeOf_spec] at this ⊢
    omega

mutual

/-- Whether all doubles in a literal have a JSON form. -/
def isFinite : Literal → Bool
  | .float value => !value.isInfinite
  | .list items => areFinite items
  | .object fields => areFiniteFields fields
  | _ => true

/-- Whether all doubles in the items of a list have a JSON form. -/
def areFinite : List Literal → Bool
  | [] => true
  | item :: rest => item.isFinite && areFinite rest

/-- Whether all doubles in the fields of an object have a JSON form. -/
def areFiniteFields : List (String × Literal) → Bool
  | [] => true
  | (_, value) :: rest => value.isFinite && areFiniteFields rest

end

/-- Items are finite if each of them is. -/
theorem areFinite_iff {items : List Literal} :
    areFinite items = true ↔ ∀ item ∈ items, item.isFinite = true := by
  induction items with
  | nil => simp [areFinite]
  | cons item rest ih => rw [areFinite, Bool.and_eq_true, ih, List.forall_mem_cons]

/-- Fields are finite if each of their values is. -/
theorem areFiniteFields_iff {fields : List (String × Literal)} :
    areFiniteFields fields = true ↔ ∀ field ∈ fields, field.2.isFinite = true := by
  induction fields with
  | nil => simp [areFiniteFields]
  | cons field rest ih => rw [areFiniteFields, Bool.and_eq_true, ih, List.forall_mem_cons]

end Literal

namespace Typing

variable {scope other : Scope}

/-- Items are checked alike if each of them is. -/
theorem itemProblems_congr {items : List Literal} (same : ∀ item ∈ items, ∀ type path,
      literalProblems scope type path item = literalProblems other type path item)
    (type : TypeRef) (path : String) : ∀ index,
      itemProblems scope type path index items = itemProblems other type path index items := by
  induction items with
  | nil => exact fun _ => rfl
  | cons item rest ih =>
    obtain ⟨first, later⟩ := List.forall_mem_cons.mp same
    exact fun index => by rw [itemProblems, itemProblems, first, ih later]

/-- Fields are checked alike if the value of each of them is. -/
theorem fieldProblems_congr {fields : List (String × Literal)}
    (same : ∀ field ∈ fields, ∀ type path,
      literalProblems scope type path field.2 = literalProblems other type path field.2)
    (name : String) (declared : List InputValue) (path : String) : ∀ seen,
      fieldProblems scope name declared path seen fields =
        fieldProblems other name declared path seen fields := by
  induction fields with
  | nil => exact fun _ => rfl
  | cons field rest ih =>
    obtain ⟨first, later⟩ := List.forall_mem_cons.mp same
    exact fun seen => by simp only [fieldProblems, first, ih later]

/-- Constants are checked without regard to variables. -/
theorem literalProblems_of_isProper (sameSchema : scope.schema = other.schema)
    (literal : Literal) : literal.isProper true = true → ∀ type path,
      literalProblems scope type path literal = literalProblems other type path literal := by
  have whole (name path : String) (literal : Literal) :
      wholeProblems scope name path literal = wholeProblems other name path literal := by
    unfold wholeProblems
    rw [sameSchema]
  induction literal using Literal.deepInduction with
  | reference name => exact fun constant => absurd constant Bool.false_ne_true
  | list items ih =>
    intro constant type path
    simp only [literalProblems, whole]
    split
    · exact itemProblems_congr
        (fun item member => ih item member (Literal.areProper_iff.mp constant item member)) _ _ _
    · rfl
  | object fields ih =>
    intro constant type path
    have inside := fieldProblems_congr
      fun field member => ih field member (Literal.areProperFields_iff.mp constant field member)
    simp only [literalProblems, whole, sameSchema, inside]
  | _ => exact fun _ type path => by simp only [literalProblems, whole]

/-- The items of a list without problems have none. -/
theorem of_itemProblems_eq_nil {type : TypeRef} {path : String} {items : List Literal} :
    ∀ {index}, itemProblems scope type path index items = [] →
      ∀ item ∈ items, ∃ path, literalProblems scope type path item = [] := by
  induction items with
  | nil => exact fun _ => List.forall_mem_nil _
  | cons item rest ih =>
    intro index clean
    obtain ⟨first, later⟩ := List.append_eq_nil_iff.mp clean
    exact List.forall_mem_cons.mpr ⟨⟨_, first⟩, ih later⟩

/-- A walk along named parts that refuses a name it has met finds nothing exactly if the names are
distinct and no part has a problem of its own. -/
theorem walk_eq_nil_iff {α : Type} {name : α → String} {fine : α → Prop}
    {walk : List String → List α → List Problem} (done : ∀ seen, walk seen [] = [])
    (next : ∀ seen part rest, walk seen (part :: rest) = [] ↔
      name part ∉ seen ∧ fine part ∧ walk (name part :: seen) rest = []) (parts : List α) :
    walk [] parts = [] ↔ (parts.map name).Nodup ∧ ∀ part ∈ parts, fine part := by
  have along : ∀ seen, walk seen parts = [] ↔
      (∀ part ∈ parts, name part ∉ seen) ∧ (parts.map name).Nodup ∧ ∀ part ∈ parts, fine part := by
    induction parts with
    | nil => simp [done]
    | cons part rest ih =>
      intro seen
      have fresh : (∀ other ∈ rest, name other ∉ name part :: seen) ↔
          name part ∉ rest.map name ∧ ∀ other ∈ rest, name other ∉ seen := by
        simp only [List.mem_cons, not_or, forall_and, List.mem_map, not_exists, not_and]
      rw [next, ih, fresh, List.map_cons, List.nodup_cons, List.forall_mem_cons,
        List.forall_mem_cons]
      tauto
  exact (along []).trans (and_iff_right fun _ _ => List.not_mem_nil)

/-- A part whose name was met is refused, and any other part is looked at. -/
theorem refusing_eq_nil_iff {seen : List String} {name : String} {repeated : Problem}
    {again own later : List Problem} {fine : Prop} (looked : own = [] ↔ fine) :
    (if seen.contains name then repeated :: again else own ++ later) = [] ↔
      name ∉ seen ∧ fine ∧ later = [] := by
  by_cases met : name ∈ seen <;> simp [met, looked]

/-- A name under which an input is declared has the problems of that input. -/
theorem declared_eq_nil_iff {declared : List InputValue} {name : String} {unknown : Problem}
    {problems : InputValue → List Problem} :
    (match declared.find? (·.name == name) with
      | none => [unknown]
      | some input => problems input) = [] ↔
      ∃ input, declared.find? (·.name == name) = some input ∧ problems input = [] := by
  cases declared.find? (·.name == name) <;> simp

/-- No problem is listed for what is left out exactly if all required inputs are given. -/
theorem missing_eq_nil_iff {declared : List InputValue} {names : List String}
    {problem : InputValue → Problem} :
    (declared.filter fun input => input.isRequired && !names.contains input.name).map problem = [] ↔
      ∀ input ∈ declared, input.isRequired = true → input.name ∈ names := by
  simp

/-- Nothing is wrong with fields exactly if their names are distinct and each has a declared input
that admits its value. -/
theorem fieldProblems_eq_nil_iff {type path : String} {declared : List InputValue}
    {fields : List (String × Literal)} :
    fieldProblems scope type declared path [] fields = [] ↔ (fields.map Prod.fst).Nodup ∧
      ∀ field ∈ fields, ∃ input, declared.find? (·.name == field.1) = some input ∧
        literalProblems scope input.type s!"{path}.{field.1}" field.2 = [] := by
  refine walk_eq_nil_iff (fun _ => rfl) (fun seen field rest => ?_) fields
  rw [fieldProblems]
  exact refusing_eq_nil_iff declared_eq_nil_iff

/-- Nothing is wrong with arguments exactly if their names are distinct and each has a declared
input that admits its value. -/
theorem givenProblems_eq_nil_iff {path : String} {declared : List InputValue}
    {arguments : List Argument} :
    givenProblems scope declared path [] arguments = [] ↔ (arguments.map (·.name)).Nodup ∧
      ∀ argument ∈ arguments, ∃ input, declared.find? (·.name == argument.name) = some input ∧
        literalProblems scope input.type s!"{path}({argument.name})" argument.value = [] := by
  refine walk_eq_nil_iff (fun _ => rfl) (fun seen argument rest => ?_) arguments
  rw [givenProblems]
  exact refusing_eq_nil_iff declared_eq_nil_iff

/-- A literal that is not looked into is accepted as a whole. -/
theorem accepts_of_wholeProblems_eq_nil {name path : String} {literal : Literal}
    (clean : wholeProblems scope name path literal = [])
    (isType : (scope.schema.get? name).isSome = true) :
    ∃ type, scope.schema.get? name = some type ∧ accepts type literal = true := by
  obtain ⟨type, found⟩ := Option.isSome_iff_exists.mp isType
  refine ⟨type, found, ?_⟩
  unfold wholeProblems at clean
  rw [found] at clean
  dsimp only at clean
  split at clean
  · assumption
  · contradiction

end Typing

end TraversalQuery
