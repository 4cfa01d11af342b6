import TraversalQuery.Proofs.Typing.Admission
import TraversalQuery.Response.Input

/-!
# Values that fit where their variable can stand

Whether a variable can stand somewhere is decided by two types, and whether a value can be given for
a variable by the value and one type. Both follow the type from the outside in: a mark that forbids
`null` and a list are looked at before what is inside. So a value that fits the type of a variable
fits wherever the variable can stand, and the types are ordered by where their variables can stand.
-/

namespace TraversalQuery

namespace TypeRef

variable {first second third : TypeRef}

/-- Every type refines itself. -/
theorem Refines.refl : ∀ type : TypeRef, type.Refines type
  | .named name => .named name
  | .list item => .list (Refines.refl item)
  | .nonNull inner => .marked (Refines.refl inner)

/-- A type refines what the types refine that it refines. -/
theorem Refines.trans (refines : first.Refines second) (further : second.Refines third) :
    first.Refines third := by
  -- On the first step: a mark that it drops is dropped by both steps together.
  induction refines generalizing third with
  | named name => exact further
  | list items ih =>
    cases further with
    | list others => exact .list (ih others)
  | marked inner ih =>
    cases further with
    | marked other => exact .marked (ih other)
    | stricter other => exact .stricter (ih other)
  | stricter inner ih => exact .stricter (ih further)

end TypeRef

namespace Json

variable {schema : Schema} {item inner : TypeRef} {value : Json}

/-- Items fit a type if each of them does. -/
theorem itemsFit_eq_all (schema : Schema) (item : TypeRef) (values : List Json) :
    itemsFit schema item values = values.all (·.fits schema item) := by
  induction values with
  | nil => rfl
  | cons value rest ih => rw [itemsFit, ih, List.all_cons]

/-- A mark forbids `null` and says nothing else. -/
theorem fits_nonNull : value.fits schema (.nonNull inner) =
    (!value.isNull && value.fits schema inner) := by
  cases value <;> rfl

/-- An array fits a list if its items fit. -/
theorem fits_list_array {values : List Json} :
    (Json.array values).fits schema (.list item) = values.all (·.fits schema item) :=
  itemsFit_eq_all schema item values

/-- A single value stands for a list of one. -/
theorem fits_list_single (proper : value.isNull = false) (plain : value.isArray = false) :
    value.fits schema (.list item) = value.fits schema item := by
  cases value with
  | null => cases proper
  | array values => cases plain
  | _ => rfl

/-- A value that fits a type fits every type that it refines. -/
theorem fits_of_refines {given expected : TypeRef} (refines : given.Refines expected)
    (fits : value.fits schema given = true) : value.fits schema expected = true := by
  -- The steps of a refinement go inwards as the value is taken apart, except that a single value
  -- stays whole where a list is opened.
  induction refines generalizing value with
  | named name => exact fits
  | list items ih =>
    cases value with
    | null => rfl
    | array values =>
      rw [fits_list_array, List.all_eq_true] at fits ⊢
      exact fun value member => ih (fits value member)
    | _ =>
      rw [fits_list_single rfl rfl] at fits ⊢
      exact ih fits
  | marked inner ih =>
    rw [fits_nonNull, Bool.and_eq_true] at fits ⊢
    exact ⟨fits.1, ih fits.2⟩
  | stricter inner ih =>
    rw [fits_nonNull, Bool.and_eq_true] at fits
    exact ih fits.2

end Json

namespace Typing

variable {given expected : TypeRef}

/-- Without a default to make up for it, a variable can stand where its type is refined by it. -/
theorem variableFits_without_default :
    variableFits given expected false = true ↔ given.Refines expected := by
  simp [variableFits_iff]

/-- **Where variables can stand, their values fit.** This holds for all types and all values,
however lists and marks are nested in them; and where variables can stand orders the types. -/
theorem variableFits_sound (schema : Schema) :
    (∀ (given expected : TypeRef) (value : Json), variableFits given expected false = true →
        value.fits schema given = true → value.fits schema expected = true) ∧
      (∀ type : TypeRef, variableFits type type false = true) ∧
      ∀ first second third : TypeRef, variableFits first second false = true →
        variableFits second third false = true → variableFits first third false = true := by
  simp only [variableFits_without_default]
  exact ⟨fun _ _ _ refines fits => Json.fits_of_refines refines fits, .refl,
    fun _ _ _ refines further => refines.trans further⟩

/-- A source with an input type that holds lists of lists. -/
def boxesSource : String :=
  "type Query \x7b fits(boxes: [Box]): Boolean \x7d input Box \x7b sizes: [[Int!]!], tag: ID \x7d"

/-- Lists of boxes, with marks around the list and around its items. -/
def boxes (outside inside : TypeRef → TypeRef) : TypeRef :=
  outside (.list (inside (.named "Box")))

/-- Two boxes, one of them with a single size in the place of a list. -/
def smallBoxes : Json :=
  .array [.object [("sizes", .array [.array [.int 1, .int 2], .int 3]), ("tag", .null)],
    .object [("tag", .string "a")]]

/-- Boxes that fit the strictest of three types fit the others, and the types are in order. -/
theorem variableFits_sound_boxes : ∃ schema,
    Schema.compile [boxesSource] = .ok schema ∧
      variableFits (boxes .nonNull .nonNull) (boxes .nonNull id) false = true ∧
      variableFits (boxes .nonNull id) (boxes id id) false = true ∧
      smallBoxes.fits schema (boxes .nonNull .nonNull) = true ∧
      smallBoxes.fits schema (boxes .nonNull id) = true ∧
      variableFits (boxes .nonNull .nonNull) (boxes id id) false = true ∧
      variableFits (boxes id .nonNull) (boxes id .nonNull) false = true := by
  have ran : (Schema.compile [boxesSource]).toOption.any
      (smallBoxes.fits · (boxes .nonNull .nonNull)) = true := by
    decide +kernel
  obtain ⟨schema, isCompiled, given⟩ := (Option.any_eq_true _ _).mp ran
  have stricter : variableFits (boxes .nonNull .nonNull) (boxes .nonNull id) false = true := by
    decide +kernel
  have looser : variableFits (boxes .nonNull id) (boxes id id) false = true := by
    decide +kernel
  obtain ⟨sound, reflexive, transitive⟩ := variableFits_sound schema
  exact ⟨schema, Except.of_toOption_eq_some isCompiled, stricter, looser, given,
    sound _ _ _ stricter given, transitive _ _ _ stricter looser, reflexive _⟩

end Typing

end TraversalQuery
