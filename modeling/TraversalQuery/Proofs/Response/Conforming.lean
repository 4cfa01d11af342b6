import TraversalQuery.Proofs.Typing.Admission
import TraversalQuery.Response.Input

/-!
# Values that conform to types

What a resolver can rely on when it is given a value of some type. A value that is made from
literals has a list wherever the type has one, and all fields of an input type that have defaults. A
value that was provided with a request stands as it was given: in it a single item may stand for a
list, and fields with defaults may be left out.
-/

namespace TraversalQuery

/-- A member is found under each name of an object. -/
theorem Members.isSome_get? {name : String} {members : Members} (member : name ∈ members.names) :
    (Members.get? name members).isSome = true := by
  induction members with
  | nil => cases member
  | cons entry rest ih =>
    rw [get?_cons]
    split
    · rfl
    · rename_i different
      exact ih ((List.mem_cons.mp member).resolve_left different)

namespace Json

/-- Whether a value is a boolean. -/
def isBool : Json → Bool
  | .bool _ => true
  | _ => false

/-- Whether a value is a number. -/
def isNumber : Json → Bool
  | .int _ => true
  | .float _ => true
  | _ => false

/-- Whether a value is of the kind that a scalar is for; one that is not built in is for all. -/
def isOfKind (scalar : String) (value : Json) : Bool :=
  match scalar with
  | "Int" => value.int?.any Typing.fitsInt
  | "Float" => value.isNumber
  | "String" => value.text?.isSome
  | "Boolean" => value.isBool
  | "ID" => value.text?.isSome || value.int?.isSome
  | _ => true

/-- A value that fits a scalar is of its kind. -/
theorem isOfKind_of_fitsScalar {scalar : String} {value : Json}
    (fits : fitsScalar scalar value = true) : value.isOfKind scalar = true := by
  unfold fitsScalar at fits
  split at fits <;> first | exact fits | rfl | contradiction | skip
  unfold isOfKind
  split <;> simp_all

theorem ne_null_of_isNull {value : Json} (proper : value.isNull = false) : value ≠ .null := by
  rintro rfl
  cases proper

/-- A value that is put in lists is not `null`. -/
theorem inLists_ne_null {type : TypeRef} {value : Json} (proper : value ≠ .null) :
    inLists type value ≠ .null := by
  induction type with
  | named name => exact proper
  | list item ih => exact nofun
  | nonNull inner ih => exact ih

end Json

/-- Where a value of an input comes from: from literals, or from the values given for variables. -/
inductive InputSource where
  | written
  | provided
deriving DecidableEq

namespace Schema

/-- A value that conforms to a type: `null` only where the type admits it, an array for a list, a
value of the right kind for a scalar, a value of an enum, and for an input type an object with none
but its fields, among them those that are required or have a default. Inside a written value there
can be values that were given for variables. In these a single item can stand for a list, and fields
with defaults can be missing. -/
inductive Conforms (schema : Schema) (given : Json → Prop) : InputSource → TypeRef → Json → Prop
  | provided {type : TypeRef} {value : Json} (isGiven : given value)
      (conforms : Conforms schema given .provided type value) :
      Conforms schema given .written type value
  | null {source : InputSource} {type : TypeRef} (nullable : type.isNonNull = false) :
      Conforms schema given source type .null
  | nonNull {source : InputSource} {inner : TypeRef} {value : Json} (proper : value ≠ .null)
      (conforms : Conforms schema given source inner value) :
      Conforms schema given source (.nonNull inner) value
  | list {source : InputSource} {item : TypeRef} {values : List Json}
      (each : ∀ value ∈ values, Conforms schema given source item value) :
      Conforms schema given source (.list item) (.array values)
  | single {item : TypeRef} {value : Json} (plain : value.isArray = false)
      (conforms : Conforms schema given .provided item value) :
      Conforms schema given .provided (.list item) value
  | scalar {source : InputSource} {name : String} {type : SchemaType} {value : Json}
      (found : schema.get? name = some type) (isScalar : type.body = .scalar)
      (kind : value.isOfKind name = true) : Conforms schema given source (.named name) value
  | enum {source : InputSource} {name : String} {type : SchemaType} {values : List String}
      {text : String} (found : schema.get? name = some type) (isEnum : type.body = .enum values)
      (member : text ∈ values) : Conforms schema given source (.named name) (.string text)
  | input {source : InputSource} {name : String} {type : SchemaType} {declared : List InputValue}
      {members : Members} (found : schema.get? name = some type)
      (isInput : type.body = .input declared)
      (only : ∀ name ∈ Members.names members, ∃ input ∈ declared, input.name = name)
      (each : ∀ input ∈ declared, ∀ value, Members.get? input.name members = some value →
        Conforms schema given source input.type value)
      (complete : ∀ input ∈ declared,
        input.isRequired = true ∨ source = .written ∧ input.default?.isSome = true →
          (Members.get? input.name members).isSome = true) :
      Conforms schema given source (.named name) (.object members)

variable {schema : Schema} {given other : Json → Prop} {source : InputSource} {type : TypeRef}
  {value : Json}

/-- It does not matter that more values are given. -/
theorem Conforms.mono (conforms : schema.Conforms given source type value)
    (more : ∀ value, given value → other value) : schema.Conforms other source type value := by
  induction conforms with
  | provided isGiven _ ih => exact .provided (more _ isGiven) ih
  | null nullable => exact .null nullable
  | nonNull proper _ ih => exact .nonNull proper ih
  | list _ ih => exact .list ih
  | single plain _ ih => exact .single plain ih
  | scalar found isScalar kind => exact .scalar found isScalar kind
  | enum found isEnum member => exact .enum found isEnum member
  | input found isInput only _ complete ih => exact .input found isInput only ih complete

/-- A value that is not `null` conforms to a type that forbids `null` as to one that does not. -/
theorem Conforms.of_nullable (conforms : schema.Conforms given source type.nullable value)
    (proper : value ≠ .null) : schema.Conforms given source type value := by
  induction type with
  | nonNull inner ih => exact .nonNull proper (ih conforms)
  | _ => exact conforms

/-- A single value that was provided conforms to lists of what it conforms to. -/
theorem Conforms.of_namedType (conforms : schema.Conforms given .provided (.named type.namedType)
      value) (proper : value ≠ .null) (plain : value.isArray = false) :
    schema.Conforms given .provided type value := by
  induction type with
  | named name => exact conforms
  | list item ih => exact .single plain (ih conforms)
  | nonNull inner ih => exact .nonNull proper (ih conforms)

/-- A value that conforms to a named type conforms to lists of it, once it is put into lists. -/
theorem Conforms.inLists (conforms : schema.Conforms given source (.named type.namedType) value)
    (proper : value ≠ .null) : schema.Conforms given source type (Json.inLists type value) := by
  induction type with
  | named name => exact conforms
  | list item ih => exact .list (List.forall_mem_singleton.mpr (ih conforms))
  | nonNull inner ih => exact .nonNull (Json.inLists_ne_null proper) (ih conforms)

/-- A value conforms wherever values of its type can stand. -/
theorem Conforms.of_refines {type expected : TypeRef} (refines : type.Refines expected)
    (conforms : schema.Conforms (fun _ => False) source type value) :
    schema.Conforms (fun _ => False) source expected value := by
  induction refines generalizing value with
  | named name => exact conforms
  | list items ih =>
    cases conforms with
    | provided isGiven => exact isGiven.elim
    | null => exact .null rfl
    | list each => exact .list fun value member => ih (each value member)
    | single plain conforms => exact .single plain (ih conforms)
  | marked inner ih =>
    cases conforms with
    | provided isGiven => exact isGiven.elim
    | null nullable => cases nullable
    | nonNull proper conforms => exact .nonNull proper (ih conforms)
  | stricter inner ih =>
    cases conforms with
    | provided isGiven => exact isGiven.elim
    | null nullable => cases nullable
    | nonNull _ conforms => exact ih conforms

/-- A value of a variable conforms wherever the type of the variable fits, unless it is `null` and a
default made up for the type. -/
theorem Conforms.of_variableFits {type expected : TypeRef} {hasDefault : Bool}
    (fits : Typing.variableFits type expected hasDefault = true)
    (conforms : schema.Conforms (fun _ => False) source type value)
    (definite : hasDefault = true → value ≠ .null) :
    schema.Conforms (fun _ => False) source expected value := by
  rcases Typing.variableFits_iff.mp fits with refines | ⟨defaulted, _, inner, rfl, refines⟩
  · exact conforms.of_refines refines
  · exact .nonNull (definite defaulted) (conforms.of_refines refines)

/-- What fits a type as a whole conforms to it. -/
theorem conforms_of_fitsWhole {name : String} (fits : Json.fitsWhole schema name value = true) :
    schema.Conforms given .provided (.named name) value := by
  unfold Json.fitsWhole at fits
  split at fits
  · contradiction
  · rename_i type found
    split at fits
    · rename_i isScalar
      exact .scalar found isScalar (Json.isOfKind_of_fitsScalar fits)
    · rename_i values text isEnum
      exact .enum found isEnum (List.contains_iff_mem.mp fits)
    · contradiction

mutual

/-- **What fits a type conforms to it**, as far as values conform that are provided. -/
theorem conforms_of_fits : ∀ (value : Json) (type : TypeRef), value.fits schema type = true →
    schema.Conforms given .provided type value
  | .null, type, fits => .null (by simpa [Json.fits] using fits)
  | .array items, type, fits => by
    unfold Json.fits at fits
    split at fits
    · rename_i item isList
      refine .of_nullable ?_ nofun
      rw [isList]
      exact .list (conforms_of_itemsFit items item fits)
    · rename_i noList
      refine .of_nullable ?_ nofun
      rw [TypeRef.nullable_eq_named noList]
      exact conforms_of_fitsWhole fits
  | .object members, type, fits => by
    unfold Json.fits at fits
    split at fits
    · rename_i name declared directives found
      obtain ⟨each, required⟩ := Bool.and_eq_true_iff.mp fits
      obtain ⟨only, each⟩ := conforms_of_membersFit members declared each
      refine .of_namedType (.input found rfl only each ?_) nofun rfl
      intro input member due
      have required := List.all_eq_true.mp required input member
      rw [due.resolve_right fun written => nomatch written.1] at required
      exact Members.isSome_get? (List.contains_iff_mem.mp required)
    · exact (conforms_of_fitsWhole fits).of_namedType nofun rfl
  | .bool value, type, fits => (conforms_of_fitsWhole fits).of_namedType nofun rfl
  | .int value, type, fits => (conforms_of_fitsWhole fits).of_namedType nofun rfl
  | .float value, type, fits => (conforms_of_fitsWhole fits).of_namedType nofun rfl
  | .string text, type, fits => (conforms_of_fitsWhole fits).of_namedType nofun rfl

/-- Items that fit a type conform to it. -/
theorem conforms_of_itemsFit : ∀ (items : List Json) (type : TypeRef),
    Json.itemsFit schema type items = true →
      ∀ value ∈ items, schema.Conforms given .provided type value
  | [], _, _ => List.forall_mem_nil _
  | item :: rest, type, fits => by
    obtain ⟨first, later⟩ := Bool.and_eq_true_iff.mp fits
    exact List.forall_mem_cons.mpr
      ⟨conforms_of_fits item type first, conforms_of_itemsFit rest type later⟩

/-- Members that fit the inputs of their names conform to them, and there are no others. -/
theorem conforms_of_membersFit : ∀ (members : Members) (declared : List InputValue),
    Json.membersFit schema declared members = true →
      (∀ name ∈ Members.names members, ∃ input ∈ declared, input.name = name) ∧
        ∀ input ∈ declared, ∀ value, Members.get? input.name members = some value →
          schema.Conforms given .provided input.type value
  | [], _, _ => ⟨List.forall_mem_nil _, fun _ _ _ => nofun⟩
  | (name, held) :: rest, declared, fits => by
    obtain ⟨first, later⟩ := Bool.and_eq_true_iff.mp fits
    obtain ⟨known, admitted⟩ := Bool.and_eq_true_iff.mp first
    obtain ⟨only, each⟩ := conforms_of_membersFit rest declared later
    refine ⟨List.forall_mem_cons.mpr ⟨by simpa using known, only⟩,
      fun input member value here => ?_⟩
    rw [Members.get?_cons] at here
    split at here
    · rename_i same
      obtain rfl := Option.some.inj here
      refine conforms_of_fits held input.type (List.all_eq_true.mp admitted input ?_)
      simpa [same] using member
    · exact each input member value here

end

end Schema

end TraversalQuery
