import Mathlib.Tactic.ByContra
import TraversalQuery.Proofs.Response.Conforming
import TraversalQuery.Proofs.Schema.Inputs

/-!
# The values of literals

A literal without problems becomes a value that conforms to the type it is checked against, if the
variables in it have such values and the inputs that it leaves out have such defaults.
-/

namespace TraversalQuery

namespace Literal

/-- A value of the shape of a literal. -/
inductive Shapes : Literal → Json → Prop
  | int (value : Int) : Shapes (.int value) (.int value)
  | float (value : Binary64) : Shapes (.float value) (.float value)
  | string (text : String) : Shapes (.string text) (.string text)
  | bool (value : Bool) : Shapes (.bool value) (.bool value)
  | enumValue (name : String) : Shapes (.enumValue name) (.string name)
  | list (items : List Literal) (values : List Json) : Shapes (.list items) (.array values)
  | object (fields : List (String × Literal)) (members : Members) :
      Shapes (.object fields) (.object members)

/-- A literal that a scalar accepts becomes a value of its kind. -/
theorem Shapes.isOfKind {scalar : String} {literal : Literal} {value : Json}
    (shapes : literal.Shapes value) (accepted : Typing.scalarAccepts scalar literal = true) :
    value.isOfKind scalar = true := by
  unfold Typing.scalarAccepts at accepted
  unfold Json.isOfKind
  cases shapes <;> split <;> simp_all [Json.int?, Json.isNumber, Json.text?, Json.isBool]

end Literal

namespace Schema

/-- A value that conforms to a type, or none if there may be none. -/
def ConformsOr (schema : Schema) (given : Json → Prop) (type : TypeRef) (absent : Prop) :
    Option Json → Prop
  | some value => schema.Conforms given .written type value
  | none => absent

/-- Members for declared inputs: each conforms to the type of its input, and those that are required
or have a default are among them. -/
structure Supplies (schema : Schema) (given : Json → Prop) (declared : List InputValue)
    (members : Members) : Prop where
  only : ∀ name ∈ Members.names members, ∃ input ∈ declared, input.name = name
  each : ∀ input ∈ declared, ∀ value, Members.get? input.name members = some value →
    schema.Conforms given .written input.type value
  complete : ∀ input ∈ declared, input.isRequired = true ∨ input.default?.isSome = true →
    (Members.get? input.name members).isSome = true

variable {schema : Schema} {given : Json → Prop}

/-- A literal that a type accepts becomes a value that conforms to it. -/
theorem conforms_of_accepts {name : String} {found : SchemaType} {literal : Literal} {value : Json}
    (isType : schema.get? name = some found) (accepted : Typing.accepts found literal = true)
    (shapes : literal.Shapes value) : schema.Conforms given .written (.named name) value := by
  unfold Typing.accepts at accepted
  split at accepted
  · rename_i isScalar
    rw [name_of_get? isType] at accepted
    exact .scalar isType isScalar (shapes.isOfKind accepted)
  · rename_i values text isEnum
    cases shapes
    exact .enum isType isEnum (List.contains_iff_mem.mp accepted)
  · contradiction

/-- A literal that is not looked into conforms as a whole. -/
theorem conforms_of_wholeProblems {scope : Typing.Scope} {name path : String} {literal : Literal}
    {value : Json} (clean : Typing.wholeProblems scope name path literal = [])
    (isType : (scope.schema.get? name).isSome = true) (shapes : literal.Shapes value) :
    scope.schema.Conforms given .written (.named name) value := by
  obtain ⟨found, isType, accepted⟩ := Typing.accepts_of_wholeProblems_eq_nil clean isType
  exact conforms_of_accepts isType accepted shapes

end Schema

namespace Input

variable {schema : Schema} {default : Default} {value : String → TypeRef → Option Json}

/-- Inputs of other names do not change what is under a name. -/
theorem get?_declaredMembers_of_notMem {declared : List InputValue} {name : String} :
    ∀ {members}, name ∉ declared.map (·.name) →
      Members.get? name (declaredMembers default value declared members) =
        Members.get? name members := by
  induction declared with
  | nil => exact fun _ => rfl
  | cons input rest ih =>
    intro members absent
    obtain ⟨different, absent⟩ := not_or.mp (mt List.mem_cons.mpr absent)
    unfold declaredMembers
    split
    · exact ih absent
    · rw [ih absent, Members.get?_insert_of_ne _ _ different]

/-- Inputs with names of their own do not get in the way of one another. -/
theorem get?_declaredMembers {declared : List InputValue}
    (distinct : (declared.map (·.name)).Nodup) {input : InputValue} (member : input ∈ declared) :
    ∀ {members}, Members.get? input.name (declaredMembers default value declared members) =
      ((value input.name input.type).or (default input)).or (Members.get? input.name members) := by
  induction declared with
  | nil => cases member
  | cons first rest ih =>
    intro members
    obtain ⟨fresh, distinct⟩ := List.nodup_cons.mp distinct
    unfold declaredMembers
    rcases List.mem_cons.mp member with rfl | later
    · split
      · rename_i none
        rw [get?_declaredMembers_of_notMem fresh, none, Option.none_or]
      · rename_i found some
        rw [get?_declaredMembers_of_notMem fresh, Members.get?_insert_self, some, Option.some_or]
    · have different : input.name ≠ first.name := fun same =>
        fresh (List.mem_map.mpr ⟨input, later, same⟩)
      split
      · exact ih distinct later
      · rw [ih distinct later, Members.get?_insert_of_ne _ _ different]

/-- Every member is the value of a declared input, or was there before. -/
theorem of_get?_declaredMembers {declared : List InputValue} {name : String} {found : Json} :
    ∀ {members}, Members.get? name (declaredMembers default value declared members) = some found →
      (∃ input ∈ declared, input.name = name ∧
        (value input.name input.type).or (default input) = some found) ∨
          Members.get? name members = some found := by
  induction declared with
  | nil => exact fun held => .inr held
  | cons input rest ih =>
    intro members held
    unfold declaredMembers at held
    split at held
    · rcases ih held with ⟨other, member, rest⟩ | before
      · exact .inl ⟨other, List.mem_cons_of_mem _ member, rest⟩
      · exact .inr before
    · rename_i given isGiven
      rcases ih held with ⟨other, member, rest⟩ | before
      · exact .inl ⟨other, List.mem_cons_of_mem _ member, rest⟩
      · by_cases same : name = input.name
        · subst same
          rw [Members.get?_insert_self] at before
          exact .inl ⟨input, List.mem_cons_self, rfl, isGiven.trans before⟩
        · rw [Members.get?_insert_of_ne _ _ same] at before
          exact .inr before

/-- Members that are there stay there. -/
theorem isSome_get?_declaredMembers {declared : List InputValue} {name : String} :
    ∀ {members}, (Members.get? name members).isSome = true →
      (Members.get? name (declaredMembers default value declared members)).isSome = true := by
  induction declared with
  | nil => exact fun held => held
  | cons input rest ih =>
    intro members held
    unfold declaredMembers
    split
    · exact ih held
    · apply ih
      by_cases same : name = input.name
      · rw [same, Members.get?_insert_self, Option.isSome_some]
      · rwa [Members.get?_insert_of_ne _ _ same]

/-- An input that gets a value is among the members. -/
theorem isSome_declaredMembers {declared : List InputValue} {input : InputValue}
    (member : input ∈ declared)
    (given : ((value input.name input.type).or (default input)).isSome = true) :
    ∀ {members}, (Members.get? input.name
      (declaredMembers default value declared members)).isSome = true := by
  induction declared with
  | nil => cases member
  | cons first rest ih =>
    intro members
    unfold declaredMembers
    rcases List.mem_cons.mp member with rfl | later
    · split
      · rename_i none
        rw [none] at given
        cases given
      · exact isSome_get?_declaredMembers (by rw [Members.get?_insert_self, Option.isSome_some])
    · split
      · exact ih later
      · exact ih later

/-- If each declared input gets a value that conforms, or needs none, then all are supplied. -/
theorem supplies_declaredMembers {given : Json → Prop} {declared : List InputValue}
    (distinct : (declared.map (·.name)).Nodup)
    (each : ∀ input ∈ declared, schema.ConformsOr given input.type
      (input.isRequired = false ∧ input.default? = none)
      ((value input.name input.type).or (default input))) :
    schema.Supplies given declared (declaredMembers default value declared []) where
  only name member := by
    by_contra unknown
    have found := Members.isSome_get? member
    rw [get?_declaredMembers_of_notMem fun declared => unknown (List.mem_map.mp declared)] at found
    cases found
  each input member held found := by
    rw [get?_declaredMembers distinct member, Members.get?_nil, Option.or_none] at found
    have conforms := each input member
    rwa [found] at conforms
  complete input member due := by
    rw [get?_declaredMembers distinct member, Members.get?_nil, Option.or_none]
    have settled := each input member
    cases found : (value input.name input.type).or (default input) with
    | some held => rfl
    | none =>
      rw [found] at settled
      obtain ⟨optional, plain⟩ := settled
      rw [optional, plain] at due
      exact due.elim nofun nofun

/-- An input gets a value that conforms, or needs none, if what is given for it is right and its
default is right wherever it steps in. -/
theorem conformsOr_or {given : Json → Prop} {input : InputValue} {literal? : Option Literal}
    {valueOf : Literal → Option Json} {value? : Option Json}
    (written : ∀ literal, literal? = some literal →
      schema.ConformsOr given input.type (input.type.isNonNull = false) (valueOf literal))
    (required : input.isRequired = true → literal?.isSome = true)
    (defaulted : (∀ literal, literal? = some literal → valueOf literal = none) →
      schema.ConformsOr given input.type (input.default? = none) value?) :
    schema.ConformsOr given input.type (input.isRequired = false ∧ input.default? = none)
      ((literal?.bind valueOf).or value?) := by
  cases found : literal?.bind valueOf with
  | some value =>
    obtain ⟨literal, isLiteral, isValue⟩ := Option.bind_eq_some_iff.mp found
    have conforms := written literal isLiteral
    rwa [isValue] at conforms
  | none =>
    have absent := Option.bind_eq_none_iff.mp found
    have optional : input.isRequired = false := by
      cases literal? with
      | none => simpa using required
      | some literal =>
        have nullable := written literal rfl
        rw [absent literal rfl] at nullable
        rw [InputValue.isRequired, show input.type.isNonNull = false from nullable,
          Bool.false_and]
    have settled := defaulted absent
    rw [Option.none_or]
    cases value? with
    | some value => exact settled
    | none => exact ⟨optional, settled⟩

/-- The value under a name is that of the field of the name. -/
theorem lookup_ofFields {values : Members} {name : String} {type : TypeRef}
    {fields : List (String × Literal)} :
    lookup name type (ofFields schema values default fields) =
      (Literal.fieldValue? name fields).bind (ofLiteral schema values default · type) := by
  induction fields with
  | nil => rfl
  | cons field rest ih =>
    obtain ⟨other, value⟩ := field
    unfold ofFields lookup Literal.fieldValue?
    rw [List.find?_cons]
    split
    · rename_i same
      simp [same]
    · rename_i different
      rw [beq_eq_false_iff_ne.mpr (Ne.symm different)]
      exact ih

/-- Items become values one by one, and those without one become `null`. -/
theorem ofItems_eq_map {values : Members} {items : List Literal} {type : TypeRef} :
    ofItems schema values default items type =
      items.map fun item => (ofLiteral schema values default item type).getD .null := by
  induction items with
  | nil => rfl
  | cons item rest ih => rw [ofItems, ih, List.map_cons]

/-- Whether `null` may stand somewhere makes no difference to the value of a literal. -/
theorem ofLiteral_nonNull {values : Members} {literal : Literal} {inner : TypeRef} :
    ofLiteral schema values default literal (.nonNull inner) =
      ofLiteral schema values default literal inner := by
  cases literal <;> rfl

/-- Whether `null` is forbidden does not matter for what a literal becomes. -/
theorem ofLiteral_nullable {values : Members} {literal : Literal} {type : TypeRef} :
    ofLiteral schema values default literal type.nullable =
      ofLiteral schema values default literal type := by
  induction type with
  | nonNull inner ih => rw [ofLiteral_nonNull, TypeRef.nullable, ih]
  | _ => rfl

/-- Only variables can have no value. -/
theorem isReference_of_ofLiteral_eq_none {values : Members} {literal : Literal} {type : TypeRef}
    (none : ofLiteral schema values default literal type = none) : literal.isReference = true := by
  cases literal with
  | reference name => rfl
  | _ => cases none

/-- Literals other than variables have a value. -/
theorem exists_value_of_isValue {values : Members} {literal : Literal} {type : TypeRef}
    (isValue : literal.IsValue) :
    ∃ value, ofLiteral schema values default literal type = some value := by
  cases literal with
  | reference name => exact isValue.elim
  | _ => exact ⟨_, rfl⟩

/-- A single item is put into a list where one is expected. -/
theorem ofLiteral_single {values : Members} {literal : Literal} {item : TypeRef}
    (isValue : literal.IsValue) (isSingle : ¬ literal.IsList) :
    ofLiteral schema values default literal (.list item) =
      (ofLiteral schema values default literal item).map fun value => .array [value] := by
  cases literal with
  | reference name => exact isValue.elim
  | null => exact isValue.elim
  | list items => exact absurd trivial isSingle
  | _ => rfl

/-- Only `null`, and what has no JSON form, becomes `null`. -/
theorem ne_null_of_ofLiteral {values : Members} {literal : Literal} {type : TypeRef} {value : Json}
    (found : ofLiteral schema values default literal type = some value)
    (constant : literal.isProper true = true) (finite : literal.isFinite = true)
    (proper : literal.isNull = false) : value ≠ .null := by
  cases literal with
  | reference name => cases constant
  | null => cases proper
  | float value =>
    unfold ofLiteral at found
    rw [Json.ofFloat, if_neg (by simpa [Literal.isFinite] using finite)] at found
    exact Option.some.inj found ▸ Json.inLists_ne_null (Json.ne_null_of_isNull rfl)
  | list items => exact Option.some.inj found ▸ Json.ne_null_of_isNull rfl
  | _ => exact Option.some.inj found ▸ Json.inLists_ne_null (Json.ne_null_of_isNull rfl)

section

variable {given : Json → Prop} {values : Members}

/-- The items of a list conform if each has a value that does, or can have none. -/
theorem each_ofItems {items : List Literal} {type : TypeRef}
    (each : ∀ item ∈ items, schema.ConformsOr given type (type.isNonNull = false)
      (ofLiteral schema values default item type)) :
    ∀ value ∈ ofItems schema values default items type,
      schema.Conforms given .written type value := by
  intro value member
  rw [ofItems_eq_map] at member
  obtain ⟨item, isItem, rfl⟩ := List.mem_map.mp member
  have settled := each item isItem
  cases found : ofLiteral schema values default item type with
  | some value => rwa [found] at settled
  | none =>
    rw [found] at settled
    exact .null settled

/-- The fields of an object supply those of its type, if each of them is right where it stands and
so are the defaults of those that are left out. -/
theorem supplies_of_fields {declared : List InputValue}
    (distinct : (declared.map (·.name)).Nodup) {name path : String}
    {fields : List (String × Literal)}
    (missing : Typing.missingFields name declared (fields.map Prod.fst) path = [])
    (each : ∀ input ∈ declared, ∀ value, Literal.fieldValue? input.name fields = some value →
      schema.ConformsOr given input.type (input.type.isNonNull = false)
        (ofLiteral schema values default value input.type))
    (defaults : ∀ input ∈ declared,
      (Literal.fieldValue? input.name fields).all (·.isReference) = true →
        schema.ConformsOr given input.type (input.default? = none) (default input)) :
    schema.Supplies given declared (declaredMembers default
      (fun name type => lookup name type (ofFields schema values default fields)) declared []) := by
  refine supplies_declaredMembers distinct fun input member => ?_
  rw [lookup_ofFields]
  refine conformsOr_or (each input member) (fun required => ?_) fun left => ?_
  · exact Literal.isSome_fieldValue?.mpr
      (Typing.missing_eq_nil_iff.mp missing input member required)
  · refine defaults input member ((Option.all_eq_true _ _).mpr fun value isValue => ?_)
    exact isReference_of_ofLiteral_eq_none (left value isValue)

/-- **A literal without problems conforms.** -/
theorem conformsOr_ofLiteral (scope : Typing.Scope) (values : Members)
    (resolved : ∀ type ∈ scope.schema.types, ∀ input ∈ type.inputFields,
      (scope.schema.get? input.type.namedType).isSome = true)
    (distinct : ∀ type ∈ scope.schema.types, (type.inputFields.map (·.name)).Nodup)
    (referred : ∀ name type path, Typing.variableProblems scope name type path = [] →
      scope.schema.ConformsOr given type (type.isNonNull = false) (Members.get? name values))
    (literal : Literal) : literal.isFinite = true → ∀ type path,
      Typing.literalProblems scope type path literal = [] →
      (scope.schema.get? type.namedType).isSome = true →
      (∀ input ∈ scope.schema.omitted type literal,
        scope.schema.ConformsOr given input.type (input.default? = none) (default input)) →
      scope.schema.ConformsOr given type (type.isNonNull = false)
        (ofLiteral scope.schema values default literal type) := by
  induction literal using Literal.deepInduction with
  | reference name => exact fun _ type path clean _ _ => referred name type path clean
  | null =>
    intro _ type path clean _ _
    have nullable : type.isNonNull = false := by simpa [Typing.literalProblems] using clean
    exact .null nullable
  | list items ih =>
    intro finite type path clean isType defaults
    unfold Typing.literalProblems at clean
    split at clean
    · rename_i item isList
      obtain rfl := TypeRef.itemType_of_nullable isList
      rw [← TypeRef.namedType_nullable, isList] at isType
      refine Schema.Conforms.of_nullable ?_ (Json.ne_null_of_isNull rfl)
      rw [isList]
      refine .list (each_ofItems fun part member => ?_)
      obtain ⟨path, clean⟩ := Typing.of_itemProblems_eq_nil clean part member
      exact ih part member (Literal.areFinite_iff.mp finite part member) _ path clean isType
        fun input left => defaults input (Schema.mem_omittedInItems.mpr ⟨part, member, left⟩)
    · rename_i noList
      refine Schema.Conforms.of_nullable ?_ (Json.ne_null_of_isNull rfl)
      rw [TypeRef.nullable_eq_named noList]
      exact Schema.conforms_of_wholeProblems clean isType (.list items _)
  | object fields ih =>
    intro finite type path clean isType defaults
    unfold Typing.literalProblems at clean
    split at clean
    · rename_i name declared directives found
      obtain ⟨clean, missing⟩ := List.append_eq_nil_iff.mp clean
      have known := Schema.mem_of_get? found
      refine Schema.Conforms.inLists ?_ (Json.ne_null_of_isNull rfl)
      rw [found]
      rw [Schema.omitted, found] at defaults
      obtain ⟨here, inside⟩ := List.forall_mem_append.mp defaults
      have supplies := supplies_of_fields (distinct _ known) missing
        (fun input member value isValue => by
          have written := Literal.mem_of_fieldValue? isValue
          obtain ⟨_, placed, clean⟩ :=
            (Typing.fieldProblems_eq_nil_iff.mp clean).2 _ written
          obtain rfl := Option.some.inj (placed.symm.trans
            (List.find?_key_eq_some (distinct _ known) member))
          exact ih _ written (Literal.areFiniteFields_iff.mp finite _ written) _ _ clean
            (resolved _ known _ member) fun other left => inside other
              (Schema.mem_omittedInFields.mpr ⟨_, written, _, member, rfl, left⟩))
        fun input member left => here input (List.mem_filter.mpr ⟨member, left⟩)
      exact .input found rfl supplies.only supplies.each fun input member due =>
        supplies.complete input member (due.imp id And.right)
    · exact (Schema.conforms_of_wholeProblems clean isType (.object fields _)).inLists
        (Json.ne_null_of_isNull rfl)
  | float value =>
    intro finite type path clean isType _
    unfold ofLiteral
    rw [Json.ofFloat, if_neg (by simpa [Literal.isFinite] using finite)]
    exact (Schema.conforms_of_wholeProblems clean isType (.float value)).inLists
      (Json.ne_null_of_isNull rfl)
  | int value =>
    intro _ type path clean isType _
    exact (Schema.conforms_of_wholeProblems clean isType (.int value)).inLists
      (Json.ne_null_of_isNull rfl)
  | string text =>
    intro _ type path clean isType _
    exact (Schema.conforms_of_wholeProblems clean isType (.string text)).inLists
      (Json.ne_null_of_isNull rfl)
  | bool value =>
    intro _ type path clean isType _
    exact (Schema.conforms_of_wholeProblems clean isType (.bool value)).inLists
      (Json.ne_null_of_isNull rfl)
  | enumValue name =>
    intro _ type path clean isType _
    exact (Schema.conforms_of_wholeProblems clean isType (.enumValue name)).inLists
      (Json.ne_null_of_isNull rfl)

end

end Input

end TraversalQuery
