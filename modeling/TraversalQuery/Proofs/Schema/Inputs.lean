import Mathlib.Logic.Relation
import TraversalQuery.Proofs.Schema.Implementation
import TraversalQuery.Proofs.Typing.Literals

/-!
# Inputs of schemas

A schema is compiled whatever the defaults of its inputs look like: neither are they checked against
the types of the inputs, nor is it checked that inputs which are declared together have names of
their own. Here it is said when all this is in order. Only that inputs have types is checked.
-/

namespace TraversalQuery

/-- A field that takes the arguments of another one: they have the types of its own, and it requires
no others. -/
structure OutputField.Takes (own declared : OutputField) : Prop where
  types : ∀ input ∈ own.arguments, ∀ other ∈ declared.arguments, other.name = input.name →
    other.type = input.type
  required : ∀ input ∈ own.arguments, input.isRequired = true →
    ∃ other ∈ declared.arguments, other.name = input.name ∧ other.isRequired = true

instance (own declared : OutputField) : Decidable (own.Takes declared) :=
  decidable_of_iff ((∀ input ∈ own.arguments, ∀ other ∈ declared.arguments,
      other.name = input.name → other.type = input.type) ∧
      ∀ input ∈ own.arguments, input.isRequired = true →
        ∃ other ∈ declared.arguments, other.name = input.name ∧ other.isRequired = true)
    ⟨fun both => ⟨both.1, both.2⟩, fun takes => ⟨takes.types, takes.required⟩⟩

namespace Literal

/-- The value of the first field of a name. -/
def fieldValue? (name : String) (fields : List (String × Literal)) : Option Literal :=
  (fields.find? (·.1 == name)).map Prod.snd

/-- A value that is found under a name is given under it. -/
theorem mem_of_fieldValue? {name : String} {fields : List (String × Literal)} {value : Literal}
    (found : fieldValue? name fields = some value) : (name, value) ∈ fields := by
  obtain ⟨⟨other, held⟩, here, rfl⟩ := Option.map_eq_some_iff.mp found
  obtain rfl : other = name := by simpa using List.find?_some here
  exact List.mem_of_find?_eq_some here

/-- Whether a literal is a variable. -/
def isReference : Literal → Bool
  | .reference _ => true
  | _ => false

/-- A value is found exactly for the names that are given. -/
theorem isSome_fieldValue? {name : String} {fields : List (String × Literal)} :
    (fieldValue? name fields).isSome = true ↔ name ∈ fields.map Prod.fst := by
  simp [fieldValue?]

end Literal

namespace Schema

mutual

/-- The inputs whose defaults step in when a literal is read where a type is expected: the fields of
input types that the literal does not give, or gives only by a variable. -/
def omitted (schema : Schema) (type : TypeRef) : Literal → List InputValue
  | .list items => omittedInItems schema type.itemType items
  | .object fields =>
    let declared := ((schema.get? type.namedType).map (·.inputFields)).getD []
    declared.filter (fun input => (Literal.fieldValue? input.name fields).all (·.isReference)) ++
      omittedInFields schema declared fields
  | _ => []

/-- The inputs whose defaults step in for the items of a list. -/
def omittedInItems (schema : Schema) (type : TypeRef) : List Literal → List InputValue
  | [] => []
  | item :: rest => omitted schema type item ++ omittedInItems schema type rest

/-- The inputs whose defaults step in for the values of the fields that are given. -/
def omittedInFields (schema : Schema) (declared : List InputValue) :
    List (String × Literal) → List InputValue
  | [] => []
  | (name, value) :: rest =>
    ((declared.filter (·.name == name)).flatMap fun input => omitted schema input.type value) ++
      omittedInFields schema declared rest

end

/-- The fields of all input types. -/
def inputFields (schema : Schema) : List InputValue :=
  schema.types.flatMap (·.inputFields)

/-- The inputs that are declared together: the fields of an input type, or the arguments of a
field. -/
def inputLists (schema : Schema) : List (List InputValue) :=
  schema.types.flatMap fun type => type.inputFields :: type.fields.map (·.arguments)

/-- An input whose default leads to that of another one, which it leaves out. -/
def Leads (schema : Schema) (input other : InputValue) : Prop :=
  ∃ literal ∈ input.default?, other ∈ schema.omitted input.type literal

/-- Inputs that are declared in order: with names of their own, and with defaults that are accepted
where they stand, have a JSON form and do not lead back to themselves. -/
structure SoundInputs (schema : Schema) : Prop where
  distinct : ∀ declared ∈ schema.inputLists, (declared.map (·.name)).Nodup
  accepted : ∀ declared ∈ schema.inputLists, ∀ input ∈ declared, ∀ literal ∈ input.default?,
    Typing.literalProblems ⟨schema, [], []⟩ input.type "" literal = []
  finite : ∀ declared ∈ schema.inputLists, ∀ input ∈ declared, ∀ literal ∈ input.default?,
    literal.isFinite = true
  ends : ∀ input, ¬ Relation.TransGen schema.Leads input input

variable {schema : Schema}

theorem inputFields_mem_inputLists {type : SchemaType} (member : type ∈ schema.types) :
    type.inputFields ∈ schema.inputLists :=
  List.mem_flatMap.mpr ⟨type, member, List.mem_cons_self⟩

theorem arguments_mem_inputLists {type : SchemaType} (member : type ∈ schema.types)
    {field : OutputField} (isField : field ∈ type.fields) :
    field.arguments ∈ schema.inputLists :=
  List.mem_flatMap.mpr ⟨type, member, List.mem_cons_of_mem _ (List.mem_map_of_mem isField)⟩

/-- What a list omits is what one of its items omits. -/
theorem mem_omittedInItems {type : TypeRef} {items : List Literal} {input : InputValue} :
    input ∈ schema.omittedInItems type items ↔
      ∃ item ∈ items, input ∈ schema.omitted type item := by
  induction items with
  | nil => simp [omittedInItems]
  | cons item rest ih => simp [omittedInItems, ih]

/-- What the fields of an object omit is what the value of a declared one omits. -/
theorem mem_omittedInFields {declared : List InputValue} {fields : List (String × Literal)}
    {input : InputValue} :
    input ∈ schema.omittedInFields declared fields ↔ ∃ field ∈ fields, ∃ around ∈ declared,
      around.name = field.1 ∧ input ∈ schema.omitted around.type field.2 := by
  induction fields with
  | nil => simp [omittedInFields]
  | cons field rest ih => simp [omittedInFields, ih, and_assoc]

/-- Only fields of input types are left out. -/
theorem mem_inputFields_of_mem_omitted {input : InputValue} (literal : Literal) :
    ∀ {type : TypeRef}, input ∈ schema.omitted type literal → input ∈ schema.inputFields := by
  induction literal using Literal.deepInduction with
  | list items ih =>
    intro type left
    obtain ⟨item, member, left⟩ := mem_omittedInItems.mp left
    exact ih item member left
  | object fields ih =>
    intro type left
    rcases List.mem_append.mp left with here | inside
    · have member := List.mem_of_mem_filter here
      cases found : schema.get? type.namedType with
      | none =>
        rw [found] at member
        cases member
      | some type =>
        rw [found] at member
        exact List.mem_flatMap.mpr ⟨type, mem_of_get? found, member⟩
    · obtain ⟨field, member, _, _, _, left⟩ := mem_omittedInFields.mp inside
      exact ih field member left
  | _ =>
    intro type left
    cases left

/-- A rank that falls along defaults: each leads only to inputs of lower rank. -/
def RanksDefaults (schema : Schema) (rank : InputValue → Nat) : Prop :=
  ∀ input ∈ schema.inputFields, ∀ literal ∈ input.default?,
    ∀ other ∈ schema.omitted input.type literal, rank other < rank input

instance (rank : InputValue → Nat) : Decidable (schema.RanksDefaults rank) :=
  inferInstanceAs (Decidable (∀ input ∈ schema.inputFields, ∀ literal ∈ input.default?,
    ∀ other ∈ schema.omitted input.type literal, rank other < rank input))

/-- No chain of defaults along which a rank falls returns. -/
theorem RanksDefaults.not_transGen {rank : InputValue → Nat} (ranks : schema.RanksDefaults rank) :
    ∀ input, ¬ Relation.TransGen schema.Leads input input := by
  have descends {input other : InputValue} (member : input ∈ schema.inputFields)
      (chain : Relation.TransGen schema.Leads input other) :
      other ∈ schema.inputFields ∧ rank other < rank input := by
    induction chain with
    | single leads =>
      obtain ⟨literal, isDefault, left⟩ := leads
      exact ⟨mem_inputFields_of_mem_omitted literal left, ranks _ member literal isDefault _ left⟩
    | tail _ leads ih =>
      obtain ⟨literal, isDefault, left⟩ := leads
      exact ⟨mem_inputFields_of_mem_omitted literal left,
        Nat.lt_trans (ranks _ ih.1 literal isDefault _ left) ih.2⟩
  intro input chain
  obtain ⟨_, _, literal, _, left⟩ := Relation.TransGen.tail'_iff.mp chain
  exact Nat.lt_irrefl _ (descends (mem_inputFields_of_mem_omitted literal left) chain).2

/-- Inputs are declared in order if each can be seen to be, with a rank that falls along
defaults. -/
theorem soundInputs_of_rank (rank : InputValue → Nat)
    (checked : (schema.inputLists.all fun declared => decide (declared.map (·.name)).Nodup &&
      declared.all fun input => input.default?.all fun literal =>
        (Typing.literalProblems ⟨schema, [], []⟩ input.type "" literal).isEmpty &&
          literal.isFinite &&
          (schema.omitted input.type literal).all fun other => rank other < rank input) = true) :
    schema.SoundInputs := by
  simp only [List.all_eq_true, Bool.and_eq_true, Option.all_eq_true, decide_eq_true_eq,
    List.isEmpty_iff] at checked
  have ranks : schema.RanksDefaults rank := by
    intro input member literal isDefault
    obtain ⟨type, isType, member⟩ := List.mem_flatMap.mp member
    exact ((checked _ (inputFields_mem_inputLists isType)).2 input member literal isDefault).2
  exact ⟨fun declared isList => (checked declared isList).1,
    fun declared isList input member literal isDefault =>
      ((checked declared isList).2 input member literal isDefault).1.1,
    fun declared isList input member literal isDefault =>
      ((checked declared isList).2 input member literal isDefault).1.2,
    ranks.not_transGen⟩

/-- A type that can be given is a type of the schema. -/
theorem IsInput.isSome {type : TypeRef} (input : schema.IsInput type) :
    (schema.get? type.namedType).isSome = true := by
  obtain ⟨found, isType, _⟩ := input
  rw [isType]
  rfl

/-- **Inputs of compiled schemas have types.** -/
theorem Compiled.isSome_input (compiled : schema.Compiled) : ∀ declared ∈ schema.inputLists,
    ∀ input ∈ declared, (schema.get? input.type.namedType).isSome = true := by
  intro declared member input isInput
  obtain ⟨type, isType, member⟩ := List.mem_flatMap.mp member
  have closed := compiled.closed.types type isType
  rcases List.mem_cons.mp member with rfl | member
  · exact (closed.inputs input isInput).isSome
  · obtain ⟨field, isField, rfl⟩ := List.mem_map.mp member
    exact (closed.arguments field isField input isInput).isSome

/-- The fields of types take the arguments of the fields of the interfaces that the types list. -/
def ArgumentsImplemented (schema : Schema) : Prop :=
  ∀ type ∈ schema.types, ∀ interface ∈ schema.types, interface.name ∈ type.interfaces →
    ∀ declared ∈ interface.fields, ∀ own ∈ type.field? declared.name, own.Takes declared

instance (schema : Schema) : Decidable schema.ArgumentsImplemented :=
  inferInstanceAs (Decidable (∀ type ∈ schema.types, ∀ interface ∈ schema.types,
    interface.name ∈ type.interfaces →
      ∀ declared ∈ interface.fields, ∀ own ∈ type.field? declared.name, own.Takes declared))

/-- A field of an object takes the arguments of the field of a type in whose place the object
occurs. -/
theorem ArgumentsImplemented.takes (implemented : schema.ArgumentsImplemented)
    (compiled : schema.Compiled) (sound : schema.SoundInputs) {object parent : SchemaType}
    (isType : object ∈ schema.types) (isParent : parent ∈ schema.types)
    (satisfies : object.satisfies parent.name = true) {name : String} {declared own : OutputField}
    (found : parent.field? name = some declared) (isOwn : object.field? name = some own) :
    own.Takes declared := by
  have member := List.mem_of_find?_eq_some found
  rcases satisfies_iff.mp satisfies with same | listed
  · have isObject := compiled.get?_name isParent
    rw [same, compiled.get?_name isType] at isObject
    obtain rfl := Option.some.inj isObject
    obtain rfl := Option.some.inj (isOwn.symm.trans found)
    refine ⟨fun input isInput other isOther named => ?_, fun input isInput required =>
      ⟨input, isInput, rfl, required⟩⟩
    have distinct := sound.distinct _ (arguments_mem_inputLists isType member)
    rw [List.inj_on_of_nodup_map distinct isOther isInput named]
  · have named : declared.name = name := by simpa using List.find?_some found
    exact implemented object isType parent isParent listed declared member own (named ▸ isOwn)

end Schema

end TraversalQuery
