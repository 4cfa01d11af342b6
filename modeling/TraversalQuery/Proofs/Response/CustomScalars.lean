import TraversalQuery.Proofs.Response.Arguments

/-!
# Literals for custom scalars

A scalar that is not built in admits every literal. What reaches a resolver for such a literal is
the JSON that it writes, with lists inside lists to any depth; but an object is made of the fields
that its type declares, and a scalar declares none, so all objects in it are empty.
-/

namespace TraversalQuery

namespace Members

theorem insert_ne_nil (name : String) (value : Json) (members : Members) :
    insert name value members ≠ [] := by
  cases members with
  | nil => exact List.cons_ne_nil _ _
  | cons entry rest =>
    unfold insert
    split
    · exact List.cons_ne_nil _ _
    · split <;> exact List.cons_ne_nil _ _

theorem ofList_ne_nil (pair : String × Json) (rest : List (String × Json)) :
    ofList (pair :: rest) ≠ [] := by
  have kept : ∀ members : Members, members ≠ [] →
      rest.foldl (fun members pair => insert pair.1 pair.2 members) members ≠ [] := by
    induction rest with
    | nil => exact fun _ => id
    | cons next rest ih => exact fun members _ => ih _ (insert_ne_nil _ _ _)
  exact kept _ (insert_ne_nil _ _ _)

end Members

namespace Literal

mutual

/-- The JSON of a literal, given what the fields of an object become. -/
def jsonWith (ofFields : List (String × Json) → Members) : Literal → Json
  | .reference _ => .null
  | .int value => .int value
  | .float value => .ofFloat value
  | .string text => .string text
  | .bool value => .bool value
  | .null => .null
  | .enumValue name => .string name
  | .list items => .array (itemsWith ofFields items)
  | .object fields => .object (ofFields (fieldsWith ofFields fields))

/-- The JSON of the items of a list. -/
def itemsWith (ofFields : List (String × Json) → Members) : List Literal → List Json
  | [] => []
  | item :: rest => item.jsonWith ofFields :: itemsWith ofFields rest

/-- The JSON of the fields of an object, under their names. -/
def fieldsWith (ofFields : List (String × Json) → Members) :
    List (String × Literal) → List (String × Json)
  | [] => []
  | (name, value) :: rest => (name, value.jsonWith ofFields) :: fieldsWith ofFields rest

end

/-- The JSON that a literal without variables writes. -/
def json (literal : Literal) : Json :=
  literal.jsonWith Members.ofList

/-- The JSON that a literal without variables writes, but with nothing in its objects. -/
def hollowJson (literal : Literal) : Json :=
  literal.jsonWith fun _ => []

/-- A part of a literal, at any depth: the literal itself, or a part of an item or of a field. -/
inductive Contains : Literal → Literal → Prop
  | self (literal : Literal) : Contains literal literal
  | item {items : List Literal} {item part : Literal} (member : item ∈ items)
      (inside : Contains item part) : Contains (.list items) part
  | field {fields : List (String × Literal)} {field : String × Literal} {part : Literal}
      (member : field ∈ fields) (inside : Contains field.2 part) : Contains (.object fields) part

/-- The items of a list become those of an array. -/
theorem itemsWith_eq_map (ofFields : List (String × Json) → Members) (items : List Literal) :
    itemsWith ofFields items = items.map (jsonWith ofFields) := by
  induction items with
  | nil => rfl
  | cons item rest ih => rw [itemsWith, ih, List.map_cons]

/-- Nothing is lost exactly if no object in a literal has fields. -/
theorem hollowJson_eq_json_iff (literal : Literal) : literal.hollowJson = literal.json ↔
    ∀ fields, literal.Contains (.object fields) → fields = [] := by
  unfold hollowJson json
  induction literal using deepInduction with
  | list items ih =>
    rw [jsonWith, jsonWith, Json.array.injEq, itemsWith_eq_map, itemsWith_eq_map, List.map_inj_left]
    constructor
    · intro same fields contains
      cases contains with
      | item member inside => exact (ih _ member).mp (same _ member) fields inside
    · exact fun none item member => (ih item member).mpr fun fields inside =>
        none fields (.item member inside)
  | object fields ih =>
    cases fields with
    | nil =>
      refine iff_of_true rfl fun fields contains => ?_
      cases contains with
      | self => rfl
      | field member => cases member
    | cons field rest =>
      refine iff_of_false (fun same => ?_) fun none => ?_
      · exact Members.ofList_ne_nil _ _ (Json.object.inj same).symm
      · cases none _ (.self _)
  | _ =>
    refine iff_of_true rfl fun fields contains => ?_
    cases contains

end Literal

namespace Schema

/-- A type that is a scalar of a schema which is not built in, and no list of it. -/
def IsCustomScalar (schema : Schema) (type : TypeRef) : Prop :=
  ∃ name found, type.nullable = .named name ∧ name ∉ builtinScalars ∧
    schema.get? name = some found ∧ found.body = .scalar

end Schema

namespace SchemaType

/-- A type of the kind of scalars is a scalar. -/
theorem body_of_kind_scalar {type : SchemaType} (isScalar : type.kind = .scalar) :
    type.body = .scalar := by
  obtain ⟨_, body, _⟩ := type
  cases body with
  | scalar => rfl
  | _ => cases isScalar

end SchemaType

namespace TypeRef

/-- A value is put in no list where none is expected. -/
theorem inLists_of_nullable {type : TypeRef} {name : String} (plain : type.nullable = .named name)
    (value : Json) : Json.inLists type value = value := by
  induction type with
  | named other => rfl
  | list item => cases plain
  | nonNull inner ih => exact ih plain

/-- The items of a type that is no list have the type itself. -/
theorem itemType_of_nullable_named {type : TypeRef} {name : String}
    (plain : type.nullable = .named name) : type.itemType = .named name := by
  induction type with
  | named other => exact plain
  | list item => cases plain
  | nonNull inner ih => exact ih plain

end TypeRef

namespace Typing

/-- Custom scalars take any literal. -/
theorem scalarAccepts_custom {scalar : String} (custom : scalar ∉ Schema.builtinScalars)
    (literal : Literal) : scalarAccepts scalar literal = true := by
  simp only [Schema.builtinScalars, List.mem_cons, List.not_mem_nil, or_false, not_or] at custom
  unfold scalarAccepts
  split <;> simp_all

/-- **Custom scalars take any literal.** Only `null` is refused, where it is forbidden. -/
theorem literalProblems_custom {scope : Scope} {type : TypeRef}
    (custom : scope.schema.IsCustomScalar type) {literal : Literal}
    (constant : ∀ name, ¬ literal.Contains (.reference name)) (path : String) :
    literalProblems scope type path literal =
      if literal.isNull && type.isNonNull then [⟨.nullNotAllowed type, path⟩] else [] := by
  obtain ⟨name, found, plain, custom, isType, isScalar⟩ := custom
  have named : type.namedType = name := by rw [← TypeRef.namedType_nullable, plain]; rfl
  have whole (literal : Literal) : wholeProblems scope name path literal = [] := by
    have accepted : accepts found literal = true := by
      unfold accepts
      rw [isScalar, Schema.name_of_get? isType]
      exact scalarAccepts_custom custom literal
    unfold wholeProblems
    rw [isType]
    exact if_pos accepted
  cases literal with
  | reference other => exact absurd (.self _) (constant other)
  | null => cases nonNull : type.isNonNull <;> simp [literalProblems, nonNull, Literal.isNull]
  | list items => simp [literalProblems, plain, named, whole, Literal.isNull]
  | object fields =>
    obtain ⟨_, body, directives⟩ := found
    dsimp only at isScalar
    subst isScalar
    simp [literalProblems, named, isType, whole, Literal.isNull]
  | _ => simp [literalProblems, named, whole, Literal.isNull]

end Typing

namespace Input

variable {schema : Schema} {default : Default}

/-- **Objects for custom scalars lose their fields**, and nothing else is lost of a literal. -/
theorem ofLiteral_custom (values : Members) {literal : Literal} :
    ∀ {type : TypeRef}, schema.IsCustomScalar type →
      (∀ name, ¬ literal.Contains (.reference name)) →
        ofLiteral schema values default literal type = some literal.hollowJson := by
  unfold Literal.hollowJson
  induction literal using Literal.deepInduction with
  | reference name => exact fun _ constant => absurd (.self _) (constant name)
  | list items ih =>
    intro type custom constant
    obtain ⟨name, found, plain, isCustom⟩ := custom
    have inner : schema.IsCustomScalar (.named name) := ⟨name, found, rfl, isCustom⟩
    rw [ofLiteral, TypeRef.itemType_of_nullable_named plain, ofItems_eq_map, Literal.jsonWith,
      Literal.itemsWith_eq_map]
    refine congrArg (some ∘ Json.array) (List.map_congr_left fun item member => ?_)
    rw [ih item member inner fun other inside => constant other (.item member inside),
      Option.getD_some]
  | object fields ih =>
    intro type custom constant
    obtain ⟨name, found, plain, _, isType, isScalar⟩ := custom
    have named : type.namedType = name := by rw [← TypeRef.namedType_nullable, plain]; rfl
    have none : found.inputFields = [] := by rw [SchemaType.inputFields, isScalar]
    rw [ofLiteral, named, isType, TypeRef.inLists_of_nullable plain, Literal.jsonWith]
    dsimp only [Option.map_some, Option.getD_some]
    rw [none]
    rfl
  | null => exact fun _ _ => rfl
  | _ =>
    intro type custom constant
    obtain ⟨name, found, plain, _⟩ := custom
    rw [ofLiteral, TypeRef.inLists_of_nullable plain, Literal.jsonWith]

/-- Of several inputs of one name the last one with a value counts. -/
theorem get?_declaredMembers_of_last {given : String → TypeRef → Option Json} {input : InputValue}
    {value : Json} (isValue : given input.name input.type = some value)
    {declared : List InputValue} :
    ∀ {members}, declared.reverse.find? (·.name == input.name) = some input →
      Members.get? input.name (declaredMembers default given declared members) = some value := by
  induction declared with
  | nil => exact nofun
  | cons first rest ih =>
    intro members last
    rw [List.reverse_cons, List.find?_append] at last
    cases later : rest.reverse.find? (·.name == input.name) with
    | some other =>
      rw [later, Option.some_or] at last
      unfold declaredMembers
      split <;> exact ih (later.trans last)
    | none =>
      have absent : input.name ∉ rest.map (·.name) := by
        intro member
        obtain ⟨other, isOther, same⟩ := List.mem_map.mp member
        exact List.find?_eq_none.mp later other (List.mem_reverse.mpr isOther)
          (beq_iff_eq.mpr same)
      rw [later, Option.none_or] at last
      obtain rfl := List.mem_singleton.mp (List.mem_of_find?_eq_some last)
      unfold declaredMembers
      rw [isValue, Option.some_or]
      dsimp only
      rw [get?_declaredMembers_of_notMem absent, Members.get?_insert_self]

/-- What is handed over for a custom scalar. -/
theorem get?_arguments_custom (values : Members) {declared : List InputValue} {field : Field}
    {input : InputValue} {literal : Literal}
    (last : declared.reverse.find? (·.name == input.name) = some input)
    (custom : schema.IsCustomScalar input.type)
    (written : field.argument? input.name = some literal)
    (constant : ∀ name, ¬ literal.Contains (.reference name)) :
    Members.get? input.name (arguments schema values declared field) = some literal.hollowJson := by
  refine get?_declaredMembers_of_last ?_ last
  rw [written, Option.bind_some]
  exact ofLiteral_custom values custom constant

end Input

namespace QueryScope

variable {σ ε : Type}

/-- A call for a field: the first one in a group of fields of an object that the walk reaches. -/
def CallFor (scope : QueryScope) (root : SchemaType) (selections : List Selection)
    (calls : List (ResolverCall σ ε)) (call : ResolverCall σ ε) (field : Field) : Prop :=
  ∃ object path parent? around key first others definition,
    scope.Reached root selections calls object path parent? around ∧
      (key, first :: others) ∈ scope.collect object around ∧ first.field = field ∧
      object.field? field.name = some definition ∧
      call.visit = scope.visit object definition key field path parent?

/-- A call that was prompted is for a field that is selected. -/
theorem exists_callFor {scope : QueryScope} {root : SchemaType} {selections : List Selection}
    {calls : List (ResolverCall σ ε)} {call : ResolverCall σ ε}
    (prompted : scope.Prompted root selections calls call) :
    ∃ field, scope.CallFor root selections calls call field := by
  obtain ⟨object, path, parent?, around, key, first, others, definition, reached, group, _, defined,
    visited⟩ := prompted
  exact ⟨first.field, object, path, parent?, around, key, first, others, definition, reached, group,
    rfl, defined, visited⟩

end QueryScope

namespace Schema

variable {σ ε : Type}

/-- **Custom scalars take any literal, but lose the fields of objects.** Every call for a request is
for a field of its query. Where the field gives a literal without variables to an argument that is a
custom scalar, the literal is accepted whatever it is, but for `null` where it is forbidden. The
call has its JSON for the argument, with lists to any depth, but with all objects empty; so it has
the JSON of the literal itself exactly if no object in the literal has fields. -/
theorem custom_scalar_arguments (schema : Schema) (resolve : Resolver σ ε) (request : Request)
    (state : σ) {prepared : PreparedRequest} (ready : schema.prepareRequest request =
      (.ok prepared : Except (RequestError ε) PreparedRequest)) :
    ∀ call ∈ schema.calls resolve request state,
      (∃ field, prepared.scope.CallFor prepared.root prepared.operation.selections
        (schema.calls resolve request state) call field) ∧
      ∀ field, prepared.scope.CallFor prepared.root prepared.operation.selections
          (schema.calls resolve request state) call field →
        ∀ input, call.visit.definition.arguments.reverse.find? (·.name == input.name) =
            some input →
          schema.IsCustomScalar input.type →
        ∀ literal, field.argument? input.name = some literal →
          (∀ name, ¬ literal.Contains (.reference name)) →
          (∀ path, Typing.literalProblems
              (prepared.scope.typing prepared.operation.variableDefinitions) input.type path
                literal =
            if literal.isNull && input.type.isNonNull then [⟨.nullNotAllowed input.type, path⟩]
            else []) ∧
          Members.get? input.name call.visit.arguments = some literal.hollowJson ∧
          (Members.get? input.name call.visit.arguments = some literal.json ↔
            ∀ fields, literal.Contains (.object fields) → fields = []) := by
  intro call isCall
  obtain ⟨document, _, prepares⟩ := prepares_of_prepareRequest ready
  obtain ⟨forest, made, walked, _⟩ := asked_of_ready ready resolve state
  rw [made] at isCall ⊢
  have prompted :=
    walked.prompted .root (List.Subset.refl _) (List.Subset.refl _) call isCall
  refine ⟨QueryScope.exists_callFor prompted, ?_⟩
  rintro field ⟨object, path, parent?, around, key, first, others, definition, _, _, _, _, visited⟩
    input last custom literal written constant
  rw [← prepares.sameSchema] at custom
  have handed : Members.get? input.name call.visit.arguments = some literal.hollowJson := by
    rw [visited] at last ⊢
    exact Input.get?_arguments_custom _ last custom written constant
  refine ⟨fun path => Typing.literalProblems_custom custom constant path, handed, ?_⟩
  · rw [handed, Option.some.injEq]
    exact literal.hollowJson_eq_json_iff

/-- A schema with a scalar for anything. -/
def anythingSource : String :=
  "scalar Any type Query \x7b name(by: Any!, like: Any = 0): ID \x7d"

/-- A request with lists, one of them with an empty object in it. -/
def nestedRequest : Request where
  query := "\x7b name(by: [1, [null, \x7b\x7d], [UP, \"a\"]], like: null) \x7d"
  operation? := none
  variableValues := []

/-- A request with an object. -/
def recordRequest : Request where
  query := "\x7b name(by: [\x7blow: 1\x7d]) \x7d"
  operation? := none
  variableValues := []

/-- The JSON of the literals for an argument in a query, as text. -/
def literalTexts (prepared : PreparedRequest) (argument : String) : List String :=
  (prepared.scope.allFields prepared.operation.selections).filterMap fun field =>
    (field.argument? argument).map fun literal => literal.json.compact

/-- Literals without fields in their objects are handed over as they are. -/
theorem custom_scalar_arguments_nested : ∃ (schema : Schema) (prepared : PreparedRequest),
    compile [anythingSource] = .ok schema ∧
      schema.prepareRequest nestedRequest =
        (.ok prepared : Except (RequestError Unit) PreparedRequest) ∧
      schema.IsCustomScalar (.nonNull (.named "Any")) ∧
      literalTexts prepared "by" = ["[1,[null,\x7b\x7d],[\"UP\",\"a\"]]"] ∧
      schema.argumentTexts nestedRequest =
        [("/name", "\x7b\"by\":[1,[null,\x7b\x7d],[\"UP\",\"a\"]],\"like\":null\x7d")] ∧
      ∀ call ∈ schema.calls friendsResolver nestedRequest (),
        (∃ field, prepared.scope.CallFor prepared.root prepared.operation.selections
          (schema.calls friendsResolver nestedRequest ()) call field) ∧
        ∀ field, prepared.scope.CallFor prepared.root prepared.operation.selections
            (schema.calls friendsResolver nestedRequest ()) call field →
          ∀ input, call.visit.definition.arguments.reverse.find? (·.name == input.name) =
              some input →
            schema.IsCustomScalar input.type →
          ∀ literal, field.argument? input.name = some literal →
            (∀ name, ¬ literal.Contains (.reference name)) →
            (∀ path, Typing.literalProblems
                (prepared.scope.typing prepared.operation.variableDefinitions) input.type path
                  literal =
              if literal.isNull && input.type.isNonNull then [⟨.nullNotAllowed input.type, path⟩]
              else []) ∧
            Members.get? input.name call.visit.arguments = some literal.hollowJson ∧
            (Members.get? input.name call.visit.arguments = some literal.json ↔
              ∀ fields, literal.Contains (.object fields) → fields = []) := by
  have ran : (compile [anythingSource]).toOption.bind (fun schema =>
      (schema.prepareRequest nestedRequest : Except (RequestError Unit) _).toOption.bind
        fun prepared => (schema.get? "Any").map fun found =>
          (found.kind, literalTexts prepared "by",
            schema.argumentTexts nestedRequest)) =
      some (.scalar, ["[1,[null,\x7b\x7d],[\"UP\",\"a\"]]"],
        [("/name", "\x7b\"by\":[1,[null,\x7b\x7d],[\"UP\",\"a\"]],\"like\":null\x7d")]) := by
    decide +kernel
  obtain ⟨schema, isCompiled, ran⟩ := Option.bind_eq_some_iff.mp ran
  obtain ⟨prepared, isPrepared, ran⟩ := Option.bind_eq_some_iff.mp ran
  obtain ⟨found, isFound, same⟩ := Option.map_eq_some_iff.mp ran
  obtain ⟨isScalar, same⟩ := Prod.mk.inj same
  obtain ⟨written, handed⟩ := Prod.mk.inj same
  have ready := Except.of_toOption_eq_some isPrepared
  have custom : schema.IsCustomScalar (.nonNull (.named "Any")) :=
    ⟨"Any", found, rfl, by decide, isFound, SchemaType.body_of_kind_scalar isScalar⟩
  exact ⟨schema, prepared, Except.of_toOption_eq_some isCompiled, ready, custom, written, handed,
    custom_scalar_arguments schema friendsResolver nestedRequest () ready⟩

/-- The field of an object for a custom scalar does not reach the resolver. -/
theorem fields_of_custom_scalar_lost : ∃ (schema : Schema) (prepared : PreparedRequest),
    compile [anythingSource] = .ok schema ∧
      schema.prepareRequest recordRequest =
        (.ok prepared : Except (RequestError Unit) PreparedRequest) ∧
      schema.IsCustomScalar (.nonNull (.named "Any")) ∧
      literalTexts prepared "by" = ["[\x7b\"low\":1\x7d]"] ∧
      (schema.calls friendsResolver recordRequest ()).map (fun call =>
          ((call.visit.definition.argument? "by").map (·.type),
            (Members.get? "by" call.visit.arguments).map Json.compact)) =
        [(some (.nonNull (.named "Any")), some "[\x7b\x7d]")] := by
  have ran : (compile [anythingSource]).toOption.bind (fun schema =>
      (schema.prepareRequest recordRequest : Except (RequestError Unit) _).toOption.bind
        fun prepared => (schema.get? "Any").map fun found =>
          (found.kind, literalTexts prepared "by",
            (schema.calls friendsResolver recordRequest ()).map fun call =>
              ((call.visit.definition.argument? "by").map (·.type),
                (Members.get? "by" call.visit.arguments).map Json.compact))) =
      some (.scalar, ["[\x7b\"low\":1\x7d]"],
        [(some (.nonNull (.named "Any")), some "[\x7b\x7d]")]) := by
    decide +kernel
  obtain ⟨schema, isCompiled, ran⟩ := Option.bind_eq_some_iff.mp ran
  obtain ⟨prepared, isPrepared, ran⟩ := Option.bind_eq_some_iff.mp ran
  obtain ⟨found, isFound, same⟩ := Option.map_eq_some_iff.mp ran
  obtain ⟨isScalar, same⟩ := Prod.mk.inj same
  obtain ⟨written, handed⟩ := Prod.mk.inj same
  exact ⟨schema, prepared, Except.of_toOption_eq_some isCompiled,
    Except.of_toOption_eq_some isPrepared,
    ⟨"Any", found, rfl, by decide, isFound, SchemaType.body_of_kind_scalar isScalar⟩, written,
    handed⟩

end Schema

end TraversalQuery
