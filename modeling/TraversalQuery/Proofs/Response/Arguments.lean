import TraversalQuery.Proofs.Response.Soundness
import TraversalQuery.Proofs.Response.Variables

/-!
# The arguments of calls

The arguments of a call are made from literals, values that were given for variables, and defaults.
The checks look at literals and variables on the type where a field is selected. So they say
something about a call where the types of a schema implement their interfaces, arguments included,
where its inputs are declared in order, and where fields that are merged have the same names.
-/

namespace TraversalQuery

/-- The value of an argument is written in the field. -/
theorem Field.exists_of_argument? {field : Field} {name : String} {literal : Literal}
    (found : field.argument? name = some literal) :
    ∃ argument ∈ field.arguments, argument.name = name ∧ argument.value = literal := by
  obtain ⟨argument, here, isValue⟩ := Option.map_eq_some_iff.mp found
  exact ⟨argument, List.mem_of_find?_eq_some here, by simpa using List.find?_some here, isValue⟩

/-- An argument has a value exactly if it is written in the field. -/
theorem Field.isSome_argument? {field : Field} {name : String} :
    (field.argument? name).isSome = true ↔ name ∈ field.arguments.map (·.name) := by
  simp [argument?]

namespace Schema

variable {schema : Schema}

/-- The arguments of a field conform if those written for it have no problem. -/
theorem supplies_arguments {scope : Typing.Scope} {given : Json → Prop} {values : Members}
    (compiled : scope.schema.Compiled) (sound : scope.schema.SoundInputs)
    (referred : ∀ name type path, Typing.variableProblems scope name type path = [] →
      scope.schema.ConformsOr given type (type.isNonNull = false) (Members.get? name values))
    {own declared : OutputField} (takes : own.Takes declared)
    (isList : own.arguments ∈ scope.schema.inputLists) {field : Field} {path : String}
    (clean : Typing.argumentProblems scope declared.arguments path field.arguments = [])
    (finite : ∀ argument ∈ field.arguments, argument.value.isFinite = true) :
    scope.schema.Supplies given own.arguments
      (Input.arguments scope.schema values own.arguments field) := by
  obtain ⟨clean, missing⟩ := List.append_eq_nil_iff.mp clean
  refine Input.supplies_declaredMembers (sound.distinct _ isList) fun input member => ?_
  refine Input.conformsOr_or (fun literal isLiteral => ?_) (fun required => ?_) fun _ =>
    sound.default compiled values isList member
  · obtain ⟨argument, written, named, rfl⟩ := Field.exists_of_argument? isLiteral
    obtain ⟨other, placed, clean⟩ :=
      (Typing.givenProblems_eq_nil_iff.mp clean).2 argument written
    have sameName : other.name = input.name :=
      (by simpa using List.find?_some placed : other.name = argument.name).trans named
    rw [takes.types input member other (List.mem_of_find?_eq_some placed) sameName] at clean
    exact Input.conformsOr_ofLiteral scope values (resolved_inputFields compiled)
      sound.distinct_inputFields referred _ (finite argument written) _ _ clean
      (compiled.isSome_input _ isList _ member) (sound.default_of_mem_omitted compiled values)
  · obtain ⟨other, isOther, named, required⟩ := takes.required input member required
    exact Field.isSome_argument?.mpr
      (named ▸ Typing.missing_eq_nil_iff.mp missing other isOther required)

section

variable {σ ε : Type}

/-- The variables of a request that is ready to be walked conform where they stand. -/
theorem conformsOr_variable_of_ready (compiled : schema.Compiled) (sound : schema.SoundInputs)
    {request : Request} {prepared : PreparedRequest} (ready : schema.prepareRequest request =
      (.ok prepared : Except (RequestError ε) PreparedRequest))
    (definite : ∀ definition ∈ prepared.operation.variableDefinitions,
      definition.Definite request.variableValues) (name : String) (type : TypeRef) (path : String)
    (stands : Typing.variableProblems (prepared.scope.typing
      prepared.operation.variableDefinitions) name type path = []) :
    schema.ConformsOr (GivenFor request.variableValues prepared.operation.variableDefinitions) type
      (type.isNonNull = false) (Members.get? name prepared.scope.variableValues) := by
  have checked := checked_of_prepareRequest ready
  have clean := Typing.variableDefinitionProblems_eq_nil checked.clean
  have properVariables := List.all_eq_true.mp
    (Bool.and_eq_true_iff.mp (Bool.and_eq_true_iff.mp checked.proper).1).1
  rw [QueryScope.typing, checked.sameSchema] at stands
  refine conformsOr_variable compiled sound clean (fun definition member literal isDefault => ?_)
    definite checked.values name type path stands
  have properDefault := (Bool.and_eq_true_iff.mp (properVariables definition member)).2
  rw [Option.mem_def.mp isDefault] at properDefault
  exact properDefault

/-- **Arguments reach resolvers coerced**, where the types of a schema implement their interfaces,
arguments included, its inputs are declared in order, and fields that meet under one response key
have one name. Every call has arguments that the field declares and no others, each of them conforms
to its type, and none is missing that is required or has a default. What was given for a variable
stands in them as it was given. -/
theorem arguments_conform (compiled : schema.Compiled) (implemented : schema.Implemented)
    (takes : schema.ArgumentsImplemented) (sound : schema.SoundInputs) (resolve : Resolver σ ε)
    (request : Request) (state : σ) {prepared : PreparedRequest}
    (ready : schema.prepareRequest request =
      (.ok prepared : Except (RequestError ε) PreparedRequest))
    (named : ∀ field other, prepared.scope.Meet prepared.root prepared.operation.selections
      prepared.operation.selections field other → field.name = other.name)
    (finite : ∀ field ∈ prepared.scope.allFields prepared.operation.selections,
      ∀ argument ∈ field.arguments, argument.value.isFinite = true)
    (definite : ∀ definition ∈ prepared.operation.variableDefinitions,
      definition.Definite request.variableValues) :
    ∀ call ∈ schema.calls resolve request state,
      schema.Supplies
        (GivenFor request.variableValues prepared.operation.variableDefinitions)
        call.visit.definition.arguments call.visit.arguments := by
  intro call isCall
  obtain ⟨looked, entered, suits⟩ := suits_of_prepareRequest compiled ready
  have referred := conformsOr_variable_of_ready compiled sound ready definite
  obtain ⟨document, _, prepares⟩ := prepares_of_prepareRequest ready
  obtain ⟨forest, made, walked, _⟩ := asked_of_ready ready resolve state
  have isRoot := prepares.isType
  obtain rfl := prepares.sameSchema
  rw [made] at isCall
  obtain ⟨object, path, parent?, around, key, first, others, definition, reached, group, proper,
    defined, visited⟩ := walked.prompted .root (List.Subset.refl _) (List.Subset.refl _) call isCall
  obtain ⟨isType, suitsHere⟩ := reached.suits implemented compiled named isRoot entered suits
  have offers := (QueryScope.each_collect _ _ _).good _ group first List.mem_cons_self
  obtain ⟨_, ⟨parent, isParent, satisfies, typed⟩, _⟩ := offers.suits entered suitsHere
  obtain ⟨declared, _, isField, ⟨_, clean⟩, _⟩ := typed.resolve_left fun typename =>
    proper typename.1
  have isOwn := SchemaType.mem_fields_of_field? defined
  obtain ⟨inQuery, _⟩ := offers.subset (prepared.scope.fieldsOf_subset_allFields _)
    reached.fieldsOf_subset
  rw [visited]
  exact supplies_arguments compiled sound referred
    (takes.takes compiled sound isType isParent satisfies isField defined)
    (arguments_mem_inputLists isType isOwn) clean (finite _ inQuery)

/-- A schema with defaults that lead to others and with an interface whose field has an argument. -/
def rangeSources : List String :=
  ["type Query \x7b find(by: By = \x7b\x7d, ids: [Int] = 1): Dog \x7d",
    "type Dog implements Pet \x7b age(n: Int = 2): ID \x7d",
    "interface Pet \x7b age(n: Int): ID \x7d",
    "input By \x7b in: In = \x7blow: 0\x7d \x7d",
    "input In \x7b low: Int!, high: Int = 9 \x7d"]

/-- The default of a filter leads to that of its range, which leads to that of the upper end. -/
def rangeRank (input : InputValue) : Nat :=
  if input.name = "by" then 2 else if input.name = "in" then 1 else 0

/-- A request with a range from a default, and with one that is provided. -/
def rangeRequest : Request where
  query := "query ($in: In, $n: Int = 3) \x7b all: find \x7b age \x7d " ++
    "one: find(by: \x7bin: $in\x7d) \x7b ... on Pet \x7b age(n: $n) \x7d \x7d \x7d"
  operation? := none
  variableValues := [("in", .object [("low", .int 1)])]

/-- The arguments of the calls for a request, as text. -/
def argumentTexts (schema : Schema) (request : Request) : List (String × String) :=
  (schema.calls friendsResolver request ()).map fun call =>
    (call.visit.path.text, (Json.object call.visit.arguments).compact)

/-- Lists are put around single items and defaults are filled in, but not in what was provided. -/
theorem arguments_conform_range : ∃ (schema : Schema) (prepared : PreparedRequest),
    compile rangeSources = .ok schema ∧ schema.Compiled ∧ schema.Implemented ∧
      schema.ArgumentsImplemented ∧ schema.SoundInputs ∧
      schema.prepareRequest rangeRequest =
        (.ok prepared : Except (RequestError Unit) PreparedRequest) ∧
      (∀ field other, prepared.scope.Meet prepared.root prepared.operation.selections
        prepared.operation.selections field other → field.name = other.name) ∧
      (∀ field ∈ prepared.scope.allFields prepared.operation.selections,
        ∀ argument ∈ field.arguments, argument.value.isFinite = true) ∧
      (∀ definition ∈ prepared.operation.variableDefinitions,
        definition.Definite rangeRequest.variableValues) ∧
      schema.argumentTexts rangeRequest =
        [("/all", "\x7b\"by\":\x7b\"in\":\x7b\"high\":9,\"low\":0\x7d\x7d,\"ids\":[1]\x7d"),
          ("/all/age", "\x7b\"n\":2\x7d"),
          ("/one", "\x7b\"by\":\x7b\"in\":\x7b\"low\":1\x7d\x7d,\"ids\":[1]\x7d"),
          ("/one/age", "\x7b\"n\":3\x7d")] ∧
      ∀ call ∈ schema.calls friendsResolver rangeRequest (),
        schema.Supplies
          (GivenFor rangeRequest.variableValues prepared.operation.variableDefinitions)
          call.visit.definition.arguments call.visit.arguments := by
  have ran : (compile rangeSources).toOption.bind (fun schema =>
      (schema.prepareRequest rangeRequest : Except (RequestError Unit) _).toOption.map
        fun prepared =>
          ((schema.inputLists.all fun declared => decide (declared.map (·.name)).Nodup &&
            declared.all fun input => input.default?.all fun literal =>
              (Typing.literalProblems ⟨schema, [], []⟩ input.type "" literal).isEmpty &&
                literal.isFinite && (schema.omitted input.type literal).all fun other =>
                  rangeRank other < rangeRank input) &&
            decide (schema.Implemented ∧ schema.ArgumentsImplemented ∧
              ((prepared.scope.allFields prepared.operation.selections).Pairwise
                fun field other => field.responseKey = other.responseKey →
                  field.name = other.name) ∧
              (∀ field ∈ prepared.scope.allFields prepared.operation.selections,
                ∀ argument ∈ field.arguments, argument.value.isFinite = true) ∧
              ∀ definition ∈ prepared.operation.variableDefinitions,
                definition.Definite rangeRequest.variableValues),
          schema.argumentTexts rangeRequest)) =
      some (true,
        [("/all", "\x7b\"by\":\x7b\"in\":\x7b\"high\":9,\"low\":0\x7d\x7d,\"ids\":[1]\x7d"),
          ("/all/age", "\x7b\"n\":2\x7d"),
          ("/one", "\x7b\"by\":\x7b\"in\":\x7b\"low\":1\x7d\x7d,\"ids\":[1]\x7d"),
          ("/one/age", "\x7b\"n\":3\x7d")]) := by
    decide +kernel
  obtain ⟨schema, isCompiled, ran⟩ := Option.bind_eq_some_iff.mp ran
  obtain ⟨prepared, isPrepared, same⟩ := Option.map_eq_some_iff.mp ran
  obtain ⟨checked, texts⟩ := Prod.mk.inj same
  obtain ⟨ordered, checked⟩ := Bool.and_eq_true_iff.mp checked
  obtain ⟨implemented, takes, pairwise, finite, definite⟩ := of_decide_eq_true checked
  have made := Except.of_toOption_eq_some isCompiled
  have compiled : schema.Compiled := ⟨_, .inl made⟩
  have sound := soundInputs_of_rank rangeRank ordered
  have ready := Except.of_toOption_eq_some isPrepared
  have named : ∀ field other, prepared.scope.Meet prepared.root prepared.operation.selections
      prepared.operation.selections field other → field.name = other.name :=
    QueryScope.alike_of_pairwise (fun _ => rfl) Eq.symm pairwise
  exact ⟨schema, prepared, made, compiled, implemented, takes, sound, ready, named, finite,
    definite, texts,
    arguments_conform compiled implemented takes sound friendsResolver rangeRequest () ready named
      finite definite⟩

/-- A schema in which hardly anything about inputs is in order. -/
def carelessSources : List String :=
  ["type Query \x7b f(ids: [Int], n: Int = \"x\", box: Box, x: Int!, y: Float!, z: Z): N \x7d",
    "extend type Query \x7b a: A d: D \x7d",
    "input Box \x7b n: Int = 1 \x7d",
    "input Z \x7b a: Int a: String \x7d",
    "interface N \x7b n(a: Int): ID \x7d",
    "type D implements N \x7b n(a: String!): ID \x7d",
    "type A \x7b n(a: Int): ID w: ID \x7d"]

/-- A request that the checks accept. -/
def carelessRequest : Request where
  query := "query ($ids: [Int], $box: Box, $x: Int = null) \x7b " ++
    "f(ids: $ids, box: $box, x: $x, y: 1e999, z: \x7ba: 1\x7d) \x7b n(a: 5) \x7d " ++
    "k: a \x7b w \x7d k: d \x7b n(a: \"s\") \x7d \x7d"
  operation? := none
  variableValues := [("ids", .int 5), ("box", .object [])]

/-- Arguments that do not conform reach the resolver: a single item where a list is declared and an
object without a field that has a default, both of them provided, a default of the wrong kind,
`null` where it is forbidden, a value that was checked for the first of two inputs of one name, and
values that were checked for other fields than they are passed to. -/
theorem careless_arguments_passed : ∃ (schema : Schema) (prepared : PreparedRequest),
    compile carelessSources = .ok schema ∧
      schema.prepareRequest carelessRequest =
        (.ok prepared : Except (RequestError Unit) PreparedRequest) ∧
      schema.argumentTexts carelessRequest =
        [("/f", "\x7b\"box\":\x7b\x7d,\"ids\":5,\"n\":\"x\",\"x\":null,\"y\":null," ++
            "\"z\":\x7b\"a\":1\x7d\x7d"),
          ("/f/n", "\x7b\"a\":5\x7d"), ("/k", "\x7b\x7d"), ("/k/w", "\x7b\x7d"),
          ("/k/n", "\x7b\"a\":\"s\"\x7d")] ∧
      ¬ ∀ call ∈ schema.calls friendsResolver carelessRequest (),
        schema.Supplies (fun _ => False) call.visit.definition.arguments call.visit.arguments := by
  have ran : (compile carelessSources).toOption.bind (fun schema =>
      (schema.prepareRequest carelessRequest : Except (RequestError Unit) _).toOption.map
        fun prepared =>
          ((schema.calls friendsResolver carelessRequest ()).any fun call =>
            call.visit.definition.arguments.any fun input =>
              input.type == .list (.named "Int") &&
                (Members.get? input.name call.visit.arguments).any fun value =>
                  value.int?.isSome,
          schema.argumentTexts carelessRequest)) =
      some (true,
        [("/f", "\x7b\"box\":\x7b\x7d,\"ids\":5,\"n\":\"x\",\"x\":null,\"y\":null," ++
            "\"z\":\x7b\"a\":1\x7d\x7d"),
          ("/f/n", "\x7b\"a\":5\x7d"), ("/k", "\x7b\x7d"), ("/k/w", "\x7b\x7d"),
          ("/k/n", "\x7b\"a\":\"s\"\x7d")]) := by
    decide +kernel
  obtain ⟨schema, isCompiled, ran⟩ := Option.bind_eq_some_iff.mp ran
  obtain ⟨prepared, isPrepared, same⟩ := Option.map_eq_some_iff.mp ran
  obtain ⟨single, texts⟩ := Prod.mk.inj same
  refine ⟨schema, prepared, Except.of_toOption_eq_some isCompiled,
    Except.of_toOption_eq_some isPrepared, texts, fun supplies => ?_⟩
  obtain ⟨call, isCall, single⟩ := List.any_eq_true.mp single
  obtain ⟨input, member, single⟩ := List.any_eq_true.mp single
  obtain ⟨isList, single⟩ := Bool.and_eq_true_iff.mp single
  obtain ⟨value, found, isInt⟩ := (Option.any_eq_true _ _).mp single
  have conforms := (supplies call isCall).each input member value found
  rw [eq_of_beq isList] at conforms
  cases conforms with
  | provided isGiven => exact isGiven
  | null => cases isInt
  | list => cases isInt

end

end Schema

end TraversalQuery
