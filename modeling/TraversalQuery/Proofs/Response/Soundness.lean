import Mathlib.Tactic.ByContra
import TraversalQuery.Proofs.Document.Proper
import TraversalQuery.Proofs.Response.Merging
import TraversalQuery.Proofs.Response.Settling
import TraversalQuery.Proofs.Schema.Implementation
import TraversalQuery.Proofs.Typing.Selections

/-!
# Checked queries are answered

The checks look at fields on the types where they are selected, and a walk looks them up on the
objects it comes to. Where the types of a schema implement their interfaces, and fields that are
merged have the same names, every field that is looked up is found, and asked about once.
-/

namespace TraversalQuery

/-- The response keys of groups that are not just for the name of a type. -/
def FieldGroups.properKeys (groups : FieldGroups) : List String :=
  FieldGroups.keys (groups.filter fun group =>
    group.2.any fun selected => selected.field.name ≠ "__typename")

namespace QueryScope

variable {σ ε : Type} {scope : QueryScope}

/-- What queries are checked against, given the variables of an operation. -/
def typing (scope : QueryScope) (definitions : List VariableDefinition) : Typing.Scope :=
  ⟨scope.schema, definitions, scope.fragments⟩

/-- A selection that is well typed on a type which an object satisfies, and that spreads only
fragments which were looked into. -/
def Suits (scope : QueryScope) (definitions : List VariableDefinition) (looked : List String)
    (object : SchemaType) (selection : Selection) : Prop :=
  (∃ parent ∈ scope.schema.types, object.satisfies parent.name = true ∧
    selection.Typed (scope.typing definitions) parent) ∧ selection.spreads ⊆ looked

variable {definitions : List VariableDefinition} {looked : List String} {object : SchemaType}

/-- Selections on a type suit the objects that satisfy it. -/
theorem suits_of_allTyped {parent : SchemaType} (isType : parent ∈ scope.schema.types)
    (satisfies : object.satisfies parent.name = true) {selections : List Selection}
    (typed : Selection.AllTyped (scope.typing definitions) parent selections)
    (spreads : Selection.spreadsOf selections ⊆ looked) :
    ∀ selection ∈ selections, scope.Suits definitions looked object selection := by
  induction selections with
  | nil => exact List.forall_mem_nil _
  | cons selection rest ih =>
    obtain ⟨first, others⟩ := List.append_subset.mp spreads
    exact List.forall_mem_cons.mpr
      ⟨⟨⟨parent, isType, satisfies, typed.1⟩, first⟩, ih typed.2 others⟩

/-- What suitable selections offer suits as well. -/
theorem Offers.suits {selections : List Selection} {selected : SelectedField}
    (offers : scope.Offers object selections selected)
    (entered : ∀ name ∈ looked, (scope.typing definitions).Entered looked name)
    (suits : ∀ selection ∈ selections, scope.Suits definitions looked object selection) :
    ∃ braces?, scope.Suits definitions looked object
      (.field selected.field selected.selections braces?) := by
  induction offers with
  | field member included => exact ⟨_, suits _ member⟩
  | @inline _ _ condition? _ _ _ _ member included admitted inner ih =>
    obtain ⟨⟨parent, isType, satisfies, type, same, typed⟩, spreads⟩ := suits _ member
    refine ih ?_
    cases condition? with
    | none =>
      obtain rfl : type = parent := same
      exact suits_of_allTyped isType satisfies typed spreads
    | some name =>
      have found : scope.schema.get? name = some type := same
      refine suits_of_allTyped (Schema.mem_of_get? found) ?_ typed spreads
      rw [Schema.name_of_get? found]
      exact admitted
  | spread member included found admitted inner ih =>
    obtain ⟨_, spreads⟩ := suits _ member
    obtain ⟨fragment, found', ⟨type, isType, typed⟩, deeper⟩ :=
      entered _ (spreads List.mem_cons_self)
    obtain rfl := Option.some.inj (found.symm.trans found')
    have isType : scope.schema.get? _ = some type := isType
    refine ih (suits_of_allTyped (Schema.mem_of_get? isType) ?_ typed deeper)
    rw [Schema.name_of_get? isType]
    exact admitted

section

variable {schema : Schema} {root : SchemaType} {path : ResponsePath}
  {parent? : Option ParentField} {selections around : List Selection}
  {calls : List (ResolverCall σ ε)}

/-- A field of a suitable selection is one of the object, unless it is the name of the type, and
what is selected inside the field is well typed on a type that the one of the object's field
satisfies. -/
theorem Suits.field (implemented : scope.schema.Implemented) (compiled : scope.schema.Compiled)
    (isType : object ∈ scope.schema.types) {field : Field} {braces? : Option Span}
    (suits : scope.Suits definitions looked object (.field field selections braces?)) :
    (field.name = "__typename" ∧ selections = []) ∨ ∃ own type,
      object.field? field.name = some own ∧ type ∈ scope.schema.types ∧
      (∀ output, scope.schema.get? own.type.namedType = some output →
        output.satisfies type.name = true) ∧
      Selection.AllTyped (scope.typing definitions) type selections := by
  obtain ⟨⟨parent, isParent, satisfies, typed⟩, _⟩ := suits
  refine typed.imp id fun ⟨declared, type, isField, _, found, inside⟩ => ?_
  have found : scope.schema.get? _ = some type := found
  obtain ⟨own, isOwn, outputs⟩ := implemented.field compiled isType isParent satisfies isField
  rw [← Schema.name_of_get? found] at outputs
  exact ⟨own, type, isOwn, Schema.mem_of_get? found, outputs, inside⟩

/-- What is selected on the objects that a walk reaches suits them. -/
theorem Reached.suits (implemented : scope.schema.Implemented) (compiled : scope.schema.Compiled)
    (named : ∀ field other, scope.Meet root selections selections field other →
      field.name = other.name)
    (isRoot : root ∈ scope.schema.types)
    (entered : ∀ name ∈ looked, (scope.typing definitions).Entered looked name)
    (suits : ∀ selection ∈ selections, scope.Suits definitions looked root selection)
    (reached : scope.Reached root selections calls object path parent? around) :
    object ∈ scope.schema.types ∧
      ∀ selection ∈ around, scope.Suits definitions looked object selection := by
  induction reached with
  | root => exact ⟨isRoot, suits⟩
  | @inside object output path parent? around key first others definition call outer group defined
      member visited answered declared ih =>
    obtain ⟨isType, suitsOuter⟩ := ih
    rw [visited] at declared
    have declared : scope.schema.get? definition.type.namedType = some output := declared
    refine ⟨Schema.runtimeType_mem (Schema.mem_of_get? declared), fun selection inside => ?_⟩
    obtain ⟨part, isPart, inPart⟩ := List.mem_flatMap.mp inside
    have each := each_collect scope object around
    obtain ⟨braces?, suited⟩ := (each.good _ group part isPart).suits entered suitsOuter
    rcases suited.field implemented compiled isType with ⟨_, none⟩ | ⟨own, type, isOwn, known,
      outputs, typed⟩
    · rw [none] at inPart
      cases inPart
    · -- The fields of a group have one name, so their types are those of one field.
      have sameName : part.field.name = first.field.name :=
        named _ _ (outer.meet named (meet_of_mem_collect group isPart List.mem_cons_self))
      rw [sameName, defined] at isOwn
      obtain rfl := Option.some.inj isOwn
      have satisfies := implemented.runtimeType_satisfies (Schema.mem_of_get? declared)
        (outputs output declared)
      exact suits_of_allTyped known satisfies typed suited.2 selection inPart

/-- The key of a group is proper if its first field is not the name of the type. -/
theorem properKeys_cons_of_pos {groups : FieldGroups} {key : String} {first : SelectedField}
    {others : List SelectedField} (proper : first.field.name ≠ "__typename") :
    FieldGroups.properKeys ((key, first :: others) :: groups) = key :: groups.properKeys := by
  simp [FieldGroups.properKeys, FieldGroups.keys, proper]

/-- The key of a group is not proper if it asks for the name of the type. -/
theorem properKeys_cons_of_neg {groups : FieldGroups} {key : String}
    {fields : List SelectedField}
    (typename : ∀ selected ∈ fields, selected.field.name = "__typename") :
    FieldGroups.properKeys ((key, fields) :: groups) = groups.properKeys := by
  have plain : (fields.any fun selected => selected.field.name ≠ "__typename") = false := by
    simpa using typename
  unfold FieldGroups.properKeys
  rw [List.filter_cons_of_neg (by rw [plain]; exact Bool.false_ne_true)]

/-- If an object has all fields in some groups, then there is a call for each of them, unless the
walk stops on the way. -/
theorem Asked.keys_roots {groups : FieldGroups} {whole : Bool}
    {forest : Forest (ResolverCall σ ε)}
    (asked : scope.Asked object path parent? groups whole forest)
    (alike : ∀ group ∈ groups, ∀ selected ∈ group.2, ∀ other ∈ group.2,
      selected.field.name = other.field.name)
    (declared : ∀ group ∈ groups, ∀ selected ∈ group.2, selected.field.name ≠ "__typename" →
      (object.field? selected.field.name).isSome = true) :
    (forest.roots.map (·.visit.responseKey) <+: groups.properKeys) ∧
      (whole = true → forest.roots.map (·.visit.responseKey) = groups.properKeys) := by
  induction asked with
  | stop => exact ⟨List.nil_prefix, nofun⟩
  | done => exact ⟨List.nil_prefix, fun _ => rfl⟩
  | @silent object _ _ key fields _ _ _ quiet later ih =>
    obtain ⟨alike, alikeLater⟩ := List.forall_mem_cons.mp alike
    obtain ⟨declared, declaredLater⟩ := List.forall_mem_cons.mp declared
    have typename : ∀ selected ∈ fields, selected.field.name = "__typename" := by
      intro selected member
      by_contra proper
      obtain ⟨first, isFirst⟩ :=
        Option.isSome_iff_exists.mp (List.isSome_head?.mpr (List.ne_nil_of_mem member))
      have same := alike selected member first (List.mem_of_head? isFirst)
      rcases quiet first isFirst with named | missing
      · exact proper (same.trans named)
      · have present := declared selected member proper
        rw [same, missing] at present
        cases present
    rw [properKeys_cons_of_neg typename]
    exact ih alikeLater declaredLater
  | value proper defined visited plain later ih =>
    rw [properKeys_cons_of_pos proper, Forest.roots, List.map_cons, visited]
    have := ih (List.forall_mem_cons.mp alike).2 (List.forall_mem_cons.mp declared).2
    exact ⟨List.cons_prefix_cons.mpr ⟨rfl, this.1⟩, fun all => congrArg _ (this.2 all)⟩
  | object proper defined visited answered isOutput inner through later ihInner ihLater =>
    rw [properKeys_cons_of_pos proper, Forest.roots, List.map_cons, visited]
    have := ihLater (List.forall_mem_cons.mp alike).2 (List.forall_mem_cons.mp declared).2
    exact ⟨List.cons_prefix_cons.mpr ⟨rfl, this.1⟩, fun all => congrArg _ (this.2 all)⟩

end

end QueryScope

namespace Schema

open QueryScope (callsAt)

variable {σ ε : Type} {schema : Schema}

/-- What the checks of a request leave behind: its operation has no problems and a root type,
nothing in it is beyond the grammar, and its variables have values. -/
structure Checked (schema : Schema) (provided : Members) (prepared : PreparedRequest) : Prop where
  sameSchema : prepared.scope.schema = schema
  isRoot : schema.rootType? prepared.operation.kind = some prepared.root
  acyclic : Fragment.Acyclic prepared.scope.fragments
  clean : Typing.operationProblems schema prepared.scope.fragments prepared.operation = []
  values : Input.operationValues schema prepared.operation.variableDefinitions provided =
    .ok prepared.scope.variableValues
  proper : prepared.operation.isProper = true
  inFragments : ∀ fragment ∈ prepared.scope.fragments,
    Selection.areProper fragment.selections = true

/-- A request that is ready was checked. -/
theorem checked_of_prepareRequest {request : Request} {prepared : PreparedRequest}
    (ready : schema.prepareRequest request =
      (.ok prepared : Except (RequestError ε) PreparedRequest)) :
    schema.Checked request.variableValues prepared := by
  obtain ⟨document, parsed, made⟩ := Except.of_bind_eq_ok ready
  have proper := Document.isProper_of_parse (Except.of_mapError_eq_ok parsed)
  obtain ⟨valid, selects, isRoot, values, given, sameScope⟩ :=
    of_prepare_eq_ok (Except.of_mapError_eq_ok made)
  have acyclic := Document.acyclic_of_problems valid
  rw [Document.problems, selects] at valid
  exact
    { sameSchema := by rw [sameScope]
      isRoot := isRoot
      acyclic := by rwa [sameScope]
      clean := by rw [sameScope]; exact (List.append_eq_nil_iff.mp valid).2
      values := by rwa [sameScope]
      proper := Document.isProper_operation proper (Document.mem_of_selectOperation selects)
      inFragments := by
        rw [sameScope]
        exact fun fragment member => (Bool.and_eq_true_iff.mp (Bool.and_eq_true_iff.mp
          (Document.isProper_fragment proper member)).2).2 }

/-- What a checked request selects can be written. -/
theorem Checked.areProper {provided : Members} {prepared : PreparedRequest}
    (checked : schema.Checked provided prepared) :
    Selection.areProper prepared.operation.selections = true :=
  (Bool.and_eq_true_iff.mp (Bool.and_eq_true_iff.mp checked.proper).2).2

/-- The root of a checked request is a type of the schema. -/
theorem Checked.root_mem_types {provided : Members} {prepared : PreparedRequest}
    (checked : schema.Checked provided prepared) : prepared.root ∈ prepared.scope.schema.types := by
  obtain ⟨name, _, found⟩ := Option.bind_eq_some_iff.mp checked.isRoot
  rw [checked.sameSchema]
  exact mem_of_get? found

/-- What the operation of a request that is ready to be walked selects suits its root type. -/
theorem suits_of_prepareRequest (compiled : schema.Compiled) {request : Request}
    {prepared : PreparedRequest} (ready : schema.prepareRequest request =
      (.ok prepared : Except (RequestError ε) PreparedRequest)) :
    ∃ looked, (∀ name ∈ looked, (prepared.scope.typing
        prepared.operation.variableDefinitions).Entered looked name) ∧
      ∀ selection ∈ prepared.operation.selections, prepared.scope.Suits
        prepared.operation.variableDefinitions looked prepared.root selection := by
  have checked := checked_of_prepareRequest ready
  obtain ⟨root, looked, isRoot, typed, spreads, entered⟩ :=
    Typing.typed_of_operationProblems compiled checked.acyclic checked.clean checked.areProper
      checked.inFragments
  obtain rfl := Option.some.inj (checked.isRoot.symm.trans isRoot)
  have isType := checked.root_mem_types
  obtain rfl := checked.sameSchema
  refine ⟨looked, entered, QueryScope.suits_of_allTyped isType ?_ typed spreads⟩
  exact satisfies_iff.mpr (.inl rfl)

/-- Where no default leads back to itself, a walk ends with a response or with an error of the
resolver. -/
theorem isOk_or_refused (ends : ∀ input, ¬ Relation.TransGen schema.Leads input input)
    {request : Request} {prepared : PreparedRequest}
    (ready : schema.prepareRequest request =
      (.ok prepared : Except (RequestError ε) PreparedRequest)) (resolve : Resolver σ ε)
    (state : σ) : ((schema.execute resolve request).on state).1.isOk = true ∨
      ∃ error, ((schema.execute resolve request).on state).1 = .error (.refused error) := by
  obtain ⟨document, _, prepares⟩ := prepares_of_prepareRequest ready
  rw [← prepares.sameSchema] at ends
  have settled : QueryScope.Avoids .unsettled (prepared.scope.respond resolve prepared.root
      prepared.operation.selections) :=
    QueryScope.settled_respond (fun definition field => settle_of_ends ends _ _) _ _
  have settled := settled state
  obtain ⟨_, _, _, _, bounded⟩ := execute_expansion schema resolve request ready
  have bounded := (bounded state).1
  rw [execute_of_ready ready, ExceptT.on_adapt] at bounded ⊢
  generalize ((prepared.scope.respond resolve prepared.root
    prepared.operation.selections).on state).1 = answer at settled bounded ⊢
  rcases answer with (error | _ | _) | response
  · exact .inr ⟨error, rfl⟩
  · exact absurd rfl bounded
  · exact absurd rfl settled
  · exact .inl rfl

/-- **Every selected field is resolved**, where types implement their interfaces, fields that meet
under one response key have one name, and no default leads back to itself. The objects that a walk
reaches have the fields that are selected on them. For each response key, but those for names of
types, there is one call, for the field of that name, in the order of the keys; and none is left
out, unless the resolver fails. -/
theorem selected_fields_resolved (compiled : schema.Compiled) (implemented : schema.Implemented)
    (ends : ∀ input, ¬ Relation.TransGen schema.Leads input input) (resolve : Resolver σ ε)
    (request : Request) (state : σ) {prepared : PreparedRequest}
    (ready : schema.prepareRequest request =
      (.ok prepared : Except (RequestError ε) PreparedRequest))
    (named : ∀ field other, prepared.scope.Meet prepared.root prepared.operation.selections
      prepared.operation.selections field other → field.name = other.name) :
    ∀ {object path parent? around}, prepared.scope.Reached prepared.root
      prepared.operation.selections (schema.calls resolve request state) object path parent?
        around →
      (∀ group ∈ prepared.scope.collect object around, ∀ selected ∈ group.2,
        selected.field.name ≠ "__typename" →
          (object.field? selected.field.name).isSome = true ∧
          ∀ call ∈ callsAt (schema.calls resolve request state) path,
            call.visit.responseKey = group.1 →
              object.field? selected.field.name = some call.visit.definition) ∧
      (prepared.scope.collect object around).properKeys.Nodup ∧
      ((callsAt (schema.calls resolve request state) path).map (·.visit.responseKey) <+:
        (prepared.scope.collect object around).properKeys) ∧
      ((callsAt (schema.calls resolve request state) path).map (·.visit.responseKey) =
          (prepared.scope.collect object around).properKeys ∨
        ∃ error, ((schema.execute resolve request).on state).1 = .error (.refused error)) := by
  intro object path parent? around reached
  obtain ⟨looked, entered, suits⟩ := suits_of_prepareRequest compiled ready
  obtain ⟨document, _, prepares⟩ := prepares_of_prepareRequest ready
  have isRoot := prepares.isType
  rw [← prepares.sameSchema] at compiled implemented isRoot
  obtain ⟨isType, suitsHere⟩ := reached.suits implemented compiled named isRoot entered suits
  have each := QueryScope.each_collect prepared.scope object around
  have alike : ∀ group ∈ prepared.scope.collect object around, ∀ selected ∈ group.2,
      ∀ other ∈ group.2, selected.field.name = other.field.name :=
    fun group member selected inGroup other inGroup' => named _ _ <|
      reached.meet named (QueryScope.meet_of_mem_collect member inGroup inGroup')
  have declared : ∀ group ∈ prepared.scope.collect object around, ∀ selected ∈ group.2,
      selected.field.name ≠ "__typename" →
        (object.field? selected.field.name).isSome = true := by
    intro group member selected inGroup proper
    obtain ⟨_, suited⟩ := (each.good group member selected inGroup).suits entered suitsHere
    obtain ⟨own, _, isOwn, _⟩ := (suited.field implemented compiled isType).resolve_left
      fun typename => proper typename.1
    rw [isOwn]
    rfl
  obtain ⟨forest, made, walked, _⟩ := asked_of_ready ready resolve state
  refine ⟨fun group member selected inGroup proper =>
    ⟨declared group member selected inGroup proper, fun call isCall sameKey => ?_⟩,
    each.nodup.sublist (List.filter_sublist.map _), ?_⟩
  · obtain ⟨first, others, definition, isGroup, _, defined, visited⟩ :=
      visited_of_reached ready reached member isCall sameKey
    rw [alike group member selected inGroup first (isGroup ▸ List.mem_cons_self), defined, visited]
    rfl
  · rw [made] at reached ⊢
    obtain ⟨inside, below, asked, _, through, onTop, _⟩ := reached.asked walked
    obtain ⟨inOrder, all⟩ := asked.keys_roots alike declared
    rw [onTop]
    exact ⟨inOrder, (isOk_or_refused ends ready resolve state).imp (all ∘ through) id⟩

/-- A request for the names of a person and of the friends, by a fragment on their interface. -/
def namedRequest : Request where
  query := "\x7b me \x7b ...N friends \x7b ...N name \x7d friends \x7b name __typename \x7d \x7d \x7d
    fragment N on Named \x7b name \x7d"
  operation? := none
  variableValues := []

/-- All that is selected of a person and of the friends is asked about once. The friends come in
pages, by a default that leads to others. -/
theorem selected_fields_resolved_friends : ∃ (schema : Schema) (prepared : PreparedRequest),
    compile [pagedSource] = .ok schema ∧ schema.Compiled ∧ schema.Implemented ∧
      (∀ input, ¬ Relation.TransGen schema.Leads input input) ∧
      schema.prepareRequest namedRequest =
        (.ok prepared : Except (RequestError Unit) PreparedRequest) ∧
      (∀ field other, prepared.scope.Meet prepared.root prepared.operation.selections
        prepared.operation.selections field other → field.name = other.name) ∧
      ∀ {object path parent? around}, prepared.scope.Reached prepared.root
        prepared.operation.selections (schema.calls friendsResolver namedRequest ()) object path
          parent? around →
        (∀ group ∈ prepared.scope.collect object around, ∀ selected ∈ group.2,
          selected.field.name ≠ "__typename" →
            (object.field? selected.field.name).isSome = true ∧
            ∀ call ∈ callsAt (schema.calls friendsResolver namedRequest ()) path,
              call.visit.responseKey = group.1 →
                object.field? selected.field.name = some call.visit.definition) ∧
        (prepared.scope.collect object around).properKeys.Nodup ∧
        ((callsAt (schema.calls friendsResolver namedRequest ()) path).map
          (·.visit.responseKey) <+: (prepared.scope.collect object around).properKeys) ∧
        ((callsAt (schema.calls friendsResolver namedRequest ()) path).map
            (·.visit.responseKey) = (prepared.scope.collect object around).properKeys ∨
          ∃ error, ((schema.execute friendsResolver namedRequest).on ()).1 =
            .error (.refused error)) := by
  have ran : (compile [pagedSource]).toOption.bind (fun schema =>
      (schema.prepareRequest namedRequest : Except (RequestError Unit) _).toOption.map
        fun prepared => (decide schema.Implemented, decide (schema.RanksDefaults pagedRank),
          decide ((prepared.scope.allFields prepared.operation.selections).Pairwise
            fun field other => field.responseKey = other.responseKey →
              field.name = other.name))) = some (true, true, true) := by
    decide +kernel
  obtain ⟨schema, isCompiled, ran⟩ := Option.bind_eq_some_iff.mp ran
  obtain ⟨prepared, isPrepared, same⟩ := Option.map_eq_some_iff.mp ran
  obtain ⟨isImplemented, ranked, pairwise⟩ : _ ∧ _ ∧ _ := by simpa only [Prod.mk.injEq] using same
  have made := Except.of_toOption_eq_some isCompiled
  have compiled : schema.Compiled := ⟨_, .inl made⟩
  have implemented := of_decide_eq_true isImplemented
  have ends := (of_decide_eq_true ranked).not_transGen
  have ready := Except.of_toOption_eq_some isPrepared
  have named : ∀ field other, prepared.scope.Meet prepared.root prepared.operation.selections
      prepared.operation.selections field other → field.name = other.name :=
    QueryScope.alike_of_pairwise (fun _ => rfl) Eq.symm (of_decide_eq_true pairwise)
  exact ⟨schema, prepared, made, compiled, implemented, ends, ready, named,
    selected_fields_resolved compiled implemented ends friendsResolver namedRequest () ready named⟩

/-- A schema with a type that does not have the field of its interface. -/
def namelessSource : String :=
  "type Query \x7b pet: Named \x7d
   interface Named \x7b name: String \x7d
   type Dog implements Named \x7b age: Int \x7d"

/-- A request for the name of a pet. -/
def petRequest : Request where
  query := "\x7b pet \x7b name \x7d \x7d"
  operation? := none
  variableValues := []

/-- The name of an object whose type has none is `null`, and the resolver is not asked about it. -/
theorem nameless_field_dropped : ∃ (schema : Schema) (prepared : PreparedRequest)
    (named : SchemaType), compile [namelessSource] = .ok schema ∧
      schema.prepareRequest petRequest =
        (.ok prepared : Except (RequestError Unit) PreparedRequest) ∧
      schema.get? "Named" = some named ∧ (named.field? "name").isSome = true ∧
      (schema.runtimeType named).field? "name" = none ∧
      (schema.calls friendsResolver petRequest ()).map (·.visit.path.text) = ["/pet"] ∧
      ((schema.execute friendsResolver petRequest).on ()).1.toOption.map Json.compact =
        some "\x7b\"pet\":\x7b\"name\":null\x7d\x7d" := by
  have ran : (compile [namelessSource]).toOption.bind (fun schema =>
      (schema.prepareRequest petRequest : Except (RequestError Unit) _).toOption.bind
        fun prepared => (schema.get? "Named").map fun named =>
          ((named.field? "name").isSome && ((schema.runtimeType named).field? "name").isNone,
          (schema.calls friendsResolver petRequest ()).map (·.visit.path.text),
          ((schema.execute friendsResolver petRequest).on ()).1.toOption.map Json.compact)) =
      some (true, ["/pet"], some "\x7b\"pet\":\x7b\"name\":null\x7d\x7d") := by
    decide +kernel
  obtain ⟨schema, isCompiled, ran⟩ := Option.bind_eq_some_iff.mp ran
  obtain ⟨prepared, isPrepared, ran⟩ := Option.bind_eq_some_iff.mp ran
  obtain ⟨named, found, same⟩ := Option.map_eq_some_iff.mp ran
  obtain ⟨fields, same⟩ := Prod.mk.inj same
  obtain ⟨called, response⟩ := Prod.mk.inj same
  obtain ⟨declared, missing⟩ := Bool.and_eq_true_iff.mp fields
  exact ⟨schema, prepared, named, Except.of_toOption_eq_some isCompiled,
    Except.of_toOption_eq_some isPrepared, found, declared, Option.isNone_iff_eq_none.mp missing,
    called, response⟩

end Schema

end TraversalQuery
