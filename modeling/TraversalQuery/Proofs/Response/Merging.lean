import Mathlib.Data.List.Pairwise
import TraversalQuery.Proofs.Response.Equivalence
import TraversalQuery.Proofs.Response.Reached

/-!
# Merged fields

A walk groups the fields of an object by response key and resolves only the first of a group. The
checks of a query do not compare the others with it, so what becomes of their arguments is up to the
query: here it is told, from the selections alone, which fields can come into one group.
-/

namespace TraversalQuery

/-- Two fields of the same name with the same arguments. -/
structure Field.Agrees (field other : Field) : Prop where
  name : field.name = other.name
  arguments : ∀ name, field.argument? name = other.argument? name

namespace Field

theorem Agrees.refl (field : Field) : field.Agrees field :=
  ⟨rfl, fun _ => rfl⟩

/-- Fields agree with each other. -/
theorem Agrees.symm {field other : Field} (agrees : field.Agrees other) : other.Agrees field :=
  ⟨agrees.name.symm, fun name => (agrees.arguments name).symm⟩

/-- Fields of one name agree without arguments. -/
theorem Agrees.of_isEmpty {field other : Field} (name : field.name = other.name)
    (none : field.arguments = []) (none' : other.arguments = []) : field.Agrees other :=
  ⟨name, fun _ => by rw [argument?, argument?, none, none']⟩

/-- Fields that agree have the same arguments in a call. -/
theorem Agrees.arguments_eq {field other : Field} (agrees : field.Agrees other) (schema : Schema)
    (values : Members) (declared : List InputValue) :
    Input.arguments schema values declared field =
      Input.arguments schema values declared other := by
  unfold Input.arguments
  simp only [agrees.arguments]

end Field

namespace QueryScope

variable {σ ε : Type} {scope : QueryScope}

/-- Two fields, one of them offered on the left and the other on the right, that an object can be
asked for under one response key, or an object inside two such fields. -/
inductive Meet (scope : QueryScope) :
    SchemaType → List Selection → List Selection → Field → Field → Prop
  | here {object : SchemaType} {left right : List Selection} {selected other : SelectedField}
      (offered : scope.Offers object left selected) (offered' : scope.Offers object right other)
      (same : selected.field.responseKey = other.field.responseKey) :
      Meet scope object left right selected.field other.field
  | inside {object type : SchemaType} {left right : List Selection}
      {selected other : SelectedField} {definition : OutputField} {field field' : Field}
      (offered : scope.Offers object left selected) (offered' : scope.Offers object right other)
      (same : selected.field.responseKey = other.field.responseKey)
      (defined : object.field? selected.field.name = some definition)
      (declared : scope.schema.get? definition.type.namedType = some type)
      (inner : Meet scope (scope.schema.runtimeType type) selected.selections other.selections
        field field') : Meet scope object left right field field'

section

variable {root object : SchemaType} {path : ResponsePath} {parent? : Option ParentField}
  {selections around : List Selection} {calls : List (ResolverCall σ ε)} {field other : Field}

/-- What meets inside some fields meets inside two of them. -/
theorem Meet.of_flatMap {parts : List SelectedField}
    (meet : scope.Meet object (parts.flatMap (·.selections)) (parts.flatMap (·.selections))
      field other) : ∃ part ∈ parts, ∃ part' ∈ parts,
        scope.Meet object part.selections part'.selections field other := by
  cases meet with
  | here offered offered' same =>
    obtain ⟨part, isPart, offered⟩ := offered.of_flatMap
    obtain ⟨part', isPart', offered'⟩ := offered'.of_flatMap
    exact ⟨part, isPart, part', isPart', .here offered offered' same⟩
  | inside offered offered' same defined declared inner =>
    obtain ⟨part, isPart, offered⟩ := offered.of_flatMap
    obtain ⟨part', isPart', offered'⟩ := offered'.of_flatMap
    exact ⟨part, isPart, part', isPart', .inside offered offered' same defined declared inner⟩

/-- Fields in one group of an object meet. -/
theorem meet_of_mem_collect {group : String × List SelectedField}
    (member : group ∈ scope.collect object around) {selected other : SelectedField}
    (inGroup : selected ∈ group.2) (inGroup' : other ∈ group.2) :
    scope.Meet object around around selected.field other.field := by
  have each := each_collect scope object around
  exact .here (each.good group member _ inGroup) (each.good group member _ inGroup')
    ((each.keyed group member _ inGroup).trans (each.keyed group member _ inGroup').symm)

/-- What meets on an object that a walk reaches meets in the query, if fields that meet there have
the same names. -/
theorem Reached.meet (reached : scope.Reached root selections calls object path parent? around)
    (named : ∀ field other, scope.Meet root selections selections field other →
      field.name = other.name) :
    ∀ {field other}, scope.Meet object around around field other →
      scope.Meet root selections selections field other := by
  induction reached with
  | root => exact id
  | @inside object type path parent? around key first others definition call outer group defined
      member visited answered declared ih =>
    intro field other meet
    obtain ⟨part, isPart, part', isPart', meet⟩ := meet.of_flatMap
    have each := each_collect scope object around
    have sameName : part.field.name = first.field.name :=
      named _ _ (ih (meet_of_mem_collect group isPart List.mem_cons_self))
    rw [visited] at declared
    refine ih (.inside (each.good _ group _ isPart) (each.good _ group _ isPart') ?_
      (sameName ▸ defined) declared meet)
    exact (each.keyed _ group _ isPart).trans (each.keyed _ group _ isPart').symm

/-- Fields that meet are fields of the query with one response key. -/
theorem Meet.mem {fields : List Field} (inFragments : ∀ fragment ∈ scope.fragments,
      Selection.fieldsOf fragment.selections ⊆ fields) {left right : List Selection}
    (meet : scope.Meet object left right field other) (within : Selection.fieldsOf left ⊆ fields)
    (within' : Selection.fieldsOf right ⊆ fields) :
    field ∈ fields ∧ other ∈ fields ∧ field.responseKey = other.responseKey := by
  induction meet with
  | here offered offered' same =>
    exact ⟨(offered.subset inFragments within).1, (offered'.subset inFragments within').1, same⟩
  | inside offered offered' same defined declared inner ih =>
    exact ih (offered.subset inFragments within).2 (offered'.subset inFragments within').2

/-- If all fields of a query with one response key are alike, then so are those that meet. -/
theorem alike_of_pairwise {alike : Field → Field → Prop} (refl : ∀ field, alike field field)
    (symm : ∀ {field other}, alike field other → alike other field)
    (pairwise : (scope.allFields selections).Pairwise
      fun field other => field.responseKey = other.responseKey → alike field other) :
    ∀ field other, scope.Meet root selections selections field other → alike field other := by
  intro field other meet
  obtain ⟨member, member', same⟩ := meet.mem (scope.fieldsOf_subset_allFields selections)
    (List.subset_append_left _ _) (List.subset_append_left _ _)
  refine List.Pairwise.forall_of_forall_of_flip (fun _ _ _ => refl _) pairwise
    (pairwise.imp fun agrees same => symm (agrees same.symm)) member member' same

end

end QueryScope

namespace Schema

open QueryScope (callsAt)

variable {σ ε : Type}

/-- The call for a group of an object is for the first field in it. -/
theorem visited_of_reached {schema : Schema} {request : Request} {prepared : PreparedRequest}
    (ready : schema.prepareRequest request =
      (.ok prepared : Except (RequestError ε) PreparedRequest)) {resolve : Resolver σ ε} {state : σ}
    {object : SchemaType} {path : ResponsePath} {parent? : Option ParentField}
    {around : List Selection} (reached : prepared.scope.Reached prepared.root
      prepared.operation.selections (schema.calls resolve request state) object path parent? around)
    {group : String × List SelectedField} (member : group ∈ prepared.scope.collect object around)
    {call : ResolverCall σ ε} (isCall : call ∈ callsAt (schema.calls resolve request state) path)
    (sameKey : call.visit.responseKey = group.1) : ∃ first others definition,
      group.2 = first :: others ∧ first.field.name ≠ "__typename" ∧
      object.field? first.field.name = some definition ∧
      call.visit = prepared.scope.visit object definition group.1 first.field path parent? := by
  obtain ⟨forest, made, walked, _⟩ := asked_of_ready ready resolve state
  rw [made] at reached isCall
  obtain ⟨_, below, asked, _, _, onTop, _⟩ := reached.asked walked
  rw [onTop] at isCall
  obtain ⟨key, first, others, definition, group', proper, defined, visited⟩ :=
    asked.visited isCall
  -- The group of the call is the one of its key.
  obtain ⟨_, fields⟩ := group
  obtain rfl : key = _ := (congrArg FieldVisit.responseKey visited).symm.trans sameKey
  have isGroup := (QueryScope.each_collect _ _ _).eq_of_key member group'
  exact ⟨first, others, definition, isGroup, proper, defined, visited⟩

/-- **No argument is lost where fields agree.** If fields of a request that can meet under one
response key have the same name and the same arguments, then so do all fields in a group of an
object that the walk reaches, and the call for the group has the arguments that each of them
writes. -/
theorem merged_fields_agree (schema : Schema) (resolve : Resolver σ ε) (request : Request)
    (state : σ) {prepared : PreparedRequest} (ready : schema.prepareRequest request =
      (.ok prepared : Except (RequestError ε) PreparedRequest))
    (agree : ∀ field other, prepared.scope.Meet prepared.root prepared.operation.selections
      prepared.operation.selections field other → field.Agrees other) :
    ∀ {object path parent? around}, prepared.scope.Reached prepared.root
      prepared.operation.selections (schema.calls resolve request state) object path parent?
        around →
      ∀ group ∈ prepared.scope.collect object around,
        (∀ selected ∈ group.2, ∀ other ∈ group.2, selected.field.Agrees other.field) ∧
        ∀ call ∈ callsAt (schema.calls resolve request state) path,
          call.visit.responseKey = group.1 → ∀ selected ∈ group.2,
            object.field? selected.field.name = some call.visit.definition ∧
            call.visit.arguments = Input.arguments schema prepared.scope.variableValues
              call.visit.definition.arguments selected.field := by
  intro object path parent? around reached group member
  have agreeing : ∀ selected ∈ group.2, ∀ other ∈ group.2, selected.field.Agrees other.field :=
    fun selected inGroup other inGroup' => agree _ _ <|
      reached.meet (fun field other meet => (agree field other meet).name)
        (QueryScope.meet_of_mem_collect member inGroup inGroup')
  refine ⟨agreeing, fun call isCall sameKey selected inGroup => ?_⟩
  obtain ⟨first, others, definition, isGroup, _, defined, visited⟩ :=
    visited_of_reached ready reached member isCall sameKey
  have same := agreeing selected inGroup first (isGroup ▸ List.mem_cons_self)
  obtain ⟨document, _, prepares⟩ := prepares_of_prepareRequest ready
  rw [visited]
  refine ⟨same.name ▸ defined, ?_⟩
  rw [same.arguments_eq, ← prepares.sameSchema]
  rfl

/-- A schema of people, who can be filtered and have friends. -/
def filteredSource : String :=
  "type Query \x7b people(where: WhereClause): [Person] \x7d
   type Person \x7b name: String friends: [Person] \x7d"

/-- A request for the people of a name, whose name is asked for again in a fragment. -/
def filteredRequest : Request where
  query := "\x7b people(where: \x7bconstraints: [
      \x7boperand: \"name\", operator: \"=\", expression: \"Ada\"\x7d]\x7d) \x7b name ...P \x7d \x7d
    fragment P on Person \x7b name friends \x7b name \x7d friends \x7b name \x7d \x7d"
  operation? := none
  variableValues := []

/-- A request for all people and, under the same key, for the people of a name. -/
def unfilteredRequest : Request where
  query := "\x7b people \x7b name \x7d
    people(where: \x7bconstraints: [
      \x7boperand: \"name\", operator: \"=\", expression: \"Ada\"\x7d]\x7d) \x7b name \x7d \x7d"
  operation? := none
  variableValues := []

instance (field other : Field) :
    Decidable (field.name = other.name ∧ field.arguments = [] ∧ other.arguments = []) :=
  decidable_of_iff (field.name = other.name ∧ field.arguments.isEmpty ∧ other.arguments.isEmpty)
    (by simp)

/-- What is asked again for a person of a name and for the friends is asked without arguments. -/
theorem merged_fields_agree_filtered : ∃ (schema : Schema) (prepared : PreparedRequest),
    compileWithFilters [filteredSource] = .ok schema ∧
      schema.prepareRequest filteredRequest =
        (.ok prepared : Except (RequestError Unit) PreparedRequest) ∧
      (∀ field other, prepared.scope.Meet prepared.root prepared.operation.selections
        prepared.operation.selections field other → field.Agrees other) ∧
      (schema.calls friendsResolver filteredRequest ()).map
        (fun call => (call.visit.path.text, Members.names call.visit.arguments)) =
          [("/people[0]", ["where"]), ("/people[0]/name", []), ("/people[0]/friends[0]", []),
            ("/people[0]/friends[0]/name", [])] ∧
      ∀ {object path parent? around}, prepared.scope.Reached prepared.root
        prepared.operation.selections (schema.calls friendsResolver filteredRequest ()) object path
          parent? around →
        ∀ group ∈ prepared.scope.collect object around,
          (∀ selected ∈ group.2, ∀ other ∈ group.2, selected.field.Agrees other.field) ∧
          ∀ call ∈ callsAt (schema.calls friendsResolver filteredRequest ()) path,
            call.visit.responseKey = group.1 → ∀ selected ∈ group.2,
              object.field? selected.field.name = some call.visit.definition ∧
              call.visit.arguments = Input.arguments schema prepared.scope.variableValues
                call.visit.definition.arguments selected.field := by
  have ran : (compileWithFilters [filteredSource]).toOption.bind (fun schema =>
      (schema.prepareRequest filteredRequest : Except (RequestError Unit) _).toOption.map
        fun prepared =>
          (decide ((prepared.scope.allFields prepared.operation.selections).Pairwise
            fun field other => field.responseKey = other.responseKey →
              field.name = other.name ∧ field.arguments = [] ∧ other.arguments = []),
          (schema.calls friendsResolver filteredRequest ()).map
            fun call => (call.visit.path.text, Members.names call.visit.arguments))) =
      some (true, [("/people[0]", ["where"]), ("/people[0]/name", []),
        ("/people[0]/friends[0]", []), ("/people[0]/friends[0]/name", [])]) := by
    decide +kernel
  obtain ⟨schema, isCompiled, ran⟩ := Option.bind_eq_some_iff.mp ran
  obtain ⟨prepared, isPrepared, same⟩ := Option.map_eq_some_iff.mp ran
  obtain ⟨pairwise, called⟩ := Prod.mk.inj same
  have ready := Except.of_toOption_eq_some isPrepared
  have agree : ∀ field other, prepared.scope.Meet prepared.root prepared.operation.selections
      prepared.operation.selections field other → field.Agrees other :=
    QueryScope.alike_of_pairwise .refl .symm <| (of_decide_eq_true pairwise).imp
      fun alike sameKey => .of_isEmpty (alike sameKey).1 (alike sameKey).2.1 (alike sameKey).2.2
  exact ⟨schema, prepared, Except.of_toOption_eq_some isCompiled, ready, agree, called,
    merged_fields_agree schema friendsResolver filteredRequest () ready agree⟩

/-- The filter of the second of two fields with one response key is lost: they come into one group,
and the one call for the group has no arguments. -/
theorem merged_filter_lost : ∃ (schema : Schema) (prepared : PreparedRequest),
    compileWithFilters [filteredSource] = .ok schema ∧
      schema.prepareRequest unfilteredRequest =
        (.ok prepared : Except (RequestError Unit) PreparedRequest) ∧
      (schema.calls friendsResolver unfilteredRequest ()).map
        (fun call => (call.visit.path.text, Members.names call.visit.arguments)) =
          [("/people[0]", []), ("/people[0]/name", [])] ∧
      ∃ group ∈ prepared.scope.collect prepared.root prepared.operation.selections,
        ∃ selected ∈ group.2, ∃ other ∈ group.2,
          selected.field.argument? "where" = none ∧ other.field.argument? "where" ≠ none := by
  have ran : (compileWithFilters [filteredSource]).toOption.bind (fun schema =>
      (schema.prepareRequest unfilteredRequest : Except (RequestError Unit) _).toOption.map
        fun prepared =>
          ((prepared.scope.collect prepared.root prepared.operation.selections).any fun group =>
            group.2.any fun selected => group.2.any fun other =>
              (selected.field.argument? "where").isNone && (other.field.argument? "where").isSome,
          (schema.calls friendsResolver unfilteredRequest ()).map
            fun call => (call.visit.path.text, Members.names call.visit.arguments))) =
      some (true, [("/people[0]", []), ("/people[0]/name", [])]) := by
    decide +kernel
  obtain ⟨schema, isCompiled, ran⟩ := Option.bind_eq_some_iff.mp ran
  obtain ⟨prepared, isPrepared, same⟩ := Option.map_eq_some_iff.mp ran
  obtain ⟨found, called⟩ := Prod.mk.inj same
  obtain ⟨group, member, found⟩ := List.any_eq_true.mp found
  obtain ⟨selected, inGroup, found⟩ := List.any_eq_true.mp found
  obtain ⟨other, inGroup', found⟩ := List.any_eq_true.mp found
  obtain ⟨none, some⟩ := Bool.and_eq_true_iff.mp found
  refine ⟨schema, prepared, Except.of_toOption_eq_some isCompiled,
    Except.of_toOption_eq_some isPrepared, called, group, member, selected, inGroup, other,
    inGroup', Option.isNone_iff_eq_none.mp none, Option.isSome_iff_ne_none.mp some⟩

end Schema

end TraversalQuery
