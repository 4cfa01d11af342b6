import TraversalQuery.Proofs.Planning.Readable
import TraversalQuery.Proofs.Planning.Refusals
import TraversalQuery.Proofs.Response.Arguments
import TraversalQuery.Proofs.Response.Standing

/-!
# Filters that are read

What the checks let pass for a filter can be read, on some conditions: the schema leaves the types
of filters as they are read, fields take filters where they are resolved as where they are selected,
and what is written and provided is plain. Then no request fails because of the form of a filter.
-/

namespace TraversalQuery

open FilterClause (argumentName)
open TraversalQuery.Filter (clauseType)

/-- A query that writes filters only where a field takes one. -/
def PreparedRequest.FiltersDeclared (prepared : PreparedRequest) : Prop :=
  ∀ parent field, prepared.Selects parent field → (field.argument? argumentName).isSome = true →
    ∀ declared ∈ parent.field? field.name, ∀ input ∈ declared.argument? argumentName,
      input.type.nullable = .named clauseType.name

/-- A query whose filters are plain, given the values that are provided for variables. -/
def PreparedRequest.FiltersPlain (prepared : PreparedRequest) (provided : Members) : Prop :=
  ∀ parent field, prepared.Selects parent field → ∀ literal ∈ field.argument? argumentName,
    literal.isPlain prepared.scope.schema (VariableDefinition.arePlainAt prepared.scope.schema
      provided prepared.operation.variableDefinitions) (.named clauseType.name) = true

namespace QueryModel

variable {model : QueryModel} {sources : List String} {request : Request}
  {prepared : PreparedRequest}

/-- What a planner gets for a filter is readable. -/
theorem readable_of_call (compiled : Schema.compileWithFilters sources = .ok model.schema)
    (preserves : model.schema.PreservesFilters)
    (ready : model.schema.prepareRequest request =
      (.ok prepared : Except (RequestError PlanError) PreparedRequest))
    (declared : prepared.FiltersDeclared) (plain : prepared.FiltersPlain request.variableValues)
    {call : ResolverCall Planner PlanError} (isCall : call ∈ model.calls request) {filter : Json}
    (taken : ∀ input ∈ call.visit.definition.arguments, input.name = argumentName →
      model.schema.TakesFilter prepared.scope.variableValues filter input)
    (held : Members.get? argumentName call.visit.arguments = some filter) :
    Filter.Readable (.named clauseType.name) filter := by
  have made : model.schema.Compiled := ⟨sources, .inr compiled⟩
  obtain ⟨accepted, admits, given⟩ := Schema.accepted_of_prepareRequest made ready
  obtain ⟨document, _, prepares⟩ := Schema.prepares_of_prepareRequest ready
  obtain ⟨parent, field, output, selects, isField, arguments, visited⟩ :=
    Schema.selects_of_call made ready _ _ call isCall
  have describes := Schema.describesFilters_of_preserves compiled preserves
  rw [visited] at held
  rw [← prepares.sameSchema] at describes given taken held
  refine Schema.readable_argument describes admits given (fun literal isLiteral => ?_) taken held
  refine ⟨?_, plain parent field selects literal isLiteral⟩
  obtain ⟨argument, written, named, rfl⟩ := Field.exists_of_argument? isLiteral
  obtain ⟨input, found, admitted⟩ := arguments.each argument written
  rw [named] at found
  rw [← declared parent field selects (by rw [isLiteral]; rfl) output isField input found]
  exact admitted.of_nullable

/-- **Filters can be read.** -/
theorem plan_reads_filters (compiled : Schema.compileWithFilters sources = .ok model.schema)
    (preserves : model.schema.PreservesFilters)
    (ready : model.schema.prepareRequest request =
      (.ok prepared : Except (RequestError PlanError) PreparedRequest))
    (declared : prepared.FiltersDeclared) (plain : prepared.FiltersPlain request.variableValues)
    (taken : ∀ call ∈ model.calls request, ∀ filter,
      Planner.filterValue? call.visit.arguments = some filter →
        ∀ input ∈ call.visit.definition.arguments, input.name = argumentName →
          model.schema.TakesFilter prepared.scope.variableValues filter input)
    (path : String) (reason : Json.Mismatch) :
    model.plan request ≠ .error (.malformedFilter path reason) := by
  intro planned
  obtain ⟨call, isCall, refused⟩ | ⟨fault, same⟩ | ⟨problems, same⟩ | same | same :=
    refused_of_plan_eq_error planned
  · generalize isError : PlanError.malformedFilter path reason = error at refused
    cases refused with
    | @unreadable filter _ isFilter fails =>
      obtain ⟨held, proper⟩ := Option.filter_eq_some_iff.mp isFilter
      have readable := readable_of_call compiled preserves ready declared plain isCall
        (taken call isCall filter isFilter) held
      obtain ⟨clause, decoded⟩ :=
        readable.decode_clause (Json.ne_null_of_isNull (by simpa using proper))
      rcases Planner.of_decode_eq_error fails with ⟨other, refused, _⟩ | ⟨operator, same⟩
      · cases decoded.symm.trans refused
      · cases isError.trans same
    | _ => cases isError
  all_goals cases same

/-- A schema of people, with a default for their filter, and of the friends of people. -/
def clausesSources : List String :=
  ["type Query \x7b people(where: WhereClause = \x7bconstraints: []\x7d): [Person] \x7d",
    "type Person \x7b name: String friends(where: WhereClause!): [Person] \x7d"]

/-- A request with a filter by default, one that is mixed and one that is provided. -/
def clausesRequest : Request where
  query := "query($c: WhereClause!, $w: String) \x7b people \x7b friends(where: \x7bconstraints:
    \x7boperand: \"name\", operator: \"like\", expression: $w\x7d\x7d)
    \x7b friends(where: $c) \x7b name \x7d \x7d \x7d \x7d"
  operation? := none
  variableValues :=
    [("c", .object [("operator", .string "OR"), ("constraints", .array [])]), ("w", .string "a")]

/-- The filters of the calls for a request, as text. -/
def filterTexts (model : QueryModel) (request : Request) : List String :=
  (model.calls request).filterMap fun call =>
    (Planner.filterValue? call.visit.arguments).map Json.compact

/-- Whether a field with an argument for filters declares it as such, in case it has it. -/
def declaresFilter (field : OutputField) : Bool :=
  (field.argument? argumentName).all fun input => input.type.nullable = .named clauseType.name

/-- Filters are written where a field takes one if all fields take them. -/
theorem filtersDeclared_of_all (isRoot : prepared.root ∈ prepared.scope.schema.types)
    (all : ∀ type ∈ prepared.scope.schema.types, ∀ field ∈ type.fields,
      declaresFilter field = true) : prepared.FiltersDeclared := by
  intro parent field selects _ declared isField input isInput
  have declares := all parent (selects.mem isRoot).1 declared
    (SchemaType.mem_fields_of_field? isField)
  rw [declaresFilter, isInput] at declares
  exact of_decide_eq_true declares

/-- The filters of a request are read, whatever they are made of. -/
theorem plan_reads_filters_clauses : ∃ (model : QueryModel) (prepared : PreparedRequest),
    Schema.compileWithFilters clausesSources = .ok model.schema ∧
      model.schema.PreservesFilters ∧
      model.schema.prepareRequest clausesRequest =
        (.ok prepared : Except (RequestError PlanError) PreparedRequest) ∧
      prepared.FiltersDeclared ∧ prepared.FiltersPlain clausesRequest.variableValues ∧
      (∀ call ∈ model.calls clausesRequest, ∀ filter,
        Planner.filterValue? call.visit.arguments = some filter →
          ∀ input ∈ call.visit.definition.arguments, input.name = argumentName →
            model.schema.TakesFilter prepared.scope.variableValues filter input) ∧
      model.filterTexts clausesRequest =
        ["\x7b\"constraints\":[],\"operator\":\"AND\"\x7d",
          "\x7b\"constraints\":[\x7b\"expression\":\"a\",\"operand\":\"name\"," ++
            "\"operator\":\"like\"\x7d],\"operator\":\"AND\"\x7d",
          "\x7b\"operator\":\"OR\",\"constraints\":[]\x7d"] ∧
      ∀ path reason, model.plan clausesRequest ≠ .error (.malformedFilter path reason) := by
  have ran : (derive clausesSources "people").toOption.bind (fun model =>
      (model.schema.prepareRequest clausesRequest :
          Except (RequestError PlanError) _).toOption.map fun prepared =>
        (decide (model.schema.PreservesFilters ∧
            (∀ type ∈ prepared.scope.schema.types, ∀ field ∈ type.fields,
              declaresFilter field = true) ∧
            (∀ field ∈ prepared.scope.allFields prepared.operation.selections,
              ∀ literal ∈ field.argument? argumentName, literal.isPlain prepared.scope.schema
                (VariableDefinition.arePlainAt prepared.scope.schema
                  clausesRequest.variableValues prepared.operation.variableDefinitions)
                (.named clauseType.name) = true) ∧
            ∀ call ∈ model.calls clausesRequest, ∀ input ∈ call.visit.definition.arguments,
              input.type.nullable = .named clauseType.name ∧
                (model.schema.get? input.type.namedType).isSome = true ∧
                ∀ literal ∈ input.default?,
                  (Typing.literalProblems ⟨model.schema, [], []⟩ input.type "" literal).isEmpty ∧
                  literal.isPlain model.schema (fun _ _ => false) (.named clauseType.name) = true),
          model.filterTexts clausesRequest)) =
      some (true,
        ["\x7b\"constraints\":[],\"operator\":\"AND\"\x7d",
          "\x7b\"constraints\":[\x7b\"expression\":\"a\",\"operand\":\"name\"," ++
            "\"operator\":\"like\"\x7d],\"operator\":\"AND\"\x7d",
          "\x7b\"operator\":\"OR\",\"constraints\":[]\x7d"]) := by
    decide +kernel
  obtain ⟨model, derived, ran⟩ := Option.bind_eq_some_iff.mp ran
  obtain ⟨prepared, isPrepared, same⟩ := Option.map_eq_some_iff.mp ran
  obtain ⟨checked, texts⟩ := Prod.mk.inj same
  obtain ⟨preserves, declares, plain, takes⟩ := of_decide_eq_true checked
  have compiled := compiled_of_derive (Except.of_toOption_eq_some derived)
  have made : model.schema.Compiled := ⟨_, .inr compiled⟩
  have ready := Except.of_toOption_eq_some isPrepared
  have isRoot := (Schema.checked_of_prepareRequest ready).root_mem_types
  have declared := filtersDeclared_of_all isRoot declares
  have plainly : prepared.FiltersPlain clausesRequest.variableValues :=
    fun parent field selects => plain field (selects.mem isRoot).2
  have taken : ∀ call ∈ model.calls clausesRequest, ∀ filter,
      Planner.filterValue? call.visit.arguments = some filter →
        ∀ input ∈ call.visit.definition.arguments, input.name = argumentName →
          model.schema.TakesFilter prepared.scope.variableValues filter input := by
    intro call isCall filter _ input member _
    obtain ⟨isClause, known, defaults⟩ := takes call isCall input member
    refine ⟨isClause, fun _ literal isLiteral => ?_,
      fun _ literal isLiteral => (defaults literal isLiteral).2⟩
    exact (Typing.Scope.literalProblems_eq_nil_iff made literal known).mp
      (List.isEmpty_iff.mp (defaults literal isLiteral).1)
  exact ⟨model, prepared, compiled, preserves, ready, declared, plainly, taken, texts,
    plan_reads_filters compiled preserves ready declared plainly taken⟩

/-- A schema of people who can be filtered. -/
def filteredPeople : String :=
  "type Query \x7b people(where: WhereClause): [Person] \x7d type Person \x7b name: String \x7d"

/-- A request with one constraint where a list of them is declared. -/
def singleRequest : Request where
  query := "query($c: [Constraint!]!) \x7b " ++
    "people(where: \x7bconstraints: $c\x7d) \x7b name \x7d \x7d"
  operation? := none
  variableValues := [("c", .object [("operand", .string "name"), ("operator", .string "like"),
    ("expression", .string "a")])]

/-- Where there is a filter that cannot be read, and why. -/
def misread? : Except PlanError Plan → Option (String × String)
  | .error (.malformedFilter path reason) => some (path, reason.message)
  | _ => none

theorem of_misread?_eq_some {answer : Except PlanError Plan} {path message : String}
    (found : misread? answer = some (path, message)) :
    ∃ reason, answer = .error (.malformedFilter path reason) ∧ reason.message = message := by
  unfold misread? at found
  split at found
  · rename_i reason
    obtain ⟨rfl, message⟩ := Prod.mk.inj (Option.some.inj found)
    exact ⟨reason, rfl, message⟩
  · cases found

/-- A single constraint that is provided for a list is accepted and cannot be read. -/
theorem single_constraint_misread : ∃ (model : QueryModel) (prepared : PreparedRequest)
    (reason : Json.Mismatch), Schema.compileWithFilters [filteredPeople] = .ok model.schema ∧
      model.schema.prepareRequest singleRequest =
        (.ok prepared : Except (RequestError PlanError) PreparedRequest) ∧
      prepared.FiltersDeclared ∧
      model.plan singleRequest = .error (.malformedFilter "/people[0](where)" reason) ∧
      reason.message = "invalid type: map, expected a sequence" := by
  have ran : (derive [filteredPeople] "people").toOption.bind (fun model =>
      (model.schema.prepareRequest singleRequest :
          Except (RequestError PlanError) _).toOption.map fun prepared =>
        (decide (∀ type ∈ prepared.scope.schema.types, ∀ field ∈ type.fields,
            declaresFilter field = true), misread? (model.plan singleRequest))) =
      some (true, some ("/people[0](where)", "invalid type: map, expected a sequence")) := by
    decide +kernel
  obtain ⟨model, derived, ran⟩ := Option.bind_eq_some_iff.mp ran
  obtain ⟨prepared, isPrepared, same⟩ := Option.map_eq_some_iff.mp ran
  obtain ⟨declares, refused⟩ := Prod.mk.inj same
  obtain ⟨reason, planned, message⟩ := of_misread?_eq_some refused
  have ready := Except.of_toOption_eq_some isPrepared
  have isRoot := (Schema.checked_of_prepareRequest ready).root_mem_types
  have declared := filtersDeclared_of_all isRoot (of_decide_eq_true declares)
  exact ⟨model, prepared, reason, compiled_of_derive (Except.of_toOption_eq_some derived), ready,
    declared, planned, message⟩

end QueryModel

end TraversalQuery
