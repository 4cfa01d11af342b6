import TraversalQuery.Proofs.Ontology.Coverage
import TraversalQuery.Proofs.Planning.Crossings
import TraversalQuery.Proofs.Planning.Refusals
import TraversalQuery.Proofs.Schema.Compiled

/-!
# Plans with a derived ontology

The ontology of a schema has the names that planning needs: no field is refused for want of a name
as long as it asks for what the schema is about. A field with an object inside another object is a
relationship in it. Fields of one name share their relationship, whatever they lead to, so the type
of a relationship tells what it leads to only if they all lead to the same.
-/

namespace TraversalQuery

/-- What a field asks for belongs to what a schema is about: the object that it leads to, or else
the one whose value it is. -/
def FieldVisit.InDomain (schema : Schema) (visit : FieldVisit) : Prop :=
  ∀ output, visit.output? = some output →
    (output.kind.isComposite = true → schema.isDomainType output = true) ∧
      (output.kind.isLeaf = true → schema.isDomainType visit.parentType = true)

instance (schema : Schema) (visit : FieldVisit) : Decidable (visit.InDomain schema) :=
  inferInstanceAs (Decidable (∀ output, visit.output? = some output → _))

namespace QueryModel

variable {sources : List String} {name : String} {model : QueryModel} {request : Request}
  {plan : Plan}

/-- The ontology of a derived model is derived from its schema. -/
theorem derivedFrom_of_derive (derived : derive sources name = .ok model) :
    model.ontology.DerivedFrom model.schema := by
  obtain ⟨schema, _, derived⟩ := Except.of_bind_eq_ok derived
  obtain ⟨ontology, made, derived⟩ := Except.of_bind_eq_ok derived
  rw [← Except.ok.inj derived]
  exact Ontology.derivedFrom_of_ofSchema (Except.of_mapError_eq_ok made)

/-- The fields that a request asks for are in the schema. -/
theorem known_of_calls (model : QueryModel) (request : Request) :
    ∀ call ∈ model.calls request, call.visit.Known model.schema := by
  obtain ⟨forest, made, arranged, _⟩ := model.calls_arranged request
  rw [made]
  exact arranged.known

/-- A derived ontology lacks nothing that fields in the domain need. -/
theorem not_refused_of_inDomain (derived : model.ontology.DerivedFrom model.schema)
    {visit : FieldVisit} (known : visit.Known model.schema) (domain : visit.InDomain model.schema)
    (element : OntologyElement) (missing path : String) :
    ¬visit.Refused model.ontology (.notInOntology element missing path) := by
  intro refused
  generalize isError : PlanError.notInOntology element missing path = error at refused
  cases refused with
  | building => contradiction
  | operands => contradiction
  | unreadable isValue fails =>
    rcases Planner.of_decode_eq_error fails with ⟨reason, _, same⟩ | ⟨operator, same⟩ <;>
      exact PlanError.noConfusion (isError.trans same)
  | @entity output isOutput composite missing =>
    have isType := Schema.mem_of_get? (known.output.symm.trans isOutput)
    obtain ⟨entity, found⟩ :=
      derived.exists_entity? isType composite ((domain output isOutput).1 composite)
    rw [found] at missing
    contradiction
  | @property output isOutput leaf missing =>
    have isField : visit.definition ∈ model.schema.leafFields visit.parentType := by
      refine List.mem_filter.mpr ⟨known.field, ?_⟩
      rw [Schema.kindOf?, ← known.output, isOutput]
      exact leaf
    obtain ⟨property, found⟩ :=
      derived.exists_property? known.type ((domain output isOutput).2 leaf) isField
    rw [found] at missing
    contradiction

/-- A field that is planned and leads to an object leads to one of a type that is asked about. -/
theorem mem_entityNames_of_part? (derived : model.ontology.DerivedFrom model.schema)
    {visit : FieldVisit} (known : visit.Known model.schema) (composite : visit.IsComposite)
    {part : Part} (isPart : visit.part? model.ontology = some part) :
    visit.definition.type.namedType ∈ model.schema.entityNames := by
  obtain ⟨relation?, entity, filter?, rfl⟩ := FieldVisit.entered_of_isComposite composite isPart
  obtain ⟨output, type, isOutput, _, found, _, _⟩ := FieldVisit.of_part?_eq_entered isPart
  have isEntity : type ∈ Ontology.entitiesOf model.schema :=
    derived.entities ▸ List.mem_of_find?_eq_some found
  obtain ⟨declared, isType, named, composite, domain⟩ := Ontology.exists_of_mem_entitiesOf isEntity
  have isName : type.name = output.name := by simpa using List.find?_some found
  have isNamed := Schema.name_of_get? (known.output.symm.trans isOutput)
  rw [← isNamed, ← isName, ← named]
  exact List.mem_map_of_mem (List.mem_filter.mpr ⟨isType, by rw [composite, domain]; rfl⟩)

/-- A field with an object inside an object that is asked about crosses the relationship of its name
forward. -/
theorem exists_crossing? (derived : model.ontology.DerivedFrom model.schema) {visit : FieldVisit}
    (known : visit.Known model.schema) (composite : visit.IsComposite)
    (inside : visit.parent? ≠ none) (object : visit.parentType.kind = .object)
    (domain : model.schema.isDomainType visit.parentType = true) {part : Part}
    (isPart : visit.part? model.ontology = some part) :
    ∃ rType, visit.crossing? model.ontology =
      some ⟨rType, .forward, visit.definition.name⟩ := by
  have isField : (visit.parentType, visit.definition) ∈ Ontology.relationFields model.schema :=
    Ontology.mem_relationFields.mpr ⟨Ontology.mem_domainTypes.mpr ⟨known.type, object, domain⟩,
      known.field, mem_entityNames_of_part? derived known composite isPart⟩
  obtain ⟨relation, found, directional, pair⟩ := derived.exists_forward isField
  obtain ⟨parent, isParent⟩ := Option.ne_none_iff_exists'.mp inside
  have forward : relation.directionFrom visit.parentType.name = .forward := by
    rw [RelationshipType.directionFrom, directional, Option.isNone_eq_false_iff.mpr pair]
    rfl
  refine ⟨relation.rType, ?_⟩
  rw [FieldVisit.crossing?_eq composite isPart]
  unfold FieldVisit.relationStep?
  rw [isParent, found]
  dsimp only
  rw [forward]

/-- **Derived ontologies cover their schemas.** A query that asks for nothing but what the schema is
about never lacks a name. The steps over relationships in a plan are those of the fields that cross
one, each field with its own and in their order; and every field with an object that stands inside
an object of a type that is asked about crosses the relationship of its name forward. -/
theorem derived_ontology_covers (derived : derive sources name = .ok model)
    (request : Request) :
    ((∀ call ∈ model.calls request, call.visit.InDomain model.schema) →
      ∀ element missing path,
        model.plan request ≠ .error (.notInOntology element missing path)) ∧
    ∀ plan, model.plan request = .ok plan →
      plan.relations = (model.calls request).filterMap (·.visit.crossing? model.ontology) ∧
      ∀ call ∈ model.calls request, call.visit.IsComposite → call.visit.parent? ≠ none →
        call.visit.parentType.kind = .object →
        model.schema.isDomainType call.visit.parentType = true →
        ∃ rType, call.visit.crossing? model.ontology =
          some ⟨rType, .forward, call.visit.definition.name⟩ := by
  have names := derivedFrom_of_derive derived
  have compiled := compiled_of_derive derived
  refine ⟨fun domain element missing path planned => ?_, fun plan planned => ⟨?_, ?_⟩⟩
  · rcases refused_of_plan_eq_error planned with ⟨call, member, refused⟩ | ⟨_, same⟩ | ⟨_, same⟩ |
      same | same
    · exact not_refused_of_inDomain names (known_of_calls model request call member)
        (domain call member) element missing path refused
    all_goals exact PlanError.noConfusion same
  · exact relations_of_plan compiled planned
  · intro call member composite inside object domain
    obtain ⟨part, isPart⟩ := exists_part?_of_plan compiled planned call member
    exact exists_crossing? names (known_of_calls model request call member) composite inside object
      domain isPart

/-- A schema of people who have names and friends. -/
def guestsSource : String :=
  "type Query \x7b guests: [Named] hosts: [Person] \x7d
   interface Named \x7b name: String \x7d
   type Person implements Named \x7b name: String friends: [Person] \x7d"

/-- A request for guests by their interface, and for the friends of hosts. -/
def guestsRequest : Request where
  query := "\x7b guests \x7b name \x7d hosts \x7b name friends \x7b name \x7d \x7d \x7d"
  operation? := none
  variableValues := []

/-- Of fields that ask for people only, the one inside another crosses a relationship. -/
theorem derived_ontology_covers_guests : ∃ (model : QueryModel) (plan : Plan),
    derive [guestsSource] "guests" = .ok model ∧ model.plan guestsRequest = .ok plan ∧
      (∀ call ∈ model.calls guestsRequest, call.visit.InDomain model.schema) ∧
      (∀ element missing path,
        model.plan guestsRequest ≠ .error (.notInOntology element missing path)) ∧
      plan.relations = [⟨"has_Person", .forward, "friends"⟩] ∧
      plan.relations =
        (model.calls guestsRequest).filterMap (·.visit.crossing? model.ontology) ∧
      ∀ call ∈ model.calls guestsRequest, call.visit.IsComposite → call.visit.parent? ≠ none →
        call.visit.parentType.kind = .object →
        model.schema.isDomainType call.visit.parentType = true →
        ∃ rType, call.visit.crossing? model.ontology =
          some ⟨rType, .forward, call.visit.definition.name⟩ := by
  have ran : (derive [guestsSource] "guests").toOption.any (fun model =>
      decide (∀ call ∈ model.calls guestsRequest, call.visit.InDomain model.schema) &&
        (model.plan guestsRequest).toOption.any fun plan =>
          plan.relations == [⟨"has_Person", .forward, "friends"⟩]) = true := by
    decide +kernel
  obtain ⟨model, made, holds⟩ := (Option.any_eq_true _ _).mp ran
  obtain ⟨domain, made'⟩ := Bool.and_eq_true_iff.mp holds
  obtain ⟨plan, planned, relations⟩ := (Option.any_eq_true _ _).mp made'
  have derived := Except.of_toOption_eq_some made
  have planned := Except.of_toOption_eq_some planned
  have domain := of_decide_eq_true domain
  obtain ⟨never, drawn⟩ := derived_ontology_covers derived guestsRequest
  exact ⟨model, plan, derived, planned, domain, never domain, beq_iff_eq.mp relations,
    drawn plan planned⟩

/-- **Relationships are typed by the first field of their name.** A step over a relationship leads
on to an entity and to nothing else. The entity is the one that a field of the name of the step
leads to; the type of the relationship is that of the first such field of the schema. So it is that
of the entity if all fields of the name agree on it. -/
theorem derived_relation_type (derived : derive sources name = .ok model)
    (planned : model.plan request = .ok plan) {id : NodeId} {step : RelationStep}
    {next? : Option NodeId} (present : plan.node? id = some (.relation step next?)) :
    ∃ child entity inner?, next? = some child ∧ plan.children id = [child] ∧
      plan.node? child = some (.entity entity inner?) ∧ entity.tag = step.tag ∧
      (∃ call ∈ model.calls request, call.visit.definition.name = step.tag ∧
        call.visit.definition.type.namedType = entity.typeName) ∧
      (∃ object field, (Ontology.relationFields model.schema).find?
          (fun (_, field) => field.name == step.tag) = some (object, field) ∧
        step.relationType = Ontology.relationType field.type.namedType) ∧
      ((∀ object field, (object, field) ∈ Ontology.relationFields model.schema →
          field.name = step.tag → Ontology.relationType field.type.namedType =
            Ontology.relationType entity.typeName) →
        step.relationType = Ontology.relationType entity.typeName) := by
  have compiled := compiled_of_derive derived
  obtain ⟨call, member, entity, filter?, isPart, child, inner?, leads, children, isEntity⟩ :=
    relation_leads_of_plan compiled planned present
  obtain ⟨output, type, isOutput, _, found, isStep, rfl⟩ := FieldVisit.of_part?_eq_entered isPart
  have known := known_of_calls model request call member
  have named : type.name = output.name := by simpa using List.find?_some found
  have target : call.visit.definition.type.namedType = type.name :=
    (Schema.name_of_get? (known.output.symm.trans isOutput)).symm.trans named.symm
  unfold FieldVisit.relationStep? at isStep
  split at isStep
  · rename_i parent relation _ isRelation
    obtain rfl := Option.some.inj isStep
    obtain ⟨object, field, isFirst, typed⟩ :=
      (derivedFrom_of_derive derived).rType_eq isRelation
    refine ⟨child, _, inner?, leads, children, isEntity, rfl, ⟨call, member, rfl, target⟩,
      ⟨object, field, isFirst, typed⟩, fun agree => ?_⟩
    exact typed.trans (agree object field (List.mem_of_find?_eq_some isFirst)
      (by simpa using List.find?_some isFirst))
  · contradiction

/-- In the plan for guests and hosts the step over friendship leads to a person. -/
theorem derived_relation_type_guests : ∃ (model : QueryModel) (plan : Plan),
    derive [guestsSource] "guests" = .ok model ∧ model.plan guestsRequest = .ok plan ∧
      plan.node? 8 = some (.relation ⟨"has_Person", .forward, "friends"⟩ (some 9)) ∧
      ∃ child entity inner?, some 9 = some child ∧ plan.children 8 = [child] ∧
        plan.node? child = some (.entity entity inner?) ∧ entity.tag = "friends" ∧
        (∃ call ∈ model.calls guestsRequest, call.visit.definition.name = "friends" ∧
          call.visit.definition.type.namedType = entity.typeName) ∧
        (∃ object field, (Ontology.relationFields model.schema).find?
            (fun (_, field) => field.name == "friends") = some (object, field) ∧
          "has_Person" = Ontology.relationType field.type.namedType) ∧
        ((∀ object field, (object, field) ∈ Ontology.relationFields model.schema →
            field.name = "friends" → Ontology.relationType field.type.namedType =
              Ontology.relationType entity.typeName) →
          "has_Person" = Ontology.relationType entity.typeName) := by
  have ran : ((derive [guestsSource] "guests").bind (·.plan guestsRequest)).toOption.map
      (·.node? 8) = some (some (.relation ⟨"has_Person", .forward, "friends"⟩ (some 9))) := by
    decide +kernel
  obtain ⟨plan, planned, present⟩ := Option.map_eq_some_iff.mp ran
  obtain ⟨model, derived, planned⟩ := Except.of_bind_eq_ok (Except.of_toOption_eq_some planned)
  exact ⟨model, plan, derived, planned, present,
    derived_relation_type derived planned present⟩

/-- A schema in which fields of one name lead to people and to companies. -/
def ownersSource : String :=
  "type Query \x7b home: House work: Office \x7d
   type House \x7b owner: Person \x7d
   type Office \x7b owner: Company \x7d
   type Person \x7b name: String \x7d
   type Company \x7b name: String \x7d"

/-- A request for the name of a company. -/
def ownersRequest : Request where
  query := "\x7b work \x7b owner \x7b name \x7d \x7d \x7d"
  operation? := none
  variableValues := []

/-- Where fields of one name lead to different types, the type of a relationship need not be that of
the entity that the relationship leads to. -/
theorem derived_relation_type_owners : ∃ (model : QueryModel) (plan : Plan) (id child : NodeId)
    (step : RelationStep) (entity : EntityStep) (inner? : Option NodeId),
    derive [ownersSource] "owners" = .ok model ∧ model.plan ownersRequest = .ok plan ∧
      plan.node? id = some (.relation step (some child)) ∧
      plan.node? child = some (.entity entity inner?) ∧ entity.typeName = "Company" ∧
      step.relationType = "has_Person" ∧
      step.relationType ≠ Ontology.relationType entity.typeName := by
  have ran : ((derive [ownersSource] "owners").bind (·.plan ownersRequest)).toOption.map
      (fun plan => (plan.node? 3, plan.node? 4)) =
        some (some (.relation ⟨"has_Person", .forward, "owner"⟩ (some 4)),
          some (.entity ⟨"owner", "Company", none⟩ (some 5))) := by
    decide +kernel
  obtain ⟨plan, planned, nodes⟩ := Option.map_eq_some_iff.mp ran
  obtain ⟨relation, entity⟩ := Prod.mk.inj nodes
  obtain ⟨model, derived, planned⟩ := Except.of_bind_eq_ok (Except.of_toOption_eq_some planned)
  exact ⟨model, plan, 3, 4, _, _, _, derived, planned, relation, entity, rfl, rfl, by decide⟩

end QueryModel

end TraversalQuery
