import TraversalQuery.Proofs.Ontology.Consistency
import TraversalQuery.Proofs.Schema.Filters
import TraversalQuery.Proofs.Schema.Roots

/-!
# What an ontology is about

An object type becomes an entity type of the derived ontology unless it belongs to the query
language: by its name, by being marked, or as the root of an operation kind. Schema definitions
decide about roots only for the kinds that they list. For the other kinds the conventional names
still count, so a type with such a name has no entity even where no schema definition mentions it.
-/

namespace TraversalQuery

variable {schema : Schema}

/-- A schema in which definitions decide what the roots are, and the roots what is asked about. -/
structure Schema.DecidedBy (schema : Schema) (written : List Definition) : Prop where
  /-- The root of a kind is the last type that is listed for it, or else the type that has the
  conventional name. -/
  roots : ∀ kind, (schema.rootType? kind).map (·.name) =
    (Definition.listedRoot? written kind).or ((schema.get? kind.conventionalRoot).map (·.name))
  /-- Roots are objects. -/
  objects : ∀ kind root, schema.rootType? kind = some root → root.kind = .object
  /-- Every type is asked about that neither is a root nor has a name or a mark that says it belongs
  to the query language. -/
  domain : ∀ type ∈ schema.types, schema.isDomainType type = true ↔
    (∀ kind, schema.rootType? kind ≠ some type) ∧ Text.startsWith "__" type.name = false ∧
      Filter.isFilterType type.name = false ∧ findDirective? type.directives "autoGen" = none
  /-- An object type has an entity exactly if it is asked about. -/
  entities : ∀ type ∈ schema.types, type.kind = .object → ∀ name ontology,
    Ontology.ofSchema name schema = .ok ontology → ontology.entity? type.name =
      if schema.isDomainType type then
        some (Ontology.objectEntity schema (Ontology.abstractEntities schema) type)
      else none

namespace Schema

/-- In a compiled schema a type has the name of a root exactly if it is one. -/
theorem Compiled.isRootType_iff (compiled : schema.Compiled) {type : SchemaType}
    (isType : type ∈ schema.types) :
    schema.isRootType type.name = true ↔ ∃ kind, schema.rootType? kind = some type := by
  rw [Schema.isRootType_iff]
  refine exists_congr fun kind => ?_
  constructor
  · intro isRoot
    rw [rootType?, isRoot, Option.bind_some, compiled.get?_name isType]
  · intro isRoot
    rw [← compiled.closed.name_rootType?, isRoot, Option.map_some]

/-- A type is asked about unless it is a root, is named as one of the query language, or is
marked. -/
theorem Compiled.isDomainType_iff (compiled : schema.Compiled) {type : SchemaType}
    (isType : type ∈ schema.types) : schema.isDomainType type = true ↔
      (∀ kind, schema.rootType? kind ≠ some type) ∧ Text.startsWith "__" type.name = false ∧
        Filter.isFilterType type.name = false ∧
          findDirective? type.directives "autoGen" = none := by
  have noRoot : schema.isRootType type.name = false ↔
      ∀ kind, schema.rootType? kind ≠ some type := by
    rw [← Bool.not_eq_true, compiled.isRootType_iff isType, not_exists]
  simp only [isDomainType, Bool.and_eq_true, Bool.not_eq_true', Option.isNone_iff_eq_none, noRoot]
  tauto

end Schema

namespace Ontology

variable {ontology : Ontology}

/-- The entity of an object type that is asked about. -/
theorem DerivedFrom.entity?_object (derived : ontology.DerivedFrom schema)
    (compiled : schema.Compiled) {object : SchemaType}
    (isObject : object ∈ schema.domainTypes .object) :
    ontology.entity? object.name =
      some (objectEntity schema (abstractEntities schema) object) := by
  have distinct : (ontology.entityTypes.map (·.name)).Nodup :=
    derived.names_entityTypes ▸ nodup_domainTypes compiled
  have member : objectEntity schema (abstractEntities schema) object ∈ ontology.entityTypes := by
    rw [derived.entities, entitiesOf_eq compiled]
    exact List.mem_append_right _ (List.mem_map_of_mem isObject)
  exact List.find?_key_eq_some distinct member

/-- A type that is not asked about has no entity. -/
theorem DerivedFrom.entity?_eq_none (derived : ontology.DerivedFrom schema)
    (compiled : schema.Compiled) {type : SchemaType} (isType : type ∈ schema.types)
    (foreign : schema.isDomainType type ≠ true) : ontology.entity? type.name = none := by
  refine List.find?_eq_none.mpr fun entity member same => foreign ?_
  rw [derived.entities] at member
  obtain ⟨other, isOther, named, _, domain⟩ := exists_of_mem_entitiesOf member
  have sameName : other.name = type.name := named.trans (beq_iff_eq.mp same)
  obtain rfl := List.inj_on_of_nodup_map compiled.nodup_names isOther isType sameName
  exact domain

/-- A schema for queries with filters lacks nothing that an ontology needs. -/
theorem exists_ofSchema {sources : List String}
    (compiled : Schema.compileWithFilters sources = .ok schema) (name : String) :
    ∃ ontology, ofSchema name schema = .ok ontology := by
  have isCompiled : schema.Compiled := ⟨sources, .inr compiled⟩
  obtain ⟨root, isRoot⟩ := isCompiled.closed.query
  have filters : (Filter.typeNames.filter fun name => (schema.get? name).isNone) = [] := by
    refine List.filter_eq_nil_iff.mpr fun name member => ?_
    obtain ⟨definition, isFilter, rfl⟩ := List.mem_map.mp member
    obtain ⟨type, found, _⟩ := Schema.exists_filterType compiled isFilter
    rw [found]
    exact Bool.false_ne_true
  have complete : schema.missingLanguageTypes = [] := by
    rw [Schema.missingLanguageTypes, filters, isRoot]
    rfl
  unfold ofSchema
  rw [complete]
  exact ⟨_, rfl⟩

/-- **Schema definitions decide for the kinds that they list, and names for the others.** Every
other object type that is not marked or named as one of the query language has an entity. -/
theorem decidedBy_of_compiled {sources : List String}
    (compiled : Schema.compile sources = .ok schema ∨
      Schema.compileWithFilters sources = .ok schema) :
    schema.DecidedBy (sources.flatMap Definition.inSource) ∧
      (Schema.compileWithFilters sources = .ok schema →
        ∀ name, ∃ ontology, ofSchema name schema = .ok ontology) := by
  have isCompiled : schema.Compiled := ⟨sources, compiled⟩
  have closed := isCompiled.closed
  refine ⟨{ roots := fun kind => ?_
            objects := fun kind root => closed.kind_rootType?
            domain := fun type isType => isCompiled.isDomainType_iff isType
            entities := fun type isType isObject name ontology made => ?_ }, exists_ofSchema⟩
  · rw [closed.name_rootType?]
    exact Schema.get?_roots_of_compiled compiled kind
  · have derived := derivedFrom_of_ofSchema made
    split
    · rename_i domain
      exact derived.entity?_object isCompiled (mem_domainTypes.mpr ⟨isType, isObject, domain⟩)
    · rename_i foreign
      exact derived.entity?_eq_none isCompiled isType foreign

/-- Two sources with a schema definition each. -/
def listingSources : List String :=
  ["schema \x7b query: Old mutation: Change \x7d type Old \x7b id: ID \x7d
    type Change \x7b id: ID \x7d",
   "schema \x7b query: Start \x7d type Start \x7b old: Old \x7d
    type Query \x7b id: ID \x7d type Subscription \x7b id: ID \x7d"]

/-- The later definition takes the place of the earlier one. Of the conventional names only that
counts for whose kind nothing is listed. -/
theorem decidedBy_of_compiled_listing : ∃ schema ontology,
    Schema.compileWithFilters listingSources = .ok schema ∧
      ofSchema "start" schema = .ok ontology ∧
      [OperationKind.query, .mutation, .subscription].map
          (fun kind => (schema.rootType? kind).map (·.name)) =
        [some "Start", some "Change", some "Subscription"] ∧
      ontology.entityTypes.map (·.name) = ["Old", "Query"] ∧
      schema.DecidedBy (listingSources.flatMap Definition.inSource) ∧
      ∀ name, ∃ ontology, ofSchema name schema = .ok ontology := by
  have ran : (Schema.compileWithFilters listingSources).toOption.bind (fun schema =>
      (ofSchema "start" schema).toOption.map fun ontology =>
        ([OperationKind.query, .mutation, .subscription].map
            (fun kind => (schema.rootType? kind).map (·.name)),
          ontology.entityTypes.map (·.name))) =
      some ([some "Start", some "Change", some "Subscription"], ["Old", "Query"]) := by
    decide +kernel
  obtain ⟨schema, isCompiled, ran⟩ := Option.bind_eq_some_iff.mp ran
  obtain ⟨ontology, made, same⟩ := Option.map_eq_some_iff.mp ran
  obtain ⟨roots, entities⟩ := Prod.mk.inj same
  have isCompiled := Except.of_toOption_eq_some isCompiled
  obtain ⟨decided, derives⟩ := decidedBy_of_compiled (.inr isCompiled)
  exact ⟨schema, ontology, isCompiled, Except.of_toOption_eq_some made, roots, entities, decided,
    derives isCompiled⟩

/-- A source whose schema definition lists no root for mutations, with a type of that name. -/
def unlistedSource : String :=
  "schema \x7b query: Root \x7d type Root \x7b latest: Mutation \x7d type Mutation \x7b id: ID \x7d"

/-- A type that no schema definition lists is a root for its name, and has no entity. -/
theorem root_not_listed : ∃ schema ontology,
    Schema.compileWithFilters [unlistedSource] = .ok schema ∧
      ofSchema "root" schema = .ok ontology ∧
      ([unlistedSource].flatMap Definition.inSource).flatMap Definition.roots =
        [(.query, "Root")] ∧
      (schema.rootType? .mutation).map (fun type =>
          (type.name, type.kind, type.directives.length)) =
        some ("Mutation", .object, 0) ∧
      ontology.entityTypes.map (·.name) = [] := by
  have ran : (Schema.compileWithFilters [unlistedSource]).toOption.bind (fun schema =>
      (ofSchema "root" schema).toOption.map fun ontology =>
        ((schema.rootType? .mutation).map
            (fun type => (type.name, type.kind, type.directives.length)),
          ontology.entityTypes.map (·.name))) =
      some (some ("Mutation", .object, 0), []) := by
    decide +kernel
  have listed : ([unlistedSource].flatMap Definition.inSource).flatMap Definition.roots =
      [(.query, "Root")] := by
    decide +kernel
  obtain ⟨schema, isCompiled, ran⟩ := Option.bind_eq_some_iff.mp ran
  obtain ⟨ontology, made, same⟩ := Option.map_eq_some_iff.mp ran
  obtain ⟨root, entities⟩ := Prod.mk.inj same
  exact ⟨schema, ontology, Except.of_toOption_eq_some isCompiled,
    Except.of_toOption_eq_some made, listed, root, entities⟩

end Ontology

end TraversalQuery
