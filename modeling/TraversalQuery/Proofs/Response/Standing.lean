import TraversalQuery.Proofs.Response.Soundness

/-!
# Where the selections of a query stand

The checks look at a selection on the type where it stands: the root type, the type of the field
around it, or the one that a fragment is on. A selection can stand on several types, in a fragment
that is spread at several places. Every field that a resolver is asked about stands somewhere,
though not always on the type of the object that it is asked of.
-/

namespace TraversalQuery

namespace Typing.Scope

/-- A selection that is checked on a type, when selections are checked on the root type. -/
inductive Stands (scope : Scope) (root : SchemaType) (selections : List Selection) :
    SchemaType → Selection → Prop
  | top {selection : Selection} (member : selection ∈ selections) :
      Stands scope root selections root selection
  | inside {parent type : SchemaType} {field : Field} {declared : OutputField}
      {inner : List Selection} {braces? : Option Span} {selection : Selection}
      (outer : Stands scope root selections parent (.field field inner braces?))
      (isField : parent.field? field.name = some declared)
      (isType : scope.schema.get? declared.type.namedType = some type)
      (member : selection ∈ inner) : Stands scope root selections type selection
  | spread {parent type : SchemaType} {name : String} {directives : List Directive} {span : Span}
      {fragment : Fragment} {selection : Selection}
      (outer : Stands scope root selections parent (.spread name directives span))
      (isFragment : Fragment.find? scope.fragments name = some fragment)
      (condition : scope.Condition fragment.condition type)
      (member : selection ∈ fragment.selections) : Stands scope root selections type selection
  | inline {parent : SchemaType} {directives : List Directive} {inner : List Selection}
      {braces span : Span} {selection : Selection}
      (outer : Stands scope root selections parent (.inline none directives inner braces span))
      (member : selection ∈ inner) : Stands scope root selections parent selection
  | narrowed {parent type : SchemaType} {name : String} {directives : List Directive}
      {inner : List Selection} {braces span : Span} {selection : Selection}
      (outer : Stands scope root selections parent
        (.inline (some name) directives inner braces span))
      (condition : scope.Condition name type) (member : selection ∈ inner) :
      Stands scope root selections type selection

variable {scope : Scope} {root parent : SchemaType} {selections : List Selection}
  {selection : Selection}

/-- Selections stand on types of the schema. -/
theorem Stands.mem_types (stands : scope.Stands root selections parent selection)
    (isRoot : root ∈ scope.schema.types) : parent ∈ scope.schema.types := by
  induction stands with
  | top member => exact isRoot
  | inside _ _ isType _ _ => exact Schema.mem_of_get? isType
  | spread _ _ condition _ _ => exact Schema.mem_of_get? condition.1
  | inline _ _ ih => exact ih
  | narrowed _ condition _ _ => exact Schema.mem_of_get? condition.1

/-- Where a selection of a query stands there are no fields in it but those of the query. -/
theorem Stands.fields_subset (stands : scope.Stands root selections parent selection)
    {fields : List Field} (inFragments : ∀ fragment ∈ scope.fragments,
      Selection.fieldsOf fragment.selections ⊆ fields)
    (within : Selection.fieldsOf selections ⊆ fields) : selection.fields ⊆ fields := by
  induction stands with
  | top member => exact List.Subset.trans (Selection.fields_subset_fieldsOf member) within
  | inside _ _ _ member ih =>
    exact List.Subset.trans (Selection.fields_subset_fieldsOf member) (List.cons_subset.mp ih).2
  | spread _ isFragment _ member _ =>
    exact List.Subset.trans (Selection.fields_subset_fieldsOf member)
      (inFragments _ (Fragment.mem_of_find? isFragment))
  | inline _ member ih => exact List.Subset.trans (Selection.fields_subset_fieldsOf member) ih
  | narrowed _ _ member ih => exact List.Subset.trans (Selection.fields_subset_fieldsOf member) ih

/-- Selections that are well typed on a root type and, like those in fragments, proper. -/
structure Accepted (scope : Scope) (root : SchemaType) (selections : List Selection) : Prop where
  wellTyped : ∀ selection ∈ selections, selection.WellTyped scope root
  proper : Selection.areProper selections = true
  inFragments : ∀ fragment ∈ scope.fragments, Selection.areProper fragment.selections = true

/-- **Accepted selections are well typed wherever they stand.** -/
theorem Stands.wellTyped (stands : scope.Stands root selections parent selection)
    (accepted : scope.Accepted root selections) :
    selection.WellTyped scope parent ∧ selection.isProper = true := by
  induction stands with
  | top member =>
    exact ⟨accepted.wellTyped _ member, Selection.areProper_iff.mp accepted.proper _ member⟩
  | inside _ isField isType member ih =>
    obtain ⟨wellTyped, proper⟩ := ih
    cases wellTyped with
    | typename => simp [empty_of_isProper proper] at member
    | leaf => simp [empty_of_isProper proper] at member
    | inside _ _ isField' _ isType' _ each =>
      obtain rfl := Option.some.inj (isField.symm.trans isField')
      obtain rfl := Option.some.inj (isType.symm.trans isType')
      simp only [Selection.isProper, Bool.and_eq_true] at proper
      exact ⟨each _ member, Selection.areProper_iff.mp proper.2 _ member⟩
  | spread _ isFragment condition member ih =>
    cases ih.1 with
    | spread _ isFragment' condition' each =>
      obtain rfl := Option.some.inj (isFragment.symm.trans isFragment')
      obtain rfl := Option.some.inj (condition.1.symm.trans condition'.1)
      have proper := accepted.inFragments _ (Fragment.mem_of_find? isFragment)
      exact ⟨each _ member, Selection.areProper_iff.mp proper _ member⟩
  | inline _ member ih =>
    obtain ⟨wellTyped, proper⟩ := ih
    cases wellTyped with
    | inline _ each =>
      have proper := (Bool.and_eq_true_iff.mp proper).2
      exact ⟨each _ member, Selection.areProper_iff.mp proper _ member⟩
  | narrowed _ condition member ih =>
    obtain ⟨wellTyped, proper⟩ := ih
    cases wellTyped with
    | narrowed _ condition' each =>
      obtain rfl := Option.some.inj (condition.1.symm.trans condition'.1)
      have proper := (Bool.and_eq_true_iff.mp proper).2
      exact ⟨each _ member, Selection.areProper_iff.mp proper _ member⟩

end Typing.Scope

namespace QueryScope

variable {σ ε : Type} {scope : QueryScope} {definitions : List VariableDefinition}
  {root object : SchemaType} {selections around : List Selection}

/-- What standing selections offer stands as well. -/
theorem Offers.stands {selected : SelectedField} (offers : scope.Offers object around selected)
    (accepted : (scope.typing definitions).Accepted root selections)
    (standing : ∀ selection ∈ around, ∃ parent,
      (scope.typing definitions).Stands root selections parent selection) :
    ∃ parent braces?, (scope.typing definitions).Stands root selections parent
      (.field selected.field selected.selections braces?) := by
  induction offers with
  | field member included =>
    obtain ⟨parent, stands⟩ := standing _ member
    exact ⟨parent, _, stands⟩
  | @inline _ _ condition? _ _ _ _ member included admitted inner ih =>
    obtain ⟨parent, stands⟩ := standing _ member
    refine ih fun selection isInner => ?_
    cases (stands.wellTyped accepted).1 with
    | inline => exact ⟨parent, .inline stands isInner⟩
    | narrowed _ condition => exact ⟨_, .narrowed stands condition isInner⟩
  | spread member included found admitted inner ih =>
    obtain ⟨parent, stands⟩ := standing _ member
    refine ih fun selection isInner => ?_
    cases (stands.wellTyped accepted).1 with
    | spread _ isFragment condition =>
      obtain rfl := Option.some.inj (found.symm.trans isFragment)
      exact ⟨_, .spread stands found condition isInner⟩

/-- What is selected on the objects that a walk reaches stands on types. -/
theorem Reached.stands {calls : List (ResolverCall σ ε)} {path : ResponsePath}
    {parent? : Option ParentField}
    (reached : scope.Reached root selections calls object path parent? around)
    (accepted : (scope.typing definitions).Accepted root selections) :
    ∀ selection ∈ around, ∃ parent,
      (scope.typing definitions).Stands root selections parent selection := by
  induction reached with
  | root => exact fun selection member => ⟨root, .top member⟩
  | inside _ group _ _ _ _ _ ih =>
    intro selection member
    obtain ⟨part, isPart, inPart⟩ := List.mem_flatMap.mp member
    have offers := (each_collect _ _ _).good _ group part isPart
    obtain ⟨parent, braces?, stands⟩ := offers.stands accepted ih
    obtain ⟨wellTyped, proper⟩ := stands.wellTyped accepted
    cases wellTyped with
    | typename => simp [Typing.empty_of_isProper proper] at inPart
    | leaf => simp [Typing.empty_of_isProper proper] at inPart
    | inside _ _ isField _ isType => exact ⟨_, .inside stands isField isType inPart⟩

end QueryScope

namespace PreparedRequest

/-- What the operation of a request is checked against. -/
def typing (prepared : PreparedRequest) : Typing.Scope :=
  prepared.scope.typing prepared.operation.variableDefinitions

/-- A field that the operation of a request selects on a type, itself or inside fragments. -/
def Selects (prepared : PreparedRequest) (parent : SchemaType) (field : Field) : Prop :=
  ∃ inside braces?, prepared.typing.Stands prepared.root prepared.operation.selections parent
    (.field field inside braces?)

/-- Only fields of the query are selected, and only on types of the schema. -/
theorem Selects.mem {prepared : PreparedRequest} {parent : SchemaType} {field : Field}
    (selects : prepared.Selects parent field)
    (isRoot : prepared.root ∈ prepared.scope.schema.types) :
    parent ∈ prepared.scope.schema.types ∧
      field ∈ prepared.scope.allFields prepared.operation.selections := by
  obtain ⟨inside, braces?, stands⟩ := selects
  exact ⟨stands.mem_types isRoot, stands.fields_subset (prepared.scope.fieldsOf_subset_allFields _)
    (List.subset_append_left _ _) List.mem_cons_self⟩

end PreparedRequest

namespace Schema

variable {σ ε : Type} {schema : Schema} {request : Request} {prepared : PreparedRequest}

/-- The selections of a request that is ready to be walked are accepted, and its variables have
values. -/
theorem accepted_of_prepareRequest (compiled : schema.Compiled)
    (ready : schema.prepareRequest request =
      (.ok prepared : Except (RequestError ε) PreparedRequest)) :
    prepared.typing.Accepted prepared.root prepared.operation.selections ∧
      prepared.typing.AdmitsVariables prepared.operation.variableDefinitions ∧
      Input.operationValues schema prepared.operation.variableDefinitions request.variableValues =
        .ok prepared.scope.variableValues := by
  have checked := checked_of_prepareRequest ready
  have wellTyped := (Typing.operationProblems_eq_nil_iff compiled checked.acyclic).mp checked.clean
  obtain ⟨root, isRoot, each⟩ := wellTyped.selections
  obtain rfl := Option.some.inj (checked.isRoot.symm.trans isRoot)
  obtain rfl := checked.sameSchema
  exact ⟨⟨each, checked.areProper, checked.inFragments⟩, wellTyped.definitions, checked.values⟩

/-- **Every call is for a field that is selected.** The arguments of the field are admitted where it
is, and become those of the call by the inputs that the object declares. -/
theorem selects_of_call (compiled : schema.Compiled)
    (ready : schema.prepareRequest request =
      (.ok prepared : Except (RequestError ε) PreparedRequest)) (resolve : Resolver σ ε)
    (state : σ) : ∀ call ∈ schema.calls resolve request state, ∃ parent field declared,
      prepared.Selects parent field ∧ parent.field? field.name = some declared ∧
        prepared.typing.AdmitsArguments declared.arguments field.arguments ∧
        call.visit.arguments = Input.arguments schema prepared.scope.variableValues
          call.visit.definition.arguments field := by
  intro call isCall
  obtain ⟨accepted, _⟩ := accepted_of_prepareRequest compiled ready
  obtain ⟨document, _, prepares⟩ := prepares_of_prepareRequest ready
  obtain ⟨forest, made, walked, _⟩ := asked_of_ready ready resolve state
  rw [made] at isCall
  obtain ⟨object, path, parent?, around, key, first, others, definition, reached, group, proper,
    defined, visited⟩ := walked.prompted .root (List.Subset.refl _) (List.Subset.refl _) call isCall
  have offers := (QueryScope.each_collect _ _ _).good _ group first List.mem_cons_self
  obtain ⟨parent, braces?, stands⟩ := offers.stands accepted (reached.stands accepted)
  have selects : prepared.Selects parent first.field := ⟨_, _, stands⟩
  have arguments : call.visit.arguments = Input.arguments schema prepared.scope.variableValues
      call.visit.definition.arguments first.field := by
    rw [visited, ← prepares.sameSchema]
    rfl
  cases (stands.wellTyped accepted).1 with
  | typename named => exact absurd named proper
  | leaf _ _ isField admits => exact ⟨_, _, _, selects, isField, admits, arguments⟩
  | inside _ _ isField admits => exact ⟨_, _, _, selects, isField, admits, arguments⟩

end Schema

end TraversalQuery
