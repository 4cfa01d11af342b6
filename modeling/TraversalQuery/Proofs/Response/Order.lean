import TraversalQuery.Proofs.Response.Nesting

/-!
# The order of the calls of a walk

One execution asks its resolver about every place in the response at most once, where steps into
lists do not count. It goes depth first: below the call for an object follow those for its fields,
at paths that extend that of the object, and the call that fails is the last one.
-/

namespace TraversalQuery

namespace FieldVisit

/-- A visit at the path around it, extended by its response key and, for a list type, by a step to
the first item. -/
def Extends (visit : FieldVisit) : Prop :=
  visit.path =
    if visit.definition.type.isList then (visit.parentPath.child visit.responseKey).item 0
    else visit.parentPath.child visit.responseKey

/-- The path of a field is that around it and then its key. -/
theorem Extends.fieldPath {visit : FieldVisit} (extended : visit.Extends) :
    visit.path.fieldPath = visit.parentPath.fieldPath.child visit.responseKey := by
  rw [Extends] at extended
  rw [extended]
  split <;> simp

/-- The path of a field begins with that around it. -/
theorem Extends.under {visit : FieldVisit} (extended : visit.Extends) :
    visit.parentPath.fieldPath.segments <+: visit.path.fieldPath.segments := by
  rw [extended.fieldPath]
  exact List.prefix_append _ _

/-- A field that is visited extends the path around it. -/
theorem extends_visit (scope : QueryScope) (object : SchemaType) (definition : OutputField)
    (key : String) (field : Field) {path : ResponsePath} {parent? : Option ParentField}
    (around : path = parent?.elim .root (·.path)) :
    (scope.visit object definition key field path parent?).Extends := by
  subst around
  cases parent? <;> rfl

end FieldVisit

namespace ResolverCall

variable {σ ε : Type}

/-- Each of the calls is for a root field or inside an earlier one. -/
theorem ParentsFirst.parent {past before after : List (ResolverCall σ ε)}
    {call : ResolverCall σ ε} (first : ParentsFirst past (before ++ call :: after)) :
    call.visit.parent? = none ∨ ∃ above ∈ past ++ before, above.Holds call := by
  induction before generalizing past with
  | nil => simpa using first.1
  | cons earlier before ih => simpa using ih first.2

end ResolverCall

namespace Resolver

variable {σ ε : Type} {resolve : Resolver σ ε}

/-- Nothing is asked after a call that failed. -/
theorem Transcript.stops {state later : σ} {before after : List (ResolverCall σ ε)}
    {call : ResolverCall σ ε} {failure? : Option ε} {error : ε}
    (script : resolve.Transcript state (before ++ call :: after) failure? later)
    (fails : call.answer = .error error) : after = [] ∧ failure? = some error := by
  induction before generalizing state with
  | nil =>
    cases script with
    | failed => exact ⟨rfl, congrArg some (Except.error.inj fails)⟩
    | step => contradiction
  | cons earlier before ih =>
    generalize made : before ++ call :: after = rest at ih
    rw [List.cons_append, made] at script
    cases script with
    | failed =>
      rw [List.append_eq_nil_iff] at made
      exact absurd made.2 (List.cons_ne_nil _ _)
    | step _ later => exact ih later

end Resolver

namespace QueryScope

/-- Every call extends the path around its field. -/
theorem Asked.extends {σ ε : Type} {scope : QueryScope} {object : SchemaType}
    {path : ResponsePath} {parent? : Option ParentField} {groups : FieldGroups} {whole : Bool}
    {forest : Forest (ResolverCall σ ε)}
    (asked : scope.Asked object path parent? groups whole forest)
    (around : path = parent?.elim .root (·.path)) :
    ∀ call ∈ forest.preorder, call.visit.Extends := by
  induction asked with
  | stop => exact List.forall_mem_nil _
  | done => exact List.forall_mem_nil _
  | silent _ _ ih => exact ih around
  | value proper defined visited plain later ih =>
    refine List.forall_mem_cons.mpr ⟨?_, ih around⟩
    rw [visited]
    exact FieldVisit.extends_visit _ _ _ _ _ around
  | object proper defined visited answered declared inner through later ihInner ihLater =>
    refine List.forall_mem_cons.mpr
      ⟨?_, List.forall_mem_append.mpr ⟨ihInner rfl, ihLater around⟩⟩
    rw [visited]
    exact FieldVisit.extends_visit _ _ _ _ _ around

end QueryScope

namespace Schema

variable {σ ε α : Type}

/-- A response with an error of the resolver is that error. -/
theorem eq_of_refusal? {response : Except (RequestError ε) α} {error : ε}
    (refused : refusal? response = some error) : response = .error (.refused error) := by
  unfold refusal? at refused
  split at refused
  · rw [Option.some.inj refused]
  · contradiction

/-- The order in which calls are made on the way to a response. -/
structure Orderly (calls : List (ResolverCall σ ε)) (response : Except (RequestError ε) Json) :
    Prop where
  /-- No two calls are for one place, even when steps into lists are dropped. -/
  places : (calls.map (·.visit.path.fieldPath)).Nodup
  /-- What places are looked up by tells the calls apart. -/
  keys : (calls.map (·.visit.path.positionKey)).Nodup
  /-- The calls are those of a forest in preorder, each below the one for the field around it. -/
  preorder : ∃ forest, ResolverCall.Nested none forest ∧ forest.preorder = calls
  /-- The field around a field was asked about before, and answered with an object. -/
  inside : ∀ {before call after}, calls = before ++ call :: after →
    call.visit.parent? = none ∨ ∃ above ∈ before, above.answer = .ok .object ∧
      call.visit.parent? = some ⟨above.visit.definition, above.visit.path⟩
  /-- The path of a field extends that of the field around it. -/
  extends_parent : ∀ call ∈ calls, call.visit.Extends
  /-- An error of the resolver is the end. -/
  stops : ∀ {before call after error}, calls = before ++ call :: after →
    call.answer = .error error → after = [] ∧ response = .error (.refused error)

/-- **The calls for a request are in order**, whatever the schema and the resolver are. -/
theorem calls_orderly (schema : Schema) (resolve : Resolver σ ε) (request : Request) (state : σ) :
    Orderly (schema.calls resolve request state)
      ((schema.execute resolve request).on state).1 := by
  obtain ⟨forest, made, arranges, script⟩ := schema.calls_arranged resolve request state
  obtain ⟨again, madeAgain, asked, _⟩ := schema.calls_asked resolve request state
  have extend : ∀ call ∈ forest.preorder, call.visit.Extends := by
    rw [← made, madeAgain]
    rcases asked with rfl | ⟨prepared, _, asked⟩
    · exact List.forall_mem_nil _
    · exact asked.extends rfl
  rw [made]
  refine ⟨?_, arranges.keyed, ⟨forest, arranges.nested, rfl⟩, ?_, extend, ?_⟩
  · refine List.Nodup.of_map ResponsePath.segments ?_
    rw [List.map_map]
    exact arranges.nodup
  · intro before call after split
    have first := arranges.parentsFirst
    rw [split] at first
    exact first.parent.imp id fun ⟨above, member, holds⟩ =>
      ⟨above, member, holds.answered, holds.inside⟩
  · intro before call after error split fails
    rw [split] at script
    exact (script.stops fails).imp id eq_of_refusal?

end Schema

end TraversalQuery
