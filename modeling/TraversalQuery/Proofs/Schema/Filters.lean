import TraversalQuery.Proofs.Schema.Compiled

/-!
# The types of filters in schemas

A schema that is compiled for queries with filters declares the types behind them before all others.
Its sources can extend these types, which adds to what they consist of, but they cannot declare them
again.
-/

namespace TraversalQuery

/-- A body that extensions can make of another one. -/
inductive TypeBody.Grows (start : TypeBody) : TypeBody → Prop
  | refl : Grows start start
  | step {body more after : TypeBody} (grows : Grows start body)
      (appended : body.append? more = some after) : Grows start after

/-- An enum that has grown has its values and then more. -/
theorem TypeBody.Grows.enum {values : List String} {body : TypeBody}
    (grows : (TypeBody.enum values).Grows body) : ∃ more, body = .enum (values ++ more) := by
  induction grows with
  | refl => exact ⟨[], by rw [List.append_nil]⟩
  | @step _ added _ _ appended ih =>
    obtain ⟨more, rfl⟩ := ih
    cases added with
    | enum others =>
      cases appended
      exact ⟨more ++ others, by rw [List.append_assoc]⟩
    | _ => cases appended

/-- An input type that has grown has its fields and then more. -/
theorem TypeBody.Grows.input {fields : List InputValue} {body : TypeBody}
    (grows : (TypeBody.input fields).Grows body) : ∃ more, body = .input (fields ++ more) := by
  induction grows with
  | refl => exact ⟨[], by rw [List.append_nil]⟩
  | @step _ added _ _ appended ih =>
    obtain ⟨more, rfl⟩ := ih
    cases added with
    | input others =>
      cases appended
      exact ⟨more ++ others, by rw [List.append_assoc]⟩
    | _ => cases appended

namespace SchemaDraft

/-- Among some types, a type of a given name whose body has grown from a given one. -/
def Holds (types : List SchemaType) (name : String) (start : TypeBody) : Prop :=
  ∃ type, types.find? (·.name == name) = some type ∧ start.Grows type.body

variable {name : String} {start : TypeBody} {types : List SchemaType}

/-- More types do not hide the first of a name. -/
theorem Holds.append (holds : Holds types name start) (more : List SchemaType) :
    Holds (types ++ more) name start := by
  obtain ⟨type, found, grows⟩ := holds
  exact ⟨type, by rw [List.find?_append, found, Option.some_or], grows⟩

/-- Taking up a definition does not hide the first type of a name. -/
theorem holds_add {draft after : SchemaDraft} {definition : Definition}
    (holds : Holds draft.types name start) (added : draft.add definition = .ok after) :
    Holds after.types name start := by
  obtain ⟨extension, _, _, rfl⟩ | ⟨type, _, _, _, rfl⟩ | ⟨_, rfl⟩ := add_cases added
  · exact holds
  · exact holds.append _
  · exact holds

/-- The type of a name among types of which those of one name were replaced. -/
theorem find?_replace (types : List SchemaType) (extended : SchemaType) (name : String) :
    (replace types extended).find? (·.name == name) =
      (types.find? (·.name == name)).map fun type =>
        if type.name = extended.name then extended else type := by
  have sameNames : ((fun type : SchemaType => type.name == name) ∘ fun type =>
      if type.name = extended.name then extended else type) = (·.name == name) := by
    funext type
    dsimp only [Function.comp]
    split
    · rename_i same
      rw [same]
    · rfl
  unfold replace
  rw [List.find?_map, sameNames]

/-- The type of a name is still there after an extension, with more in it if it was extended. -/
theorem holds_applyExtension {after : List SchemaType} {extension : TypeDefinition}
    (holds : Holds types name start) (applied : applyExtension types extension = .ok after) :
    Holds after name start := by
  obtain ⟨type, found, grows⟩ := holds
  have named : type.name = name := by simpa using List.find?_some found
  unfold applyExtension at applied
  split at applied
  · contradiction
  · rename_i other isOther
    have namedOther : other.name = extension.name := by simpa using List.find?_some isOther
    split at applied
    · contradiction
    · rename_i extended isExtended
      cases applied
      obtain ⟨body, appended, rfl⟩ := Option.map_eq_some_iff.mp isExtended
      refine ⟨_, by rw [find?_replace, found, Option.map_some], ?_⟩
      split
      · rename_i same
        rw [← namedOther, ← show type.name = other.name from same, named, found] at isOther
        obtain rfl := Option.some.inj isOther
        exact grows.step appended
      · exact grows

end SchemaDraft

namespace Schema

/-- **The types of filters are in every schema for queries with filters,** though there can be more
in them. -/
theorem exists_filterType {sources : List String} {schema : Schema}
    (compiled : compileWithFilters sources = .ok schema) {definition : TypeDefinition}
    (member : definition ∈ Filter.types) :
    ∃ type, schema.get? definition.name = some type ∧
      (TypeBody.ofContent definition.content).Grows type.body := by
  obtain ⟨filters, first, compiled⟩ := Except.of_bind_eq_ok compiled
  obtain ⟨draft, added, made⟩ := Except.of_bind_eq_ok compiled
  obtain ⟨extended, applied, sameTypes, _⟩ := of_ofDraft_eq_ok made
  obtain rfl : (⟨Filter.types.map .ofDefinition, [], .empty⟩ : SchemaDraft) = filters :=
    Except.ok.inj first
  have declared : SchemaDraft.Holds (Filter.types.map .ofDefinition) definition.name
      (.ofContent definition.content) := by
    simp only [Filter.types, List.mem_cons, List.not_mem_nil, or_false] at member
    rcases member with rfl | rfl | rfl <;> exact ⟨_, rfl, .refl⟩
  have custom : (Schema.builtinScalars.map SchemaType.scalar).find? (·.name == definition.name) =
      none := by
    simp only [Filter.types, List.mem_cons, List.not_mem_nil, or_false] at member
    rcases member with rfl | rfl | rfl <;> rfl
  have kept := SchemaDraft.kept_addSources SchemaDraft.holds_add declared added
  obtain ⟨type, found, grows⟩ :=
    SchemaDraft.kept_foldlM_applyExtension SchemaDraft.holds_applyExtension kept applied
  exact ⟨type, by rw [get?, sameTypes, List.find?_append, custom, found, Option.none_or], grows⟩

end Schema

end TraversalQuery
