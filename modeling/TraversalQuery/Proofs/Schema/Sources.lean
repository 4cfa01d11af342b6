import TraversalQuery.Proofs.Schema.Definitions

/-!
# From sources to definitions

A schema is compiled from the definitions in its sources. The sources themselves matter only where
one cannot be read or holds an operation or a fragment: apart from that the definitions are taken
one after another, whichever source they stand in.
-/

namespace TraversalQuery

/-- Definitions of a schema, with no operation and no fragment among them. -/
def Definition.OfSchema (written : List Definition) : Prop :=
  ∀ definition ∈ written, definition.isExecutable = false

instance (written : List Definition) : Decidable (Definition.OfSchema written) :=
  inferInstanceAs (Decidable (∀ definition ∈ written, definition.isExecutable = false))

namespace SchemaDraft

theorem addAll_cons {draft : SchemaDraft} {source : Nat} {definition : Definition}
    {rest : List Definition} (ofSchema : definition.isExecutable = false) :
    draft.addAll source (definition :: rest) =
      draft.add definition >>= fun after => after.addAll source rest := by
  rw [addAll, ofSchema]
  rfl

/-- Definitions are taken up one list after the other. -/
theorem addAll_append (source : Nat) (definitions more : List Definition) :
    ∀ draft : SchemaDraft, draft.addAll source (definitions ++ more) =
      draft.addAll source definitions >>= fun after => after.addAll source more := by
  induction definitions with
  | nil => exact fun draft => rfl
  | cons definition rest ih =>
    intro draft
    rw [List.cons_append, addAll, addAll]
    cases definition.isExecutable with
    | true => rfl
    | false =>
      cases draft.add definition with
      | error error => rfl
      | ok after => exact ih after

/-- The number of a source is said only where the source does not define a schema. -/
theorem addAll_number {definitions : List Definition} (ofSchema : Definition.OfSchema definitions)
    (source other : Nat) :
    ∀ draft : SchemaDraft, draft.addAll source definitions = draft.addAll other definitions := by
  induction definitions with
  | nil => exact fun draft => rfl
  | cons definition rest ih =>
    intro draft
    obtain ⟨first, later⟩ := List.forall_mem_cons.mp ofSchema
    rw [addAll_cons first, addAll_cons first]
    exact congrArg _ (funext (ih later))

/-- A source that can be read is taken up before the others. -/
theorem addSources_cons {draft : SchemaDraft} {number : Nat} {source : String} {rest : List String}
    (reads : (Document.parse source).isOk = true) :
    draft.addSources number (source :: rest) =
      draft.addAll number (Definition.inSource source) >>= fun after =>
        after.addSources (number + 1) rest := by
  rw [addSources, Definition.inSource]
  cases parsed : Document.parse source with
  | error error => rw [parsed] at reads; contradiction
  | ok document => rfl

/-- Sources that all can be read and define a schema are as good as their definitions. -/
theorem addSources_eq_addAll {sources : List String} :
    ∀ {draft : SchemaDraft} {number : Nat},
      (∀ source ∈ sources, (Document.parse source).isOk = true) →
        Definition.OfSchema (sources.flatMap Definition.inSource) →
          draft.addSources number sources =
            draft.addAll 0 (sources.flatMap Definition.inSource) := by
  induction sources with
  | nil => exact fun _ _ => rfl
  | cons source rest ih =>
    intro draft number read ofSchema
    obtain ⟨first, others⟩ := List.forall_mem_cons.mp read
    rw [List.flatMap_cons] at ofSchema ⊢
    obtain ⟨ofFirst, ofOthers⟩ := List.forall_mem_append.mp ofSchema
    rw [addSources_cons first, addAll_append, addAll_number ofFirst number 0]
    exact congrArg _ (funext fun after => ih others ofOthers)

end SchemaDraft

namespace Schema

/-- The schema that definitions make when they are taken one after another. -/
def ofDefinitions (written : List Definition) : Except SchemaError Schema := do
  ofDraft (← SchemaDraft.empty.addAll 0 written)

variable {sources : List String}
  (read : ∀ source ∈ sources, (Document.parse source).isOk = true)
  (ofSchema : Definition.OfSchema (sources.flatMap Definition.inSource))
include read ofSchema

/-- Sources that can be read are compiled from their definitions. -/
theorem compile_eq_ofDefinitions :
    compile sources = ofDefinitions (sources.flatMap Definition.inSource) := by
  rw [compile, SchemaDraft.addSources_eq_addAll read ofSchema]
  rfl

/-- With the types of filters, their definitions come before those in the sources. -/
theorem compileWithFilters_eq_ofDefinitions :
    compileWithFilters sources =
      ofDefinitions (Filter.types.map .type ++ sources.flatMap Definition.inSource) := by
  rw [compileWithFilters, ofDefinitions, SchemaDraft.addAll_append]
  simp only [SchemaDraft.addSources_eq_addAll read ofSchema]
  exact (bind_assoc _ _ _).symm

end Schema

end TraversalQuery
