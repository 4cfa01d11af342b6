import TraversalQuery.Proofs.Runs
import TraversalQuery.Schema.Compile

/-!
# Sources that cannot be read

Compiling a schema fails with a syntax error just where it comes to a source that cannot be read.
Nothing that is done with definitions once they are read is a syntax error.
-/

namespace TraversalQuery

namespace SchemaError

variable {α β : Type}

/-- The answer is no syntax error. -/
def Legible (answer : Except SchemaError α) : Prop :=
  ∀ number error, answer ≠ .error (.malformedSource number error)

theorem legible_ok (value : α) : Legible (.ok value) := by
  rintro number fault ⟨⟩

/-- The error is about what a source says, not about how it is written. -/
def isOfContent : SchemaError → Bool
  | .malformedSource _ _ => false
  | _ => true

/-- An error about what sources say is no syntax error. -/
theorem legible_error {error : SchemaError} (ofContent : error.isOfContent) :
    Legible (.error error : Except SchemaError α) := by
  rintro number fault ⟨⟩
  exact Bool.noConfusion ofContent

/-- A sequence of steps without syntax errors has none. -/
theorem Legible.bind {answer : Except SchemaError α} {next : α → Except SchemaError β}
    (first : Legible answer) (second : ∀ value, Legible (next value)) :
    Legible (answer >>= next) := by
  cases answer with
  | error error =>
    intro number fault same
    exact first number fault (congrArg Except.error (Except.error.inj same))
  | ok value => exact second value

end SchemaError

open SchemaError (Legible legible_ok legible_error)

namespace SchemaDraft

/-- No definition is refused for its syntax. -/
theorem legible_add (draft : SchemaDraft) (definition : Definition) :
    Legible (draft.add definition) := by
  cases definition with
  | type type =>
    rw [add]
    split
    · exact legible_ok _
    · split
      · exact legible_error rfl
      · exact legible_ok _
  | _ => exact legible_ok _

/-- No list of definitions is refused for its syntax. -/
theorem legible_addAll (source : Nat) (definitions : List Definition) :
    ∀ draft : SchemaDraft, Legible (draft.addAll source definitions) := by
  induction definitions with
  | nil => exact fun _ => legible_ok _
  | cons definition rest ih =>
    intro draft
    rw [addAll]
    split
    · exact legible_error rfl
    · exact (legible_add draft definition).bind ih

/-- No extension is refused for its syntax. -/
theorem legible_applyExtension (types : List SchemaType) (extension : TypeDefinition) :
    Legible (applyExtension types extension) := by
  unfold applyExtension
  split
  · exact legible_error rfl
  · split
    · exact legible_error rfl
    · exact legible_ok _

theorem legible_schema (draft : SchemaDraft) : Legible draft.schema := by
  have extended (extensions : List TypeDefinition) : ∀ types : List SchemaType,
      Legible (extensions.foldlM applyExtension types) := by
    induction extensions with
    | nil => exact fun _ => legible_ok _
    | cons extension rest ih => exact fun types => (legible_applyExtension types extension).bind ih
  exact (extended _ _).bind fun _ => legible_ok _

end SchemaDraft

namespace Schema

variable (schema : Schema)

theorem legible_resolve (site : String) (type : TypeRef) : Legible (schema.resolve site type) := by
  unfold resolve
  split
  · exact legible_ok _
  · exact legible_error rfl

theorem legible_checkInputs (site : String → String) (inputs : List InputValue) :
    Legible (schema.checkInputs site inputs) := by
  induction inputs with
  | nil => exact legible_ok _
  | cons input rest ih =>
    refine (schema.legible_resolve _ _).bind fun kind => ?_
    split
    · exact ih
    · exact legible_error rfl

theorem legible_checkFields (type : String) (fields : List OutputField) :
    ∀ seen, Legible (schema.checkFields type seen fields) := by
  induction fields with
  | nil => exact fun _ => legible_ok _
  | cons field rest ih =>
    intro seen
    rw [checkFields]
    split
    · exact legible_error rfl
    · refine (schema.legible_resolve _ _).bind fun kind => ?_
      split
      · exact legible_error rfl
      · exact (schema.legible_checkInputs _ _).bind fun _ => ih _

theorem legible_checkInterfaces (type : String) (interfaces : List String) :
    Legible (schema.checkInterfaces type interfaces) := by
  induction interfaces with
  | nil => exact legible_ok _
  | cons interface rest ih =>
    rw [checkInterfaces]
    split
    · exact legible_error rfl
    · split
      · exact ih
      · exact legible_error rfl

theorem legible_checkTypes (types : List SchemaType) : Legible (schema.checkTypes types) := by
  induction types with
  | nil => exact legible_ok _
  | cons type rest ih =>
    refine Legible.bind ?_ fun _ => ih
    exact (schema.legible_checkInterfaces _ _).bind fun _ =>
      (schema.legible_checkFields _ _ _).bind fun _ => schema.legible_checkInputs _ _

theorem legible_checkRoots (roots : List String) : Legible (schema.checkRoots roots) := by
  induction roots with
  | nil => exact legible_ok _
  | cons root rest ih =>
    rw [checkRoots]
    split
    · exact legible_error rfl
    · split
      · exact ih
      · exact legible_error rfl

/-- No schema is refused for its syntax. -/
theorem legible_check : Legible schema.check := by
  unfold check
  split
  · exact legible_error rfl
  · exact (schema.legible_checkRoots _).bind fun _ => schema.legible_checkTypes _

/-- No draft is refused for its syntax. -/
theorem legible_ofDraft (draft : SchemaDraft) : Legible (ofDraft draft) :=
  draft.legible_schema.bind fun schema => schema.legible_check.bind fun _ => legible_ok _

end Schema

/-- A syntax error is that of the first source that cannot be read, and gives its number. -/
theorem SchemaDraft.malformed_of_addSources {number : Nat} {error : SyntaxError}
    {sources : List String} : ∀ {draft : SchemaDraft} {first : Nat},
      draft.addSources first sources = .error (.malformedSource number error) →
        ∃ before text after, sources = before ++ text :: after ∧ number = first + before.length ∧
          (∀ earlier ∈ before, ∃ document, Document.parse earlier = .ok document) ∧
            Document.parse text = .error error := by
  induction sources with
  | nil => exact nofun
  | cons text rest ih =>
    intro draft first failed
    rcases Except.of_bind_eq_error failed with unread | ⟨document, read, failed⟩
    · obtain ⟨reason, unread, same⟩ := Except.of_mapError_eq_error unread
      cases same
      exact ⟨[], text, rest, rfl, rfl, nofun, unread⟩
    · rcases Except.of_bind_eq_error failed with refused | ⟨after, _, failed⟩
      · exact absurd refused (legible_addAll _ _ _ _ _)
      · obtain ⟨before, other, later, rfl, counted, reads, unread⟩ := ih failed
        refine ⟨text :: before, other, later, rfl, ?_, ?_, unread⟩
        · rw [List.length_cons, counted]
          omega
        · exact List.forall_mem_cons.mpr ⟨⟨document, Except.of_mapError_eq_ok read⟩, reads⟩

/-- The sources are counted from one: the types of filters are before them, and those are read. -/
theorem Schema.malformed_of_compileWithFilters {number : Nat} {error : SyntaxError}
    {sources : List String}
    (failed : compileWithFilters sources = .error (.malformedSource number error)) :
    ∃ before text after, sources = before ++ text :: after ∧ number = before.length + 1 ∧
      (∀ earlier ∈ before, ∃ document, Document.parse earlier = .ok document) ∧
        Document.parse text = .error error := by
  rcases Except.of_bind_eq_error failed with refused | ⟨filters, _, failed⟩
  · exact absurd refused (SchemaDraft.legible_addAll _ _ _ _ _)
  · rcases Except.of_bind_eq_error failed with unread | ⟨draft, _, refused⟩
    · obtain ⟨before, text, after, parts, counted, reads, fails⟩ :=
        SchemaDraft.malformed_of_addSources unread
      exact ⟨before, text, after, parts, by omega, reads, fails⟩
    · exact absurd refused (legible_ofDraft draft _ _)

end TraversalQuery
