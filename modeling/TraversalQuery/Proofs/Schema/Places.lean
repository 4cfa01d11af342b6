import TraversalQuery.Proofs.Document.Placing
import TraversalQuery.Proofs.Document.Writing
import TraversalQuery.Proofs.Schema.Sources

/-!
# Schemas without places

A schema keeps the directives of its types and fields with the places they stand at in their
sources. Compiling reads nothing off these places: from definitions without them it makes the same
schema without them.
-/

namespace TraversalQuery

/-! ### Definitions -/

/-- Where a directive is placed does not show once places are taken away. -/
@[simp] theorem Directive.bare_placed (place : Span → Span) (directive : Directive) :
    (directive.placed place).bare = directive.bare := by
  simp [placed, bare, Argument.placed, Argument.bare, Function.comp_def]

@[simp] theorem InputDefinition.bare_placed (place : Span → Span) (input : InputDefinition) :
    (input.placed place).bare = input.bare := by
  simp [placed, bare, Function.comp_def]

@[simp] theorem FieldDefinition.bare_placed (place : Span → Span) (field : FieldDefinition) :
    (field.placed place).bare = field.bare := by
  simp [placed, bare, Function.comp_def]

@[simp] theorem TypeContent.bare_placed (place : Span → Span) (content : TypeContent) :
    (content.placed place).bare = content.bare := by
  cases content <;> simp [placed, bare, Function.comp_def]

/-- Where a definition is placed does not show once places are taken away. -/
@[simp] theorem Definition.bare_placed (place : Span → Span) (definition : Definition) :
    (definition.placed place).bare = definition.bare := by
  cases definition <;>
    simp [placed, bare, SchemaDefinition.placed, SchemaDefinition.bare, TypeDefinition.placed,
      TypeDefinition.bare, DirectiveDefinition.placed, DirectiveDefinition.bare, Function.comp_def]

@[simp] theorem Definition.isExecutable_bare (definition : Definition) :
    definition.bare.isExecutable = definition.isExecutable := by
  cases definition <;> rfl

/-! ### Types -/

namespace OutputField

/-- The field without the places of its directives. -/
def bare (field : OutputField) : OutputField :=
  { field with directives := field.directives.map Directive.bare }

theorem ofDefinition_bare (definition : FieldDefinition) :
    ofDefinition definition.bare = (ofDefinition definition).bare := by
  simp [ofDefinition, bare, FieldDefinition.bare, InputDefinition.bare, InputValue.ofDefinition]

end OutputField

namespace TypeBody

/-- The body without the places of directives. -/
def bare : TypeBody → TypeBody
  | .scalar => .scalar
  | .object interfaces fields => .object interfaces (fields.map OutputField.bare)
  | .interface interfaces fields => .interface interfaces (fields.map OutputField.bare)
  | .enum values => .enum values
  | .input fields => .input fields

theorem ofContent_bare (content : TypeContent) :
    ofContent content.bare = (ofContent content).bare := by
  cases content <;>
    simp [ofContent, bare, TypeContent.bare, OutputField.ofDefinition_bare, InputDefinition.bare,
      InputValue.ofDefinition]

/-- Bodies without places are joined where bodies are, and to the same. -/
theorem append?_bare (body more : TypeBody) :
    body.bare.append? more.bare = (body.append? more).map bare := by
  cases body <;> cases more <;> simp [append?, bare]

end TypeBody

namespace SchemaType

/-- The type without the places of directives. -/
def bare (type : SchemaType) : SchemaType :=
  ⟨type.name, type.body.bare, type.directives.map Directive.bare⟩

@[simp] theorem name_bare (type : SchemaType) : type.bare.name = type.name := rfl

@[simp] theorem kind_bare (type : SchemaType) : type.bare.kind = type.kind := by
  obtain ⟨name, body, directives⟩ := type
  cases body <;> rfl

@[simp] theorem interfaces_bare (type : SchemaType) : type.bare.interfaces = type.interfaces := by
  obtain ⟨name, body, directives⟩ := type
  cases body <;> rfl

@[simp] theorem fields_bare (type : SchemaType) :
    type.bare.fields = type.fields.map OutputField.bare := by
  obtain ⟨name, body, directives⟩ := type
  cases body <;> rfl

@[simp] theorem inputFields_bare (type : SchemaType) :
    type.bare.inputFields = type.inputFields := by
  obtain ⟨name, body, directives⟩ := type
  cases body <;> rfl

/-- The type of a definition without places is the type of the definition, without places. -/
theorem ofDefinition_bare (definition : TypeDefinition) :
    ofDefinition definition.bare = (ofDefinition definition).bare := by
  simp [ofDefinition, bare, TypeDefinition.bare, TypeBody.ofContent_bare]

/-- A type without places is extended where the type is, and to the same. -/
theorem extend?_bare (type : SchemaType) (extension : TypeDefinition) :
    type.bare.extend? extension.bare = (type.extend? extension).map bare := by
  simp [extend?, bare, TypeDefinition.bare, TypeBody.ofContent_bare, TypeBody.append?_bare,
    Function.comp_def]

theorem any_name_bare (types : List SchemaType) (name : String) :
    (types.map bare).any (·.name == name) = types.any (·.name == name) := by
  simp [Function.comp_def]

/-- Types are found by their names with or without places. -/
theorem find?_bare (types : List SchemaType) (name : String) :
    (types.map bare).find? (·.name == name) = (types.find? (·.name == name)).map bare := by
  simp [List.find?_map, Function.comp_def]

end SchemaType

/-! ### Drafts -/

namespace SchemaDraft

/-- The draft without places. -/
def bare (draft : SchemaDraft) : SchemaDraft :=
  ⟨draft.types.map SchemaType.bare, draft.extensions.map TypeDefinition.bare, draft.roots⟩

/-- A definition without places is taken up or refused as the definition is. -/
theorem add_bare (draft : SchemaDraft) (definition : Definition) :
    draft.bare.add definition.bare = (draft.add definition).map bare := by
  cases definition with
  | type type =>
    have declares : draft.bare.declares type.name = draft.declares type.name := by
      rw [SchemaDraft.declares, SchemaDraft.declares, bare, SchemaType.any_name_bare]
    change (if type.isExtension then _ else if draft.bare.declares type.name then _ else _) = _
    rw [add, declares, SchemaType.ofDefinition_bare]
    split
    · simp [Except.map, bare]
    · split
      · rfl
      · simp [Except.map, bare]
  | _ => rfl

theorem replace_bare (types : List SchemaType) (extended : SchemaType) :
    replace (types.map SchemaType.bare) extended.bare =
      (replace types extended).map SchemaType.bare := by
  rw [replace, replace, List.map_map, List.map_map]
  exact List.map_congr_left fun type _ => (apply_ite SchemaType.bare _ _ _).symm

/-- An extension without places is applied or refused as the extension is. -/
theorem applyExtension_bare (types : List SchemaType) (extension : TypeDefinition) :
    applyExtension (types.map SchemaType.bare) extension.bare =
      (applyExtension types extension).map (List.map SchemaType.bare) := by
  have named : extension.bare.name = extension.name := rfl
  rw [applyExtension, applyExtension, named, SchemaType.find?_bare]
  cases types.find? (·.name == extension.name) with
  | none => rfl
  | some type =>
    simp only [Option.map_some, SchemaType.extend?_bare]
    cases type.extend? extension with
    | none => rfl
    | some extended => simp only [Option.map_some, replace_bare, Except.map]

/-- Extensions without places are applied or refused as the extensions are. -/
theorem foldlM_applyExtension_bare (extensions : List TypeDefinition) :
    ∀ types : List SchemaType,
      (extensions.map TypeDefinition.bare).foldlM applyExtension (types.map SchemaType.bare) =
        (extensions.foldlM applyExtension types).map (List.map SchemaType.bare) := by
  induction extensions with
  | nil => exact fun types => rfl
  | cons extension rest ih =>
    intro types
    rw [List.map_cons, List.foldlM_cons, List.foldlM_cons, applyExtension_bare]
    cases applyExtension types extension with
    | error error => rfl
    | ok after => exact ih after

/-- Roots are found by names alone. -/
theorem completeRoot_bare (types : List SchemaType) :
    completeRoot (types.map SchemaType.bare) = completeRoot types := by
  funext roots kind
  rw [completeRoot, completeRoot, SchemaType.any_name_bare]

end SchemaDraft

/-! ### Schemas -/

namespace Schema

/-- The schema without the places of directives. -/
def bare (schema : Schema) : Schema :=
  ⟨schema.types.map SchemaType.bare, schema.roots⟩

theorem get?_bare (schema : Schema) (name : String) :
    schema.bare.get? name = (schema.get? name).map SchemaType.bare :=
  SchemaType.find?_bare _ _

theorem kindOf?_bare (schema : Schema) (type : TypeRef) :
    schema.bare.kindOf? type = schema.kindOf? type := by
  simp [kindOf?, get?_bare, Function.comp_def]

theorem resolve_bare (schema : Schema) : schema.bare.resolve = schema.resolve := by
  funext site type
  rw [resolve, resolve, kindOf?_bare]

theorem checkInputs_bare (schema : Schema) (site : String → String) (inputs : List InputValue) :
    schema.bare.checkInputs site inputs = schema.checkInputs site inputs := by
  induction inputs with
  | nil => rfl
  | cons input rest ih => simp only [checkInputs, resolve_bare, ih]

theorem checkFields_bare (schema : Schema) (type : String) (fields : List OutputField) :
    ∀ seen : List String, schema.bare.checkFields type seen (fields.map OutputField.bare) =
      schema.checkFields type seen fields := by
  induction fields with
  | nil => exact fun seen => rfl
  | cons field rest ih =>
    intro seen
    simp only [List.map_cons, checkFields, resolve_bare, checkInputs_bare, ih, OutputField.bare]

theorem checkInterfaces_bare (schema : Schema) (type : String) (interfaces : List String) :
    schema.bare.checkInterfaces type interfaces = schema.checkInterfaces type interfaces := by
  induction interfaces with
  | nil => rfl
  | cons interface rest ih =>
    rw [checkInterfaces, checkInterfaces, get?_bare, ih]
    cases schema.get? interface <;> simp

theorem checkType_bare (schema : Schema) (type : SchemaType) :
    schema.bare.checkType type.bare = schema.checkType type := by
  simp [checkType, checkInterfaces_bare, checkFields_bare, checkInputs_bare]

theorem checkTypes_bare (schema : Schema) (types : List SchemaType) :
    schema.bare.checkTypes (types.map SchemaType.bare) = schema.checkTypes types := by
  induction types with
  | nil => rfl
  | cons type rest ih => rw [List.map_cons, checkTypes, checkTypes, checkType_bare, ih]

theorem checkRoots_bare (schema : Schema) (roots : List String) :
    schema.bare.checkRoots roots = schema.checkRoots roots := by
  induction roots with
  | nil => rfl
  | cons root rest ih =>
    rw [checkRoots, checkRoots, get?_bare, ih]
    cases schema.get? root <;> simp

/-- The check of a schema reads no places. -/
theorem check_bare (schema : Schema) : schema.bare.check = schema.check := by
  have root : schema.bare.rootType? .query = (schema.rootType? .query).map SchemaType.bare := by
    rw [rootType?, rootType?, Option.map_bind]
    exact congrArg _ (funext schema.get?_bare)
  have types : schema.bare.checkTypes schema.bare.types = schema.checkTypes schema.types :=
    checkTypes_bare schema schema.types
  rw [check, check, root, checkRoots_bare, types, Option.isNone_map]
  rfl

/-- A draft without places makes the schema without places, or fails alike. -/
theorem schema_bare (draft : SchemaDraft) : draft.bare.schema = draft.schema.map bare := by
  change ((draft.extensions.map TypeDefinition.bare).foldlM SchemaDraft.applyExtension
    (draft.types.map SchemaType.bare) >>= _) = _
  rw [SchemaDraft.foldlM_applyExtension_bare, SchemaDraft.schema]
  cases draft.extensions.foldlM SchemaDraft.applyExtension draft.types with
  | error error => rfl
  | ok types =>
    have whole : builtinScalars.map SchemaType.scalar ++ types.map SchemaType.bare =
        (builtinScalars.map SchemaType.scalar ++ types).map SchemaType.bare := by
      rw [List.map_append]
      rfl
    simp only [Except.map, Except.ok_bind, whole, SchemaDraft.completeRoot_bare]
    rfl

/-- Compiling a draft without places makes the schema without them. -/
theorem ofDraft_bare (draft : SchemaDraft) : ofDraft draft.bare = (ofDraft draft).map bare := by
  rw [ofDraft, ofDraft, schema_bare]
  cases draft.schema with
  | error error => rfl
  | ok schema =>
    change (schema.bare.check >>= _) = (schema.check >>= _).map bare
    rw [check_bare]
    cases schema.check <;> rfl

end Schema

end TraversalQuery
