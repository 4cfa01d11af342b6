import TraversalQuery.Proofs.Schema.Compiled

/-!
# What schemas are made of

Sources declare types and extend them, in any order. Every type of a compiled schema is a built-in
scalar or is declared once, and it consists of what its definition and after that all its extensions
say, however the sources are divided.
-/

namespace TraversalQuery

/-- The type that a definition declares or extends. -/
def Definition.type? : Definition → Option TypeDefinition
  | .type declared => some declared
  | _ => none

theorem Definition.type?_eq_none {definition : Definition}
    (noType : ∀ type, definition ≠ .type type) : definition.type? = none := by
  cases definition with
  | type type => exact absurd rfl (noType type)
  | _ => rfl

namespace TypeDefinition

/-- The definitions of types in a source, extensions among them. A source that cannot be read has
none. -/
def inSource (source : String) : List TypeDefinition :=
  match Document.parse source with
  | .ok document => document.definitions.filterMap Definition.type?
  | .error _ => []

/-- The definitions of types are among all definitions of the sources. -/
theorem filterMap_type?_inSource (sources : List String) :
    (sources.flatMap Definition.inSource).filterMap Definition.type? =
      sources.flatMap inSource := by
  rw [List.filterMap_flatMap]
  refine congrArg (sources.flatMap ·) (funext fun source => ?_)
  rw [Definition.inSource, inSource]
  cases Document.parse source <;> rfl

/-- The definitions that are not extensions. -/
def declarations (written : List TypeDefinition) : List TypeDefinition :=
  written.filter fun definition => !definition.isExtension

/-- The definitions that are extensions. -/
def extensions (written : List TypeDefinition) : List TypeDefinition :=
  written.filter (·.isExtension)

/-- The definitions of one name. -/
def named (name : String) (written : List TypeDefinition) : List TypeDefinition :=
  written.filter (·.name == name)

/-- The definitions of a name in two lists are those of the first, then those of the second. -/
theorem named_append (name : String) (written more : List TypeDefinition) :
    named name (written ++ more) = named name written ++ named name more :=
  List.filter_append _ _

/-- What is written of the type of a name: its definition and then its extensions. -/
def parts (written : List TypeDefinition) (name : String) : List TypeDefinition :=
  named name (declarations written) ++ named name (extensions written)

end TypeDefinition

open TypeDefinition

namespace SchemaType

/-- A type that consists of what some definitions say, one after another. -/
structure MadeOf (type : SchemaType) (parts : List TypeDefinition) : Prop where
  kind : ∀ part ∈ parts, (ofDefinition part).kind = type.kind
  interfaces : type.interfaces = parts.flatMap fun part => (ofDefinition part).interfaces
  fields : type.fields = parts.flatMap fun part => (ofDefinition part).fields
  enumValues : type.enumValues = parts.flatMap fun part => (ofDefinition part).enumValues
  inputFields : type.inputFields = parts.flatMap fun part => (ofDefinition part).inputFields
  directives : type.directives = parts.flatMap fun part => (ofDefinition part).directives

/-- A type that was just declared is made of its definition. -/
theorem madeOf_ofDefinition (definition : TypeDefinition) :
    (ofDefinition definition).MadeOf [definition] where
  kind := List.forall_mem_singleton.mpr rfl
  interfaces := (List.flatMap_singleton _ _).symm
  fields := (List.flatMap_singleton _ _).symm
  enumValues := (List.flatMap_singleton _ _).symm
  inputFields := (List.flatMap_singleton _ _).symm
  directives := (List.flatMap_singleton _ _).symm

/-- Built-in scalars are made of nothing that is written. -/
theorem madeOf_scalar (name : String) : (scalar name).MadeOf [] where
  kind := List.forall_mem_nil _
  interfaces := rfl
  fields := rfl
  enumValues := rfl
  inputFields := rfl
  directives := rfl

/-- An extension is of the kind of the type that it extends. -/
theorem kind_of_extend? {type extended : SchemaType} {extension : TypeDefinition}
    (isExtended : type.extend? extension = some extended) :
    extended.name = type.name ∧ extended.kind = type.kind ∧
      (ofDefinition extension).kind = type.kind := by
  obtain ⟨body, appended, rfl⟩ := Option.map_eq_some_iff.mp isExtended
  obtain ⟨name, start, directives⟩ := type
  obtain ⟨_, content, _, _, _⟩ := extension
  cases start <;> cases content <;> cases appended <;> exact ⟨rfl, rfl, rfl⟩

/-- An extension adds what it says. -/
theorem MadeOf.extend {type extended : SchemaType} {parts : List TypeDefinition}
    {extension : TypeDefinition} (made : type.MadeOf parts)
    (isExtended : type.extend? extension = some extended) :
    extended.MadeOf (parts ++ [extension]) := by
  obtain ⟨_, same, sameKind⟩ := kind_of_extend? isExtended
  obtain ⟨body, appended, rfl⟩ := Option.map_eq_some_iff.mp isExtended
  have kind : ∀ part ∈ parts ++ [extension], (ofDefinition part).kind = _ :=
    List.forall_mem_append.mpr ⟨made.kind, List.forall_mem_singleton.mpr sameKind⟩
  obtain ⟨name, start, directives⟩ := type
  obtain ⟨extensionName, content, more, isExtension, span⟩ := extension
  refine ⟨fun part member => (kind part member).trans same.symm, ?_, ?_, ?_, ?_, ?_⟩
  all_goals rw [List.flatMap_append, List.flatMap_singleton]
  · rw [← made.interfaces]
    cases start <;> cases content <;> cases appended <;> rfl
  · rw [← made.fields]
    cases start <;> cases content <;> cases appended <;> rfl
  · rw [← made.enumValues]
    cases start <;> cases content <;> cases appended <;> rfl
  · rw [← made.inputFields]
    cases start <;> cases content <;> cases appended <;> rfl
  · rw [← made.directives]
    rfl

end SchemaType

namespace SchemaDraft

/-- A draft that holds what is written so far. -/
structure Holding (draft : SchemaDraft) (written : List TypeDefinition) : Prop where
  types : draft.types = (declarations written).map .ofDefinition
  extensions : draft.extensions = TypeDefinition.extensions written

/-- The empty draft holds nothing. -/
theorem holding_empty : empty.Holding [] :=
  ⟨rfl, rfl⟩

/-- A definition that is taken up is held with those before it. -/
theorem Holding.add {draft after : SchemaDraft} {written : List TypeDefinition}
    {definition : Definition} (holding : draft.Holding written)
    (added : draft.add definition = .ok after) :
    after.Holding (written ++ definition.type?.toList) := by
  obtain ⟨types, extensions⟩ := holding
  obtain ⟨type, rfl, isExtension, rfl⟩ | ⟨type, rfl, isDeclaration, _, rfl⟩ | ⟨noType, rfl⟩ :=
    add_cases added
  · exact ⟨by simp [Definition.type?, declarations, isExtension, types],
      by simp [Definition.type?, TypeDefinition.extensions, isExtension, extensions]⟩
  · exact ⟨by simp [Definition.type?, declarations, isDeclaration, types],
      by simp [Definition.type?, TypeDefinition.extensions, isDeclaration, extensions]⟩
  · rw [Definition.type?_eq_none noType, Option.toList_none, List.append_nil]
    exact ⟨types, extensions⟩

/-- **A step.** A draft that holds what is written holds it with one more definition. -/
theorem Holding.step {draft after : SchemaDraft} {written : List Definition}
    {definition : Definition} (holding : draft.Holding (written.filterMap Definition.type?))
    (added : draft.add definition = .ok after) :
    after.Holding ((written ++ [definition]).filterMap Definition.type?) := by
  rw [List.filterMap_append]
  exact holding.add added

/-- A draft holds the definitions that it was made of. -/
theorem holding_addAll {source : Nat} {definitions : List Definition} {after : SchemaDraft}
    (added : empty.addAll source definitions = .ok after) :
    after.Holding (definitions.filterMap Definition.type?) :=
  after_addAll (motive := fun written draft => draft.Holding (written.filterMap Definition.type?))
    Holding.step [] holding_empty added

/-- The types of a draft after some of its extensions: each consists of its definition and of those
of the extensions that have its name, and there is a type for every extension. -/
structure Extended (written applied : List TypeDefinition) (types : List SchemaType) : Prop where
  made : ∀ type ∈ types,
    type.MadeOf (named type.name (declarations written) ++ named type.name applied)
  known : ∀ extension ∈ applied, extension.name ∈ types.map (·.name)

/-- Before any extension is applied, types are made of their definitions. -/
theorem extended_nil {written : List TypeDefinition}
    (distinct : ((declarations written).map (·.name)).Nodup) :
    Extended written [] ((declarations written).map .ofDefinition) where
  made := by
    refine List.forall_mem_map.mpr fun definition member => ?_
    change (SchemaType.ofDefinition definition).MadeOf
      (named definition.name (declarations written) ++ [])
    rw [named, List.filter_key_eq_singleton distinct member, List.append_nil]
    exact SchemaType.madeOf_ofDefinition definition
  known := List.forall_mem_nil _

/-- Applying an extension adds it to the type of its name. -/
theorem Extended.step {written applied : List TypeDefinition} {types after : List SchemaType}
    {extension : TypeDefinition} (extended : Extended written applied types)
    (added : applyExtension types extension = .ok after) :
    Extended written (applied ++ [extension]) after := by
  have sameNames := names_applyExtension added
  unfold applyExtension at added
  split at added
  · contradiction
  · rename_i type found
    split at added
    · contradiction
    · rename_i larger isLarger
      have named : type.name = extension.name := by simpa using List.find?_some found
      have member := List.mem_of_find?_eq_some found
      obtain ⟨namedLarger, _, _⟩ := SchemaType.kind_of_extend? isLarger
      cases added
      refine ⟨List.forall_mem_map.mpr fun other isOther => ?_, ?_⟩
      · split
        · have added : TypeDefinition.named larger.name [extension] = [extension] :=
            List.filter_cons_of_pos (by simp [namedLarger, named])
          have holds := (extended.made type member).extend isLarger
          rw [namedLarger] at added ⊢
          rwa [TypeDefinition.named_append, added, ← List.append_assoc]
        · rename_i unlike
          have kept : TypeDefinition.named other.name [extension] = [] :=
            List.filter_cons_of_neg (by simpa [← named, ← namedLarger] using Ne.symm unlike)
          rw [TypeDefinition.named_append, kept, List.append_nil]
          exact extended.made other isOther
      · rw [sameNames]
        refine List.forall_mem_append.mpr ⟨extended.known, List.forall_mem_singleton.mpr ?_⟩
        exact named ▸ List.mem_map_of_mem member

/-- Applying extensions one after another adds each to the type of its name. -/
theorem Extended.steps {written extensions : List TypeDefinition} :
    ∀ {applied : List TypeDefinition} {types after : List SchemaType},
      Extended written applied types → extensions.foldlM applyExtension types = .ok after →
        Extended written (applied ++ extensions) after := by
  induction extensions with
  | nil =>
    intro applied types after extended added
    cases added
    rwa [List.append_nil]
  | cons extension rest ih =>
    intro applied types after extended added
    rw [List.foldlM_cons] at added
    obtain ⟨between, first, later⟩ := Except.of_bind_eq_ok added
    have holds := ih (extended.step first) later
    rwa [List.append_assoc] at holds

end SchemaDraft

namespace Schema

/-- A schema that is compiled from definitions: from those in sources, after the types of filters or
without them. -/
inductive CompiledFrom (schema : Schema) : List TypeDefinition → Prop
  | plain {sources : List String} (compiled : compile sources = .ok schema) :
      CompiledFrom schema (sources.flatMap inSource)
  | filtered {sources : List String} (compiled : compileWithFilters sources = .ok schema) :
      CompiledFrom schema (Filter.types ++ sources.flatMap inSource)

namespace CompiledFrom

variable {schema : Schema} {written : List TypeDefinition} (compiled : schema.CompiledFrom written)
include compiled

/-- A schema that is compiled from definitions is compiled. -/
theorem isCompiled : schema.Compiled := by
  cases compiled with
  | plain compiled => exact ⟨_, .inl compiled⟩
  | filtered compiled => exact ⟨_, .inr compiled⟩

/-- A compiled schema comes of a draft that holds the definitions of its types. -/
theorem draft : ∃ draft : SchemaDraft, draft.Holding written ∧ ofDraft draft = .ok schema := by
  cases compiled with
  | plain compiled =>
    rw [← filterMap_type?_inSource]
    exact exists_draft_of_compile
      (motive := fun written draft => draft.Holding (written.filterMap Definition.type?))
      SchemaDraft.Holding.step SchemaDraft.holding_empty compiled
  | @filtered sources compiled =>
    have types : (Filter.types.map Definition.type ++ sources.flatMap Definition.inSource).filterMap
        Definition.type? = Filter.types ++ sources.flatMap inSource := by
      rw [List.filterMap_append, filterMap_type?_inSource]
      rfl
    rw [← types]
    exact exists_draft_of_compileWithFilters
      (motive := fun written draft => draft.Holding (written.filterMap Definition.type?))
      SchemaDraft.Holding.step SchemaDraft.holding_empty compiled

/-- A schema has the built-in scalars and the types that are declared, with their extensions. -/
theorem extended : ∃ extended, schema.types = builtinScalars.map .scalar ++ extended ∧
    extended.map (·.name) = (declarations written).map (·.name) ∧
    SchemaDraft.Extended written (extensions written) extended := by
  obtain ⟨draft, ⟨types, extensions⟩, made⟩ := compiled.draft
  obtain ⟨extended, applied, sameTypes, _⟩ := of_ofDraft_eq_ok made
  have start : draft.types.map (·.name) = (declarations written).map (·.name) := by
    rw [types, List.map_map]
    rfl
  have names : extended.map (·.name) = (declarations written).map (·.name) :=
    @SchemaDraft.kept_foldlM_applyExtension
      (fun types => types.map (·.name) = (declarations written).map (·.name))
      (fun same applied => (SchemaDraft.names_applyExtension applied).trans same) _ _ _ start
      applied
  have distinct : ((declarations written).map (·.name)).Nodup := by
    have all := compiled.isCompiled.nodup_names
    rw [sameTypes, List.map_append, names] at all
    exact (List.nodup_append.mp all).2.1
  rw [types, extensions] at applied
  exact ⟨extended, sameTypes, names, (SchemaDraft.extended_nil distinct).steps applied⟩

/-- The types of a schema are the built-in scalars and those that are declared, in order. -/
theorem names_eq :
    schema.types.map (·.name) = builtinScalars ++ (declarations written).map (·.name) := by
  obtain ⟨extended, sameTypes, names, _⟩ := compiled.extended
  rw [sameTypes, List.map_append, names]
  rfl

/-- Nothing is written of the built-in scalars. -/
theorem parts_scalar {name : String} (builtin : name ∈ builtinScalars) :
    parts written name = [] := by
  obtain ⟨_, _, names, holds⟩ := compiled.extended
  have distinct := compiled.isCompiled.nodup_names
  rw [compiled.names_eq] at distinct
  have custom : name ∉ (declarations written).map (·.name) :=
    fun declared => (List.nodup_append.mp distinct).2.2 name builtin name declared rfl
  have absent {definitions : List TypeDefinition}
      (declared : ∀ definition ∈ definitions,
        definition.name ∈ (declarations written).map (·.name)) : named name definitions = [] := by
    rw [named, List.filter_eq_nil_iff]
    intro definition member same
    exact custom (beq_iff_eq.mp same ▸ declared definition member)
  rw [parts, absent fun _ => List.mem_map_of_mem, absent fun _ => names ▸ holds.known _]
  rfl

/-- **A type is made of what is written of it:** of its definition and its extensions. -/
theorem madeOf : ∀ type ∈ schema.types, type.MadeOf (parts written type.name) := by
  obtain ⟨extended, sameTypes, _, holds⟩ := compiled.extended
  rw [sameTypes]
  refine List.forall_mem_append.mpr ⟨List.forall_mem_map.mpr fun name builtin => ?_, holds.made⟩
  change (SchemaType.scalar name).MadeOf (parts written name)
  rw [compiled.parts_scalar builtin]
  exact SchemaType.madeOf_scalar name

/-- **Everything that is written goes into a type:** an extension into the one it extends. -/
theorem exists_type : ∀ definition ∈ written, ∃ type, schema.get? definition.name = some type ∧
    definition ∈ parts written type.name := by
  intro definition member
  obtain ⟨extended, sameTypes, names, holds⟩ := compiled.extended
  have declared : definition.name ∈ extended.map (·.name) := by
    cases kind : definition.isExtension with
    | false =>
      rw [names]
      exact List.mem_map_of_mem (List.mem_filter.mpr ⟨member, by rw [kind]; rfl⟩)
    | true => exact holds.known definition (List.mem_filter.mpr ⟨member, kind⟩)
  obtain ⟨type, isType, named⟩ := List.mem_map.mp declared
  have listed : type ∈ schema.types := sameTypes ▸ List.mem_append_right _ isType
  refine ⟨type, named ▸ compiled.isCompiled.get?_name listed, ?_⟩
  rw [parts, List.mem_append]
  cases kind : definition.isExtension with
  | false => exact .inl (by simp [TypeDefinition.named, declarations, member, kind, named])
  | true => exact .inr (by simp [TypeDefinition.named, extensions, member, kind, named])

end CompiledFrom

end Schema

end TraversalQuery
