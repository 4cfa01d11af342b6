import TraversalQuery.Proofs.Schema.Sources

/-!
# Extensions as merged text

An extension says the same as its words would at the end of the definition that it extends. So a
schema is compiled from definitions as it would be if every extension were taken out and written
into its definition, whether it stands before or after it, and it is refused for the same reason.
-/

namespace TraversalQuery

/-- Content with more of the same kind after it. Content of another kind adds nothing. -/
def TypeContent.followedBy : TypeContent → TypeContent → TypeContent
  | .object interfaces fields, .object moreInterfaces moreFields =>
    .object (interfaces ++ moreInterfaces) (fields ++ moreFields)
  | .interface interfaces fields, .interface moreInterfaces moreFields =>
    .interface (interfaces ++ moreInterfaces) (fields ++ moreFields)
  | .enum values, .enum more => .enum (values ++ more)
  | .input fields, .input more => .input (fields ++ more)
  | content, _ => content

namespace TypeDefinition

/-- The kind of type that a definition declares or extends. -/
def kind (definition : TypeDefinition) : TypeKind :=
  (SchemaType.ofDefinition definition).kind

/-- A definition with the words of an extension at its end, if the extension is one of it. -/
def followedBy (base extension : TypeDefinition) : TypeDefinition :=
  if base.name = extension.name then
    { base with
      content := base.content.followedBy extension.content
      directives := base.directives ++ extension.directives }
  else base

/-- A definition with the words of all its extensions at its end, in their order. -/
def withExtensions (extensions : List TypeDefinition) (base : TypeDefinition) : TypeDefinition :=
  extensions.foldl followedBy base

/-- Some type of the name and kind of an extension is declared. -/
def Extends (written : List TypeDefinition) (extension : TypeDefinition) : Prop :=
  ∃ base ∈ declarations written, base.name = extension.name ∧ base.kind = extension.kind

instance (written : List TypeDefinition) (extension : TypeDefinition) :
    Decidable (Extends written extension) :=
  inferInstanceAs (Decidable (∃ base ∈ declarations written,
    base.name = extension.name ∧ base.kind = extension.kind))

@[simp] theorem name_followedBy (base extension : TypeDefinition) :
    (base.followedBy extension).name = base.name := by
  unfold followedBy
  split <;> rfl

@[simp] theorem isExtension_followedBy (base extension : TypeDefinition) :
    (base.followedBy extension).isExtension = base.isExtension := by
  unfold followedBy
  split <;> rfl

/-- What follows a definition does not change its kind. -/
theorem kind_followedBy (base extension : TypeDefinition) :
    (base.followedBy extension).kind = base.kind := by
  unfold followedBy
  split
  · obtain ⟨_, start, _, _, _⟩ := base
    obtain ⟨_, more, _, _, _⟩ := extension
    cases start <;> cases more <;> rfl
  · rfl

@[simp] theorem name_withExtensions (extensions : List TypeDefinition) :
    ∀ base : TypeDefinition, (base.withExtensions extensions).name = base.name := by
  induction extensions with
  | nil => exact fun _ => rfl
  | cons extension rest ih => exact fun base => (ih _).trans (name_followedBy base extension)

@[simp] theorem isExtension_withExtensions (extensions : List TypeDefinition) :
    ∀ base : TypeDefinition, (base.withExtensions extensions).isExtension = base.isExtension := by
  induction extensions with
  | nil => exact fun _ => rfl
  | cons extension rest ih => exact fun base => (ih _).trans (isExtension_followedBy base extension)

/-- Extending the type of a definition makes the type of the definition with what extends it. -/
theorem extend?_ofDefinition {base extension : TypeDefinition}
    (sameName : base.name = extension.name) (sameKind : base.kind = extension.kind) :
    (SchemaType.ofDefinition base).extend? extension =
      some (.ofDefinition (base.followedBy extension)) := by
  rw [followedBy, if_pos sameName]
  obtain ⟨_, start, _, _, _⟩ := base
  obtain ⟨_, more, _, _, _⟩ := extension
  cases start <;> cases more <;> first
    | contradiction
    | simp [SchemaType.extend?, SchemaType.ofDefinition, TypeBody.ofContent, TypeBody.append?,
        TypeContent.followedBy]

end TypeDefinition

open TypeDefinition

namespace Definition

/-- What stands in the place of a definition once some extensions are written into theirs. -/
def withExtensions? (extensions : List TypeDefinition) : Definition → Option Definition
  | .type definition =>
    if definition.isExtension then none else some (.type (definition.withExtensions extensions))
  | other => some other

/-- Definitions without extensions: each of them is written into the definitions of its name. -/
def merged (written : List Definition) : List Definition :=
  written.filterMap (withExtensions? (extensions (written.filterMap type?)))

end Definition

namespace SchemaDraft

/-- An extension of a declared type is applied to it as if it had been written into it. -/
theorem applyExtension_ofDefinition {declared : List TypeDefinition} {extension : TypeDefinition}
    (distinct : (declared.map (·.name)).Nodup)
    (extended : ∃ base ∈ declared, base.name = extension.name ∧ base.kind = extension.kind) :
    applyExtension (declared.map .ofDefinition) extension =
      .ok ((declared.map fun base => base.followedBy extension).map .ofDefinition) := by
  obtain ⟨base, member, sameName, sameKind⟩ := extended
  have found : (declared.map SchemaType.ofDefinition).find? (·.name == extension.name) =
      some (.ofDefinition base) := by
    rw [List.find?_map, ← sameName]
    exact congrArg _ (List.find?_key_eq_some distinct member)
  rw [applyExtension, found]
  dsimp only
  rw [extend?_ofDefinition sameName sameKind]
  refine congrArg Except.ok ?_
  rw [replace, List.map_map, List.map_map]
  refine List.map_congr_left fun other isOther => ?_
  change (if other.name = (base.followedBy extension).name then _ else _) =
    SchemaType.ofDefinition (other.followedBy extension)
  rw [name_followedBy]
  by_cases same : other.name = base.name
  · rw [if_pos same, List.inj_on_of_nodup_map distinct isOther member same]
  · rw [if_neg same, followedBy, if_neg (sameName ▸ same)]

/-- All extensions are applied to the declared types as if they had been written into them. -/
theorem foldlM_applyExtension_ofDefinition {extensions : List TypeDefinition} :
    ∀ {declared : List TypeDefinition}, (declared.map (·.name)).Nodup →
      (∀ extension ∈ extensions, ∃ base ∈ declared,
        base.name = extension.name ∧ base.kind = extension.kind) →
        extensions.foldlM applyExtension (declared.map .ofDefinition) =
          .ok ((declared.map (withExtensions extensions)).map .ofDefinition) := by
  induction extensions with
  | nil =>
    intro declared _ _
    have unchanged : declared.map (withExtensions []) = declared := List.map_id _
    rw [unchanged]
    rfl
  | cons extension rest ih =>
    intro declared distinct extended
    obtain ⟨first, later⟩ := List.forall_mem_cons.mp extended
    have names : (declared.map fun base => base.followedBy extension).map (·.name) =
        declared.map (·.name) := by
      rw [List.map_map]
      exact List.map_congr_left fun base _ => name_followedBy base extension
    have known : ∀ other ∈ rest, ∃ base ∈ declared.map fun base => base.followedBy extension,
        base.name = other.name ∧ base.kind = other.kind := by
      intro other member
      obtain ⟨base, isBase, sameName, sameKind⟩ := later other member
      exact ⟨_, List.mem_map_of_mem isBase, (name_followedBy base extension).trans sameName,
        (kind_followedBy base extension).trans sameKind⟩
    rw [List.foldlM_cons, applyExtension_ofDefinition distinct first, Except.ok_bind,
      ih (names ▸ distinct) known, List.map_map (l := declared)]
    rfl

/-- The names that a draft declares and the roots that it sets: all that the next definition is
taken by. -/
def outline (draft : SchemaDraft) : List String × Roots :=
  (draft.types.map (·.name), draft.roots)

/-- Drafts with the same outline declare the same names. -/
theorem declares_eq_of_outline {draft other : SchemaDraft} (same : draft.outline = other.outline)
    (name : String) : draft.declares name = other.declares name := by
  have names (draft : SchemaDraft) :
      draft.types.any (·.name == name) = draft.outline.1.any (· == name) := by
    rw [outline, List.any_map]
    rfl
  rw [declares, declares, names, names, same]

/-- Definitions of one name leave the same outline or are both refused. -/
theorem outline_add_type {draft other : SchemaDraft} {definition merged : TypeDefinition}
    (same : draft.outline = other.outline) (sameName : merged.name = definition.name)
    (isDeclared : definition.isExtension = false) (isMerged : merged.isExtension = false) :
    (draft.add (.type definition)).map outline = (other.add (.type merged)).map outline := by
  dsimp only [add]
  rw [isDeclared, isMerged, sameName, declares_eq_of_outline same]
  obtain ⟨names, roots⟩ := Prod.mk.inj same
  cases other.declares definition.name with
  | true => rfl
  | false =>
    refine congrArg Except.ok (Prod.ext ?_ roots)
    change (draft.types ++ [_]).map _ = (other.types ++ [_]).map _
    rw [List.map_append, List.map_append, names]
    exact congrArg (fun name => _ ++ [name]) sameName.symm

/-- A definition that is of no type has the same effect on drafts with the same outline. -/
theorem outline_add {draft other : SchemaDraft} (same : draft.outline = other.outline)
    (definition : Definition) (notType : definition.type? = none) :
    (draft.add definition).map outline = (other.add definition).map outline := by
  obtain ⟨names, roots⟩ := Prod.mk.inj same
  cases definition with
  | schema schema =>
    refine congrArg Except.ok (Prod.ext names ?_)
    change List.foldl _ draft.roots _ = List.foldl _ other.roots _
    rw [roots]
  | type type => contradiction
  | _ => exact congrArg Except.ok same

/-- Definitions are taken or refused alike with their extensions and without them. -/
theorem outline_addAll (extensions : List TypeDefinition) {written : List Definition}
    (ofSchema : Definition.OfSchema written) :
    ∀ {draft other : SchemaDraft}, draft.outline = other.outline →
      (draft.addAll 0 written).map outline =
        (other.addAll 0 (written.filterMap (Definition.withExtensions? extensions))).map
          outline := by
  induction written with
  | nil => exact fun same => congrArg Except.ok same
  | cons definition rest ih =>
    intro draft other same
    obtain ⟨first, later⟩ := List.forall_mem_cons.mp ofSchema
    have continued {merged : Definition} (ofMerged : merged.isExecutable = false)
        (alike : (draft.add definition).map outline = (other.add merged).map outline) :
        (draft.addAll 0 (definition :: rest)).map outline =
          (other.addAll 0 (merged :: rest.filterMap (Definition.withExtensions? extensions))).map
            outline := by
      rw [addAll_cons first, addAll_cons ofMerged]
      cases added : draft.add definition <;> cases added' : other.add merged <;>
        rw [added, added'] at alike
      · exact congrArg Except.error (Except.error.inj alike)
      · contradiction
      · contradiction
      · exact ih later (Except.ok.inj alike)
    cases definition with
    | type definition =>
      cases isExtension : definition.isExtension with
      | true =>
        rw [addAll_cons first,
          List.filterMap_cons_none (by simp [Definition.withExtensions?, isExtension])]
        dsimp only [add]
        rw [isExtension]
        exact ih later same
      | false =>
        rw [List.filterMap_cons_some (b := .type (definition.withExtensions extensions))
          (by simp [Definition.withExtensions?, isExtension])]
        exact continued rfl (outline_add_type same (name_withExtensions _ _) isExtension
          ((isExtension_withExtensions _ _).trans isExtension))
    | _ => exact continued first (outline_add same _ rfl)

end SchemaDraft

namespace Definition

/-- Of the types that are declared, each is merged with its extensions, and no extension is left. -/
theorem types_merged (written : List Definition) (applied : List TypeDefinition) :
    declarations ((written.filterMap (withExtensions? applied)).filterMap type?) =
        (declarations (written.filterMap type?)).map (TypeDefinition.withExtensions applied) ∧
      extensions ((written.filterMap (withExtensions? applied)).filterMap type?) = [] := by
  induction written with
  | nil => exact ⟨rfl, rfl⟩
  | cons definition rest ih =>
    cases definition with
    | type definition =>
      cases isExtension : definition.isExtension <;>
        simpa [withExtensions?, type?, isExtension, declarations, extensions] using ih
    | _ => exact ih

end Definition

namespace Schema

/-- An extension says what its words would say in the definition that it extends. -/
theorem ofDefinitions_merged {written : List Definition} (ofSchema : Definition.OfSchema written)
    (extend : ∀ extension ∈ extensions (written.filterMap Definition.type?),
      Extends (written.filterMap Definition.type?) extension) :
    ofDefinitions (Definition.merged written) = ofDefinitions written := by
  have alike := SchemaDraft.outline_addAll (extensions (written.filterMap Definition.type?))
    ofSchema (rfl : SchemaDraft.empty.outline = SchemaDraft.empty.outline)
  unfold ofDefinitions Definition.merged
  cases added : SchemaDraft.empty.addAll 0 written <;>
    cases added' : SchemaDraft.empty.addAll 0 (written.filterMap (Definition.withExtensions?
      (extensions (written.filterMap Definition.type?)))) <;> rw [added, added'] at alike
  · exact congrArg Except.error (Except.error.inj alike).symm
  · contradiction
  · contradiction
  · rename_i draft merged
    have distinct : SchemaDraft.Distinct draft.types :=
      SchemaDraft.kept_addAll SchemaDraft.distinct_add SchemaDraft.distinct_empty added
    obtain ⟨types, pending⟩ := SchemaDraft.holding_addAll added
    obtain ⟨types', pending'⟩ := SchemaDraft.holding_addAll added'
    obtain ⟨declared, none⟩ := Definition.types_merged written
      (extensions (written.filterMap Definition.type?))
    rw [declared] at types'
    rw [none] at pending'
    have roots : merged.roots = draft.roots := (congrArg Prod.snd (Except.ok.inj alike)).symm
    have own : ((declarations (written.filterMap Definition.type?)).map (·.name)).Nodup := by
      have names := (List.nodup_append.mp distinct).2.1
      rwa [types, List.map_map] at names
    have applied := SchemaDraft.foldlM_applyExtension_ofDefinition own extend
    rw [← types, ← types', ← pending] at applied
    have same : merged.schema = draft.schema := by
      rw [SchemaDraft.schema, SchemaDraft.schema, applied, pending', roots]
      rfl
    change ofDraft merged = ofDraft draft
    rw [ofDraft, same]
    rfl

/-- **Extensions are merged into what they extend.** Definitions of which every extension extends a
type that is declared among them, before it or after it, make the schema that they make when all
extensions are written into the definitions of their types, and are refused for the same reason. So
do sources that hold them, alone or after the types of filters. -/
theorem compile_merges_extensions {written : List Definition}
    (ofSchema : Definition.OfSchema written)
    (extend : ∀ extension ∈ extensions (written.filterMap Definition.type?),
      Extends (written.filterMap Definition.type?) extension) :
    ofDefinitions written = ofDefinitions (Definition.merged written) ∧
      ∀ sources, (∀ source ∈ sources, (Document.parse source).isOk = true) →
        (written = sources.flatMap Definition.inSource →
          compile sources = ofDefinitions (Definition.merged written)) ∧
        (written = Filter.types.map .type ++ sources.flatMap Definition.inSource →
          compileWithFilters sources = ofDefinitions (Definition.merged written)) := by
  have same := ofDefinitions_merged ofSchema extend
  refine ⟨same.symm, fun sources read => ⟨?_, ?_⟩⟩
  · rintro rfl
    rw [compile_eq_ofDefinitions read ofSchema, same]
  · rintro rfl
    rw [compileWithFilters_eq_ofDefinitions read (List.forall_mem_append.mp ofSchema).2, same]

/-- Sources of a shelf: books are extended before they are defined and after that, and so is what
they can be filtered by. -/
def shelfSources : List String :=
  ["extend type Book implements Titled @rare \x7b pages(unit: Unit): Int \x7d",
    "schema \x7b query: Book \x7d type Book @kept \x7b title: ID \x7d " ++
      "extend enum Unit \x7b LINE \x7d",
    "interface Titled \x7b title: ID \x7d extend type Book \x7b next: Book \x7d " ++
      "enum Unit \x7b PAGE \x7d",
    "extend input WhereClause \x7b shelf: Unit = PAGE \x7d"]

/-- The definitions of the shelf, after the types of filters. -/
def shelfDefinitions : List Definition :=
  Filter.types.map .type ++ shelfSources.flatMap Definition.inSource

/-- The four extensions of the shelf go into their types. -/
theorem compile_merges_extensions_shelf :
    (extensions (shelfDefinitions.filterMap Definition.type?)).length = 4 ∧
      (∀ extension ∈ extensions (shelfDefinitions.filterMap Definition.type?),
        Extends (shelfDefinitions.filterMap Definition.type?) extension) ∧
      compileWithFilters shelfSources = ofDefinitions (Definition.merged shelfDefinitions) ∧
      (compileWithFilters shelfSources).toOption.any (fun schema =>
        (schema.get? "Book").map (·.fields.map (·.name)) == some ["title", "pages", "next"]) =
          true := by
  obtain ⟨read, ofSchema, four, extend, made⟩ :
      (∀ source ∈ shelfSources, (Document.parse source).isOk = true) ∧
        Definition.OfSchema shelfDefinitions ∧
        (extensions (shelfDefinitions.filterMap Definition.type?)).length = 4 ∧
        (∀ extension ∈ extensions (shelfDefinitions.filterMap Definition.type?),
          Extends (shelfDefinitions.filterMap Definition.type?) extension) ∧
        (compileWithFilters shelfSources).toOption.any (fun schema =>
          (schema.get? "Book").map (·.fields.map (·.name)) == some ["title", "pages", "next"]) =
            true := by
    decide +kernel
  have merges := (compile_merges_extensions ofSchema extend).2 shelfSources read
  exact ⟨four, extend, merges.2 rfl, made⟩

end Schema

end TraversalQuery
