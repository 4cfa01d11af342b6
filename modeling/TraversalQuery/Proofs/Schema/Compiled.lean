import Mathlib.Data.List.Nodup
import TraversalQuery.Proofs.Schema.Checks
import TraversalQuery.Proofs.Schema.Drafts

/-!
# Compiled schemas

A type is declared once, so in a compiled schema every type is the one of its name. Whether the
types of filters are among the declared ones makes no difference.
-/

/-- Of a list without repeated keys only one item is left that has the key of an item. -/
theorem List.filter_key_eq_singleton {α β : Type} [BEq β] [LawfulBEq β] {key : α → β} {item : α}
    {items : List α} (distinct : (items.map key).Nodup) (member : item ∈ items) :
    (items.filter fun other => key other == key item) = [item] := by
  induction items with
  | nil => cases member
  | cons first rest ih =>
    obtain ⟨fresh, distinct⟩ := List.nodup_cons.mp distinct
    rcases List.mem_cons.mp member with rfl | later
    · have none : (rest.filter fun other => key other == key item) = [] := by
        rw [List.filter_eq_nil_iff]
        intro other present same
        exact fresh (beq_iff_eq.mp same ▸ List.mem_map_of_mem present)
      rw [List.filter_cons, if_pos (beq_self_eq_true _), none]
    · have unlike : (key first == key item) = false :=
        beq_false_of_ne fun same => fresh (same ▸ List.mem_map_of_mem later)
      rw [List.filter_cons_of_neg (by simp [unlike]), ih distinct later]

/-- In a list without repeated keys an item is found by its key. -/
theorem List.find?_key_eq_some {α β : Type} [BEq β] [LawfulBEq β] {key : α → β} {item : α}
    {items : List α} (distinct : (items.map key).Nodup) (member : item ∈ items) :
    items.find? (fun other => key other == key item) = some item := by
  rw [← List.head?_filter, List.filter_key_eq_singleton distinct member, List.head?_singleton]

namespace TraversalQuery

namespace SchemaDraft

/-- The types of a draft have names of their own, which no built-in scalar has. -/
def Distinct (types : List SchemaType) : Prop :=
  (Schema.builtinScalars ++ types.map (·.name)).Nodup

theorem distinct_empty : Distinct empty.types := by
  unfold Distinct
  decide

/-- A new type with a name of its own leaves names distinct. -/
theorem distinct_append {types : List SchemaType} (distinct : Distinct types)
    {type : SchemaType} (fresh : type.name ∉ types.map (·.name))
    (custom : type.name ∉ Schema.builtinScalars) : Distinct (types ++ [type]) := by
  unfold Distinct
  rw [List.map_append, ← List.append_assoc]
  refine List.nodup_append.mpr ⟨distinct, List.nodup_singleton _, ?_⟩
  intro name member other isOther
  rw [List.mem_singleton.mp isOther]
  rintro rfl
  exact (List.mem_append.mp member).elim custom fresh

/-- Taking up a definition leaves the names of types distinct. -/
theorem distinct_add {draft after : SchemaDraft} {definition : Definition}
    (distinct : Distinct draft.types) (added : draft.add definition = .ok after) :
    Distinct after.types := by
  obtain ⟨extension, _, _, rfl⟩ | ⟨type, _, _, fresh, rfl⟩ | ⟨_, rfl⟩ := add_cases added
  · exact distinct
  · simp only [declares, Bool.or_eq_false_iff, List.any_eq_false, beq_iff_eq,
      List.contains_eq_mem, decide_eq_false_iff_not] at fresh
    refine distinct_append distinct (fun declared => ?_) fresh.2
    obtain ⟨other, member, same⟩ := List.mem_map.mp declared
    exact fresh.1 other member same
  · exact distinct

section

variable {good : SchemaDraft → Prop}
  (kept : ∀ {draft after : SchemaDraft} {definition : Definition},
    good draft → draft.add definition = .ok after → good after)
include kept

/-- What every definition keeps is kept by all of them. -/
theorem kept_addAll {source : Nat} {definitions : List Definition} {draft after : SchemaDraft}
    (holds : good draft) (added : draft.addAll source definitions = .ok after) : good after :=
  after_addAll (motive := fun _ => good) kept [] holds added

/-- What every definition keeps is kept by sources. -/
theorem kept_addSources {sources : List String} {draft after : SchemaDraft} {number : Nat}
    (holds : good draft) (added : draft.addSources number sources = .ok after) : good after :=
  after_addSources (motive := fun _ => good) kept [] holds added

end

/-- Replacing a type changes no names. -/
theorem names_replace (types : List SchemaType) (extended : SchemaType) :
    (replace types extended).map (·.name) = types.map (·.name) := by
  unfold replace
  rw [List.map_map]
  refine List.map_congr_left fun type _ => ?_
  dsimp only [Function.comp]
  split
  · rename_i same
    exact same.symm
  · rfl

/-- Applying an extension changes no names. -/
theorem names_applyExtension {types after : List SchemaType} {extension : TypeDefinition}
    (applied : applyExtension types extension = .ok after) :
    after.map (·.name) = types.map (·.name) := by
  unfold applyExtension at applied
  split at applied
  · contradiction
  · split at applied
    · contradiction
    · cases applied
      exact names_replace _ _

/-- What every extension keeps is kept by all of them. -/
theorem kept_foldlM_applyExtension {good : List SchemaType → Prop}
    (kept : ∀ {types after : List SchemaType} {extension : TypeDefinition}, good types →
      applyExtension types extension = .ok after → good after)
    {extensions : List TypeDefinition} : ∀ {types after : List SchemaType}, good types →
      extensions.foldlM applyExtension types = .ok after → good after := by
  induction extensions with
  | nil =>
    intro types after holds applied
    cases applied
    exact holds
  | cons extension rest ih =>
    intro types after holds applied
    rw [List.foldlM_cons] at applied
    obtain ⟨between, first, later⟩ := Except.of_bind_eq_ok applied
    exact ih (kept holds first) later

/-- Applying an extension leaves the names of types distinct. -/
theorem distinct_applyExtension {types after : List SchemaType} {extension : TypeDefinition}
    (distinct : Distinct types) (applied : applyExtension types extension = .ok after) :
    Distinct after := by
  unfold Distinct
  rwa [names_applyExtension applied]

end SchemaDraft

namespace Schema

variable {schema : Schema}

/-- A schema that sources define, with the types of filters or without them. -/
def Compiled (schema : Schema) : Prop :=
  ∃ sources, compile sources = .ok schema ∨ compileWithFilters sources = .ok schema

/-- A compiled schema comes of a draft whose types have distinct names. -/
theorem Compiled.draft (compiled : schema.Compiled) : ∃ draft : SchemaDraft,
    SchemaDraft.Distinct draft.types ∧ ofDraft draft = .ok schema := by
  obtain ⟨sources, compiled | compiled⟩ := compiled
  · exact exists_draft_of_compile (motive := fun _ draft => SchemaDraft.Distinct draft.types)
      SchemaDraft.distinct_add SchemaDraft.distinct_empty compiled
  · exact exists_draft_of_compileWithFilters
      (motive := fun _ draft => SchemaDraft.Distinct draft.types)
      SchemaDraft.distinct_add SchemaDraft.distinct_empty compiled

/-- A schema has the built-in scalars and the types of its draft with their extensions, and it was
checked. -/
theorem of_ofDraft_eq_ok {draft : SchemaDraft} (made : ofDraft draft = .ok schema) :
    ∃ extended, draft.extensions.foldlM SchemaDraft.applyExtension draft.types = .ok extended ∧
      schema.types = builtinScalars.map .scalar ++ extended ∧ schema.check = .ok () := by
  obtain ⟨_, built, made⟩ := Except.of_bind_eq_ok made
  obtain ⟨_, checked, made⟩ := Except.of_bind_eq_ok made
  obtain rfl := Except.ok.inj made
  obtain ⟨extended, applied, built⟩ := Except.of_bind_eq_ok built
  obtain rfl := Except.ok.inj built
  exact ⟨extended, applied, rfl, checked⟩

/-- Compiled schemas passed the check. -/
theorem Compiled.check (compiled : schema.Compiled) : schema.check = .ok () := by
  obtain ⟨draft, _, made⟩ := compiled.draft
  obtain ⟨_, _, _, checked⟩ := of_ofDraft_eq_ok made
  exact checked

/-- A compiled schema names nothing but what is there and fits. -/
theorem Compiled.closed (compiled : schema.Compiled) : schema.Closed :=
  check_eq_ok_iff.mp compiled.check

/-- The fields of a compiled schema yield types that can be yielded. -/
theorem Compiled.isOutput (compiled : schema.Compiled) :
    ∀ type ∈ schema.types, ∀ field ∈ type.fields, schema.IsOutput field.type :=
  fun type member => (compiled.closed.types type member).outputs

/-- No two types of a compiled schema have one name. -/
theorem Compiled.nodup_names (compiled : schema.Compiled) :
    (schema.types.map (·.name)).Nodup := by
  obtain ⟨draft, distinct, made⟩ := compiled.draft
  obtain ⟨extended, applied, sameTypes, _⟩ := of_ofDraft_eq_ok made
  rw [sameTypes, List.map_append]
  exact SchemaDraft.kept_foldlM_applyExtension SchemaDraft.distinct_applyExtension distinct applied

/-- The scalars that are built in stand in a schema as they are. -/
theorem Compiled.get?_scalar (compiled : schema.Compiled) {name : String}
    (builtin : name ∈ builtinScalars) : schema.get? name = some (.scalar name) := by
  obtain ⟨draft, _, made⟩ := compiled.draft
  obtain ⟨extended, _, sameTypes, _⟩ := of_ofDraft_eq_ok made
  have first : (builtinScalars.map SchemaType.scalar).find? (·.name == name) =
      some (.scalar name) := by
    simp only [builtinScalars, List.mem_cons, List.not_mem_nil, or_false] at builtin
    rcases builtin with rfl | rfl | rfl | rfl | rfl <;> rfl
  rw [get?, sameTypes, List.find?_append, first, Option.some_or]

/-- Every type of a compiled schema is the one of its name. -/
theorem Compiled.get?_name (compiled : schema.Compiled) {type : SchemaType}
    (member : type ∈ schema.types) : schema.get? type.name = some type :=
  List.find?_key_eq_some compiled.nodup_names member

end Schema

end TraversalQuery
