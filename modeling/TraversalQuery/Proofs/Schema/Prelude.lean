import TraversalQuery.Proofs.Document.Shallow
import TraversalQuery.Proofs.Schema.Joining

/-!
# The text of the types of filters

The types of filters are declared by a text. It is read as their definitions, up to the places in
it, and these types have no directives whose places a schema would keep. So a schema for queries
with filters is compiled from its sources and, before them, this text.
-/

namespace TraversalQuery

/-! ### Reading the text -/

/-- The text writes the definitions of the types of filters, but for its descriptions. -/
theorem Filter.spells_prelude :
    ∃ document, Document.parse prelude = .ok document ∧
      document.written.map Glyph.kind =
        (Document.written ⟨types.map .type⟩).map Glyph.kind := by
  have ran : (Document.parse prelude).toOption.any (fun document =>
      document.written.map Glyph.kind =
        (Document.written ⟨types.map .type⟩).map Glyph.kind) = true := by
    decide +kernel
  cases parsed : Document.parse prelude with
  | error error => rw [parsed] at ran; contradiction
  | ok document =>
    rw [parsed] at ran
    exact ⟨document, rfl, of_decide_eq_true ran⟩

/-- **The text of the types of filters is read as their definitions,** up to the places in it. -/
theorem Filter.parse_prelude :
    (Document.parse prelude).map Document.bare = .ok ⟨types.map .type⟩ := by
  obtain ⟨document, parsed, alike⟩ := spells_prelude
  obtain ⟨tokens, _, read⟩ := Except.of_bind_eq_ok parsed
  -- What both documents write, without the descriptions in the text.
  let written : List Token :=
    (Document.written ⟨types.map .type⟩).map fun glyph => ⟨glyph.kind, .zero⟩
  have back : (Document.ofTokens written 0).map Document.bare = .ok document.bare :=
    Document.ofTokens_of_ofTokens read 0 alike.symm
  have forth : (Document.ofTokens written 0).map Document.bare = .ok ⟨types.map .type⟩ :=
    Document.ofTokens_written ⟨types.map .type⟩ rfl written 0 rfl
  rw [parsed, Except.map, ← back, forth]

/-- The definitions in the text are those of the types of filters, up to places. -/
theorem Filter.inSource_prelude :
    (Definition.inSource prelude).map Definition.bare = types.map .type := by
  obtain ⟨document, parsed, _⟩ := spells_prelude
  have read := parse_prelude
  rw [parsed] at read
  rw [Definition.inSource, parsed]
  exact congrArg Document.definitions (Except.ok.inj read)

/-! ### Compiling the text -/

/-- A type without fields and directives keeps no places. -/
theorem SchemaType.bare_eq_self {type : SchemaType} (fields : type.fields = [])
    (directives : type.directives = []) : type.bare = type := by
  obtain ⟨name, body, written⟩ := type
  obtain rfl : written = [] := directives
  cases body with
  | object interfaces held =>
    obtain rfl : held = [] := fields
    rfl
  | interface interfaces held =>
    obtain rfl : held = [] := fields
    rfl
  | _ => rfl

/-- Types that have neither fields nor directives keep no places. -/
theorem SchemaType.map_bare_eq_self {types : List SchemaType}
    (plain : ∀ type ∈ types.map bare, type.fields = [] ∧ type.directives = []) :
    types.map bare = types := by
  conv_rhs => rw [← List.map_id types]
  refine List.map_congr_left fun type member => ?_
  obtain ⟨fields, directives⟩ := plain type.bare (List.mem_map_of_mem member)
  rw [fields_bare, List.map_eq_nil_iff] at fields
  exact bare_eq_self fields (List.map_eq_nil_iff.mp directives)

/-- The text of the types of filters makes the same draft as their definitions. -/
theorem SchemaDraft.addAll_prelude :
    empty.addAll 0 (Definition.inSource Filter.prelude) =
      empty.addAll 0 (Filter.types.map .type) := by
  have same : SchemaError.upTo bare (empty.addAll 0 (Definition.inSource Filter.prelude)) =
      SchemaError.upTo bare (empty.addAll 0 (Filter.types.map .type)) :=
    upTo_addAll rfl Filter.inSource_prelude
  have drafted : empty.addAll 0 (Filter.types.map .type) =
      .ok ⟨Filter.types.map .ofDefinition, [], .empty⟩ := rfl
  rw [drafted] at same ⊢
  cases made : empty.addAll 0 (Definition.inSource Filter.prelude) with
  | error error =>
    rw [made, SchemaError.upTo, SchemaError.upTo] at same
    cases same
  | ok draft =>
    rw [made] at same
    obtain ⟨types, extensions, roots⟩ := draft
    obtain ⟨bareTypes, bareExtensions, rfl⟩ := SchemaDraft.mk.inj (Except.ok.inj same)
    obtain rfl : extensions = [] := List.map_eq_nil_iff.mp bareExtensions
    have kept : types.map SchemaType.bare = types :=
      SchemaType.map_bare_eq_self (by rw [bareTypes]; decide)
    rw [← kept, bareTypes]
    rfl

namespace Schema

/-- **Schemas for queries with filters.** Compiling for queries with filters is compiling with the
text that declares the types of filters before all sources. -/
theorem compileWithFilters_eq (sources : List String) :
    compileWithFilters sources = compile (Filter.prelude :: sources) := by
  have reads : (Document.parse Filter.prelude).isOk = true := by
    obtain ⟨document, parsed, _⟩ := Filter.spells_prelude
    rw [parsed]
    rfl
  rw [compile, SchemaDraft.addSources_cons reads, SchemaDraft.addAll_prelude, bind_assoc]
  rfl

end Schema

end TraversalQuery
