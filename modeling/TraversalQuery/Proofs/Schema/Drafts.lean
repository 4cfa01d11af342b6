import TraversalQuery.Proofs.Runs
import TraversalQuery.Schema.Compile

/-!
# Drafts of schemas

A draft takes one definition after another, whichever source it stands in: an extension waits in the
draft, a type with a name of its own is declared, and a schema definition sets roots. What is kept
with every definition therefore holds of the draft that a schema is compiled from.
-/

namespace TraversalQuery

namespace Definition

/-- The definitions in a source. A source that cannot be read has none. -/
def inSource (source : String) : List Definition :=
  match Document.parse source with
  | .ok document => document.definitions
  | .error _ => []

/-- The root types that a definition lists, each with its operation kind. -/
def roots : Definition → List (OperationKind × String)
  | .schema listing => listing.roots
  | _ => []

end Definition

/-- The roots with all those set that are listed. -/
def Roots.setAll (roots : Roots) (listed : List (OperationKind × String)) : Roots :=
  listed.foldl (fun roots (kind, name) => roots.set kind name) roots

variable {motive : List Definition → SchemaDraft → Prop}
  (step : ∀ {written : List Definition} {draft after : SchemaDraft} {definition : Definition},
    motive written draft → draft.add definition = .ok after →
      motive (written ++ [definition]) after)

namespace SchemaDraft

/-- **What a definition does to a draft.** It waits as an extension, it declares a type of a new
name, or it defines no type, and then it sets the roots that it lists. -/
theorem add_cases {draft after : SchemaDraft} {definition : Definition}
    (added : draft.add definition = .ok after) :
    (∃ extension, definition = .type extension ∧ extension.isExtension = true ∧
      after = { draft with extensions := draft.extensions ++ [extension] }) ∨
    (∃ declared, definition = .type declared ∧ declared.isExtension = false ∧
      draft.declares declared.name = false ∧
      after = { draft with types := draft.types ++ [.ofDefinition declared] }) ∨
    ((∀ type, definition ≠ .type type) ∧
      after = { draft with roots := draft.roots.setAll definition.roots }) := by
  cases definition with
  | type type =>
    dsimp only [add] at added
    split at added
    · rename_i isExtension
      exact .inl ⟨type, rfl, isExtension, (Except.ok.inj added).symm⟩
    · rename_i isDeclaration
      split at added
      · contradiction
      · rename_i fresh
        exact .inr (.inl ⟨type, rfl, Bool.not_eq_true _ ▸ isDeclaration,
          Bool.not_eq_true _ ▸ fresh, (Except.ok.inj added).symm⟩)
  | _ => exact .inr (.inr ⟨nofun, (Except.ok.inj added).symm⟩)

include step

/-- What is kept with every definition is kept with several. -/
theorem after_addAll {source : Nat} {definitions : List Definition} :
    ∀ (written : List Definition) {draft after : SchemaDraft}, motive written draft →
      draft.addAll source definitions = .ok after → motive (written ++ definitions) after := by
  induction definitions with
  | nil =>
    intro written draft after holds added
    cases added
    rwa [List.append_nil]
  | cons definition rest ih =>
    intro written draft after holds added
    unfold addAll at added
    dsimp only at added
    split at added
    · contradiction
    · obtain ⟨between, first, later⟩ := Except.of_bind_eq_ok added
      have holds := ih _ (step holds first) later
      rwa [List.append_assoc] at holds

/-- What is kept with every definition is kept with those in sources. -/
theorem after_addSources {sources : List String} :
    ∀ (written : List Definition) {draft after : SchemaDraft} {number : Nat},
      motive written draft → draft.addSources number sources = .ok after →
        motive (written ++ sources.flatMap Definition.inSource) after := by
  induction sources with
  | nil =>
    intro written draft after number holds added
    cases added
    rwa [List.flatMap_nil, List.append_nil]
  | cons source rest ih =>
    intro written draft after number holds added
    obtain ⟨document, parsed, added⟩ := Except.of_bind_eq_ok added
    obtain ⟨between, first, later⟩ := Except.of_bind_eq_ok added
    have here : Definition.inSource source = document.definitions := by
      rw [Definition.inSource, Except.of_mapError_eq_ok parsed]
    have holds := ih _ (after_addAll step written holds first) later
    rwa [List.append_assoc, ← here, ← List.flatMap_cons] at holds

end SchemaDraft

namespace Schema

variable {sources : List String} {schema : Schema}
include step

/-- What holds at first and is kept by every definition holds of the draft of a compiled schema. -/
theorem exists_draft_of_compile (start : motive [] .empty)
    (compiled : compile sources = .ok schema) :
    ∃ draft, motive (sources.flatMap Definition.inSource) draft ∧ ofDraft draft = .ok schema := by
  obtain ⟨draft, added, made⟩ := Except.of_bind_eq_ok compiled
  exact ⟨draft, SchemaDraft.after_addSources step [] start added, made⟩

/-- The types of filters count as definitions before all others. -/
theorem exists_draft_of_compileWithFilters (start : motive [] .empty)
    (compiled : compileWithFilters sources = .ok schema) :
    ∃ draft, motive (Filter.types.map .type ++ sources.flatMap Definition.inSource) draft ∧
      ofDraft draft = .ok schema := by
  obtain ⟨filters, first, compiled⟩ := Except.of_bind_eq_ok compiled
  obtain ⟨draft, added, made⟩ := Except.of_bind_eq_ok compiled
  have holds := SchemaDraft.after_addAll step [] start first
  exact ⟨draft, SchemaDraft.after_addSources step _ holds added, made⟩

end Schema

end TraversalQuery
