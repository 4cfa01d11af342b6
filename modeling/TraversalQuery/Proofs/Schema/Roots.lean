import Mathlib.Data.List.Induction
import TraversalQuery.Proofs.Schema.Compiled
import TraversalQuery.Proofs.Schema.Sources

/-!
# The roots of a schema

Schema definitions in any of the sources list root types for operation kinds, and of several that
are listed for one kind the last one counts. A kind for which none is listed is completed by
convention, whether there are schema definitions or not: a type of the conventional name becomes its
root.
-/

namespace TraversalQuery

/-- The root type that definitions list for an operation kind: the last one. -/
def Definition.listedRoot? (written : List Definition) (kind : OperationKind) : Option String :=
  ((written.flatMap Definition.roots).reverse.find? (·.1 == kind)).map Prod.snd

namespace Roots

@[simp] theorem get?_empty (kind : OperationKind) : empty.get? kind = none := by
  cases kind <;> rfl

/-- Roots that are listed in two lists are set one list after the other. -/
theorem setAll_append (roots : Roots) (listed more : List (OperationKind × String)) :
    roots.setAll (listed ++ more) = (roots.setAll listed).setAll more :=
  List.foldl_append

/-- The last root that is listed for a kind is its root. -/
theorem get?_setAll (kind : OperationKind) (listed : List (OperationKind × String)) :
    ∀ roots : Roots, (roots.setAll listed).get? kind =
      ((listed.reverse.find? (·.1 == kind)).map Prod.snd).or (roots.get? kind) := by
  induction listed using List.reverseRecOn with
  | nil => exact fun roots => rfl
  | append_singleton before last ih =>
    intro roots
    obtain ⟨other, name⟩ := last
    rw [setAll_append, List.reverse_append, List.reverse_singleton, List.singleton_append,
      List.find?_cons]
    change ((roots.setAll before).set other name).get? kind = _
    by_cases same : other = kind
    · subst same
      rw [get?_set_self, beq_self_eq_true]
      rfl
    · rw [get?_set_of_ne _ _ (Ne.symm same), beq_false_of_ne same]
      exact ih roots

/-- The roots are the types that are named for some kind of operation. -/
theorem mem_names {roots : Roots} {name : String} :
    name ∈ roots.names ↔ ∃ kind, roots.get? kind = some name := by
  simp only [names, List.mem_append, Option.mem_toList]
  constructor
  · rintro ((query | mutation) | subscription)
    · exact ⟨.query, query⟩
    · exact ⟨.mutation, mutation⟩
    · exact ⟨.subscription, subscription⟩
  · rintro ⟨_ | _ | _, isRoot⟩
    · exact .inl (.inl isRoot)
    · exact .inl (.inr isRoot)
    · exact .inr isRoot

end Roots

namespace SchemaDraft

/-- **A step.** The roots of a draft are those that its definitions list. -/
theorem roots_add {written : List Definition} {draft after : SchemaDraft} {definition : Definition}
    (listed : draft.roots = Roots.empty.setAll (written.flatMap Definition.roots))
    (added : draft.add definition = .ok after) :
    after.roots = Roots.empty.setAll ((written ++ [definition]).flatMap Definition.roots) := by
  rw [List.flatMap_append, List.flatMap_singleton, Roots.setAll_append, ← listed]
  obtain ⟨_, rfl, _, rfl⟩ | ⟨_, rfl, _, _, rfl⟩ | ⟨_, rfl⟩ := add_cases added <;> rfl

/-- A root is completed by the conventional name of its kind alone, and only if there is none. -/
theorem get?_completeRoot (types : List SchemaType) (roots : Roots) (kind other : OperationKind) :
    (completeRoot types roots kind).get? other =
      if other = kind then
        (roots.get? kind).or ((types.find? (·.name == kind.conventionalRoot)).map (·.name))
      else roots.get? other := by
  unfold completeRoot
  by_cases same : other = kind
  · subst same
    rw [if_pos rfl]
    cases listed : roots.get? other with
    | some name => simp [listed]
    | none =>
      cases found : types.find? (·.name == other.conventionalRoot) with
      | none =>
        have absent : types.any (·.name == other.conventionalRoot) = false := by
          rw [List.any_eq_false]
          exact fun type member => List.find?_eq_none.mp found type member
        simp [absent, listed]
      | some type =>
        have named : type.name = other.conventionalRoot := by simpa using List.find?_some found
        have present : types.any (·.name == other.conventionalRoot) = true :=
          List.any_eq_true.mpr ⟨type, List.mem_of_find?_eq_some found, beq_iff_eq.mpr named⟩
        simp [present, named]
  · rw [if_neg same]
    split
    · exact Roots.get?_set_of_ne _ _ same
    · rfl

/-- All kinds are completed, each without regard to the others. -/
theorem get?_completeRoots (types : List SchemaType) (roots : Roots) (kind : OperationKind) :
    ([.query, .mutation, .subscription].foldl (completeRoot types) roots).get? kind =
      (roots.get? kind).or ((types.find? (·.name == kind.conventionalRoot)).map (·.name)) := by
  simp only [List.foldl_cons, List.foldl_nil]
  cases kind <;> simp [get?_completeRoot]

end SchemaDraft

namespace Schema

variable {schema : Schema}

/-- The root of a kind is the one that was listed, or else the type of the conventional name. -/
theorem get?_roots_ofDraft {draft : SchemaDraft} (made : ofDraft draft = .ok schema)
    (kind : OperationKind) : schema.roots.get? kind =
      (draft.roots.get? kind).or ((schema.get? kind.conventionalRoot).map (·.name)) := by
  obtain ⟨_, built, made⟩ := Except.of_bind_eq_ok made
  obtain ⟨_, _, made⟩ := Except.of_bind_eq_ok made
  obtain rfl := Except.ok.inj made
  obtain ⟨extended, _, built⟩ := Except.of_bind_eq_ok built
  obtain rfl := Except.ok.inj built
  exact SchemaDraft.get?_completeRoots _ _ kind

/-- The root of an operation kind is the last type that is listed for it, or else the type that has
the conventional name. -/
theorem get?_roots_of_compiled {sources : List String}
    (compiled : compile sources = .ok schema ∨ compileWithFilters sources = .ok schema)
    (kind : OperationKind) : schema.roots.get? kind =
      (Definition.listedRoot? (sources.flatMap Definition.inSource) kind).or
        ((schema.get? kind.conventionalRoot).map (·.name)) := by
  have listed : ∃ draft : SchemaDraft, draft.roots = Roots.empty.setAll
      ((sources.flatMap Definition.inSource).flatMap Definition.roots) ∧
        ofDraft draft = .ok schema := by
    rcases compiled with compiled | compiled
    · exact exists_draft_of_compile (motive := fun written draft =>
        draft.roots = Roots.empty.setAll (written.flatMap Definition.roots))
        SchemaDraft.roots_add rfl compiled
    · -- The types of filters list no roots.
      exact exists_draft_of_compileWithFilters (motive := fun written draft =>
        draft.roots = Roots.empty.setAll (written.flatMap Definition.roots))
        SchemaDraft.roots_add rfl compiled
  obtain ⟨draft, sameRoots, made⟩ := listed
  rw [get?_roots_ofDraft made, sameRoots, Roots.get?_setAll, Roots.get?_empty, Option.or_none]
  rfl

/-- In a closed schema a root is the type of its name. -/
theorem Closed.name_rootType? (closed : schema.Closed) (kind : OperationKind) :
    (schema.rootType? kind).map (·.name) = schema.roots.get? kind := by
  rw [rootType?]
  cases isRoot : schema.roots.get? kind with
  | none => rfl
  | some name =>
    obtain ⟨type, found, _⟩ := closed.roots name (Roots.mem_names.mpr ⟨kind, isRoot⟩)
    rw [Option.bind_some, found, Option.map_some, name_of_get? found]

/-- In a closed schema roots are objects. -/
theorem Closed.kind_rootType? (closed : schema.Closed) {kind : OperationKind} {root : SchemaType}
    (isRoot : schema.rootType? kind = some root) : root.kind = .object := by
  obtain ⟨name, named, found⟩ := Option.bind_eq_some_iff.mp isRoot
  obtain ⟨type, isType, isObject⟩ := closed.roots name (Roots.mem_names.mpr ⟨kind, named⟩)
  rwa [Option.some.inj (found.symm.trans isType)]

/-- A name is one of a root exactly if it is named for some kind of operation. -/
theorem isRootType_iff {name : String} :
    schema.isRootType name = true ↔ ∃ kind, schema.roots.get? kind = some name := by
  rw [isRootType, List.contains_iff_mem, Roots.mem_names]

end Schema

end TraversalQuery
