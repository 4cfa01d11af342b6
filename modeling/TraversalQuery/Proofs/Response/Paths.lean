import Mathlib.Data.List.Basic
import TraversalQuery.Planning.Positions
import TraversalQuery.Proofs.Document.Names
import TraversalQuery.Proofs.Text.Split

/-!
# Places in a response as texts

Where the fields of an object go in a plan is looked up by the path of the object as it is written,
without its steps into lists. As names are not empty and have no slash in them, different paths are
written differently.
-/

namespace TraversalQuery

/-- Names are not empty. -/
theorem IsName.ne_empty {text : String} (named : IsName text) : text.toList ≠ [] := by
  obtain ⟨first, rest, same, _⟩ := named
  rw [same]
  exact List.cons_ne_nil _ _

/-- No name holds the mark between the steps of a path. -/
theorem IsName.no_slash {text : String} (named : IsName text) : '/' ∉ text.toList := by
  obtain ⟨first, rest, same, starts, goesOn⟩ := named
  rw [same]
  intro member
  rcases List.mem_cons.mp member with rfl | later
  · exact absurd starts (by decide)
  · exact absurd (goesOn _ later) (by decide)

namespace ResponsePath

/-- A path of fields with names. -/
def Named (path : ResponsePath) : Prop :=
  ∃ keys : List String, path.segments = keys.map .field ∧ ∀ key ∈ keys, IsName key

theorem named_root : root.Named :=
  ⟨[], rfl, List.forall_mem_nil _⟩

/-- A path of names goes on with a name. -/
theorem Named.child {path : ResponsePath} {key : String} (named : path.Named) (name : IsName key) :
    (path.child key).Named := by
  obtain ⟨keys, same, each⟩ := named
  refine ⟨keys ++ [key], by simp [ResponsePath.child, same], fun other member => ?_⟩
  rcases List.mem_append.mp member with old | new
  · exact each other old
  · rwa [List.mem_singleton.mp new]

/-- A path of names is written as its keys, with a mark before each. -/
theorem pieces_text (path : ResponsePath) {keys : List String}
    (same : path.segments = keys.map .field) (named : ∀ key ∈ keys, IsName key)
    (below : keys ≠ []) :
    Text.pieces '/' path.text.toList = [] :: keys.map String.toList := by
  have shown : path.text.toList = [] ++ (keys.map String.toList).flatMap ('/' :: ·) := by
    rw [text, same, List.isEmpty_map, if_neg (by simpa using below), String.toList_join,
      List.map_map, List.flatMap_map, List.flatMap_map, List.nil_append]
    apply List.flatMap_congr
    intro key _
    simp [PathSegment.text]
  rw [shown]
  refine Text.pieces_flatMap (fun step member => ?_) List.not_mem_nil
  obtain ⟨key, isKey, rfl⟩ := List.mem_map.mp member
  exact (named key isKey).no_slash

/-- The text of the root is that of no other path. -/
theorem text_ne_root {path : ResponsePath} {keys : List String}
    (same : path.segments = keys.map .field) (named : ∀ key ∈ keys, IsName key)
    (below : keys ≠ []) : path.text ≠ root.text := by
  intro equal
  have cut := pieces_text path same named below
  rw [equal] at cut
  change [[], []] = _ at cut
  obtain ⟨key, isKey⟩ := List.exists_mem_of_ne_nil keys below
  have empty : key.toList ∈ [[]] :=
    (List.cons.inj cut).2 ▸ List.mem_map_of_mem isKey
  exact (named key isKey).ne_empty (List.mem_singleton.mp empty)

/-- **Paths are known by their text.** -/
theorem Named.text_injective {path other : ResponsePath} (named : path.Named)
    (named' : other.Named) (same : path.text = other.text) : path = other := by
  obtain ⟨segments⟩ := path
  obtain ⟨segments'⟩ := other
  obtain ⟨keys, rfl, each⟩ := named
  obtain ⟨keys', rfl, each'⟩ := named'
  by_cases top : keys = []
  · by_cases top' : keys' = []
    · rw [top, top']
    · subst top
      exact absurd same.symm (text_ne_root rfl each' top')
  · by_cases top' : keys' = []
    · subst top'
      exact absurd same (text_ne_root rfl each top)
    · have cut := pieces_text ⟨keys.map .field⟩ rfl each top
      rw [same, pieces_text _ rfl each' top'] at cut
      have equal := (List.cons.inj cut).2
      rw [List.map_injective_iff.mpr (fun _ _ => String.toList_injective) equal]

/-- Places in a response are known by what they are looked up by. -/
theorem positionKey_injective {path other : ResponsePath} (named : path.fieldPath.Named)
    (named' : other.fieldPath.Named) (same : path.positionKey = other.positionKey) :
    path.fieldPath = other.fieldPath :=
  named.text_injective named' same

end ResponsePath

end TraversalQuery
