import TraversalQuery.Proofs.Document.Names
import TraversalQuery.Response.Collect

/-!
# The groups that fields are collected in

No two groups of an object have the same response key. If the document gives its fields names, then
the keys are names, and so is everything that fields inside the collected ones are called.
-/

namespace TraversalQuery

namespace FieldGroups

/-- Groups with keys of their own, all of them names, as are the keys inside the fields. -/
structure Sound (groups : FieldGroups) : Prop where
  nodup : groups.keys.Nodup
  named : ∀ group ∈ groups, IsName group.1
  inside : ∀ group ∈ groups, ∀ selected ∈ group.2, Selection.AllNamed selected.selections

theorem Sound.tail {group : String × List SelectedField} {groups : FieldGroups}
    (sound : Sound (group :: groups)) : groups.Sound where
  nodup := (List.nodup_cons.mp sound.nodup).2
  named := (List.forall_mem_cons.mp sound.named).2
  inside := (List.forall_mem_cons.mp sound.inside).2

theorem sound_nil : Sound [] :=
  ⟨List.nodup_nil, List.forall_mem_nil _, List.forall_mem_nil _⟩

/-- A group after one more field is one of before, one of before with the field, or the field. -/
theorem mem_add {key : String} {selected : SelectedField} {groups : FieldGroups}
    {group : String × List SelectedField} (member : group ∈ groups.add key selected) :
    group ∈ groups ∨ group.1 = key ∧ ∀ other ∈ group.2,
      other = selected ∨ ∃ before ∈ groups, other ∈ before.2 := by
  induction groups with
  | nil =>
    obtain rfl := List.mem_singleton.mp member
    exact .inr ⟨rfl, fun other isOther => .inl (List.mem_singleton.mp isOther)⟩
  | cons head rest ih =>
    obtain ⟨other, fields⟩ := head
    unfold add at member
    by_cases same : other = key
    · rw [if_pos same] at member
      rcases List.mem_cons.mp member with rfl | later
      · refine .inr ⟨same, fun field isField => ?_⟩
        rcases List.mem_append.mp isField with old | new
        · exact .inr ⟨_, List.mem_cons_self, old⟩
        · exact .inl (List.mem_singleton.mp new)
      · exact .inl (List.mem_cons_of_mem _ later)
    · rw [if_neg same] at member
      rcases List.mem_cons.mp member with rfl | later
      · exact .inl List.mem_cons_self
      · rcases ih later with known | ⟨named, each⟩
        · exact .inl (List.mem_cons_of_mem _ known)
        · refine .inr ⟨named, fun field isField => ?_⟩
          rcases each field isField with isSelected | ⟨before, present, inGroup⟩
          · exact .inl isSelected
          · exact .inr ⟨before, List.mem_cons_of_mem _ present, inGroup⟩

/-- Groups stay sound when a field with a name for its key is added. -/
theorem Sound.add {key : String} {selected : SelectedField} {groups : FieldGroups}
    (sound : groups.Sound) (named : IsName key)
    (allNamed : Selection.AllNamed selected.selections) : (groups.add key selected).Sound := by
  refine ⟨nodup_keys_add sound.nodup, fun group member => ?_, fun group member field isField => ?_⟩
  · rcases mem_add member with old | ⟨rfl, _⟩
    · exact sound.named group old
    · exact named
  · rcases mem_add member with old | ⟨_, each⟩
    · exact sound.inside group old field isField
    · rcases each field isField with rfl | ⟨before, old, inGroup⟩
      · exact allNamed
      · exact sound.inside before old field inGroup

end FieldGroups

namespace QueryScope

/-- A way to collect the selections of fragments that keeps groups sound. -/
def KeepsSound (enter : CollectFragment) (fragments : List Fragment) : Prop :=
  ∀ fragment ∈ fragments, ∀ collected : Collected, collected.groups.Sound →
    (enter fragment collected).groups.Sound

variable {scope : QueryScope} {object : SchemaType}

mutual

/-- Collecting a selection keeps groups sound. -/
theorem sound_collectSelection {enter : CollectFragment}
    (entering : KeepsSound enter scope.fragments) :
    ∀ (selection : Selection) (collected : Collected), collected.groups.Sound →
      (∀ key ∈ selection.keys, IsName key) →
        (collectSelection scope enter object collected selection).groups.Sound
  | .field selected selections _, collected, sound, named => by
    unfold collectSelection
    split
    · obtain ⟨first, inner⟩ := List.forall_mem_cons.mp named
      exact sound.add first inner
    · exact sound
  | .spread name directives _, collected, sound, named => by
    unfold collectSelection
    split
    · dsimp only
      split
      · exact sound
      · rename_i fragment found
        split
        · exact entering fragment (List.mem_reverse.mp (List.mem_of_find?_eq_some found)) _ sound
        · exact sound
    · exact sound
  | .inline condition? directives selections _ _, collected, sound, named => by
    unfold collectSelection
    split
    · exact sound_collectSelections entering selections collected sound named
    · exact sound

/-- Collecting selections keeps groups sound. -/
theorem sound_collectSelections {enter : CollectFragment}
    (entering : KeepsSound enter scope.fragments) :
    ∀ (selections : List Selection) (collected : Collected), collected.groups.Sound →
      Selection.AllNamed selections →
        (collectSelections scope enter object collected selections).groups.Sound
  | [], collected, sound, named => sound
  | selection :: rest, collected, sound, named => by
    obtain ⟨first, others⟩ := List.forall_mem_append.mp named
    exact sound_collectSelections entering rest _
      (sound_collectSelection entering selection collected sound first) others

end

/-- Collecting a fragment keeps groups sound. -/
theorem keepsSound_collectFragment
    (named : ∀ fragment ∈ scope.fragments, Selection.AllNamed fragment.selections) (rounds : Nat) :
    KeepsSound (collectFragment scope object rounds) scope.fragments := by
  induction rounds with
  | zero => exact fun _ _ _ sound => sound
  | succ rounds ih =>
    exact fun fragment member collected sound =>
      sound_collectSelections ih fragment.selections collected sound (named fragment member)

/-- Collected fields are in sound groups. -/
theorem sound_collect
    (named : ∀ fragment ∈ scope.fragments, Selection.AllNamed fragment.selections)
    {selections : List Selection} (allNamed : Selection.AllNamed selections) :
    (scope.collect object selections).Sound :=
  sound_collectSelections (keepsSound_collectFragment named _) selections _
    FieldGroups.sound_nil allNamed

end QueryScope

end TraversalQuery
