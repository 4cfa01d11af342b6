import Mathlib.Data.List.Induction
import TraversalQuery.Proofs.Response.Groups

/-!
# Fields that repeat others

A list of fields may name a field again that stands before it. The groups of such a list have the
keys of the list without the repeats, in the same order and with the same first fields, and the
fields of each group repeat those of the group without.
-/

namespace TraversalQuery

/-- The second list goes along with the first, but may have any of its items again further on. -/
inductive Repeats {α β : Type} (same : α → β → Prop) : List α → List β → Prop
  | nil : Repeats same [] []
  | new {items : List α} {others : List β} {item : α} {other : β}
      (before : Repeats same items others) (first : same item other) :
      Repeats same (items ++ [item]) (others ++ [other])
  | again {items : List α} {others : List β} {other : β} (before : Repeats same items others)
      (known : other ∈ others) : Repeats same items (others ++ [other])

namespace Repeats

variable {α β γ δ : Type} {same : α → β → Prop} {items : List α} {others : List β}

theorem refl : ∀ items : List α, Repeats Eq items items := by
  intro items
  induction items using List.reverseRecOn with
  | nil => exact .nil
  | append_singleton items item ih => exact .new ih rfl

/-- Lists that repeat others do so one after another. -/
theorem append {more : List α} {moreOthers : List β} (first : Repeats same items others)
    (second : Repeats same more moreOthers) :
    Repeats same (items ++ more) (others ++ moreOthers) := by
  induction second with
  | nil => simpa using first
  | new before isFirst ih =>
    rw [← List.append_assoc, ← List.append_assoc]
    exact .new ih isFirst
  | again before known ih =>
    rw [← List.append_assoc]
    exact .again ih (List.mem_append_right _ known)

/-- Items that were there before may be repeated at the end. -/
theorem append_known {more : List β} (before : Repeats same items others)
    (known : ∀ other ∈ more, other ∈ others) : Repeats same items (others ++ more) := by
  induction more using List.reverseRecOn with
  | nil => simpa using before
  | append_singleton more other ih =>
    rw [← List.append_assoc]
    apply Repeats.again
    · exact ih fun earlier member => known earlier (List.mem_append_left _ member)
    · apply List.mem_append_left
      exact known other (by simp)

/-- What is put in place of each item repeats if the items do. -/
theorem flatMap {items others : List α} (repeats : Repeats Eq items others) (part : α → List β) :
    Repeats Eq (items.flatMap part) (others.flatMap part) := by
  induction repeats with
  | nil => exact .nil
  | new before first ih =>
    subst first
    rw [List.flatMap_append, List.flatMap_append]
    exact ih.append (refl _)
  | again before known ih =>
    rw [List.flatMap_append]
    apply ih.append_known
    intro piece member
    rw [List.flatMap_singleton] at member
    exact List.mem_flatMap.mpr ⟨_, known, member⟩

/-- Both lists are empty, or their first items belong to each other. -/
theorem head (repeats : Repeats same items others) :
    items = [] ∧ others = [] ∨ ∃ item rest other otherRest,
      items = item :: rest ∧ others = other :: otherRest ∧ same item other := by
  induction repeats with
  | nil => exact .inl ⟨rfl, rfl⟩
  | new before first ih =>
    right
    rcases ih with ⟨rfl, rfl⟩ | ⟨item, rest, other, otherRest, rfl, rfl, belong⟩
    · exact ⟨_, [], _, [], rfl, rfl, first⟩
    · exact ⟨item, _, other, _, rfl, rfl, belong⟩
  | again before known ih =>
    right
    rcases ih with ⟨_, rfl⟩ | ⟨item, rest, other, otherRest, rfl, rfl, belong⟩
    · cases known
    · exact ⟨item, _, other, _, rfl, rfl, belong⟩

end Repeats

namespace FieldGroups

/-- Fields in groups by their response keys. -/
def ofFields (fields : List SelectedField) : FieldGroups :=
  fields.foldl (fun groups selected => groups.add selected.field.responseKey selected) []

/-- Fields are grouped one after another. -/
theorem ofFields_append (fields : List SelectedField) (selected : SelectedField) :
    ofFields (fields ++ [selected]) =
      (ofFields fields).add selected.field.responseKey selected := by
  simp [ofFields, List.foldl_append]

/-- Groups of fields have keys of their own. -/
theorem nodup_keys_ofFields (fields : List SelectedField) : (ofFields fields).keys.Nodup := by
  induction fields using List.reverseRecOn with
  | nil => exact List.nodup_nil
  | append_singleton fields selected ih =>
    rw [ofFields_append]
    exact nodup_keys_add ih

/-- What is in a group is one of the fields. -/
theorem mem_of_mem_ofFields {fields : List SelectedField} {group : String × List SelectedField}
    {selected : SelectedField} (member : group ∈ ofFields fields) (inGroup : selected ∈ group.2) :
    selected ∈ fields := by
  induction fields using List.reverseRecOn generalizing group selected with
  | nil => cases member
  | append_singleton fields last ih =>
    rw [ofFields_append] at member
    rcases mem_add member with old | ⟨_, each⟩
    · exact List.mem_append_left _ (ih old inGroup)
    · rcases each selected inGroup with rfl | ⟨before, old, inBefore⟩
      · simp
      · exact List.mem_append_left _ (ih old inBefore)

/-- A group stays among the groups when a field is added, perhaps with this field at its end. -/
theorem exists_mem_add {groups : FieldGroups} {key other : String} {fields : List SelectedField}
    (selected : SelectedField) (member : (other, fields) ∈ groups) :
    ∃ more, (other, fields ++ more) ∈ groups.add key selected := by
  induction groups with
  | nil => cases member
  | cons group rest ih =>
    obtain ⟨head, headFields⟩ := group
    unfold add
    rcases List.mem_cons.mp member with isHead | inRest
    · cases isHead
      split
      · exact ⟨[selected], List.mem_cons_self⟩
      · exact ⟨[], by simp⟩
    · split
      · exact ⟨[], by simp [inRest]⟩
      · obtain ⟨more, found⟩ := ih inRest
        exact ⟨more, List.mem_cons_of_mem _ found⟩

/-- An added field is in the group of its key. -/
theorem exists_mem_add_self (groups : FieldGroups) (key : String) (selected : SelectedField) :
    ∃ fields, (key, fields) ∈ groups.add key selected ∧ selected ∈ fields := by
  induction groups with
  | nil => exact ⟨[selected], by simp [add]⟩
  | cons group rest ih =>
    obtain ⟨head, headFields⟩ := group
    unfold add
    split
    · rename_i isHead
      exact ⟨headFields ++ [selected], by simp [isHead]⟩
    · obtain ⟨fields, member, inFields⟩ := ih
      exact ⟨fields, List.mem_cons_of_mem _ member, inFields⟩

/-- Every field is in the group of its response key. -/
theorem exists_mem_ofFields {fields : List SelectedField} {selected : SelectedField}
    (member : selected ∈ fields) :
    ∃ group, (selected.field.responseKey, group) ∈ ofFields fields ∧ selected ∈ group := by
  induction fields using List.reverseRecOn with
  | nil => cases member
  | append_singleton fields last ih =>
    rw [ofFields_append]
    rcases List.mem_append.mp member with old | isLast
    · obtain ⟨group, found, inGroup⟩ := ih old
      obtain ⟨more, still⟩ := exists_mem_add last found
      exact ⟨group ++ more, still, List.mem_append_left _ inGroup⟩
    · obtain rfl := List.mem_singleton.mp isLast
      exact exists_mem_add_self _ _ _

/-- Groups with the same keys, where the fields of each group repeat those of its counterpart. -/
def Alike (same : SelectedField → SelectedField → Prop) (groups others : FieldGroups) : Prop :=
  List.Forall₂ (fun group other => group.1 = other.1 ∧ Repeats same group.2 other.2) groups others

variable {same : SelectedField → SelectedField → Prop} {groups others : FieldGroups}

/-- Groups stay alike when fields are added that belong together. -/
theorem Alike.add {key : String} {selected other : SelectedField} (alike : Alike same groups others)
    (belong : same selected other) :
    Alike same (groups.add key selected) (others.add key other) := by
  induction alike with
  | nil => exact .cons ⟨rfl, .new .nil belong⟩ .nil
  | @cons group counterpart rest otherRest fit alike ih =>
    obtain ⟨name, fields⟩ := group
    obtain ⟨_, otherFields⟩ := counterpart
    obtain ⟨rfl, repeats⟩ := fit
    unfold FieldGroups.add
    by_cases isKey : name = key
    · rw [if_pos isKey, if_pos isKey]
      exact .cons ⟨rfl, .new repeats belong⟩ alike
    · rw [if_neg isKey, if_neg isKey]
      exact .cons ⟨rfl, repeats⟩ ih

/-- A field that is in its group already only repeats it. -/
theorem Alike.add_known {key : String} {other : SelectedField} {fields : List SelectedField}
    (alike : Alike same groups others) (nodup : others.keys.Nodup)
    (member : (key, fields) ∈ others) (known : other ∈ fields) :
    Alike same groups (others.add key other) := by
  induction alike with
  | nil => cases member
  | @cons group counterpart rest otherRest fit alike ih =>
    obtain ⟨absent, nodupRest⟩ := List.nodup_cons.mp nodup
    rcases List.mem_cons.mp member with rfl | inRest
    · unfold FieldGroups.add
      rw [if_pos rfl]
      exact .cons ⟨fit.1, .again fit.2 known⟩ alike
    · have distinct : counterpart.1 ≠ key := by
        intro isKey
        rw [isKey] at absent
        exact absent (List.mem_map_of_mem inRest)
      unfold FieldGroups.add
      rw [if_neg distinct]
      exact .cons fit (ih nodupRest inRest)

/-- Lists of fields that repeat each other have alike groups. -/
theorem alike_ofFields {fields otherFields : List SelectedField}
    (keys : ∀ selected other, same selected other →
      selected.field.responseKey = other.field.responseKey)
    (repeats : Repeats same fields otherFields) :
    Alike same (ofFields fields) (ofFields otherFields) := by
  induction repeats with
  | nil => exact .nil
  | new before belong ih =>
    rw [ofFields_append, ofFields_append, keys _ _ belong]
    exact ih.add belong
  | again before known ih =>
    rw [ofFields_append]
    obtain ⟨group, member, inGroup⟩ := exists_mem_ofFields known
    exact ih.add_known (nodup_keys_ofFields _) member inGroup

end FieldGroups

end TraversalQuery
