import Mathlib.Data.List.Forall2
import Mathlib.Data.List.Nodup
import TraversalQuery.Json.Decoder

/-!
# Decoding what was encoded

The members of a JSON object have no order, and only the first of a name counts. A decoder restores
what an encoder makes if it decodes every value that is alike to it. For a record this comes down to
its fields: each of them is found under the name under which it was encoded, so no default stands in
for it.
-/

namespace TraversalQuery

/-- The order of members with distinct names does not matter for finding one. -/
theorem Members.get?_perm {members others : Members} (perm : members.Perm others)
    (distinct : members.names.Nodup) (name : String) :
    Members.get? name members = Members.get? name others := by
  induction perm with
  | nil => rfl
  | cons entry _ ih =>
    rw [Members.get?_cons, Members.get?_cons, ih distinct.of_cons]
  | swap first second rest =>
    have different : second.1 ≠ first.1 := by
      rintro same
      exact (List.nodup_cons.mp distinct).1 (by simp [same])
    rw [Members.get?_cons, Members.get?_cons, Members.get?_cons, Members.get?_cons]
    by_cases isFirst : name = first.1
    · simp [isFirst, different.symm]
    · simp [isFirst]
  | trans perm _ ih ih' =>
    exact (ih distinct).trans (ih' ((perm.map Prod.fst).nodup_iff.mp distinct))

namespace Json

/-- Values that are the same as far as JSON goes: their objects hold alike values under the same
names, whatever the order of the members. -/
inductive Alike : Json → Json → Prop
  | same (value : Json) : Alike value value
  | array {items others : List Json} (each : List.Forall₂ Alike items others) :
      Alike (.array items) (.array others)
  | object {members others : Members}
      (each : ∀ name, Option.Rel Alike (Members.get? name members) (Members.get? name others)) :
      Alike (.object members) (.object others)

/-- Members among which those of an object are, alike and under their names. -/
def Holds (others members : Members) : Prop :=
  ∀ name held, Members.get? name members = some held →
    ∃ other, Members.get? name others = some other ∧ Alike held other

namespace Alike

variable {value : Json} {text : String} {flag : Bool} {items : List Json} {members others : Members}

/-- Objects with the same members in another order are alike. -/
theorem of_perm (perm : members.Perm others) (distinct : members.names.Nodup) :
    Alike (.object members) (.object others) := by
  refine .object fun name => ?_
  rw [Members.get?_perm perm distinct]
  cases Members.get? name others with
  | none => exact .none
  | some held => exact .some (.same held)

/-- Only the same text is like a text. -/
theorem eq_string (alike : Alike (.string text) value) : value = .string text := by
  cases alike
  rfl

/-- Only the same flag is like a flag. -/
theorem eq_bool (alike : Alike (.bool flag) value) : value = .bool flag := by
  cases alike
  rfl

/-- Only an array of as many items, each like its counterpart, is like an array. -/
theorem exists_items (alike : Alike (.array items) value) :
    ∃ others, value = .array others ∧ List.Forall₂ Alike items others := by
  cases alike with
  | same => exact ⟨items, rfl, List.forall₂_same.mpr fun item _ => .same item⟩
  | array each => exact ⟨_, rfl, each⟩

/-- Only an object that holds members like those of an object is like it. -/
theorem exists_members (alike : Alike (.object members) value) :
    ∃ others, value = .object others ∧ Holds others members := by
  cases alike with
  | same => exact ⟨members, rfl, fun name held found => ⟨held, found, .same held⟩⟩
  | object each =>
    refine ⟨_, rfl, fun name held found => ?_⟩
    have related := each name
    rw [found] at related
    generalize Members.get? name _ = other? at related
    cases related with
    | some alike => exact ⟨_, rfl, alike⟩

end Alike

/-- A member is found with its number as it is without. -/
theorem map_numbered? (name : String) (members : Members) :
    (numbered? name members).map Prod.snd = Members.get? name members := by
  induction members with
  | nil => rfl
  | cons entry rest ih =>
    obtain ⟨other, held⟩ := entry
    rw [Members.get?_cons, ← ih]
    unfold numbered?
    rw [List.findIdx?_cons]
    by_cases same : other = name
    · simp [same]
    · have different : name ≠ other := Ne.symm same
      cases rest.findIdx? (·.1 == name) <;> simp [same, different, Function.comp_def]

namespace Fields

variable {α β : Type} {fields : Fields (α → β)} {make : α → β} {name : String} {item : Decoder α}
  {members : Members}

/-- The members of an object make up a record: every field has a value, found or by default. -/
def MadeOf (fields : Fields α) (members : Members) (made : α) : Prop :=
  fields.inMembers members = .pure made

theorem MadeOf.none (value : α) : (Fields.none value).MadeOf members value := rfl

/-- A field whose value decodes is what was decoded. -/
theorem MadeOf.field {value : Json} {decoded : α} (madeOf : fields.MadeOf members make)
    (default? : Option α) (held : Members.get? name members = some value)
    (decodes : item.decode value = .ok decoded) :
    (fields.field name item default?).MadeOf members (make decoded) := by
  rw [← map_numbered?] at held
  obtain ⟨⟨number, _⟩, found, rfl⟩ := Option.map_eq_some_iff.mp held
  unfold MadeOf Fields.field at *
  simp only [found, madeOf, decodes]
  rfl

/-- A field that is not there is its default. -/
theorem MadeOf.field_default (madeOf : fields.MadeOf members make) (default : α)
    (absent : Members.get? name members = Option.none) :
    (fields.defaulted name item default).MadeOf members (make default) := by
  rw [← map_numbered?] at absent
  have lacking := Option.map_eq_none_iff.mp absent
  unfold MadeOf Fields.defaulted Fields.field at *
  simp only [lacking, madeOf]
  rfl

/-- A field has a value if what is there decodes, or if nothing is there and it has a default. -/
theorem exists_madeOf_field {default? : Option α} (madeOf : ∃ make, fields.MadeOf members make)
    (decodes : ∀ value, Members.get? name members = some value →
      ∃ decoded, item.decode value = .ok decoded)
    (optional : Members.get? name members = Option.none → default?.isSome = true) :
    ∃ made, (fields.field name item default?).MadeOf members made := by
  obtain ⟨make, madeOf⟩ := madeOf
  cases held : Members.get? name members with
  | none =>
    obtain ⟨default, rfl⟩ := Option.isSome_iff_exists.mp (optional held)
    exact ⟨_, madeOf.field_default default held⟩
  | some value =>
    obtain ⟨decoded, isDecoded⟩ := decodes value held
    exact ⟨_, madeOf.field default? held isDecoded⟩

end Fields

namespace Decoder

variable {α : Type} {item : Decoder α} {encode : α → Json}

/-- A record is decoded from an object if each of its fields is. -/
theorem decode_record {name : String} {fields : Fields α} {members : Members} {made : α}
    (madeOf : fields.MadeOf members made) :
    (record name fields).decode (.object members) = .ok made := by
  unfold Fields.MadeOf at madeOf
  simp only [record, madeOf]
  rfl

theorem exists_decode_record {name : String} {fields : Fields α} {members : Members}
    (madeOf : ∃ made, fields.MadeOf members made) :
    ∃ made, (record name fields).decode (.object members) = .ok made :=
  madeOf.imp fun _ => decode_record

/-- A list is decoded from an array item by item. -/
theorem decode_list {values : List Json} {decoded : List α}
    (each : List.Forall₂ (fun value result => item.decode value = .ok result) values decoded) :
    (list item).decode (.array values) = .ok decoded := by
  change values.mapM item.decode = .ok decoded
  induction each with
  | nil => rfl
  | cons isFirst _ ih =>
    rw [List.mapM_cons, isFirst, ih]
    rfl

theorem exists_decode_list {values : List Json}
    (each : ∀ value ∈ values, ∃ decoded, item.decode value = .ok decoded) :
    ∃ decoded, (list item).decode (.array values) = .ok decoded := by
  suffices made : ∃ decoded,
      List.Forall₂ (fun value result => item.decode value = .ok result) values decoded from
    made.imp fun _ => decode_list
  induction values with
  | nil => exact ⟨[], .nil⟩
  | cons value rest ih =>
    obtain ⟨⟨first, isFirst⟩, others⟩ := List.forall_mem_cons.mp each
    obtain ⟨more, areMore⟩ := ih others
    exact ⟨first :: more, .cons isFirst areMore⟩

/-- A decoder gives back what was encoded, in whatever order the members of objects stand. -/
def Restores (decoder : Decoder α) (encode : α → Json) : Prop :=
  ∀ value stored, Alike (encode value) stored → decoder.decode stored = .ok value

/-- Texts are restored from their encoding. -/
theorem restores_text : text.Restores .string := by
  intro value stored alike
  rw [alike.eq_string]
  rfl

/-- Flags are restored from their encoding. -/
theorem restores_flag : flag.Restores .bool := by
  intro value stored alike
  rw [alike.eq_bool]
  rfl

/-- Named values are restored if every value is what its name stands for. -/
theorem restores_choice {choices : List (String × α)} {nameOf : α → String}
    (named : ∀ value, choices.lookup (nameOf value) = some value) :
    (choice choices).Restores fun value => .string (nameOf value) := by
  intro value stored alike
  rw [alike.eq_string]
  simp only [choice, Decoder.named, named]

/-- Lists are restored if their items are. -/
theorem Restores.list (restores : item.Restores encode) :
    (list item).Restores fun values => .array (values.map encode) := by
  intro values stored alike
  obtain ⟨others, rfl, each⟩ := alike.exists_items
  rw [List.forall₂_map_left_iff] at each
  exact decode_list (each.flip.imp fun _ _ alike => restores _ _ alike)

theorem restores_texts : (Decoder.list text).Restores .ofTexts :=
  restores_text.list

/-- Records are restored if what is held by an encoded record makes it up. -/
theorem restores_record {name : String} {fields : Fields α} {members : α → Members}
    (madeOf : ∀ value others, Holds others (members value) → fields.MadeOf others value) :
    (record name fields).Restores fun value => .object (members value) := by
  intro value stored alike
  obtain ⟨others, rfl, holds⟩ := alike.exists_members
  exact decode_record (madeOf value others holds)

end Decoder

/-- A field is what was encoded under its name. -/
theorem Fields.MadeOf.restored {α β : Type} {fields : Fields (α → β)} {make : α → β}
    {name : String} {item : Decoder α} {encode : α → Json} {members others : Members}
    {default? : Option α} {value : α} (madeOf : fields.MadeOf others make)
    (restores : item.Restores encode) (holds : Holds others members)
    (held : Members.get? name members = some (encode value)) :
    (fields.field name item default?).MadeOf others (make value) := by
  obtain ⟨other, found, alike⟩ := holds name _ held
  exact madeOf.field default? found (restores value other alike)

end Json

end TraversalQuery
