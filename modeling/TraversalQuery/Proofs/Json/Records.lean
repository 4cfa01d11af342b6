import TraversalQuery.Proofs.Json.Decoding
import TraversalQuery.Proofs.Runs

/-!
# Records read off JSON

A record is held by its names or in the order of its fields. Either way a decoder of records comes
to what its fields say of the values that it is given, and to nothing if they have nothing to say.
-/

namespace Except

/-- Items that all have results are worked off one after another. -/
theorem mapM_eq_ok_iff {ε α β : Type} {work : α → Except ε β} {items : List α} :
    ∀ {results : List β}, items.mapM work = .ok results ↔
      List.Forall₂ (fun item result => work item = .ok result) items results := by
  induction items with
  | nil =>
    intro results
    rw [List.forall₂_nil_left_iff]
    exact ⟨fun same => (Except.ok.inj same).symm, fun same => congrArg Except.ok same.symm⟩
  | cons item rest ih =>
    intro results
    rw [List.mapM_cons, bind_eq_ok_iff, List.forall₂_cons_left_iff]
    refine exists_congr fun result => ?_
    rw [bind_eq_ok_iff]
    constructor
    · rintro ⟨isFirst, others, areOthers, same⟩
      exact ⟨others, isFirst, ih.mp areOthers, (Except.ok.inj same).symm⟩
    · rintro ⟨others, isFirst, areOthers, rfl⟩
      exact ⟨isFirst, others, ih.mpr areOthers, rfl⟩

end Except

namespace TraversalQuery

namespace Json

/-- A record with fields of some names, as an object by the names or as an array in their order, and
the values that it gives for them. -/
inductive IsRecord (names : List String) : Json → (String → Option Json) → Prop
  | object (members : Members) :
      IsRecord names (.object members) fun name => Members.get? name members
  | array (items : List Json) (few : items.length ≤ names.length) :
      IsRecord names (.array items) fun name => items[names.idxOf name]?

namespace Findings

variable {α β γ : Type}

/-- Findings conclude in a value exactly if nothing was found to be wrong or missing. -/
theorem conclude_eq_ok_iff {findings : Findings α} {lacking : Nat → String → Mismatch} {value : α} :
    findings.conclude lacking = .ok value ↔ findings = .pure value := by
  obtain ⟨_ | found, _ | failed, _ | missing⟩ := findings <;> simp [conclude, pure]

theorem result_eq_pure_iff {number : Nat} {outcome : Except Mismatch α} {value : α} :
    result number outcome = .pure value ↔ outcome = .ok value := by
  cases outcome <;> simp [result, pure]

theorem absent_eq_pure_iff {number : Nat} {name : String} {default? : Option α} {value : α} :
    absent number name default? = .pure value ↔ default? = some value := by
  cases default? <;> simp [absent, pure]

theorem earlier_eq_none_iff {first second : Option (Nat × α)} :
    earlier first second = none ↔ first = none ∧ second = none := by
  cases first <;> cases second <;> simp only [earlier] <;> grind

/-- Findings put together are free of faults if both are. -/
theorem both_eq_pure_iff {combine : α → β → γ} {first : Findings α} {second : Findings β}
    {value : γ} : both combine first second = .pure value ↔
      ∃ one other, first = .pure one ∧ second = .pure other ∧ combine one other = value := by
  obtain ⟨found, failed, missing⟩ := first
  obtain ⟨found', failed', missing'⟩ := second
  simp only [both, pure, Findings.mk.injEq, earlier_eq_none_iff]
  cases found <;> cases found' <;> grind

end Findings

namespace Decoder

variable {α : Type}

/-- What a field comes to: what the value given for it decodes to, or its default if none is. -/
def Takes (item : Decoder α) (default? : Option α) (given? : Option Json) (value : α) : Prop :=
  match given? with
  | none => default? = some value
  | some given => item.decode given = .ok value

end Decoder

namespace Fields

variable {α β : Type}

/-- Fields of a record with some names that are read by a rule about what is given for them. -/
structure ReadBy (names : List String) (fields : Fields α)
    (rule : (String → Option Json) → α → Prop) : Prop where
  inMembers : ∀ members made, fields.inMembers members = .pure made ↔
    rule (fun name => Members.get? name members) made
  inItems : ∀ items made, fields.inItems items = .pure made ↔
    rule (fun name => items[names.idxOf name]?) made

theorem ReadBy.none (names : List String) (value : α) :
    (Fields.none value).ReadBy names fun _ made => value = made :=
  ⟨fun _ _ => by simp [Fields.none, Findings.pure],
    fun _ _ => by simp [Fields.none, Findings.pure]⟩

/-- One more field is read by what is given for it, after those before it. -/
theorem ReadBy.field {names : List String} {fields : Fields (α → β)}
    {rule : (String → Option Json) → (α → β) → Prop} (reads : fields.ReadBy names rule)
    (name : String) (item : Decoder α) (default? : Option α)
    (place : names.idxOf name = fields.count) :
    (fields.field name item default?).ReadBy names fun given made =>
      ∃ make value, rule given make ∧ item.Takes default? (given name) value ∧
        make value = made := by
  constructor
  · intro members made
    simp only [Fields.field, Findings.both_eq_pure_iff, reads.inMembers]
    refine exists_congr fun make => exists_congr fun value => and_congr_right fun _ =>
      and_congr_left fun _ => ?_
    rw [← map_numbered?]
    cases numbered? name members with
    | none => exact Findings.absent_eq_pure_iff
    | some found => exact Findings.result_eq_pure_iff
  · intro items made
    simp only [Fields.field, Findings.both_eq_pure_iff, reads.inItems, place]
    refine exists_congr fun make => exists_congr fun value => and_congr_right fun _ =>
      and_congr_left fun _ => ?_
    cases items[fields.count]? with
    | none => exact Findings.absent_eq_pure_iff
    | some found => exact Findings.result_eq_pure_iff

end Fields

namespace Decoder

variable {α : Type} {value : Json}

/-- **A record decodes as its fields are read.** -/
theorem decode_record_iff {names : List String} {fields : Fields α}
    {rule : (String → Option Json) → α → Prop} (reads : fields.ReadBy names rule)
    (count : fields.count = names.length) {title : String} {made : α} :
    (record title fields).decode value = .ok made ↔
      ∃ given, value.IsRecord names given ∧ rule given made := by
  cases value with
  | object members =>
    refine Findings.conclude_eq_ok_iff.trans ((reads.inMembers members made).trans ?_)
    constructor
    · exact fun ruled => ⟨_, .object members, ruled⟩
    · rintro ⟨_, ⟨⟩, ruled⟩
      exact ruled
  | array items =>
    have concluded : (record title fields).decode (.array items) = .ok made ↔
        items.length ≤ names.length ∧ fields.inItems items = .pure made := by
      unfold record
      dsimp only
      rw [← count, ← Findings.conclude_eq_ok_iff]
      cases (fields.inItems items).conclude _ with
      | error mismatch => simp [Except.error_bind]
      | ok made => by_cases few : items.length ≤ fields.count <;> simp [few]
    rw [concluded, reads.inItems]
    constructor
    · exact fun ⟨few, ruled⟩ => ⟨_, .array items few, ruled⟩
    · rintro ⟨_, isRecord, ruled⟩
      cases isRecord with
      | array _ few => exact ⟨few, ruled⟩
  | _ =>
    constructor
    · exact nofun
    · rintro ⟨_, ⟨⟩, _⟩

/-- A field that has to be given comes to what is given for it. -/
theorem takes_none_iff {item : Decoder α} {given? : Option Json} {made : α} :
    item.Takes none given? made ↔ ∃ given, given? = some given ∧ item.decode given = .ok made := by
  cases given? <;> simp [Takes]

/-- Only texts are decoded as texts. -/
theorem decode_text_iff {text : String} : Decoder.text.decode value = .ok text ↔
    value = .string text := by
  cases value <;> simp [Decoder.text]

/-- A text that has to be given is given. -/
theorem takes_text_iff {given? : Option Json} {text : String} :
    Decoder.text.Takes none given? text ↔ given? = some (.string text) := by
  simp only [takes_none_iff, decode_text_iff, exists_eq_right]

/-- A list decodes item by item. -/
theorem decode_list_iff {item : Decoder α} {decoded : List α} :
    (list item).decode value = .ok decoded ↔ ∃ items, value = .array items ∧
      List.Forall₂ (fun value result => item.decode value = .ok result) items decoded := by
  cases value with
  | array items =>
    refine Except.mapM_eq_ok_iff.trans ⟨fun each => ⟨items, rfl, each⟩, ?_⟩
    rintro ⟨_, ⟨⟩, each⟩
    exact each
  | _ =>
    constructor
    · exact nofun
    · rintro ⟨_, ⟨⟩, _⟩

/-- A list that has to be given is given, item by item. -/
theorem takes_list_iff {item : Decoder α} {given? : Option Json} {decoded : List α} :
    (list item).Takes none given? decoded ↔ ∃ items, given? = some (.array items) ∧
      List.Forall₂ (fun value result => item.decode value = .ok result) items decoded := by
  rw [takes_none_iff]
  constructor
  · rintro ⟨given, isGiven, isList⟩
    obtain ⟨items, rfl, each⟩ := decode_list_iff.mp isList
    exact ⟨items, isGiven, each⟩
  · rintro ⟨items, isGiven, each⟩
    exact ⟨_, isGiven, decode_list_iff.mpr ⟨items, rfl, each⟩⟩

end Decoder

end Json

end TraversalQuery
