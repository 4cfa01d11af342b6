import Mathlib.Algebra.Group.Nat.Defs
import TraversalQuery.Outline.Printer
import TraversalQuery.Outline.Reader
import TraversalQuery.Proofs.Runs
import TraversalQuery.Proofs.Text.Digits
import TraversalQuery.Proofs.Text.Split

/-!
# Labels as they are written

What a node stands for is read back from its line, as long as the marks between the parts of the
line do not stand in the parts themselves where the reader looks for them. What is read from a line
always is of this kind.
-/

namespace TraversalQuery

namespace Operator

/-- No operator is written with a comma. -/
theorem comma_not_mem_text (operator : Operator) : ',' ∉ operator.text.toList := by
  cases operator <;> decide

@[simp] theorem read_text (operator : Operator) : read operator.text = .ok operator := by
  cases operator <;> rfl

end Operator

namespace Label

/-- The texts in a label that can be any text at all. -/
def strings : Label → List String
  | .start => []
  | .entity ⟨tag, typeName, none⟩ => [tag, typeName]
  | .entity ⟨tag, typeName, some concrete⟩ =>
    [tag, typeName, concrete.id] ++ concrete.displayName?.toList
  | .relation step => [step.relationType, step.tag]
  | .property held =>
    held.propertyType :: (held.use.constraint?.bind (·.expression?)).toList
  | .group .. => []
  | .quantifier .. => []

/-- The numbers of nodes in a label. -/
def ids : Label → List NodeId
  | .group _ members => members
  | .quantifier _ next => next
  | _ => []

/-- Whether the parts of a label can be told apart where it is written: no part has a mark in it
that ends the part, what is last does not end in blanks, and nothing is tested against the empty
text. -/
def Separable : Label → Prop
  | .start => True
  | .entity ⟨tag, typeName, none⟩ =>
    '#' ∉ typeName.toList ∧ Text.endsBlank tag.toList = false
  | .entity ⟨tag, typeName, some concrete⟩ =>
    '#' ∉ typeName.toList ∧ '(' ∉ tag.toList ∧ '|' ∉ concrete.id.toList
  | .relation step => '#' ∉ step.tag.toList ∧ Text.endsBlank step.tag.toList = false
  | .property held =>
    '<' ∉ held.propertyType.toList ∧ held.use.constraint?.bind (·.expression?) ≠ some ""
  | .group .. => True
  | .quantifier .. => True

/-- Whether a label can be read back from its line: its parts can be told apart, and the line does
not break off within it. -/
def Printable (label : Label) : Prop :=
  label.Separable ∧ ∀ string ∈ label.strings, '\n' ∉ string.toList

instance (label : Label) : Decidable label.Separable :=
  match label with
  | .start => inferInstanceAs (Decidable True)
  | .entity ⟨_, _, none⟩ => inferInstanceAs (Decidable (_ ∧ _))
  | .entity ⟨_, _, some _⟩ => inferInstanceAs (Decidable (_ ∧ _ ∧ _))
  | .relation _ => inferInstanceAs (Decidable (_ ∧ _))
  | .property _ => inferInstanceAs (Decidable (_ ∧ _))
  | .group .. => inferInstanceAs (Decidable True)
  | .quantifier .. => inferInstanceAs (Decidable True)

instance (label : Label) : Decidable label.Printable :=
  inferInstanceAs (Decidable (_ ∧ _))

section Reading

/-- A text is cut at the first mark. -/
theorem cut_append {mark : Char} {before : List Char} (after : List Char) (free : mark ∉ before) :
    cut mark (before ++ mark :: after) = .ok (before, after) := by
  rw [cut, Text.cutFirst?_append after free]

/-- The mark at the end of a text is cut off. -/
theorem cutEnd_append (mark : Char) (whole before : List Char) :
    cutEnd mark whole (before ++ [mark]) = .ok before := by
  rw [cutEnd, Text.dropEnd?_append]

/-- An id that fits is read back. -/
theorem readId_toString (shown : List Char) {id : NodeId} (fits : id < 2 ^ 32) :
    readId shown (toString id).toList = .ok id := by
  rw [readId, Text.unsigned?_toString]
  exact if_pos fits

/-- Ids that fit are read back. -/
theorem readIds_toString {ids : List NodeId} (fit : ∀ id ∈ ids, id < 2 ^ 32) :
    readIds (",".intercalate (ids.map toString)).toList = .ok ids := by
  have read : ∀ ids : List NodeId, (∀ id ∈ ids, id < 2 ^ 32) →
      (ids.map fun id => (toString id).toList).mapM
        (fun piece => readId piece (Text.trim piece)) = .ok ids := by
    intro ids fit
    induction ids with
    | nil => rfl
    | cons id ids ih =>
      obtain ⟨first, later⟩ := List.forall_mem_cons.mp fit
      rw [List.map_cons, List.mapM_cons, Text.trim_toString, readId_toString _ first, ih later]
      rfl
  cases ids with
  | nil => rfl
  | cons id ids =>
    have apart : Text.pieces ',' (",".intercalate ((id :: ids).map toString)).toList =
        (id :: ids).map fun id => (toString id).toList := by
      rw [String.toList_intercalate, List.map_map]
      refine Text.pieces_intercalate (by simp) fun step member => ?_
      obtain ⟨id, _, rfl⟩ := List.mem_map.mp member
      exact Text.not_mem_toString id rfl
    have filled : ∀ piece ∈ (id :: ids).map fun id => (toString id).toList,
        (!piece.isEmpty) = true := by
      intro piece member
      obtain ⟨id, _, rfl⟩ := List.mem_map.mp member
      simp
    rw [readIds, apart, List.filter_eq_self.mpr filled, read _ fit]

/-- A kind with its ids is read back. -/
theorem readScope_text (kind : Quantifier) (ids : List NodeId) (fit : ∀ id ∈ ids, id < 2 ^ 32) :
    readScope (kind.text ++ idsText ids).toList = .ok (kind, ids) := by
  have free : '\x7b' ∉ kind.text.toList := by cases kind <;> decide
  have body : (kind.text ++ idsText ids).toList = kind.text.toList ++
      '\x7b' :: ((",".intercalate (ids.map toString)).toList ++ ['\x7d']) := by
    rw [idsText, String.toList_append, String.toList_append, String.toList_append]
    rfl
  rw [readScope, body, cut_append _ free]
  simp only [Except.ok_bind, String.ofList_toList, Quantifier.ofText?_text, cutEnd_append,
    readIds_toString fit]
  rfl

/-- A concrete entity is read back if its id has no bar. -/
theorem readConcrete_text {concrete : ConcreteEntity} (free : '|' ∉ concrete.id.toList) :
    readConcrete concrete.text.toList = concrete := by
  obtain ⟨id, _ | name⟩ := concrete
  · simp [readConcrete, ConcreteEntity.text, Text.cutFirst?_of_free free]
  · simp [readConcrete, ConcreteEntity.text, Text.cutFirst?_append _ free]

/-- A direction in brackets is read back. -/
theorem readDirection?_text (direction : Direction) :
    readDirection? (direction.text.toList ++ [')']) = some direction := by
  simp [readDirection?, Text.dropEnd?_append]

/-- A use of a property is read back unless its expression is empty. -/
theorem readUse_text {use : PropertyUse}
    (some : use.constraint?.bind (·.expression?) ≠ some "") :
    readUse use.text.toList = .ok use := by
  cases use with
  | shown => rfl
  | tested constraint =>
    obtain ⟨operator, expression?⟩ := constraint
    have free := operator.comma_not_mem_text
    have body : (PropertyUse.tested ⟨operator, expression?⟩).text.toList =
        operator.text.toList ++ ',' :: (expression?.getD "").toList := by
      simp [PropertyUse.text]
    have other : String.ofList (operator.text.toList ++ ',' :: (expression?.getD "").toList) ≠
        PropertyUse.shown.text := by
      intro same
      have marked : ',' ∈ PropertyUse.shown.text.toList := by rw [← same]; simp
      exact absurd marked (by decide)
    have read : readExpression (expression?.getD "").toList = expression? := by
      cases expression? with
      | none => rfl
      | some expression =>
        have filled : expression ≠ "" := fun empty => some (congrArg Option.some empty)
        simp [readExpression, filled]
    rw [readUse, body, if_neg other, cut_append _ free]
    simp only [Except.ok_bind, String.ofList_toList, Operator.read_text, read]
    rfl

/-- An entity is read back if its type has no number sign. -/
theorem readEntity_written {typeName : String} (tag : String) (free : '#' ∉ typeName.toList) :
    readEntity (typeName.toList ++ '#' :: tag.toList) =
      .ok (.entity ⟨tag, typeName, none⟩) := by
  simp only [readEntity, cut_append _ free, Except.ok_bind, String.ofList_toList]
  rfl

/-- A concrete step is read back if none of its parts has the mark after it. -/
theorem readConcreteStep_written {tag typeName : String} {concrete : ConcreteEntity}
    (typeFree : '#' ∉ typeName.toList) (tagFree : '(' ∉ tag.toList)
    (idFree : '|' ∉ concrete.id.toList) :
    readConcreteStep
        (typeName.toList ++ '#' :: (tag.toList ++ '(' :: (concrete.text.toList ++ [')']))) =
      .ok (.entity ⟨tag, typeName, some concrete⟩) := by
  simp only [readConcreteStep, cut_append _ typeFree, cut_append _ tagFree, cutEnd_append,
    Except.ok_bind, String.ofList_toList, readConcrete_text idFree]
  rfl

/-- A relationship is read back if its tag has no number sign. -/
theorem readRelation_written (relationType : String) (direction : Direction) {tag : String}
    (tagFree : '#' ∉ tag.toList) :
    readRelation
        ((relationType.toList ++ '(' :: (direction.text.toList ++ [')'])) ++ '#' :: tag.toList) =
      .ok (.relation ⟨relationType, direction, tag⟩) := by
  have free : '(' ∉ direction.text.toList ++ [')'] := by cases direction <;> decide
  simp only [readRelation, Text.cutLast?_append _ tagFree, Text.cutLast?_append _ free,
    readDirection?_text, String.ofList_toList]

/-- A property is read back if its type has no angle bracket. -/
theorem readProperty_written (scope : PropertyScope) {propertyType : String} {use : PropertyUse}
    (typeFree : '<' ∉ propertyType.toList)
    (some : use.constraint?.bind (·.expression?) ≠ some "") :
    readProperty scope (propertyType.toList ++ '<' :: (use.text.toList ++ ['>'])) =
      .ok (.property ⟨scope, propertyType, use⟩) := by
  simp only [readProperty, cut_append _ typeFree, cutEnd_append, Except.ok_bind,
    readUse_text some, String.ofList_toList]
  rfl

/-- What a label is written as after its kind and its number reads back as that label. -/
theorem readDetail_detail {label : Label} (separable : label.Separable)
    (fit : ∀ id ∈ label.ids, id < 2 ^ 32) :
    readDetail label.kind (bodyOf label.detail.toList) = .ok label := by
  match label with
  | .start => rfl
  | .entity ⟨tag, typeName, none⟩ =>
    have body : bodyOf (detail (.entity ⟨tag, typeName, none⟩)).toList =
        typeName.toList ++ '#' :: tag.toList := by
      simp [detail, bodyOf]
    rw [body]
    exact readEntity_written tag separable.1
  | .entity ⟨tag, typeName, some concrete⟩ =>
    obtain ⟨typeFree, tagFree, idFree⟩ := separable
    have body : bodyOf (detail (.entity ⟨tag, typeName, some concrete⟩)).toList =
        typeName.toList ++ '#' :: (tag.toList ++ '(' :: (concrete.text.toList ++ [')'])) := by
      simp [detail, bodyOf]
    rw [body]
    exact readConcreteStep_written typeFree tagFree idFree
  | .relation ⟨relationType, direction, tag⟩ =>
    have body : bodyOf (detail (.relation ⟨relationType, direction, tag⟩)).toList =
        (relationType.toList ++ '(' :: (direction.text.toList ++ [')'])) ++ '#' :: tag.toList := by
      simp [detail, bodyOf]
    rw [body]
    exact readRelation_written relationType direction separable.1
  | .property ⟨scope, propertyType, use⟩ =>
    have body : bodyOf (detail (.property ⟨scope, propertyType, use⟩)).toList =
        propertyType.toList ++ '<' :: (use.text.toList ++ ['>']) := by
      simp [detail, bodyOf]
    rw [body]
    cases scope with
    | entity => exact readProperty_written .entity separable.1 separable.2
    | relation => exact readProperty_written .relation separable.1 separable.2
  | .group kind members =>
    have body : bodyOf (detail (.group kind members)).toList =
        (kind.text ++ idsText members).toList := by
      simp [detail, bodyOf]
    rw [body]
    change (readScope _ >>= _) = _
    rw [readScope_text kind members fit]
    rfl
  | .quantifier kind next =>
    have body : bodyOf (detail (.quantifier kind next)).toList =
        (kind.text ++ idsText next).toList := by
      simp [detail, bodyOf]
    rw [body]
    change (readScope _ >>= _) = _
    rw [readScope_text kind next fit]
    rfl

/-- A node is read back from its line. -/
theorem read_text (line : Nat) {label : Label} {id : NodeId} (separable : label.Separable)
    (fits : id < 2 ^ 32) (fit : ∀ id ∈ label.ids, id < 2 ^ 32) :
    read line (label.text id).toList = .ok (id, label) := by
  have whole : (label.text id).toList = label.kind.toList ++
      '[' :: ((toString id).toList ++ ']' :: label.detail.toList) := by
    simp [text]
  have opening : '[' ∉ label.kind.toList := by
    unfold kind
    split <;> decide
  have closing : ']' ∉ label.kind.toList := by
    unfold kind
    split <;> decide
  have digits : ']' ∉ (toString id).toList := Text.not_mem_toString id rfl
  rw [read, whole, cut_append _ opening]
  simp only [Except.mapError, Except.ok_bind, if_neg closing, Text.cutFirst?_append _ digits,
    readId_toString _ fits, String.ofList_toList, readDetail_detail separable fit]
  rfl

end Reading

section Written

variable {label : Label}

theorem feedless_idsText (ids : List NodeId) : '\n' ∉ (idsText ids).toList := by
  have digits : ∀ id : NodeId, '\n' ∉ (toString id).toList :=
    fun id => Text.not_mem_toString id rfl
  have inner : '\n' ∉ (",".intercalate (ids.map toString)).toList := by
    cases ids with
    | nil => exact List.not_mem_nil
    | cons id ids =>
      rw [String.toList_intercalate, List.map_cons, List.map_cons]
      refine fun member => ?_
      rcases List.mem_append.mp (Text.intercalate_cons .. ▸ member) with first | later
      · exact digits id first
      · obtain ⟨piece, isPiece, member⟩ := List.mem_flatMap.mp later
        obtain ⟨text, isText, rfl⟩ := List.mem_map.mp isPiece
        obtain ⟨other, _, rfl⟩ := List.mem_map.mp isText
        rcases List.mem_cons.mp member with impossible | member
        · contradiction
        · exact digits other member
  simpa [idsText, -String.toList_intercalate] using inner

theorem feedless_use {use : PropertyUse}
    (feedless : ∀ expression ∈ use.constraint?.bind (·.expression?), '\n' ∉ expression.toList) :
    '\n' ∉ use.text.toList := by
  match use with
  | .shown => decide
  | .tested ⟨operator, expression?⟩ =>
    have named : '\n' ∉ operator.text.toList := by cases operator <;> decide
    cases expression? with
    | none => simp [PropertyUse.text, named]
    | some expression => simpa [PropertyUse.text, named] using feedless expression rfl

/-- A label that can be printed has no line feed in its detail. -/
theorem feedless_detail (printable : label.Printable) : '\n' ∉ label.detail.toList := by
  obtain ⟨_, feedless⟩ := printable
  match label with
  | .start => exact List.not_mem_nil
  | .entity ⟨tag, typeName, none⟩ => simp_all [strings, detail]
  | .entity ⟨tag, typeName, some ⟨id, none⟩⟩ =>
    simp_all [strings, detail, ConcreteEntity.text]
  | .entity ⟨tag, typeName, some ⟨id, some name⟩⟩ =>
    simp_all [strings, detail, ConcreteEntity.text]
  | .relation ⟨relationType, direction, tag⟩ =>
    have free : '\n' ∉ direction.text.toList := by cases direction <;> decide
    simp_all [strings, detail]
  | .property ⟨scope, propertyType, use⟩ =>
    obtain ⟨typed, tested⟩ := List.forall_mem_cons.mp feedless
    have used := feedless_use fun expression member =>
      tested expression (Option.mem_toList.mpr member)
    simp_all [detail]
  | .group kind members =>
    have free : '\n' ∉ kind.text.toList := by cases kind <;> decide
    simp [detail, free, feedless_idsText, -String.toList_intercalate]
  | .quantifier kind next =>
    have free : '\n' ∉ kind.text.toList := by cases kind <;> decide
    simp [detail, free, feedless_idsText, -String.toList_intercalate]

/-- A label that can be printed has no line feed. -/
theorem feedless_text (printable : label.Printable) (id : NodeId) :
    '\n' ∉ (label.text id).toList := by
  have digits : '\n' ∉ (toString id).toList := Text.not_mem_toString id rfl
  have kind : '\n' ∉ label.kind.toList := by
    unfold Label.kind
    split <;> decide
  simp only [text, String.toList_append, List.mem_append, not_or]
  exact ⟨⟨⟨⟨kind, by decide⟩, digits⟩, by decide⟩, feedless_detail printable⟩

/-- What is last on the line of a node is a mark, or the tag of a step after a mark. -/
theorem text_eq_append_cons (label : Label) (id : NodeId) :
    ∃ before mark after, (label.text id).toList = before ++ mark :: after ∧
      Text.isBlank mark = false ∧ (label.Separable → Text.endsBlank after = false) := by
  match label with
  | .start =>
    exact ⟨("Start[" ++ toString id).toList, ']', [], by simp [text, kind, detail], rfl,
      fun _ => rfl⟩
  | .entity ⟨tag, typeName, none⟩ =>
    exact ⟨("Entity[" ++ toString id ++ "]:" ++ typeName).toList, '#', tag.toList,
      by simp [text, kind, detail], rfl, And.right⟩
  | .entity ⟨tag, typeName, some concrete⟩ =>
    exact ⟨("Concrete[" ++ toString id ++ "]:" ++ typeName ++ "#" ++ tag ++ "(" ++
      concrete.text).toList, ')', [], by simp [text, kind, detail], rfl, fun _ => rfl⟩
  | .relation ⟨relationType, direction, tag⟩ =>
    exact ⟨("Rel[" ++ toString id ++ "]:" ++ relationType ++ "(" ++ direction.text ++
      ")").toList, '#', tag.toList, by simp [text, kind, detail], rfl, And.right⟩
  | .property held =>
    exact ⟨(kind (.property held) ++ "[" ++ toString id ++ "]:" ++ held.propertyType ++ "<" ++
      held.use.text).toList, '>', [], by simp [text, detail], rfl, fun _ => rfl⟩
  | .group kind members =>
    exact ⟨("Group[" ++ toString id ++ "]:" ++ kind.text ++ "\x7b" ++
      ",".intercalate (members.map toString)).toList, '\x7d', [],
      by simp [text, Label.kind, detail, idsText], rfl, fun _ => rfl⟩
  | .quantifier kind next =>
    exact ⟨("Quant[" ++ toString id ++ "]:" ++ kind.text ++ "\x7b" ++
      ",".intercalate (next.map toString)).toList, '\x7d', [],
      by simp [text, Label.kind, detail, idsText], rfl, fun _ => rfl⟩

/-- A label that can be told apart does not end in blanks. -/
theorem endsBlank_text (separable : label.Separable) (id : NodeId) :
    Text.endsBlank (label.text id).toList = false := by
  obtain ⟨before, mark, after, whole, bareMark, bare⟩ := label.text_eq_append_cons id
  rw [whole]
  exact Text.endsBlank_append_cons before bareMark (bare separable)

/-- The line of a node starts with a letter. -/
theorem text_eq_cons (label : Label) (id : NodeId) :
    ∃ first rest, (label.text id).toList = first :: rest ∧ first.isAlpha = true := by
  have starts : ∃ first rest, label.kind.toList = first :: rest ∧ first.isAlpha = true := by
    unfold kind
    split
    all_goals exact ⟨_, _, rfl, rfl⟩
  obtain ⟨first, rest, whole, letter⟩ := starts
  refine ⟨first, rest ++ ("[" ++ toString id ++ "]" ++ label.detail).toList, ?_, letter⟩
  rw [← List.cons_append, ← whole, ← String.toList_append]
  simp [text]

end Written

section Read

variable {text before after : List Char} {mark : Char}

/-- A text that was cut is what comes before the mark, the mark and what comes after. -/
theorem of_cut (parted : cut mark text = .ok (before, after)) :
    text = before ++ mark :: after ∧ mark ∉ before := by
  unfold cut at parted
  split at parted
  · rename_i parts found
    rw [Except.ok.inj parted] at found
    exact Text.of_cutFirst? found
  · contradiction

/-- A text whose end was cut off ended in the mark. -/
theorem of_cutEnd {whole : List Char} (parted : cutEnd mark whole text = .ok before) :
    text = before ++ [mark] := by
  unfold cutEnd at parted
  split at parted
  · rename_i found
    rw [Except.ok.inj parted] at found
    exact Text.of_dropEnd? found
  · contradiction

/-- An id that is read fits. -/
theorem of_readId {shown digits : List Char} {id : NodeId} (read : readId shown digits = .ok id) :
    id < 2 ^ 32 := by
  unfold readId at read
  split at read
  · split at read
    · rename_i small
      rwa [← Except.ok.inj read]
    · contradiction
  · contradiction

/-- Ids that are read fit. -/
theorem of_readIds {ids : List NodeId} (read : readIds text = .ok ids) :
    ∀ id ∈ ids, id < 2 ^ 32 := by
  have each : ∀ (pieces : List (List Char)) (ids : List NodeId),
      pieces.mapM (fun piece => readId piece (Text.trim piece)) = .ok ids →
      ∀ id ∈ ids, id < 2 ^ 32 := by
    intro pieces
    induction pieces with
    | nil =>
      intro ids read
      obtain rfl := Except.ok.inj read
      exact fun _ member => absurd member List.not_mem_nil
    | cons piece pieces ih =>
      intro ids read
      rw [List.mapM_cons] at read
      obtain ⟨id, first, read⟩ := Except.of_bind_eq_ok read
      obtain ⟨others, later, read⟩ := Except.of_bind_eq_ok read
      obtain rfl := Except.ok.inj read
      exact List.forall_mem_cons.mpr ⟨of_readId first, ih others later⟩
  exact each _ ids read

/-- The ids of a scope that is read fit. -/
theorem of_readScope {kind : Quantifier} {ids : List NodeId}
    (read : readScope text = .ok (kind, ids)) : ∀ id ∈ ids, id < 2 ^ 32 := by
  obtain ⟨⟨name, rest⟩, _, read⟩ := Except.of_bind_eq_ok read
  dsimp only at read
  split at read
  · contradiction
  · obtain ⟨inner, _, read⟩ := Except.of_bind_eq_ok read
    obtain ⟨numbers, found, read⟩ := Except.of_bind_eq_ok read
    obtain ⟨-, rfl⟩ := Prod.mk.inj (Except.ok.inj read)
    exact of_readIds found

/-- What is read as the use of a property has no test against the empty text, and what it is tested
against is a part of the text. -/
theorem of_readUse {use : PropertyUse} (read : readUse text = .ok use) :
    use.constraint?.bind (·.expression?) ≠ some "" ∧
      ∀ expression ∈ use.constraint?.bind (·.expression?), expression.toList ⊆ text := by
  unfold readUse at read
  split at read
  · obtain rfl := Except.ok.inj read
    exact ⟨nofun, nofun⟩
  · obtain ⟨⟨name, expression⟩, parted, read⟩ := Except.of_bind_eq_ok read
    obtain ⟨operator, _, read⟩ := Except.of_bind_eq_ok read
    obtain rfl := Except.ok.inj read
    obtain ⟨rfl, _⟩ := of_cut parted
    simp only [PropertyUse.constraint?, Option.bind_some, readExpression]
    split
    · exact ⟨nofun, nofun⟩
    · rename_i filled
      refine ⟨fun empty => filled ?_, fun other same => ?_⟩
      · simpa using congrArg String.toList (Option.some.inj empty)
      · obtain rfl := Option.some.inj same
        rw [String.toList_ofList]
        exact fun c member => List.mem_append_right _ (List.mem_cons_of_mem _ member)

/-- An entity that is read can be printed. -/
theorem of_readEntity {label : Label} (read : readEntity text = .ok label)
    (feedless : '\n' ∉ text) (bare : Text.endsBlank text = false) :
    label.Printable ∧ ∀ id ∈ label.ids, id < 2 ^ 32 := by
  obtain ⟨⟨typeName, tag⟩, parted, read⟩ := Except.of_bind_eq_ok read
  obtain rfl := Except.ok.inj read
  obtain ⟨rfl, free⟩ := of_cut parted
  refine ⟨⟨⟨?_, ?_⟩, ?_⟩, nofun⟩
  · rwa [String.toList_ofList]
  · rw [String.toList_ofList]
    exact Text.endsBlank_of_append _ (by rwa [List.append_cons] at bare)
  · simp_all [strings]

/-- A concrete step that is read can be printed. -/
theorem of_readConcreteStep {label : Label} (read : readConcreteStep text = .ok label)
    (feedless : '\n' ∉ text) : label.Printable ∧ ∀ id ∈ label.ids, id < 2 ^ 32 := by
  obtain ⟨⟨typeName, rest⟩, typed, read⟩ := Except.of_bind_eq_ok read
  obtain ⟨⟨tag, rest⟩, tagged, read⟩ := Except.of_bind_eq_ok read
  obtain ⟨inner, closed, read⟩ := Except.of_bind_eq_ok read
  obtain rfl := Except.ok.inj read
  obtain ⟨rfl, typeFree⟩ := of_cut typed
  obtain ⟨rfl, tagFree⟩ := of_cut tagged
  obtain rfl := of_cutEnd closed
  unfold readConcrete
  split
  · rename_i barless
    have idFree := Text.free_of_cutFirst? barless
    refine ⟨⟨⟨?_, ?_, ?_⟩, ?_⟩, nofun⟩
    all_goals simp_all [strings]
  · rename_i id name barred
    obtain ⟨rfl, idFree⟩ := Text.of_cutFirst? barred
    refine ⟨⟨⟨?_, ?_, ?_⟩, ?_⟩, nofun⟩
    all_goals simp_all [strings]

/-- A relationship that is read can be printed. -/
theorem of_readRelation {label : Label} (read : readRelation text = .ok label)
    (feedless : '\n' ∉ text) (bare : Text.endsBlank text = false) :
    label.Printable ∧ ∀ id ∈ label.ids, id < 2 ^ 32 := by
  unfold readRelation at read
  split at read
  · contradiction
  · rename_i head tag tagged
    obtain ⟨rfl, free⟩ := Text.of_cutLast? tagged
    split at read
    · contradiction
    · rename_i relationType rest directed
      obtain ⟨rfl, _⟩ := Text.of_cutLast? directed
      split at read
      · contradiction
      · obtain rfl := Except.ok.inj read
        refine ⟨⟨⟨?_, ?_⟩, ?_⟩, nofun⟩
        · rwa [String.toList_ofList]
        · rw [String.toList_ofList]
          exact Text.endsBlank_of_append _ (by rwa [List.append_cons] at bare)
        · simp_all [strings]

/-- A property that is read can be printed. -/
theorem of_readProperty {scope : PropertyScope} {label : Label}
    (read : readProperty scope text = .ok label) (feedless : '\n' ∉ text) :
    label.Printable ∧ ∀ id ∈ label.ids, id < 2 ^ 32 := by
  obtain ⟨⟨propertyType, rest⟩, typed, read⟩ := Except.of_bind_eq_ok read
  obtain ⟨inner, closed, read⟩ := Except.of_bind_eq_ok read
  obtain ⟨use, used, read⟩ := Except.of_bind_eq_ok read
  obtain rfl := Except.ok.inj read
  obtain ⟨rfl, free⟩ := of_cut typed
  obtain rfl := of_cutEnd closed
  obtain ⟨filled, part⟩ := of_readUse used
  have within : '\n' ∉ inner := fun member => feedless (by simp [member])
  refine ⟨⟨⟨?_, filled⟩, ?_⟩, nofun⟩
  · rwa [String.toList_ofList]
  · intro string member
    rcases List.mem_cons.mp member with rfl | tested
    · simp_all
    · exact fun feed => within (part string (Option.mem_toList.mp tested) feed)

/-- A text without line feeds that does not end in blanks gives a label that can be read back. -/
theorem of_readDetail {kind : String} {label : Label} (read : readDetail kind text = .ok label)
    (feedless : '\n' ∉ text) (bare : Text.endsBlank text = false) :
    label.Printable ∧ ∀ id ∈ label.ids, id < 2 ^ 32 := by
  unfold readDetail at read
  split at read
  · obtain rfl := Except.ok.inj read
    exact ⟨⟨trivial, nofun⟩, nofun⟩
  · exact of_readEntity read feedless bare
  · exact of_readConcreteStep read feedless
  · exact of_readRelation read feedless bare
  · exact of_readProperty read feedless
  · exact of_readProperty read feedless
  · obtain ⟨⟨kind, members⟩, scope, read⟩ := Except.of_bind_eq_ok read
    obtain rfl := Except.ok.inj read
    exact ⟨⟨trivial, nofun⟩, of_readScope scope⟩
  · obtain ⟨⟨kind, next⟩, scope, read⟩ := Except.of_bind_eq_ok read
    obtain rfl := Except.ok.inj read
    exact ⟨⟨trivial, nofun⟩, of_readScope scope⟩
  · contradiction

/-- The body of a line has no line feed, and does not end in blanks unless the line does. -/
theorem of_bodyOf (feedless : '\n' ∉ text) (bare : Text.endsBlank text = false) :
    '\n' ∉ bodyOf text ∧ Text.endsBlank (bodyOf text) = false := by
  unfold bodyOf
  split
  · rename_i body
    exact ⟨fun member => feedless (List.mem_cons_of_mem _ member),
      Text.endsBlank_of_append [':'] bare⟩
  · exact ⟨List.not_mem_nil, rfl⟩

/-- A line without blanks at its end gives a node that can be read back. -/
theorem of_read {line : Nat} {id : NodeId} {label : Label} (came : read line text = .ok (id, label))
    (feedless : '\n' ∉ text) (bare : Text.endsBlank text = false) :
    label.Printable ∧ id < 2 ^ 32 ∧ ∀ id ∈ label.ids, id < 2 ^ 32 := by
  obtain ⟨⟨kind, rest⟩, opened, read⟩ := Except.of_bind_eq_ok came
  obtain ⟨rfl, _⟩ := of_cut (Except.of_mapError_eq_ok opened)
  dsimp only at read
  split at read
  · contradiction
  · split at read
    · contradiction
    · rename_i digits after closed
      obtain ⟨rfl, _⟩ := Text.of_cutFirst? closed
      obtain ⟨number, numbered, rest⟩ := Except.of_bind_eq_ok read
      obtain ⟨found, detailed, same⟩ := Except.of_bind_eq_ok rest
      obtain ⟨rfl, rfl⟩ := Prod.mk.inj (Except.ok.inj same)
      have feedless : '\n' ∉ after := fun member => feedless (by simp [member])
      have bare : Text.endsBlank after = false :=
        Text.endsBlank_of_append (kind ++ '[' :: (digits ++ [']'])) (by simpa using bare)
      obtain ⟨feedless, bare⟩ := of_bodyOf feedless bare
      obtain ⟨printable, fit⟩ := of_readDetail (Except.of_mapError_eq_ok detailed) feedless bare
      exact ⟨printable, of_readId (Except.of_mapError_eq_ok numbered), fit⟩

end Read

end Label

end TraversalQuery
