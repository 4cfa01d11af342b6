import TraversalQuery.Proofs.Document.Levels
import TraversalQuery.Proofs.Document.Loops
import TraversalQuery.Proofs.Document.Placing
import TraversalQuery.Proofs.Document.Shallow

/-!
# Progress

Whatever the tokens are, reading them comes to an end. No phrase gives tokens back, and every round
of every loop takes a token or fails, so the number of tokens bounds the rounds without ever cutting
a loop short; values, type references and selection sets open a bounded number of levels. A document
that is read has no tokens left.
-/

namespace TraversalQuery

namespace Grammar

open Reading

/-! ### Values and types -/

theorem advances_objectField {value : Reading Literal} (each : value.Advances) :
    (objectField value).Advances :=
  advances_name.then fun _ => (advances_expect _).forward.then fun _ => each.forward.then fun _ =>
    forward_pure _

theorem advances_listItem {value : Reading Literal} (each : value.Advances) :
    (listItem value).Advances := by
  refine (forward_look _).then fun ended => ?_
  split
  · exact (fails_unexpected _).bind.consumes
  · exact each

/-- A value takes at least one token. -/
theorem advances_literal (isConstant : Bool) (room : Nat) : (literal isConstant room).Advances := by
  induction room with
  | zero => exact fails_tooDeep.consumes
  | succ room ih =>
    have items := (loops_itemsUntil (advances_listItem ih) .rightBracket).forward
    have fields := (loops_itemsUntil (advances_objectField ih) .rightBrace).forward
    refine advances_kind (fails_unexpected _) fun kind => ?_
    cases kind with
    | mark mark =>
      cases mark with
      | dollar =>
        cases isConstant with
        | true => exact .inl (fails_bind fun _ => (fails_fail _ _).bind)
        | false => exact .inr ⟨_, advances_name.forward.then fun _ => forward_pure _, rfl⟩
      | leftBracket => exact .inr ⟨_, items.then fun _ => forward_pure _, rfl⟩
      | leftBrace => exact .inr ⟨_, fields.then fun _ => forward_pure _, rfl⟩
      | _ => exact .inl (fails_unexpected _)
    | _ => exact .inr ⟨_, forward_pure _, rfl⟩

/-- A type reference takes at least one token. -/
theorem advances_typeRef (room : Nat) : (typeRef room).Advances := by
  induction room with
  | zero => exact fails_tooDeep.consumes
  | succ room ih =>
    have core : (nullableRef room).Advances := by
      refine (forward_accept _).then fun opened => ?_
      split
      · exact ih.then fun _ => (advances_expect _).forward.then fun _ => forward_pure _
      · exact advances_name.then fun _ => forward_pure _
    rw [typeRef_eq]
    refine core.then fun inner => (forward_accept _).then fun marked => ?_
    split
    · exact forward_pure _
    · exact forward_pure _

/-! ### Directives -/

theorem advances_argument (isConstant : Bool) (room : Nat) :
    (argument isConstant room).Advances :=
  (forward_look _).then fun _ => advances_name.then fun _ => (advances_expect _).forward.then
    fun _ => (advances_literal _ _).forward.then fun _ => (forward_look _).then fun _ =>
      forward_pure _

theorem forward_arguments (isConstant : Bool) (room : Nat) :
    (arguments isConstant room).Forward := by
  refine (forward_accept _).then fun opened => ?_
  split
  · exact (loops_itemsUntil (advances_argument _ _) _).forward
  · exact forward_pure _

theorem advances_directive (isConstant : Bool) (room : Nat) :
    (directive isConstant room).Advances :=
  (advances_expect _).then fun _ => advances_name.forward.then fun _ =>
    (forward_arguments _ _).then fun _ => (forward_look _).then fun _ => forward_pure _

theorem forward_directives (isConstant : Bool) (room : Nat) :
    (directives isConstant room).Forward :=
  (loops_itemsWhile (advances_directive _ _) _).forward

/-! ### Selections -/

theorem forward_inlineCondition : inlineCondition.Forward := by
  refine (forward_look _).then fun seen => ?_
  split
  · exact forward_advance.then fun _ => advances_name.forward.then fun _ => forward_pure _
  · exact forward_pure _

section

variable {set : Reading Braced} (sets : set.Advances)
include sets

theorem advances_field (room : Nat) : (field set room).Advances := by
  have called : calling.Advances := by
    refine advances_name.then fun _ => (forward_accept _).then fun aliased => ?_
    split
    · exact advances_name.forward.then fun _ => forward_pure _
    · exact forward_pure _
  have within : (selectedInside set).Forward := by
    refine (forward_look _).then fun braced => ?_
    split
    · exact sets.forward.then fun _ => forward_pure _
    · exact forward_pure _
  rw [field_eq]
  exact (forward_look _).then fun _ => called.then fun _ => (forward_arguments _ _).then fun _ =>
    (forward_directives _ _).then fun _ => within.then fun _ => (forward_look _).then fun _ =>
      forward_pure _

theorem advances_fragmentSelection (room : Nat) : (fragmentSelection set room).Advances := by
  rw [fragmentSelection_eq]
  have looks : spreadName?.Forward := by
    refine (forward_look _).then fun kind => ?_
    split
    · exact forward_pure _
    · exact forward_pure _
  refine (advances_expect _).then fun start => looks.then fun named? => ?_
  cases named? with
  | some name =>
    exact forward_advance.then fun _ => (forward_directives _ _).then fun _ =>
      (forward_look _).then fun _ => forward_pure _
  | none =>
    exact forward_inlineCondition.then fun _ => (forward_directives _ _).then fun _ =>
      sets.forward.then fun _ => (forward_look _).then fun _ => forward_pure _

/-- A selection takes at least one token. -/
theorem advances_selection (room : Nat) : (selection set room).Advances := by
  refine (forward_look _).then fun ended => ?_
  split
  · exact (fails_unexpected _).bind.consumes
  · refine (forward_look _).then fun spread => ?_
    split
    · exact advances_fragmentSelection sets room
    · exact advances_field sets room

end

/-- A selection set takes at least one token. -/
theorem advances_selectionSet (room : Nat) : (selectionSet room).Advances := by
  induction room with
  | zero => exact fails_tooDeep.consumes
  | succ room ih =>
    have selections := (loops_itemsUntil (advances_selection ih room) .rightBrace).forward
    refine (advances_expect _).then fun start => selections.then fun found =>
      (forward_look _).then fun braces => ?_
    split
    · exact (fails_fail _ _).bind.consumes
    · exact forward_pure _

/-! ### Executable definitions -/

theorem forward_defaultValue : defaultValue.Forward := by
  refine (forward_accept _).then fun marked => ?_
  split
  · exact (advances_literal _ _).forward.then fun _ => forward_pure _
  · exact forward_pure _

theorem advances_variableDefinition : variableDefinition.Advances :=
  (advances_expect _).then fun _ => advances_name.forward.then fun _ =>
    (advances_expect _).forward.then fun _ => (advances_typeRef _).forward.then fun _ =>
      forward_defaultValue.then fun _ => (forward_directives _ _).then fun _ =>
        (forward_look _).then fun _ => forward_pure _

theorem forward_variableDefinitions : variableDefinitions.Forward := by
  refine (forward_accept _).then fun opened => ?_
  split
  · exact (loops_itemsUntil advances_variableDefinition _).forward
  · exact forward_pure _

theorem advances_anonymousQuery : anonymousQuery.Advances :=
  (forward_look _).then fun _ => (advances_selectionSet _).then fun _ => (forward_look _).then
    fun _ => forward_pure _

theorem forward_name? : name?.Forward := by
  refine (forward_look _).then fun kind => ?_
  split
  · exact forward_advance.then fun _ => forward_pure _
  · exact forward_pure _

/-- An operation takes at least one token. -/
theorem advances_operation (kind : OperationKind) : (operation kind).Advances :=
  (forward_look _).then fun _ => forward_advance.then fun _ => forward_name?.then fun _ =>
    forward_variableDefinitions.then fun _ => (forward_directives _ _).then fun _ =>
      (advances_selectionSet _).then fun _ => (forward_look _).then fun _ => forward_pure _

/-- A fragment takes at least one token. -/
theorem advances_fragment : fragment.Advances := by
  refine (advances_expectWord _).then fun start => advances_name.forward.then fun name => ?_
  split
  · exact (fails_fail _ _).bind.consumes
  · exact (advances_expectWord _).forward.then fun _ => advances_name.forward.then fun _ =>
      (forward_directives _ _).then fun _ => (advances_selectionSet _).forward.then fun _ =>
        (forward_look _).then fun _ => forward_pure _

/-! ### Definitions of schemas -/

theorem forward_description : description.Forward := by
  refine (forward_look _).then fun kind => ?_
  split
  · exact forward_advance.then fun _ => forward_pure _
  · exact forward_advance.then fun _ => forward_pure _
  · exact forward_pure _

theorem advances_rootType : rootType.Advances := by
  refine (forward_look _).then fun start => advances_name.then fun keyword => ?_
  split
  · exact (fails_fail _ _).consumes
  · exact (advances_expect _).forward.then fun _ => advances_name.forward.then fun _ =>
      forward_pure _

theorem advances_schemaDefinition (start : Span) : (schemaDefinition start).Advances :=
  (advances_expectWord _).then fun _ => (forward_directives _ _).then fun _ =>
    (advances_expect _).forward.then fun _ => (loops_itemsUntil advances_rootType _).forward.then
      fun _ => (forward_look _).then fun _ => forward_pure _

/-- An input definition takes at least one token. -/
theorem advances_inputDefinition : inputDefinition.Advances :=
  forward_description.then fun _ => (forward_look _).then fun _ => advances_name.then fun _ =>
    (advances_expect _).forward.then fun _ => (advances_typeRef _).forward.then fun _ =>
      forward_defaultValue.then fun _ => (forward_directives _ _).then fun _ =>
        (forward_look _).then fun _ => forward_pure _

theorem forward_inputDefinitions (opening closing : Punctuator) :
    (inputDefinitions opening closing).Forward := by
  refine (forward_accept _).then fun opened => ?_
  split
  · exact (loops_itemsUntil advances_inputDefinition _).forward
  · exact forward_pure _

/-- A field definition takes at least one token. -/
theorem advances_fieldDefinition : fieldDefinition.Advances :=
  forward_description.then fun _ => (forward_look _).then fun _ => advances_name.then fun _ =>
    (forward_inputDefinitions _ _).then fun _ => (advances_expect _).forward.then fun _ =>
      (advances_typeRef _).forward.then fun _ => (forward_directives _ _).then fun _ =>
        (forward_look _).then fun _ => forward_pure _

theorem forward_fieldDefinitions : fieldDefinitions.Forward := by
  refine (forward_accept _).then fun opened => ?_
  split
  · exact (loops_itemsUntil advances_fieldDefinition _).forward
  · exact forward_pure _

theorem advances_separated (mark : Punctuator) : (separated mark).Advances :=
  (advances_expect _).then fun _ => advances_name.forward

theorem advances_separatedNames (mark : Punctuator) : (separatedNames mark).Advances :=
  (forward_accept _).then fun _ => advances_name.then fun _ =>
    (loops_itemsWhile (advances_separated mark) _).forward.then fun _ => forward_pure _

theorem forward_implementedInterfaces : implementedInterfaces.Forward := by
  refine (forward_look _).then fun seen => ?_
  split
  · exact forward_advance.then fun _ => (advances_separatedNames _).forward
  · exact forward_pure _

theorem advances_enumValue : enumValue.Advances := by
  refine forward_description.then fun _ => (forward_look _).then fun start =>
    advances_name.then fun value => ?_
  split
  · exact (fails_fail _ _).bind.consumes
  · exact (forward_directives _ _).then fun _ => forward_pure _

theorem forward_enumValues : enumValues.Forward := by
  refine (forward_accept _).then fun opened => ?_
  split
  · exact (loops_itemsUntil advances_enumValue _).forward
  · exact forward_pure _

theorem forward_typeContent (keyword : String) (place : Span) :
    (typeContent keyword place).Forward := by
  unfold typeContent
  split
  · exact (forward_directives _ _).then fun _ => forward_pure _
  · exact forward_implementedInterfaces.then fun _ => (forward_directives _ _).then fun _ =>
      forward_fieldDefinitions.then fun _ => forward_pure _
  · exact forward_implementedInterfaces.then fun _ => (forward_directives _ _).then fun _ =>
      forward_fieldDefinitions.then fun _ => forward_pure _
  · exact (forward_directives _ _).then fun _ => forward_enumValues.then fun _ => forward_pure _
  · exact (forward_directives _ _).then fun _ => (forward_inputDefinitions _ _).then fun _ =>
      forward_pure _
  · exact (fails_fail _ _).consumes

/-- A type definition takes at least one token. -/
theorem advances_typeDefinition (start : Span) (isExtension : Bool) :
    (typeDefinition start isExtension).Advances :=
  (forward_look _).then fun _ => advances_name.then fun _ => advances_name.forward.then fun _ =>
    (forward_typeContent _ _).then fun _ => (forward_look _).then fun _ => forward_pure _

theorem forward_repeatable : repeatable.Forward := by
  refine (forward_look _).then fun seen => ?_
  split
  · exact forward_advance.then fun _ => forward_pure _
  · exact forward_pure _

theorem advances_directiveDefinition (start : Span) : (directiveDefinition start).Advances :=
  (advances_expectWord _).then fun _ => (advances_expect _).forward.then fun _ =>
    advances_name.forward.then fun _ => (forward_inputDefinitions _ _).then fun _ =>
      forward_repeatable.then fun _ => (advances_expectWord _).forward.then fun _ =>
        (advances_separatedNames _).forward.then fun _ => (forward_look _).then fun _ =>
          forward_pure _

/-! ### Documents -/

theorem advances_map {α : Type} {make : α → Definition} {reading : Reading α}
    (advances : reading.Advances) : (make <$> reading).Advances := by
  rw [map_eq_pure_bind]
  exact advances.then fun _ => forward_pure _

theorem advances_keywordDefinition (isDescribed : Bool) (start : Span) (keyword : String) :
    (keywordDefinition isDescribed start keyword).Advances := by
  unfold keywordDefinition
  split
  · exact advances_map (advances_operation _)
  · split
    · exact advances_map advances_fragment
    · split
      · exact advances_map (advances_schemaDefinition _)
      · split
        · exact advances_map (advances_directiveDefinition _)
        · split
          · exact forward_advance.then fun _ => advances_map (advances_typeDefinition _ _)
          · exact advances_map (advances_typeDefinition _ _)

/-- A definition takes at least one token. -/
theorem advances_definition : definition.Advances := by
  refine (forward_look _).then fun braced => ?_
  split
  · exact advances_anonymousQuery.then fun _ => forward_pure _
  · refine forward_description.then fun _ => (forward_look _).then fun _ =>
      (forward_look _).then fun kind => ?_
    split
    · exact advances_keywordDefinition _ _ _
    · exact (fails_unexpected _).consumes

/-- Reading a document fails or leaves no tokens. -/
theorem document_ends (cursor : Cursor) :
    (∃ error, document.run cursor = .error error) ∨
      ∃ found after, document.run cursor = .ok (found, after) ∧ after.rest = [] := by
  rcases ran : document.run cursor with error | ⟨found, after⟩
  · exact .inl ⟨error, rfl⟩
  · obtain ⟨⟨definitions, final⟩, read, ran⟩ := Except.of_bind_eq_ok ran
    refine .inr ⟨found, after, rfl, ?_⟩
    cases definitions with
    | nil => cases ran
    | cons first others =>
      cases ran
      exact rest_of_manyToEnd advances_definition _ (Nat.le_refl _) read

/-- What holds of the reading of documents whatever the tokens are. -/
structure Progress : Prop where
  /-- A document is read to the end of the tokens, or there is an error. -/
  ends : ∀ tokens length,
    (∃ error, document.run (.start tokens length) = .error error) ∨
      ∃ found after, document.run (.start tokens length) = .ok (found, after) ∧ after.rest = []
  /-- The cursor moves on by one token, and at the end it stays. -/
  steps : ∀ cursor : Cursor, cursor.next.rest = cursor.rest.tail
  definitions : Loops atEnd definition (itemsToEnd definition)
  selections : ∀ room, LoopsUntil .rightBrace (selection (selectionSet room) room)
  arguments : ∀ isConstant room, LoopsUntil .rightParen (argument isConstant room)
  directives : ∀ isConstant room, LoopsWhile .atSign (directive isConstant room)
  variableDefinitions : LoopsUntil .rightParen variableDefinition
  listItems : ∀ isConstant room, LoopsUntil .rightBracket (listItem (literal isConstant room))
  objectFields : ∀ isConstant room, LoopsUntil .rightBrace (objectField (literal isConstant room))
  fields : LoopsUntil .rightBrace fieldDefinition
  inputs : ∀ closing, LoopsUntil closing inputDefinition
  enumValues : LoopsUntil .rightBrace enumValue
  roots : LoopsUntil .rightBrace rootType
  interfaces : LoopsWhile .amp (separated .amp)
  locations : LoopsWhile .pipe (separated .pipe)
  /-- Where no level is left, a phrase that opens one is refused before anything of it is read. -/
  exhausted : ∀ (cursor : Cursor) (isConstant : Bool),
    (literal isConstant 0).run cursor = .error ⟨.nestsTooDeep, cursor.span⟩ ∧
      (typeRef 0).run cursor = .error ⟨.nestsTooDeep, cursor.span⟩ ∧
        (selectionSet 0).run cursor = .error ⟨.nestsTooDeep, cursor.span⟩
  /-- Levels are opened one inside the other, never more than there are: with more of them the same
  is read, unless a phrase is refused for nesting too deep. -/
  levels : ∀ (room room' : Nat), room ≤ room' →
    (∀ isConstant, (literal isConstant room).ShortOf (literal isConstant room')) ∧
      (typeRef room).ShortOf (typeRef room') ∧ (selectionSet room).ShortOf (selectionSet room')
  /-- In a document that is read no selection set, value or type reference is below the last of the
  levels. -/
  shallow : ∀ tokens length document, Document.ofTokens tokens length = .ok document →
    ∀ glyph ∈ document.written, glyph.level ≤ 256

/-- **Reading makes progress.** Every reading of a document comes to an end, moves only forward on
the way, nests within the levels, and takes all tokens if it succeeds. -/
theorem document_progresses : Progress where
  ends tokens length := document_ends (.start tokens length)
  steps cursor := by
    obtain ⟨_ | ⟨token, rest⟩, last, ending⟩ := cursor <;> rfl
  definitions := loops_itemsToEnd advances_definition
  selections room := loops_itemsUntil (advances_selection (advances_selectionSet room) room) _
  arguments isConstant room := loops_itemsUntil (advances_argument isConstant room) _
  directives isConstant room := loops_itemsWhile (advances_directive isConstant room) _
  variableDefinitions := loops_itemsUntil advances_variableDefinition _
  listItems isConstant room :=
    loops_itemsUntil (advances_listItem (advances_literal isConstant room)) _
  objectFields isConstant room :=
    loops_itemsUntil (advances_objectField (advances_literal isConstant room)) _
  fields := loops_itemsUntil advances_fieldDefinition _
  inputs closing := loops_itemsUntil advances_inputDefinition closing
  enumValues := loops_itemsUntil advances_enumValue _
  roots := loops_itemsUntil advances_rootType _
  interfaces := loops_itemsWhile (advances_separated .amp) _
  locations := loops_itemsWhile (advances_separated .pipe) _
  exhausted cursor isConstant := ⟨rfl, rfl, rfl⟩
  levels room room' fewer := ⟨fun isConstant => shortOf_literal isConstant fewer,
    shortOf_typeRef fewer, shortOf_selectionSet fewer⟩
  shallow tokens length document read := Document.shallow_of_ofTokens read

end Grammar

end TraversalQuery
