import TraversalQuery.Document.Grammar
import TraversalQuery.Proofs.Document.Carrying

/-!
# Schema definitions at other places

The phrases that schemas are made of, where their tokens stand elsewhere and others come after them:
each phrase of the grammar reads the same there, with other spans. The phrases that may be missing
are those that a token after them could be taken for.
-/

namespace TraversalQuery

/-! ### Syntax at other places -/

/-- An argument with its span elsewhere. -/
def Argument.placed (place : Span → Span) (argument : Argument) : Argument :=
  { argument with span := place argument.span }

/-- A directive with its spans elsewhere. -/
def Directive.placed (place : Span → Span) (directive : Directive) : Directive :=
  ⟨directive.name, directive.arguments.map (·.placed place), place directive.span⟩

/-- A schema definition with its span elsewhere. -/
def SchemaDefinition.placed (place : Span → Span) (schema : SchemaDefinition) : SchemaDefinition :=
  { schema with span := place schema.span }

/-- An input definition with its spans elsewhere. -/
def InputDefinition.placed (place : Span → Span) (input : InputDefinition) : InputDefinition :=
  { input with directives := input.directives.map (·.placed place), span := place input.span }

/-- An output field with its spans elsewhere. -/
def FieldDefinition.placed (place : Span → Span) (field : FieldDefinition) : FieldDefinition :=
  { field with
    arguments := field.arguments.map (·.placed place)
    directives := field.directives.map (·.placed place)
    span := place field.span }

/-- What a type consists of with its spans elsewhere. -/
def TypeContent.placed (place : Span → Span) : TypeContent → TypeContent
  | .scalar => .scalar
  | .object interfaces fields => .object interfaces (fields.map (·.placed place))
  | .interface interfaces fields => .interface interfaces (fields.map (·.placed place))
  | .enum values => .enum values
  | .input fields => .input (fields.map (·.placed place))

/-- A type definition with its spans elsewhere. -/
def TypeDefinition.placed (place : Span → Span) (type : TypeDefinition) : TypeDefinition :=
  { type with
    content := type.content.placed place
    directives := type.directives.map (·.placed place)
    span := place type.span }

/-- A directive definition with its spans elsewhere. -/
def DirectiveDefinition.placed (place : Span → Span) (directive : DirectiveDefinition) :
    DirectiveDefinition :=
  { directive with
    arguments := directive.arguments.map (·.placed place)
    span := place directive.span }

/-- A definition of a schema with its spans elsewhere. Operations and fragments stay as they are. -/
def Definition.placed (place : Span → Span) : Definition → Definition
  | .schema part => .schema (part.placed place)
  | .type part => .type (part.placed place)
  | .directive part => .directive (part.placed place)
  | .operation part => .operation part
  | .fragment part => .fragment part

/-! Definitions whose spans stay where they are. -/

@[simp] theorem Directive.placed_id (directive : Directive) : directive.placed id = directive := by
  simp [placed, Argument.placed]

@[simp] theorem InputDefinition.placed_id (input : InputDefinition) : input.placed id = input := by
  simp [placed]

@[simp] theorem FieldDefinition.placed_id (field : FieldDefinition) : field.placed id = field := by
  simp [placed]

@[simp] theorem TypeContent.placed_id (content : TypeContent) : content.placed id = content := by
  cases content <;> simp [placed]

@[simp] theorem Definition.placed_id (definition : Definition) :
    definition.placed id = definition := by
  cases definition <;>
    simp [placed, SchemaDefinition.placed, TypeDefinition.placed, DirectiveDefinition.placed]

namespace Grammar

open Reading

variable {placement : Placement} {α β : Type} {change : α → β}



/-! ### Values and types -/

theorem fails_tooDeep : Fails (tooDeep : Reading α) :=
  fails_bind fun _ => fails_fail _ _

theorem carries_objectField {value : Reading Literal}
    (carries : Carries placement false id value value) :
    Carries placement false id (objectField value) (objectField value) :=
  carries_name.bind fun _ => (carries_expect _).begun.bind fun _ =>
    carries.begun.bind fun _ => carries_pure _

theorem carries_listItem {value : Reading Literal}
    (carries : Carries placement false id value value) :
    Carries placement false id (listItem value) (listItem value) := by
  refine .atEnd fun ended => ?_
  cases ended with
  | true => exact ((fails_unexpected _).bind).carries
  | false => exact carries

/-- Reading a value carries over. -/
theorem carries_literal (isConstant : Bool) (room : Nat) :
    Carries placement false id (literal isConstant room) (literal isConstant room) := by
  induction room with
  | zero => exact fails_tooDeep.carries
  | succ room ih =>
    refine .kind (fun kind => ?_) (fails_unexpected _)
    cases kind with
    | mark mark =>
      cases mark with
      | dollar =>
        cases isConstant with
        | true => exact ((fails_bind fun _ => (fails_fail _ _).bind)).carries.ahead
        | false =>
          have reference : Carries placement true id (name >>= fun text => pure (.reference text))
              (name >>= fun text => pure (Literal.reference text)) :=
            carries_name.begun.bind fun _ => carries_pure _
          exact reference.advance
      | leftBracket =>
        have items := (carries_itemsUntil (carries_listItem ih) .rightBracket).begun
        exact (items.bind fun _ => by rw [List.map_id]; exact carries_pure _).advance
      | leftBrace =>
        have fields := (carries_itemsUntil (carries_objectField ih) .rightBrace).begun
        exact (fields.bind fun _ => by rw [List.map_id]; exact carries_pure _).advance
      | _ => exact (fails_unexpected _).carries.ahead
    | _ => exact (carries_pure _).advance

/-- Reading a type reference carries over. -/
theorem carries_typeRef (room : Nat) :
    Carries placement false id (typeRef room) (typeRef room) := by
  induction room with
  | zero => exact fails_tooDeep.carries
  | succ room ih =>
    have ends (inner : TypeRef) : Carries placement true id
        (accept .bang >>= fun marked => if marked then pure (.nonNull inner) else pure inner)
        (accept .bang >>= fun marked => if marked then pure (.nonNull inner) else pure inner) :=
      .accept (carries_pure _) (carries_pure _)
    have list (item : TypeRef) : Carries placement true id (pure item.list) (pure item.list) :=
      carries_pure _
    have named : Carries placement false id (TypeRef.named <$> name) (TypeRef.named <$> name) :=
      carries_name.map fun _ => rfl
    exact .accept (ih.begun.bind fun item => (carries_expect _).begun.bind fun _ =>
      (list item).bind ends) (named.bind ends)

/-! ### Directives -/

theorem carries_argument (isConstant : Bool) (room : Nat) :
    Carries placement false (·.placed placement.place) (argument isConstant room)
      (argument isConstant room) :=
  .span fun _ => carries_name.bind fun _ => (carries_expect _).begun.bind fun _ =>
    (carries_literal isConstant room).begun.bind fun _ => (carries_spanFrom _).bind fun _ =>
      carries_pure _

theorem carries_arguments (isConstant : Bool) (room : Nat) :
    Carries placement true (List.map (·.placed placement.place)) (arguments isConstant room)
      (arguments isConstant room) :=
  .accept (carries_itemsUntil (carries_argument isConstant room) _).begun (carries_pure [])

theorem carries_directive (isConstant : Bool) (room : Nat) :
    Carries placement false (·.placed placement.place) (directive isConstant room)
      (directive isConstant room) :=
  (carries_expect _).bind fun _ => carries_name.begun.bind fun _ =>
    (carries_arguments isConstant room).bind fun _ => (carries_spanFrom _).bind fun _ =>
      carries_pure _

/-- Reading directives carries over. -/
theorem carries_directives (isConstant : Bool) (room : Nat) :
    Carries placement true (List.map (·.placed placement.place)) (directives isConstant room)
      (directives isConstant room) :=
  carries_itemsWhile (carries_directive isConstant room) _

/-! ### Definitions -/

theorem carries_defaultValue : Carries placement true id defaultValue defaultValue :=
  .accept ((carries_literal true maxNesting).begun.bind fun _ => carries_pure _) (carries_pure none)

theorem carries_rootType : Carries placement false id rootType rootType := by
  refine .span fun start => carries_name.bind fun keyword => ?_
  dsimp only [id_eq]
  cases OperationKind.ofKeyword? keyword with
  | none => exact (fails_fail _ _).carries
  | some kind =>
    exact (carries_expect _).begun.bind fun _ => carries_name.begun.bind fun _ => carries_pure _

/-- Reading a schema definition carries over. -/
theorem carries_schemaDefinition (start : Span) :
    Carries placement false (·.placed placement.place) (schemaDefinition start)
      (schemaDefinition (placement.place start)) :=
  (carries_expectWord _).bind fun _ => (carries_directives true maxNesting).bind fun _ =>
    (carries_expect _).begun.bind fun _ => (carries_itemsUntil carries_rootType _).begun.bind
      fun _ => (carries_spanFrom _).bind fun _ => by rw [List.map_id]; exact carries_pure _

/-- What reading a description comes to. -/
theorem run_description (cursor : Cursor) :
    description.run cursor =
      match cursor.kind? with
      | some (.string _) => .ok (true, cursor.next)
      | some (.blockString _) => .ok (true, cursor.next)
      | _ => .ok (false, cursor) := by
  change (match cursor.kind? with
    | some (.string _) => _ | some (.blockString _) => _ | _ => _ : Reading Bool).run cursor = _
  split <;> rfl

/-- A description before a phrase that takes a token. -/
theorem carries_described {next : Bool → Reading α} {next' : Bool → Reading β}
    (later : ∀ isDescribed, Carries placement false change (next isDescribed)
      (next' isDescribed)) :
    Carries placement false change (description >>= next) (description >>= next') := by
  refine .peek id (fun {cursor cursor' value left} meets some ran => ?_)
    (fun {cursor value left} ended ran => ?_) later
  · obtain ⟨token, rest, ahead⟩ := List.exists_cons_of_ne_nil some
    have meets' := (meets.next ahead).1
    have shorter := Nat.le_of_lt (Nat.lt_of_succ_le (Nat.le_of_eq (Cursor.length_next ahead)))
    rw [run_description] at ran ⊢
    rw [meets.kind? ahead]
    split at ran <;> cases ran
    · exact ⟨_, rfl, meets', shorter⟩
    · exact ⟨_, rfl, meets', shorter⟩
    · exact ⟨_, rfl, meets, Nat.le_refl _⟩
  · rw [run_description, Cursor.kind?, ended] at ran
    cases ran
    exact ended

theorem carries_inputDefinition :
    Carries placement false (·.placed placement.place) inputDefinition inputDefinition :=
  carries_described fun _ => .span fun _ => carries_name.bind fun _ =>
    (carries_expect _).begun.bind fun _ => (carries_typeRef maxNesting).begun.bind fun _ =>
      carries_defaultValue.bind fun _ => (carries_directives true maxNesting).bind fun _ =>
        (carries_spanFrom _).bind fun _ => carries_pure _

theorem carries_inputDefinitions (opening closing : Punctuator) :
    Carries placement true (List.map (·.placed placement.place)) (inputDefinitions opening closing)
      (inputDefinitions opening closing) :=
  .accept (carries_itemsUntil carries_inputDefinition _).begun (carries_pure [])

theorem carries_fieldDefinition :
    Carries placement false (·.placed placement.place) fieldDefinition fieldDefinition :=
  carries_described fun _ => .span fun _ => carries_name.bind fun _ =>
    (carries_inputDefinitions _ _).bind fun _ => (carries_expect _).begun.bind fun _ =>
      (carries_typeRef maxNesting).begun.bind fun _ => (carries_directives true maxNesting).bind
        fun _ => (carries_spanFrom _).bind fun _ => carries_pure _

theorem carries_fieldDefinitions :
    Carries placement true (List.map (·.placed placement.place)) fieldDefinitions
      fieldDefinitions :=
  .accept (carries_itemsUntil carries_fieldDefinition _).begun (carries_pure [])

theorem carries_separatedNames (mark : Punctuator) :
    Carries placement false id (separatedNames mark) (separatedNames mark) := by
  have others : Carries placement true id (itemsWhile mark (separated mark))
      (itemsWhile mark (separated mark)) := by
    rw [← List.map_id_fun]
    exact carries_itemsWhile ((carries_expect mark).bind fun _ => carries_name.begun) mark
  have names : Carries placement false id
      (name >>= fun first => itemsWhile mark (separated mark) >>= fun others =>
        pure (first :: others))
      (name >>= fun first => itemsWhile mark (separated mark) >>= fun others =>
        pure (first :: others)) :=
    carries_name.bind fun _ => others.bind fun _ => carries_pure _
  exact .accept names.begun names

theorem carries_implementedInterfaces :
    Carries placement true id implementedInterfaces implementedInterfaces :=
  .word (fun opens => opens.2.1) (carries_separatedNames _).begun (carries_pure [])

theorem carries_enumValue : Carries placement false id enumValue enumValue := by
  refine carries_described fun _ => .span fun _ => carries_name.bind fun value => ?_
  have ends : Carries placement true id (directives true maxNesting >>= fun _ => pure value)
      (directives true maxNesting >>= fun _ => pure value) :=
    (carries_directives true maxNesting).bind fun _ => carries_pure value
  dsimp only [id_eq]
  split
  · exact ((fails_fail _ _).bind).carries
  · exact ends

theorem carries_enumValues : Carries placement true id enumValues enumValues := by
  refine .accept ?_ (carries_pure [])
  rw [← List.map_id_fun]
  exact (carries_itemsUntil carries_enumValue _).begun

/-- What a type consists of with its directives, with their spans elsewhere. -/
theorem carries_typeContent (keyword : String) (keywordSpan : Span) :
    Carries placement true
      (fun read => (read.1.placed placement.place, read.2.map (·.placed placement.place)))
      (typeContent keyword keywordSpan) (typeContent keyword (placement.place keywordSpan)) := by
  have directives := @carries_directives placement true maxNesting
  unfold typeContent
  split
  · exact directives.bind fun _ => carries_pure _
  · exact carries_implementedInterfaces.bind fun _ => directives.bind fun _ =>
      carries_fieldDefinitions.bind fun _ => carries_pure _
  · exact carries_implementedInterfaces.bind fun _ => directives.bind fun _ =>
      carries_fieldDefinitions.bind fun _ => carries_pure _
  · exact directives.bind fun _ => carries_enumValues.bind fun _ => carries_pure _
  · exact directives.bind fun _ => (carries_inputDefinitions _ _).bind fun _ => carries_pure _
  · exact (fails_fail _ _).carries

/-- Reading a type definition carries over. -/
theorem carries_typeDefinition (start : Span) (isExtension : Bool) :
    Carries placement false (·.placed placement.place) (typeDefinition start isExtension)
      (typeDefinition (placement.place start) isExtension) :=
  .span fun _ => carries_name.bind fun _ => carries_name.begun.bind fun _ =>
    (carries_typeContent _ _).bind fun _ => (carries_spanFrom _).bind fun _ => carries_pure _

theorem carries_repeatable : Carries placement true id repeatable repeatable :=
  .word (fun opens => opens.2.2) (carries_pure true) (carries_pure false)

/-- Reading the definition of a directive carries over. -/
theorem carries_directiveDefinition (start : Span) :
    Carries placement false (·.placed placement.place) (directiveDefinition start)
      (directiveDefinition (placement.place start)) :=
  (carries_expectWord _).bind fun _ => (carries_expect _).begun.bind fun _ =>
    carries_name.begun.bind fun _ => (carries_inputDefinitions _ _).bind fun _ =>
      carries_repeatable.bind fun _ => (carries_expectWord _).begun.bind fun _ =>
        (carries_separatedNames _).begun.bind fun _ => (carries_spanFrom _).bind fun _ =>
          carries_pure _

end Grammar

end TraversalQuery
