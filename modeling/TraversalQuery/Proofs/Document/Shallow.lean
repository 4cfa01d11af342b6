import TraversalQuery.Proofs.Document.Acceptance
import TraversalQuery.Proofs.Document.Pieces
import TraversalQuery.Proofs.Document.Proper

/-!
# What is read is shallow

In a document that is read, no selection set, value or type reference lies deeper than there are
levels. Since such a document can also be written, what is written of it is read back.
-/

namespace TraversalQuery

/-- No phrase that begins in the tokens nests too deep. -/
def Spelling.Shallow (spelling : Spelling) : Prop :=
  ∀ glyph ∈ spelling, glyph.level ≤ maxNesting

namespace Spelling

variable {α : Type} {glyph : Glyph} {first second : Spelling} {level : Nat}
  {written : α → Spelling} {parts : List α}

@[simp] theorem shallow_nil : Shallow [] :=
  nofun

@[simp] theorem shallow_cons :
    Shallow (glyph :: first) ↔ glyph.level ≤ maxNesting ∧ Shallow first :=
  List.forall_mem_cons

@[simp] theorem shallow_append : Shallow (first ++ second) ↔ Shallow first ∧ Shallow second :=
  List.forall_mem_append

@[simp] theorem shallow_flatMap :
    Shallow (parts.flatMap written) ↔ ∀ part ∈ parts, Shallow (written part) := by
  simp only [Shallow, List.forall_mem_flatMap]

@[simp] theorem level_mark (mark : Punctuator) : (Glyph.mark mark).level = 0 :=
  rfl

@[simp] theorem level_name (text : String) : (Glyph.name text).level = 0 :=
  rfl

theorem shallow_names (names : List String) : Shallow (names.map Glyph.name) := by
  intro glyph member
  obtain ⟨text, _, rfl⟩ := List.mem_map.mp member
  exact Nat.zero_le _

@[simp] theorem shallow_braced :
    Shallow (braced level first) ↔ level ≤ maxNesting ∧ Shallow first := by
  simp [braced]

theorem shallow_listed (each : ∀ part ∈ parts, Shallow (written part)) :
    Shallow (listed written parts) := by
  rw [listed]
  split
  · exact shallow_nil
  · simpa using each

theorem shallow_separated (mark : Punctuator) (names : List String) :
    Shallow (separated mark names) := by
  cases names with
  | nil => exact shallow_nil
  | cons first others => simp [separated]

end Spelling

open Spelling

namespace Grammar

open Reading

variable {fits : Token → Prop}

theorem shallow_wordLiteral {level : Nat} (within : level ≤ maxNesting) (text : String) :
    Shallow ((wordLiteral text).written level) := by
  unfold wordLiteral
  split <;> simpa [Literal.written] using within

/-- A value that is read nests no deeper than there is room for. -/
theorem shallow_literal (isConstant : Bool) {room level : Nat}
    (within : level + room = maxNesting + 1) :
    (literal isConstant room).Yields fits fun value => Shallow (value.written level) := by
  induction room generalizing level with
  | zero => exact .after keeps_span fun _ => yields_fail _ _
  | succ room ih =>
    have here : level ≤ maxNesting := by omega
    have inside : level + 1 + room = maxNesting + 1 := by omega
    unfold literal
    refine .after keeps_kind? fun found => ?_
    split
    · cases isConstant with
      | true => exact .after keeps_span fun place => yields_fail_bind _ _ _
      | false =>
        exact .after keeps_advance fun _ => .after keeps_name fun _ =>
          .pure (by simpa [Literal.written] using here)
    · exact .after keeps_advance fun _ => .pure (by simpa [Literal.written] using here)
    · exact .after keeps_advance fun _ => .pure (by simpa [Literal.written] using here)
    · exact .after keeps_advance fun _ => .pure (by simpa [Literal.written] using here)
    · exact .after keeps_advance fun _ => .pure (by simpa [Literal.written] using here)
    · exact .after keeps_advance fun _ => .pure (shallow_wordLiteral here _)
    · have item : (listItem (literal isConstant room)).Yields fits
          fun value => Shallow (value.written (level + 1)) :=
        .after keeps_atEnd fun ended => .unless (yields_unexpected _) (ih inside)
      exact .after keeps_advance fun _ => (yields_itemsUntil item _).bind fun _ each =>
        .pure (by simpa [Literal.written, Literal.writtenItems_eq, here] using each)
    · have member : (objectField (literal isConstant room)).Yields fits
          fun field => Shallow (field.2.written (level + 1)) :=
        .after keeps_name fun _ => .after (keeps_expect _) fun _ =>
          (ih inside).bind fun _ shallow => .pure shallow
      exact .after keeps_advance fun _ => (yields_itemsUntil member _).bind fun _ each =>
        .pure (by simpa [Literal.written, Literal.writtenFields_eq, here] using each)
    · exact yields_unexpected _

/-- A type reference that is read nests no deeper than there is room for. -/
theorem shallow_typeRef {room level : Nat} (within : level + room = maxNesting + 1) :
    (typeRef room).Yields fits fun type => Shallow (type.written level) := by
  induction room generalizing level with
  | zero => exact .after keeps_span fun _ => yields_fail _ _
  | succ room ih =>
    have here : level ≤ maxNesting := by omega
    have inside : level + 1 + room = maxNesting + 1 := by omega
    have core : (nullableRef room).Yields fits fun type => Shallow (type.written level) := by
      refine .after (keeps_accept _) fun opened => ?_
      split
      · exact (ih inside).bind fun _ shallow => .after (keeps_expect _) fun _ =>
          .pure (by simpa [TypeRef.written, here] using shallow)
      · exact .map _ keeps_name fun _ _ => by simpa [TypeRef.written] using here
    rw [typeRef_eq]
    refine core.bind fun _ shallow => .after (keeps_accept _) fun marked => ?_
    split
    · exact .pure (by simpa [TypeRef.written] using shallow)
    · exact .pure shallow

section

variable {room level : Nat} (within : level + room = maxNesting + 1)
include within

theorem shallow_arguments (isConstant : Bool) :
    (arguments isConstant room).Yields fits
      fun found => ∀ part ∈ found, Shallow (part.written level) := by
  have each : (argument isConstant room).Yields fits fun found => Shallow (found.written level) :=
    .after keeps_span fun _ => .after keeps_name fun _ => .after (keeps_expect _) fun _ =>
      (shallow_literal _ within).bind fun _ shallow => .after (keeps_spanFrom _) fun _ =>
        .pure (by simpa [Argument.written] using shallow)
  refine .after (keeps_accept _) fun opened => ?_
  split
  · exact yields_itemsUntil each _
  · exact .pure nofun

theorem shallow_directives (isConstant : Bool) :
    (directives isConstant room).Yields fits
      fun found => ∀ part ∈ found, Shallow (part.written level) := by
  have each : (directive isConstant room).Yields fits
      fun found => Shallow (found.written level) :=
    .after (keeps_expect _) fun _ => .after keeps_name fun _ =>
      (shallow_arguments within _).bind fun _ shallow => .after (keeps_spanFrom _) fun _ =>
        .pure (by simpa [Directive.written] using shallow_listed shallow)
  exact yields_itemsWhile each _

variable {set : Reading Braced}
  (sets : set.Yields fits fun braced => Shallow (Selection.writtenSet level braced.1))
include sets

theorem shallow_field :
    (field set room).Yields fits fun found => Shallow (found.written level) := by
  have called : calling.Keeps fits := by
    refine .after keeps_name fun _ => .after (keeps_accept _) fun aliased => ?_
    split
    · exact .after keeps_name fun _ => keeps_pure _
    · exact keeps_pure _
  have inner : (selectedInside set).Yields fits fun held =>
      Shallow (if held.1.isEmpty then [] else Selection.writtenSet level held.1) := by
    refine .after (keeps_sees _) fun braced => ?_
    split
    · refine sets.bind fun found shallow => .pure ?_
      split
      · exact shallow_nil
      · exact shallow
    · exact .pure shallow_nil
  rw [field_eq]
  refine .after keeps_span fun _ => .after called fun name => (shallow_arguments within _).bind
    fun _ arguments => (shallow_directives within _).bind fun _ directives =>
      inner.bind fun _ held => .after (keeps_spanFrom _) fun _ => .pure ?_
  rw [Selection.written, Field.written]
  simp only [shallow_append, shallow_cons, shallow_flatMap]
  exact ⟨⟨by cases name.1 <;> simp, Nat.zero_le _, shallow_listed arguments, directives⟩, held⟩

theorem shallow_fragmentSelection :
    (fragmentSelection set room).Yields fits fun found => Shallow (found.written level) := by
  have looks : spreadName?.Keeps fits := by
    refine .after keeps_kind? fun kind => ?_
    split
    · exact keeps_pure _
    · exact keeps_pure _
  rw [fragmentSelection_eq]
  refine .after (keeps_expect _) fun start => .after looks fun named? => ?_
  cases named? with
  | some name =>
    refine .after keeps_advance fun _ => (shallow_directives within _).bind fun _ directives =>
      .after (keeps_spanFrom _) fun _ => .pure ?_
    simpa [Selection.written] using directives
  | none =>
    refine .after keeps_inlineCondition fun condition? => (shallow_directives within _).bind
      fun _ directives => sets.bind fun _ set => .after (keeps_spanFrom _) fun _ => .pure ?_
    rw [Selection.written]
    simp only [shallow_append, shallow_cons, shallow_flatMap]
    exact ⟨Nat.zero_le _, by cases condition? <;> simp, directives, set⟩

theorem shallow_selection :
    (selection set room).Yields fits fun found => Shallow (found.written level) := by
  refine .after keeps_atEnd fun ended => .unless (yields_unexpected _) ?_
  refine .after (keeps_sees _) fun spread => ?_
  split
  · exact shallow_fragmentSelection within sets
  · exact shallow_field within sets

end

/-- A selection set that is read nests no deeper than there is room for. -/
theorem shallow_selectionSet {room level : Nat} (within : level + room = maxNesting + 1) :
    (selectionSet room).Yields fits fun braced =>
      Shallow (Selection.writtenSet level braced.1) := by
  induction room generalizing level with
  | zero => exact .after keeps_span fun _ => yields_fail _ _
  | succ room ih =>
    have here : level ≤ maxNesting := by omega
    have inside : level + 1 + room = maxNesting + 1 := by omega
    refine .after (keeps_expect _) fun start =>
      (yields_itemsUntil (shallow_selection inside (ih inside)) _).bind fun selections each =>
        .after (keeps_spanFrom _) fun braces => ?_
    split
    · exact yields_fail_bind _ _ _
    · exact .pure (by simpa [Selection.writtenSet, Selection.writtenAll_eq, here] using each)

/-! ### Definitions -/

theorem shallow_defaultValue :
    defaultValue.Yields fits fun found => Shallow (writtenDefault found) := by
  refine .after (keeps_accept _) fun marked => ?_
  split
  · exact (shallow_literal _ top_level).bind fun _ shallow =>
      .pure (by simpa [writtenDefault] using shallow)
  · exact .pure shallow_nil

theorem shallow_variableDefinitions :
    variableDefinitions.Yields fits fun found => ∀ part ∈ found, Shallow part.written := by
  have each : variableDefinition.Yields fits fun found => Shallow found.written :=
    .after (keeps_expect _) fun _ => .after keeps_name fun _ => .after (keeps_expect _) fun _ =>
      (shallow_typeRef top_level).bind fun _ type => shallow_defaultValue.bind fun _ default =>
        .after (keeps_directives _ _) fun _ => .after (keeps_spanFrom _) fun _ =>
          .pure (by simp [VariableDefinition.written, type, default])
  refine .after (keeps_accept _) fun opened => ?_
  split
  · exact yields_itemsUntil each _
  · exact .pure nofun

theorem shallow_anonymousQuery : anonymousQuery.Yields fits fun found => Shallow found.written :=
  .after keeps_span fun _ => (shallow_selectionSet top_level).bind fun _ set =>
    .after (keeps_spanFrom _) fun _ => .pure (by simp [Operation.written, listed, set])

theorem shallow_operation (kind : OperationKind) :
    (operation kind).Yields fits fun found => Shallow found.written :=
  .after keeps_span fun _ => .after keeps_advance fun _ => .after keeps_name? fun _ =>
    shallow_variableDefinitions.bind fun _ declared => (shallow_directives top_level _).bind
      fun _ directives => (shallow_selectionSet top_level).bind fun _ set =>
        .after (keeps_spanFrom _) fun _ => .pure (by
          simpa [Operation.written, shallow_listed declared, shallow_names, set] using directives)

theorem shallow_fragment : fragment.Yields fits fun found => Shallow found.written := by
  refine .after (keeps_expectWord _) fun start => .after keeps_name fun name => ?_
  split
  · exact yields_fail_bind _ _ _
  · exact .after (keeps_expectWord _) fun _ => .after keeps_name fun _ =>
      (shallow_directives top_level _).bind fun _ directives =>
        (shallow_selectionSet top_level).bind fun _ set => .after (keeps_spanFrom _) fun _ =>
          .pure (by simpa [Fragment.written, set] using directives)

theorem shallow_inputDefinition : inputDefinition.Yields fits fun found => Shallow found.written :=
  .after keeps_description fun _ => .after keeps_span fun _ => .after keeps_name fun _ =>
    .after (keeps_expect _) fun _ => (shallow_typeRef top_level).bind fun _ type =>
      shallow_defaultValue.bind fun _ default => (shallow_directives top_level _).bind
        fun _ directives => .after (keeps_spanFrom _) fun _ =>
          .pure (by simpa [InputDefinition.written, type, default] using directives)

theorem shallow_inputDefinitions (opening closing : Punctuator) :
    (inputDefinitions opening closing).Yields fits
      fun found => ∀ part ∈ found, Shallow part.written := by
  refine .after (keeps_accept _) fun opened => ?_
  split
  · exact yields_itemsUntil shallow_inputDefinition _
  · exact .pure nofun

theorem shallow_fieldDefinitions :
    fieldDefinitions.Yields fits fun found => ∀ part ∈ found, Shallow part.written := by
  have each : fieldDefinition.Yields fits fun found => Shallow found.written :=
    .after keeps_description fun _ => .after keeps_span fun _ => .after keeps_name fun _ =>
      (shallow_inputDefinitions _ _).bind fun _ arguments => .after (keeps_expect _) fun _ =>
        (shallow_typeRef top_level).bind fun _ type => (shallow_directives top_level _).bind
          fun _ directives => .after (keeps_spanFrom _) fun _ => .pure (by
            simpa [FieldDefinition.written, shallow_listed arguments, type] using directives)
  refine .after (keeps_accept _) fun opened => ?_
  split
  · exact yields_itemsUntil each _
  · exact .pure nofun

theorem shallow_writtenInterfaces (interfaces : List String) :
    Shallow (TypeContent.writtenInterfaces interfaces) := by
  rw [TypeContent.writtenInterfaces]
  split
  · exact shallow_nil
  · simp [shallow_separated]

theorem shallow_typeContent (keyword : String) (place : Span) :
    (typeContent keyword place).Yields fits fun found => Shallow (found.1.written found.2) := by
  have directives : (directives true maxNesting).Yields fits
      fun found => ∀ part ∈ found, Shallow (part.written 1) :=
    shallow_directives top_level true
  unfold typeContent
  split
  · exact directives.bind fun _ given => .pure (by simpa [TypeContent.written] using given)
  · refine .after keeps_implementedInterfaces fun _ => directives.bind fun _ given =>
      shallow_fieldDefinitions.bind fun _ fields => .pure ?_
    simpa [TypeContent.written, shallow_writtenInterfaces] using ⟨given, fields⟩
  · refine .after keeps_implementedInterfaces fun _ => directives.bind fun _ given =>
      shallow_fieldDefinitions.bind fun _ fields => .pure ?_
    simpa [TypeContent.written, shallow_writtenInterfaces] using ⟨given, fields⟩
  · refine directives.bind fun _ given => .after keeps_enumValues fun _ => .pure ?_
    simpa [TypeContent.written, shallow_names] using given
  · refine directives.bind fun _ given => (shallow_inputDefinitions _ _).bind fun _ fields =>
      .pure ?_
    simpa [TypeContent.written] using ⟨given, fields⟩
  · exact yields_fail _ _

theorem shallow_typeDefinition (start : Span) (isExtension : Bool) :
    (typeDefinition start isExtension).Yields fits fun found => Shallow found.written :=
  .after keeps_span fun _ => .after keeps_name fun _ => .after keeps_name fun _ =>
    (shallow_typeContent _ _).bind fun _ content => .after (keeps_spanFrom _) fun _ =>
      .pure (by cases isExtension <;> simpa [TypeDefinition.written] using content)

theorem shallow_directiveDefinition (start : Span) :
    (directiveDefinition start).Yields fits fun found => Shallow found.written :=
  .after (keeps_expectWord _) fun _ => .after (keeps_expect _) fun _ => .after keeps_name fun _ =>
    (shallow_inputDefinitions _ _).bind fun _ arguments => .after keeps_repeatable
      fun isRepeatable => .after (keeps_expectWord _) fun _ => .after (keeps_separatedNames _)
        fun _ => .after (keeps_spanFrom _) fun _ => .pure (by
          cases isRepeatable <;>
            simp [DirectiveDefinition.written, shallow_listed arguments, shallow_separated])

theorem shallow_schema (schema : SchemaDefinition) : Shallow schema.written := by
  simp [SchemaDefinition.written]

theorem shallow_keywordDefinition (isDescribed : Bool) (start : Span) (keyword : String) :
    (keywordDefinition isDescribed start keyword).Yields fits
      fun found => Shallow found.written := by
  unfold keywordDefinition
  split
  · exact .map _ (shallow_operation _) fun _ => id
  · split
    · exact .map _ shallow_fragment fun _ => id
    · split
      · exact .map _ (keeps_schemaDefinition _) fun schema _ => shallow_schema schema
      · split
        · exact .map _ (shallow_directiveDefinition _) fun _ => id
        · split
          · exact .after keeps_advance fun _ => .map _ (shallow_typeDefinition _ _) fun _ => id
          · exact .map _ (shallow_typeDefinition _ _) fun _ => id

/-- A definition that is read nests no deeper than there are levels. -/
theorem shallow_definition : definition.Yields fits fun found => Shallow found.written := by
  refine .after (keeps_sees _) fun braced => ?_
  split
  · exact shallow_anonymousQuery.bind fun _ shallow => .pure shallow
  · refine .after keeps_description fun _ => .after keeps_span fun _ => .after keeps_kind?
      fun found => ?_
    split
    · exact shallow_keywordDefinition _ _ _
    · exact yields_unexpected _

/-- A document that is read nests no deeper than there are levels, whatever comes before it. -/
theorem shallow_document : document.Yields fits fun found => Shallow found.written := by
  refine (yields_itemsToEnd shallow_definition).bind fun definitions each => ?_
  split
  · exact .after keeps_span fun place => yields_fail_bind _ _ _
  · exact .pure (shallow_flatMap.mpr each)

end Grammar

namespace Document

variable {tokens : List Token} {length : Nat} {document : Document}

/-- What documents yield whatever the tokens are, a document has that is read from tokens. -/
theorem of_ofTokens {good : Document → Prop}
    (yields : Grammar.document.Yields (fun _ => True) good)
    (read : ofTokens tokens length = .ok document) : good document := by
  obtain ⟨⟨found, after⟩, ran, same⟩ := Except.of_bind_eq_ok read
  obtain rfl := Except.ok.inj same
  exact (yields _ (fun _ _ => trivial) _ _ ran).1

/-- A document that is read from tokens nests no deeper than there are levels. -/
theorem shallow_of_ofTokens (read : ofTokens tokens length = .ok document) :
    Shallow document.written :=
  of_ofTokens Grammar.shallow_document read

/-- What is written of a document that is read is read back, up to the places in it. -/
theorem ofTokens_of_ofTokens (read : ofTokens tokens length = .ok document)
    {others : List Token} (size : Nat)
    (spelled : others.map (·.kind) = document.written.map Glyph.kind) :
    (ofTokens others size).map bare = .ok document.bare := by
  have shallow := shallow_of_ofTokens read
  obtain ⟨spells, back⟩ := spells_zip spelled
  have again := Grammar.reads_document (of_ofTokens Grammar.proper_document read) _ []
    (.start others size) spells (by rw [back, List.append_nil]; rfl) rfl
  have none : (others.zip (document.written.map Glyph.level)).find? Reading.isTooDeep = none := by
    rw [List.find?_eq_none]
    rintro ⟨token, level⟩ member
    obtain ⟨glyph, isGlyph, rfl⟩ := List.mem_map.mp (List.of_mem_zip member).2
    simpa [Reading.isTooDeep] using shallow glyph isGlyph
  rw [none] at again
  obtain ⟨value, after, ran, same, _⟩ := again
  rw [ofTokens, ran]
  exact congrArg Except.ok same

end Document

end TraversalQuery
