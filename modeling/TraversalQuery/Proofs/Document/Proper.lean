import TraversalQuery.Proofs.Document.Names
import TraversalQuery.Proofs.Document.Writing
import TraversalQuery.Proofs.Runs

/-!
# What is read can be written

Whatever a document is read from, it can be written: constants hold no variables, `null` is not
forbidden twice in one place, selection sets are not empty, and a field has braces exactly if
something is selected inside it.
-/

namespace TraversalQuery

namespace Grammar

open Reading

variable {fits : Token → Prop}

/-- A value that is a word can be written. -/
theorem isProper_wordLiteral (isConstant : Bool) (text : String) :
    (wordLiteral text).isProper isConstant = true := by
  unfold wordLiteral
  split
  · rfl
  · rfl
  · rfl
  · rename_i other₁ other₂ other₃
    simpa [Literal.isProper] using ⟨other₁, other₂, other₃⟩

/-- A value that is read can be written. -/
theorem proper_literal (isConstant : Bool) (room : Nat) :
    (literal isConstant room).Yields fits fun value => value.isProper isConstant = true := by
  induction room with
  | zero => exact .after keeps_span fun _ => yields_fail _ _
  | succ room ih =>
    unfold literal
    refine .after keeps_kind? fun found => ?_
    split
    · cases isConstant with
      | true => exact .after keeps_span fun place => yields_fail_bind _ _ _
      | false => exact .after keeps_advance fun _ => .after keeps_name fun _ => .pure rfl
    · exact .after keeps_advance fun _ => .pure rfl
    · exact .after keeps_advance fun _ => .pure rfl
    · exact .after keeps_advance fun _ => .pure rfl
    · exact .after keeps_advance fun _ => .pure rfl
    · exact .after keeps_advance fun _ => .pure (isProper_wordLiteral _ _)
    · have item : (listItem (literal isConstant room)).Yields fits
          fun value => value.isProper isConstant = true :=
        .after keeps_atEnd fun ended => .unless (yields_unexpected _) ih
      exact .after keeps_advance fun _ => (yields_itemsUntil item _).bind fun _ each =>
        .pure (Literal.areProper_iff.mpr each)
    · have member : (objectField (literal isConstant room)).Yields fits
          fun field => field.2.isProper isConstant = true :=
        .after keeps_name fun _ => .after (keeps_expect _) fun _ =>
          ih.bind fun _ proper => .pure proper
      exact .after keeps_advance fun _ => (yields_itemsUntil member _).bind fun _ each =>
        .pure (Literal.areProperFields_iff.mpr each)
    · exact yields_unexpected _

/-- A type reference that is read can be written. -/
theorem proper_typeRef (room : Nat) :
    (typeRef room).Yields fits fun type => type.isProper = true := by
  induction room with
  | zero => exact .after keeps_span fun _ => yields_fail _ _
  | succ room ih =>
    unfold typeRef
    refine .after (keeps_accept _) fun opened => ?_
    extract_lets finish
    have finished : ∀ inner : TypeRef, inner.isNonNull = false → inner.isProper = true →
        (finish inner).Yields fits fun type => type.isProper = true := by
      intro inner plain proper
      refine .after (keeps_accept _) fun marked => ?_
      split
      · exact .pure (by simp [TypeRef.isProper, plain, proper])
      · exact .pure proper
    split
    · exact ih.bind fun item proper => .after (keeps_expect _) fun _ =>
        (yields_pure (TypeRef.list item)).bind fun _ same =>
          finished _ (same ▸ rfl) (same ▸ proper)
    · have named : (TypeRef.named <$> name).Yields fits fun type =>
          type.isNonNull = false ∧ type.isProper = true :=
        .map _ keeps_name fun _ _ => ⟨rfl, rfl⟩
      exact named.bind fun _ both => finished _ both.1 both.2

theorem proper_arguments (isConstant : Bool) (room : Nat) :
    (arguments isConstant room).Yields fits
      fun found => found.all (·.value.isProper isConstant) = true := by
  have each : (argument isConstant room).Yields fits
      fun found => found.value.isProper isConstant = true :=
    .after keeps_span fun _ => .after keeps_name fun _ => .after (keeps_expect _) fun _ =>
      (proper_literal _ _).bind fun _ proper => .after (keeps_spanFrom _) fun _ => .pure proper
  refine .after (keeps_accept _) fun opened => ?_
  split
  · exact (yields_itemsUntil each _).imp fun _ => List.all_eq_true.mpr
  · exact .pure rfl

/-- Directives that are read can be written. -/
theorem proper_directives (isConstant : Bool) (room : Nat) :
    (directives isConstant room).Yields fits
      fun found => found.all (·.isProper isConstant) = true := by
  have each : (directive isConstant room).Yields fits
      fun found => found.isProper isConstant = true :=
    .after (keeps_expect _) fun _ => .after keeps_name fun _ =>
      (proper_arguments _ _).bind fun _ proper => .after (keeps_spanFrom _) fun _ => .pure proper
  exact (yields_itemsWhile each _).imp fun _ => List.all_eq_true.mpr

section

variable {inner : Reading Braced}
  (inside : inner.Yields fits fun braced => Selection.isProperSet braced.1 = true)
include inside

theorem proper_field (room : Nat) :
    (field inner room).Yields fits fun found => found.isProper = true := by
  refine .after keeps_span fun start => .after keeps_name fun first => ?_
  refine .after (keeps_accept _) fun aliased => ?_
  extract_lets finish
  have finished : ∀ called, (finish called).Yields fits fun found => found.isProper = true := by
    rintro ⟨alias?, name⟩
    refine (proper_arguments _ _).bind fun arguments properArguments =>
      (proper_directives _ _).bind fun directives properDirectives =>
        .after (keeps_sees _) fun braced => ?_
    extract_lets close
    have closed : ∀ held : List Selection × Option Span, held.2.isSome = !held.1.isEmpty →
        Selection.areProper held.1 = true →
          (close held).Yields fits fun found => found.isProper = true := by
      rintro ⟨selections, braces?⟩ same proper
      refine .after (keeps_spanFrom _) fun _ => .pure ?_
      simp [Selection.isProper, Field.isProper, properArguments, properDirectives, proper, same]
    split
    · refine inside.bind fun ⟨selections, braces⟩ proper => ?_
      have ⟨nonempty, each⟩ := Bool.and_eq_true_iff.mp proper
      exact (yields_pure (selections, some braces)).bind fun held same =>
        closed held (by rw [same]; exact nonempty.symm) (by rw [same]; exact each)
    · exact (yields_pure ([], none)).bind fun held same =>
        closed held (by rw [same]; rfl) (by rw [same]; rfl)
  split
  · exact .after keeps_name fun _ => .after (keeps_pure _) finished
  · exact .after (keeps_pure _) finished

theorem proper_fragmentSelection (room : Nat) :
    (fragmentSelection inner room).Yields fits fun found => found.isProper = true := by
  refine .after (keeps_expect _) fun start => .after keeps_kind? fun found => ?_
  extract_lets named?
  have spread : ∀ name, named? = some name → name ≠ "on" := by
    intro name named
    unfold named? at named
    split at named
    · split at named
      · contradiction
      · rename_i other
        rwa [← Option.some.inj named]
    · contradiction
  generalize named? = called? at spread
  cases called? with
  | some name =>
    refine .after keeps_advance fun _ => (proper_directives _ _).bind fun _ proper =>
      .after (keeps_spanFrom _) fun _ => .pure ?_
    simp [Selection.isProper, spread, proper]
  | none =>
    refine .after keeps_inlineCondition fun _ => (proper_directives _ _).bind fun _ proper =>
      inside.bind fun _ set => .after (keeps_spanFrom _) fun _ => .pure ?_
    rw [Selection.isProper, proper, Bool.true_and]
    exact set

/-- A selection that is read can be written. -/
theorem proper_selection (room : Nat) :
    (selection inner room).Yields fits fun found => found.isProper = true := by
  refine .after keeps_atEnd fun ended => .unless (yields_unexpected _) ?_
  refine .after (keeps_sees _) fun spread => ?_
  split
  · exact proper_fragmentSelection inside room
  · exact proper_field inside room

end

/-- A selection set that is read can be written. -/
theorem proper_selectionSet (room : Nat) :
    (selectionSet room).Yields fits fun braced => Selection.isProperSet braced.1 = true := by
  induction room with
  | zero => exact .after keeps_span fun _ => yields_fail _ _
  | succ room ih =>
    unfold selectionSet
    refine .after (keeps_expect _) fun start =>
      (yields_itemsUntil (proper_selection ih room) _).bind fun selections each =>
        .after (keeps_spanFrom _) fun braces => ?_
    split
    · exact yields_fail _ _
    · rename_i nonempty
      exact .pure (by simp [Selection.isProperSet, nonempty, Selection.areProper_iff.mpr each])

theorem proper_defaultValue :
    defaultValue.Yields fits fun found => found.all (·.isProper true) = true := by
  refine .after (keeps_accept _) fun marked => ?_
  split
  · exact (proper_literal _ _).bind fun _ proper => .pure proper
  · exact .pure rfl

theorem proper_variableDefinitions :
    variableDefinitions.Yields fits fun found => found.all (·.isProper) = true := by
  have each : variableDefinition.Yields fits fun found => found.isProper = true :=
    .after (keeps_expect _) fun _ => .after keeps_name fun _ => .after (keeps_expect _) fun _ =>
      (proper_typeRef _).bind fun _ type => proper_defaultValue.bind fun _ default =>
        .after (keeps_directives _ _) fun _ => .after (keeps_spanFrom _) fun _ =>
          .pure (Bool.and_eq_true_iff.mpr ⟨type, default⟩)
  refine .after (keeps_accept _) fun opened => ?_
  split
  · exact (yields_itemsUntil each _).imp fun _ => List.all_eq_true.mpr
  · exact .pure rfl

theorem proper_anonymousQuery :
    anonymousQuery.Yields fits fun found => found.isProper = true :=
  .after keeps_span fun _ => (proper_selectionSet _).bind fun _ set =>
    .after (keeps_spanFrom _) fun _ => .pure (by simp [Operation.isProper, set])

/-- An operation that is read can be written. -/
theorem proper_operation (kind : OperationKind) :
    (operation kind).Yields fits fun found => found.isProper = true :=
  .after keeps_span fun _ => .after keeps_advance fun _ => .after keeps_name? fun _ =>
    proper_variableDefinitions.bind fun _ declared => (proper_directives _ _).bind
      fun _ directives => (proper_selectionSet _).bind fun _ set =>
        .after (keeps_spanFrom _) fun _ =>
          .pure (by simp [Operation.isProper, declared, directives, set])

/-- A fragment that is read can be written. -/
theorem proper_fragment : fragment.Yields fits fun found => found.isProper = true := by
  refine .after (keeps_expectWord _) fun start => .after keeps_name fun name => ?_
  split
  · exact yields_fail_bind _ _ _
  · rename_i other
    exact .after (keeps_expectWord _) fun _ => .after keeps_name fun _ =>
      (proper_directives _ _).bind fun _ directives => (proper_selectionSet _).bind fun _ set =>
        .after (keeps_spanFrom _) fun _ =>
          .pure (by simp [Fragment.isProper, other, directives, set])

theorem proper_inputDefinition :
    inputDefinition.Yields fits fun found => found.isProper = true :=
  .after keeps_description fun _ => .after keeps_span fun _ => .after keeps_name fun _ =>
    .after (keeps_expect _) fun _ => (proper_typeRef _).bind fun _ type =>
      proper_defaultValue.bind fun _ default => (proper_directives _ _).bind fun _ directives =>
        .after (keeps_spanFrom _) fun _ =>
          .pure (by simp [InputDefinition.isProper, type, default, directives])

theorem proper_inputDefinitions (opening closing : Punctuator) :
    (inputDefinitions opening closing).Yields fits fun found => found.all (·.isProper) = true := by
  refine .after (keeps_accept _) fun opened => ?_
  split
  · exact (yields_itemsUntil proper_inputDefinition _).imp fun _ => List.all_eq_true.mpr
  · exact .pure rfl

theorem proper_fieldDefinitions :
    fieldDefinitions.Yields fits fun found => found.all (·.isProper) = true := by
  have each : fieldDefinition.Yields fits fun found => found.isProper = true :=
    .after keeps_description fun _ => .after keeps_span fun _ => .after keeps_name fun _ =>
      (proper_inputDefinitions _ _).bind fun _ arguments => .after (keeps_expect _) fun _ =>
        (proper_typeRef _).bind fun _ type => (proper_directives _ _).bind fun _ directives =>
          .after (keeps_spanFrom _) fun _ =>
            .pure (by simp [FieldDefinition.isProper, arguments, type, directives])
  refine .after (keeps_accept _) fun opened => ?_
  split
  · exact (yields_itemsUntil each _).imp fun _ => List.all_eq_true.mpr
  · exact .pure rfl

theorem proper_enumValue :
    enumValue.Yields fits fun found => found ∉ ["true", "false", "null"] := by
  refine .after keeps_description fun _ => .after keeps_span fun start =>
    .after keeps_name fun value => ?_
  split
  · exact yields_fail_bind _ _ _
  · rename_i free
    exact .after (keeps_directives _ _) fun _ => .pure (by simpa using free)

theorem proper_enumValues :
    enumValues.Yields fits fun found =>
      (found.all fun value => value ∉ ["true", "false", "null"]) = true := by
  refine .after (keeps_accept _) fun opened => ?_
  split
  · refine (yields_itemsUntil proper_enumValue _).imp fun values each => ?_
    exact List.all_eq_true.mpr fun value member => decide_eq_true (each value member)
  · exact .pure rfl

theorem proper_typeContent (keyword : String) (place : Span) :
    (typeContent keyword place).Yields fits fun found =>
      found.1.isProper = true ∧ found.2.all (·.isProper true) = true := by
  unfold typeContent
  split
  · exact (proper_directives _ _).bind fun _ directives => .pure ⟨rfl, directives⟩
  · exact .after keeps_implementedInterfaces fun _ => (proper_directives _ _).bind
      fun _ directives => proper_fieldDefinitions.bind fun _ fields => .pure ⟨fields, directives⟩
  · exact .after keeps_implementedInterfaces fun _ => (proper_directives _ _).bind
      fun _ directives => proper_fieldDefinitions.bind fun _ fields => .pure ⟨fields, directives⟩
  · exact (proper_directives _ _).bind fun _ directives =>
      proper_enumValues.bind fun _ values => .pure ⟨values, directives⟩
  · exact (proper_directives _ _).bind fun _ directives =>
      (proper_inputDefinitions _ _).bind fun _ fields => .pure ⟨fields, directives⟩
  · exact yields_fail _ _

/-- A type definition that is read can be written. -/
theorem proper_typeDefinition (start : Span) (isExtension : Bool) :
    (typeDefinition start isExtension).Yields fits fun found => found.isProper = true :=
  .after keeps_span fun _ => .after keeps_name fun _ => .after keeps_name fun _ =>
    (proper_typeContent _ _).bind fun _ proper => .after (keeps_spanFrom _) fun _ =>
      .pure (Bool.and_eq_true_iff.mpr proper)

theorem proper_separatedNames (mark : Punctuator) :
    (separatedNames mark).Yields fits fun found => found ≠ [] := by
  have each : (separated mark).Keeps fits := .after (keeps_expect mark) fun _ => keeps_name
  exact .after (keeps_accept _) fun _ => .after keeps_name fun _ =>
    .after (yields_itemsWhile each mark).keeps fun _ => .pure (List.cons_ne_nil _ _)

/-- The definition of a directive that is read can be written. -/
theorem proper_directiveDefinition (start : Span) :
    (directiveDefinition start).Yields fits fun found => found.isProper = true :=
  .after (keeps_expectWord _) fun _ => .after (keeps_expect _) fun _ => .after keeps_name fun _ =>
    (proper_inputDefinitions _ _).bind fun _ arguments => .after keeps_repeatable fun _ =>
      .after (keeps_expectWord _) fun _ => (proper_separatedNames _).bind fun _ some =>
        .after (keeps_spanFrom _) fun _ =>
          .pure (by simp [DirectiveDefinition.isProper, arguments, some])

theorem proper_keywordDefinition (isDescribed : Bool) (start : Span) (keyword : String) :
    (keywordDefinition isDescribed start keyword).Yields fits
      fun found => found.isProper = true := by
  unfold keywordDefinition
  split
  · exact .map _ (proper_operation _) fun _ => id
  · split
    · exact .map _ proper_fragment fun _ => id
    · split
      · exact .map _ (keeps_schemaDefinition _) fun _ _ => rfl
      · split
        · exact .map _ (proper_directiveDefinition _) fun _ => id
        · split
          · exact .after keeps_advance fun _ => .map _ (proper_typeDefinition _ _) fun _ => id
          · exact .map _ (proper_typeDefinition _ _) fun _ => id

/-- A definition that is read can be written. -/
theorem proper_definition : definition.Yields fits fun found => found.isProper = true := by
  refine .after (keeps_sees _) fun braced => ?_
  split
  · exact proper_anonymousQuery.bind fun _ proper => .pure proper
  · refine .after keeps_description fun _ => .after keeps_span fun _ => .after keeps_kind?
      fun found => ?_
    split
    · exact proper_keywordDefinition _ _ _
    · exact yields_unexpected _

/-- A document that is read can be written. -/
theorem proper_document : document.Yields fits fun found => found.isProper = true := by
  refine (yields_itemsToEnd proper_definition).bind fun definitions each => ?_
  split
  · exact .after keeps_span fun place => yields_fail_bind _ _ _
  · rename_i nonempty
    exact .pure (by simpa [Document.isProper, nonempty] using each)

end Grammar

namespace Document

/-- **What is read can be written.** Together with the reading of written documents this says which
trees documents are: those that can be written. -/
theorem isProper_of_parse {source : String} {document : Document}
    (parsed : parse source = .ok document) : document.isProper = true := by
  obtain ⟨tokens, _, parsed⟩ := Except.of_bind_eq_ok parsed
  obtain ⟨⟨found, after⟩, read, parsed⟩ := Except.of_bind_eq_ok parsed
  obtain rfl := Except.ok.inj parsed
  have proper : Grammar.document.Yields (fun _ => True) fun found => found.isProper = true :=
    Grammar.proper_document
  exact (proper _ (fun _ _ => trivial) _ _ read).1

/-- The operations of a document that can be written can be written. -/
theorem isProper_operation {document : Document} (proper : document.isProper = true)
    {operation : Operation} (member : operation ∈ document.operations) :
    operation.isProper = true := by
  obtain ⟨part, isPart, same⟩ := List.mem_filterMap.mp member
  cases part <;> simp at same
  subst same
  exact List.all_eq_true.mp (Bool.and_eq_true_iff.mp proper).2 _ isPart

/-- The fragments of a document that can be written can be written. -/
theorem isProper_fragment {document : Document} (proper : document.isProper = true)
    {fragment : Fragment} (member : fragment ∈ document.fragments) :
    fragment.isProper = true := by
  obtain ⟨part, isPart, same⟩ := List.mem_filterMap.mp member
  cases part <;> simp at same
  subst same
  exact List.all_eq_true.mp (Bool.and_eq_true_iff.mp proper).2 _ isPart

end Document

end TraversalQuery
