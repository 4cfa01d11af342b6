import Mathlib.Data.List.TakeDrop
import Mathlib.Data.List.TakeWhile
import TraversalQuery.Document.Grammar
import TraversalQuery.Proofs.Document.Readings
import TraversalQuery.Proofs.Source.Scanning

/-!
# The names in a document

Every name in a source text starts with a letter or an underscore and goes on with letters, digits
and underscores. The names that fields have in a response are written in the document, so they are
such names too, and none of them is empty or has a slash in it.
-/

namespace TraversalQuery

/-- A text that a document can have as a name. -/
def IsName (text : String) : Prop :=
  ∃ first rest, text.toList = first :: rest ∧ Lexer.startsName first = true ∧
    ∀ c ∈ rest, Lexer.continuesName c = true

/-- A token with a name in it, if it is one for names. -/
def Token.Named (token : Token) : Prop :=
  ∀ text, token.kind = .name text → IsName text

namespace Lexer

/-- A lexeme that is read as a name is one. -/
theorem named_nameLexeme {c : Char} {rest : List Char} (starts : startsName c = true)
    {text : String} (named : (nameLexeme (c :: rest)).kind? = some (.name text)) :
    IsName text := by
  unfold nameLexeme at named
  rw [List.span_eq_takeWhile_dropWhile,
    List.takeWhile_cons_of_pos (continuesName_of_startsName starts)] at named
  obtain rfl := TokenKind.name.inj (Option.some.inj named)
  exact ⟨c, _, String.toList_ofList, starts, fun d member => List.mem_takeWhile_imp member⟩

/-- The names among the tokens of a source text are names. -/
theorem named_tokens {source : String} {found : List Token} (read : tokens source = .ok found) :
    ∀ token ∈ found, token.Named := by
  intro token member text isName
  obtain ⟨_, c, rest, _, formed, _⟩ := (tokens_eq_ok_iff.mp read).exists_lexeme member
  rw [isName] at formed
  cases forms_lexeme formed with
  | name starts named => exact named_nameLexeme starts named

end Lexer

namespace Selection

mutual

/-- The names in the response of a selected field and of those inside it. -/
def keys : Selection → List String
  | .field selected selections _ => selected.responseKey :: keysOf selections
  | .spread .. => []
  | .inline _ _ selections _ _ => keysOf selections

/-- The names in the response of selected fields and of those inside them. -/
def keysOf : List Selection → List String
  | [] => []
  | selection :: rest => selection.keys ++ keysOf rest

end

/-- Selections that give fields names. -/
def AllNamed (selections : List Selection) : Prop :=
  ∀ key ∈ keysOf selections, IsName key

/-- Selections are named if all keys of each of them are names. -/
theorem allNamed_of_forall {selections : List Selection}
    (each : ∀ selection ∈ selections, ∀ key ∈ selection.keys, IsName key) :
    AllNamed selections := by
  induction selections with
  | nil => exact List.forall_mem_nil _
  | cons selection rest ih =>
    obtain ⟨first, others⟩ := List.forall_mem_cons.mp each
    exact List.forall_mem_append.mpr ⟨first, ih others⟩

theorem AllNamed.append {selections others : List Selection} (named : AllNamed selections)
    (named' : AllNamed others) : AllNamed (selections ++ others) := by
  induction selections with
  | nil => exact named'
  | cons selection rest ih =>
    obtain ⟨first, later⟩ := List.forall_mem_append.mp named
    exact List.forall_mem_append.mpr ⟨first, ih later⟩

theorem allNamed_flatMap {α : Type} {inside : α → List Selection} {parts : List α}
    (each : ∀ part ∈ parts, AllNamed (inside part)) : AllNamed (parts.flatMap inside) := by
  induction parts with
  | nil => exact List.forall_mem_nil _
  | cons part rest ih =>
    obtain ⟨first, others⟩ := List.forall_mem_cons.mp each
    exact first.append (ih others)

end Selection

/-- A definition whose selections give fields names. -/
def Definition.Named : Definition → Prop
  | .operation part => Selection.AllNamed part.selections
  | .fragment part => Selection.AllNamed part.selections
  | _ => True

namespace Grammar

open Reading

variable {fits : Token → Prop}

/-- What is read as a name is one. -/
theorem yields_name : name.Yields Token.Named IsName := by
  refine (yields_kind? (fun kind => ∀ text, kind = .name text → IsName text)
    fun found named => named).bind fun found named => ?_
  split
  · exact .after keeps_advance fun _ => .pure (named _ rfl _ rfl)
  · exact yields_unexpected _

theorem keeps_name : name.Keeps fits := by
  refine .after keeps_kind? fun found => ?_
  split
  · exact .after keeps_advance fun _ => keeps_pure _
  · exact yields_unexpected _

theorem keeps_tooDeep {α : Type} : (tooDeep : Reading α).Keeps fits :=
  .after keeps_span fun _ => yields_fail _ _

theorem keeps_literal (isConstant : Bool) (room : Nat) : (literal isConstant room).Keeps fits := by
  induction room with
  | zero => exact keeps_tooDeep
  | succ room ih =>
    unfold literal
    refine .after keeps_kind? fun found => ?_
    split
    · exact .unlessAt keeps_span
        (.after keeps_advance fun _ => .after keeps_name fun _ => keeps_pure _)
    · exact .after keeps_advance fun _ => keeps_pure _
    · exact .after keeps_advance fun _ => keeps_pure _
    · exact .after keeps_advance fun _ => keeps_pure _
    · exact .after keeps_advance fun _ => keeps_pure _
    · exact .after keeps_advance fun _ => keeps_pure _
    · have item : (listItem (literal isConstant room)).Keeps fits := by
        exact .after keeps_atEnd fun ended => .unless (yields_unexpected _) ih
      exact .after keeps_advance fun _ => .after (yields_itemsUntil item _).keeps fun _ =>
        keeps_pure _
    · have member : (objectField (literal isConstant room)).Keeps fits :=
        .after keeps_name fun _ => .after (keeps_expect _) fun _ => .after ih fun _ => keeps_pure _
      exact .after keeps_advance fun _ => .after (yields_itemsUntil member _).keeps fun _ =>
        keeps_pure _
    · exact yields_unexpected _

theorem keeps_typeRef (room : Nat) : (typeRef room).Keeps fits := by
  induction room with
  | zero => exact keeps_tooDeep
  | succ room ih =>
    unfold typeRef
    refine .after (keeps_accept _) fun opened => ?_
    extract_lets finish
    have finished : ∀ inner, (finish inner).Keeps fits := by
      intro inner
      refine .after (keeps_accept _) fun marked => ?_
      split <;> exact keeps_pure _
    split
    · exact .after ih fun _ => .after (keeps_expect _) fun _ => .after (keeps_pure _) finished
    · exact .after (.map _ keeps_name fun _ _ => trivial) finished

theorem keeps_argument (isConstant : Bool) (room : Nat) : (argument isConstant room).Keeps fits :=
  .after keeps_span fun _ => .after keeps_name fun _ => .after (keeps_expect _) fun _ =>
    .after (keeps_literal _ _) fun _ => .after (keeps_spanFrom _) fun _ => keeps_pure _

theorem keeps_arguments (isConstant : Bool) (room : Nat) :
    (arguments isConstant room).Keeps fits := by
  refine .after (keeps_accept _) fun opened => ?_
  split
  · exact (yields_itemsUntil (keeps_argument _ _) _).keeps
  · exact keeps_pure _

theorem keeps_directive (isConstant : Bool) (room : Nat) :
    (directive isConstant room).Keeps fits :=
  .after (keeps_expect _) fun _ => .after keeps_name fun _ => .after (keeps_arguments _ _) fun _ =>
    .after (keeps_spanFrom _) fun _ => keeps_pure _

theorem keeps_directives (isConstant : Bool) (room : Nat) :
    (directives isConstant room).Keeps fits :=
  (yields_itemsWhile (keeps_directive _ _) _).keeps

theorem keeps_inlineCondition : inlineCondition.Keeps fits := by
  refine .after (keeps_seesWord _) fun seen => ?_
  split
  · exact .after keeps_advance fun _ => .after keeps_name fun _ => keeps_pure _
  · exact keeps_pure _

section

variable {inner : Reading Braced}
  (inside : inner.Yields Token.Named fun braced => Selection.AllNamed braced.1)
include inside

/-- What a field is called in the response is its alias or else its name, both read as names. -/
theorem yields_field (room : Nat) :
    (field inner room).Yields Token.Named fun found => ∀ key ∈ found.keys, IsName key := by
  refine .after keeps_span fun start => yields_name.bind fun first firstNamed => ?_
  refine .after (keeps_accept _) fun aliased => ?_
  extract_lets finish
  have finished : ∀ called : Option String × String, IsName (called.1.getD called.2) →
      (finish called).Yields Token.Named fun found => ∀ key ∈ found.keys, IsName key := by
    rintro ⟨alias?, name⟩ named
    refine .after (keeps_arguments _ _) fun arguments => .after (keeps_directives _ _)
      fun directives => .after (keeps_sees _) fun braced => ?_
    extract_lets close
    have closed : ∀ held : List Selection × Option Span, Selection.AllNamed held.1 →
        (close held).Yields Token.Named fun found => ∀ key ∈ found.keys, IsName key := by
      rintro ⟨selections, braces?⟩ allNamed
      exact .after (keeps_spanFrom _) fun _ => .pure (List.forall_mem_cons.mpr ⟨named, allNamed⟩)
    split
    · exact inside.bind fun ⟨selections, braces⟩ allNamed => .bind (.pure allNamed) closed
    · exact .bind (.pure (List.forall_mem_nil _)) closed
  split
  · exact yields_name.bind fun name _ => .bind (.pure firstNamed) finished
  · exact .bind (.pure firstNamed) finished

theorem yields_fragmentSelection (room : Nat) :
    (fragmentSelection inner room).Yields Token.Named
      fun found => ∀ key ∈ found.keys, IsName key := by
  refine .after (keeps_expect _) fun start => .after keeps_kind? fun found => ?_
  extract_lets named?
  cases named? with
  | some name =>
    exact .after keeps_advance fun _ => .after (keeps_directives _ _) fun _ =>
      .after (keeps_spanFrom _) fun _ => .pure (List.forall_mem_nil _)
  | none =>
    exact .after keeps_inlineCondition fun _ => .after (keeps_directives _ _) fun _ =>
      inside.bind fun _ allNamed => .after (keeps_spanFrom _) fun _ => .pure allNamed

/-- The keys of a selection that is read are names. -/
theorem yields_selection (room : Nat) :
    (selection inner room).Yields Token.Named fun found => ∀ key ∈ found.keys, IsName key := by
  refine .after keeps_atEnd fun ended => .unless (yields_unexpected _) ?_
  refine .after (keeps_sees _) fun spread => ?_
  split
  · exact yields_fragmentSelection inside room
  · exact yields_field inside room

end

/-- The keys of selections that are read are names. -/
theorem yields_selectionSet (room : Nat) :
    (selectionSet room).Yields Token.Named fun braced => Selection.AllNamed braced.1 := by
  induction room with
  | zero => exact .after keeps_span fun _ => yields_fail _ _
  | succ room ih =>
    unfold selectionSet
    exact .after (keeps_expect _) fun start =>
      (yields_itemsUntil (yields_selection ih room) _).bind fun selections each =>
        .after (keeps_spanFrom _) fun braces =>
          .unless (yields_fail _ _) (.pure (Selection.allNamed_of_forall each))

theorem keeps_defaultValue : defaultValue.Keeps fits := by
  refine .after (keeps_accept _) fun marked => ?_
  split
  · exact .after (keeps_literal _ _) fun _ => keeps_pure _
  · exact keeps_pure _

theorem keeps_variableDefinition : variableDefinition.Keeps fits :=
  .after (keeps_expect _) fun _ => .after keeps_name fun _ => .after (keeps_expect _) fun _ =>
    .after (keeps_typeRef _) fun _ => .after keeps_defaultValue fun _ =>
      .after (keeps_directives _ _) fun _ => .after (keeps_spanFrom _) fun _ => keeps_pure _

theorem keeps_variableDefinitions : variableDefinitions.Keeps fits := by
  refine .after (keeps_accept _) fun opened => ?_
  split
  · exact (yields_itemsUntil keeps_variableDefinition _).keeps
  · exact keeps_pure _

theorem yields_anonymousQuery :
    anonymousQuery.Yields Token.Named fun found => Selection.AllNamed found.selections :=
  .after keeps_span fun _ => (yields_selectionSet _).bind fun _ allNamed =>
    .after (keeps_spanFrom _) fun _ => .pure allNamed

theorem keeps_name? : name?.Keeps fits := by
  refine .after keeps_kind? fun found => ?_
  split
  · exact .after keeps_advance fun _ => keeps_pure _
  · exact keeps_pure _

/-- The keys of an operation that is read are names. -/
theorem yields_operation (kind : OperationKind) :
    (operation kind).Yields Token.Named fun found => Selection.AllNamed found.selections :=
  .after keeps_span fun _ => .after keeps_advance fun _ => .after keeps_name? fun _ =>
    .after keeps_variableDefinitions fun _ => .after (keeps_directives _ _) fun _ =>
      (yields_selectionSet _).bind fun _ allNamed => .after (keeps_spanFrom _) fun _ =>
        .pure allNamed

/-- The keys of a fragment that is read are names. -/
theorem yields_fragment :
    fragment.Yields Token.Named fun found => Selection.AllNamed found.selections :=
  .after (keeps_expectWord _) fun _ => .after keeps_name fun _ => .unless (yields_fail _ _) <|
    .after (keeps_expectWord _) fun _ => .after keeps_name fun _ =>
      .after (keeps_directives _ _) fun _ => (yields_selectionSet _).bind fun _ allNamed =>
        .after (keeps_spanFrom _) fun _ => .pure allNamed

theorem keeps_description : description.Keeps fits := by
  refine .after keeps_kind? fun found => ?_
  split
  · exact .after keeps_advance fun _ => keeps_pure _
  · exact .after keeps_advance fun _ => keeps_pure _
  · exact keeps_pure _

theorem keeps_rootType : rootType.Keeps fits := by
  refine .after keeps_span fun _ => .after keeps_name fun keyword => ?_
  split
  · exact yields_fail _ _
  · exact .after (keeps_expect _) fun _ => .after keeps_name fun _ => keeps_pure _

theorem keeps_schemaDefinition (start : Span) : (schemaDefinition start).Keeps fits :=
  .after (keeps_expectWord _) fun _ => .after (keeps_directives _ _) fun _ =>
    .after (keeps_expect _) fun _ => .after (yields_itemsUntil keeps_rootType _).keeps fun _ =>
      .after (keeps_spanFrom _) fun _ => keeps_pure _

theorem keeps_inputDefinition : inputDefinition.Keeps fits :=
  .after keeps_description fun _ => .after keeps_span fun _ => .after keeps_name fun _ =>
    .after (keeps_expect _) fun _ => .after (keeps_typeRef _) fun _ =>
      .after keeps_defaultValue fun _ => .after (keeps_directives _ _) fun _ =>
        .after (keeps_spanFrom _) fun _ => keeps_pure _

theorem keeps_inputDefinitions (opening closing : Punctuator) :
    (inputDefinitions opening closing).Keeps fits := by
  refine .after (keeps_accept _) fun opened => ?_
  split
  · exact (yields_itemsUntil keeps_inputDefinition _).keeps
  · exact keeps_pure _

theorem keeps_fieldDefinition : fieldDefinition.Keeps fits :=
  .after keeps_description fun _ => .after keeps_span fun _ => .after keeps_name fun _ =>
    .after (keeps_inputDefinitions _ _) fun _ => .after (keeps_expect _) fun _ =>
      .after (keeps_typeRef _) fun _ => .after (keeps_directives _ _) fun _ =>
        .after (keeps_spanFrom _) fun _ => keeps_pure _

theorem keeps_fieldDefinitions : fieldDefinitions.Keeps fits := by
  refine .after (keeps_accept _) fun opened => ?_
  split
  · exact (yields_itemsUntil keeps_fieldDefinition _).keeps
  · exact keeps_pure _

theorem keeps_separatedNames (mark : Punctuator) : (separatedNames mark).Keeps fits := by
  have each : (separated mark).Keeps fits := .after (keeps_expect mark) fun _ => keeps_name
  exact .after (keeps_accept _) fun _ => .after keeps_name fun _ =>
    .after (yields_itemsWhile each mark).keeps fun _ => keeps_pure _

theorem keeps_implementedInterfaces : implementedInterfaces.Keeps fits := by
  refine .after (keeps_seesWord _) fun seen => ?_
  split
  · exact .after keeps_advance fun _ => keeps_separatedNames _
  · exact keeps_pure _

theorem keeps_enumValue : enumValue.Keeps fits :=
  .after keeps_description fun _ => .after keeps_span fun _ => .after keeps_name fun _ =>
    .unless (yields_fail _ _) (.after (keeps_directives _ _) fun _ => keeps_pure _)

theorem keeps_enumValues : enumValues.Keeps fits := by
  refine .after (keeps_accept _) fun opened => ?_
  split
  · exact (yields_itemsUntil keeps_enumValue _).keeps
  · exact keeps_pure _

theorem keeps_typeContent (keyword : String) (place : Span) :
    (typeContent keyword place).Keeps fits := by
  unfold typeContent
  split
  · exact .after (keeps_directives _ _) fun _ => keeps_pure _
  · exact .after keeps_implementedInterfaces fun _ => .after (keeps_directives _ _) fun _ =>
      .after keeps_fieldDefinitions fun _ => keeps_pure _
  · exact .after keeps_implementedInterfaces fun _ => .after (keeps_directives _ _) fun _ =>
      .after keeps_fieldDefinitions fun _ => keeps_pure _
  · exact .after (keeps_directives _ _) fun _ => .after keeps_enumValues fun _ => keeps_pure _
  · exact .after (keeps_directives _ _) fun _ => .after (keeps_inputDefinitions _ _) fun _ =>
      keeps_pure _
  · exact yields_fail _ _

theorem keeps_typeDefinition (start : Span) (isExtension : Bool) :
    (typeDefinition start isExtension).Keeps fits :=
  .after keeps_span fun _ => .after keeps_name fun _ => .after keeps_name fun _ =>
    .after (keeps_typeContent _ _) fun _ => .after (keeps_spanFrom _) fun _ => keeps_pure _

theorem keeps_repeatable : repeatable.Keeps fits := by
  refine .after (keeps_seesWord _) fun seen => ?_
  split
  · exact .after keeps_advance fun _ => keeps_pure _
  · exact keeps_pure _

theorem keeps_directiveDefinition (start : Span) : (directiveDefinition start).Keeps fits :=
  .after (keeps_expectWord _) fun _ => .after (keeps_expect _) fun _ => .after keeps_name fun _ =>
    .after (keeps_inputDefinitions _ _) fun _ => .after keeps_repeatable fun _ =>
      .after (keeps_expectWord _) fun _ => .after (keeps_separatedNames _) fun _ =>
        .after (keeps_spanFrom _) fun _ => keeps_pure _

/-- A definition of types or directives has no selections. -/
theorem yields_unselected {α : Type} {reading : Reading α} {make : α → Definition}
    (kept : reading.Keeps Token.Named) (plain : ∀ value, (make value).Named) :
    (make <$> reading).Yields Token.Named Definition.Named :=
  .map _ kept fun value _ => plain value

theorem yields_keywordDefinition (isDescribed : Bool) (start : Span) (keyword : String) :
    (keywordDefinition isDescribed start keyword).Yields Token.Named Definition.Named := by
  unfold keywordDefinition
  split
  · exact .map _ (yields_operation _) fun _ => id
  · split
    · exact .map _ yields_fragment fun _ => id
    · split
      · exact yields_unselected (keeps_schemaDefinition _) fun _ => trivial
      · split
        · exact yields_unselected (keeps_directiveDefinition _) fun _ => trivial
        · split
          · exact .after keeps_advance fun _ =>
              yields_unselected (keeps_typeDefinition _ _) fun _ => trivial
          · exact yields_unselected (keeps_typeDefinition _ _) fun _ => trivial

/-- The keys of a definition that is read are names. -/
theorem yields_definition : definition.Yields Token.Named Definition.Named := by
  refine .after (keeps_sees _) fun braced => ?_
  split
  · exact yields_anonymousQuery.bind fun _ allNamed => .pure allNamed
  · refine .after keeps_description fun _ => .after keeps_span fun _ => .after keeps_kind?
      fun found => ?_
    split
    · exact yields_keywordDefinition _ _ _
    · exact yields_unexpected _

/-- The keys of a document that is read are names. -/
theorem yields_document :
    document.Yields Token.Named fun found => ∀ part ∈ found.definitions, part.Named :=
  (yields_itemsToEnd yields_definition).bind fun _ each => .unlessAt keeps_span (.pure each)

end Grammar

namespace Document

/-- **Response names are names.** Whatever a field of a document is called in the response, by an
alias or by its own name, is a name. -/
theorem named_of_parse {source : String} {document : Document}
    (parsed : parse source = .ok document) : ∀ part ∈ document.definitions, part.Named := by
  unfold parse at parsed
  cases lexed : Lexer.tokens source with
  | error fault =>
    rw [lexed] at parsed
    contradiction
  | ok tokens =>
    rw [lexed] at parsed
    change ofTokens tokens source.utf8ByteSize = .ok document at parsed
    unfold ofTokens at parsed
    cases read : Grammar.document.run (.start tokens source.utf8ByteSize) with
    | error fault =>
      rw [read] at parsed
      contradiction
    | ok result =>
      rw [read] at parsed
      cases parsed
      exact (Grammar.yields_document _ (Lexer.named_tokens lexed) _ _ read).1

end Document

end TraversalQuery
