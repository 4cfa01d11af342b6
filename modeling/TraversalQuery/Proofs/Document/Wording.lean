import Mathlib.Computability.Language
import Mathlib.Order.ConditionallyCompleteLattice.Basic
import Mathlib.Order.CompletePartialOrder
import TraversalQuery.Proofs.Document.Writing

/-!
# Wordings

The tokens that a phrase may consist of, as a language: for every part of a document, the sequences
of tokens that write it. Where a part has a span, it is that of these tokens: from the start of the
first to the end of the last. What is written and means nothing belongs to the wording: descriptions
before a definition, the directives of variables, values and schemas, a mark before the first of
some names, and marks around nothing.
-/

namespace TraversalQuery

namespace Wording

/-- A token of a kind, wherever it stands. -/
def token (kind : TokenKind) : Language Token :=
  {tokens | ∃ place, tokens = [⟨kind, place⟩]}

/-- A mark. -/
def mark (mark : Punctuator) : Language Token :=
  token (.mark mark)

/-- A name or a keyword. -/
def word (text : String) : Language Token :=
  token (.name text)

/-- No tokens, where a condition holds. -/
def nothing (condition : Prop) : Language Token :=
  {tokens | condition ∧ tokens = []}

/-- Parts one after another between two marks. The marks may be missing if there are no parts. -/
def listed (opening closing : Punctuator) (parts : List (Language Token)) : Language Token :=
  nothing (parts = []) + mark opening * (parts.prod * mark closing)

/-- Names with a mark between neighbours, and perhaps one before the first. -/
def separated (separator : Punctuator) : List String → Language Token
  | [] => 0
  | first :: others => (1 + mark separator) * word first *
      (others.map fun other => mark separator * word other).prod

/-- The tokens of a phrase whose span is the given one: it runs from the start of the first token to
the end of the last. -/
def covering (place : Span) (phrase : Language Token) : Language Token :=
  {tokens | tokens ∈ phrase ∧ ∃ first ∈ tokens.head?, ∃ last ∈ tokens.getLast?,
    place = ⟨first.span.start, last.span.stop⟩}

/-- A description, if there is one. -/
def description : Bool → Language Token
  | true => ⨆ text, token (.string text) + token (.blockString text)
  | false => 1

/-- A phrase that may have a description before it. -/
def described (phrase : Language Token) : Language Token :=
  (⨆ isDescribed, description isDescribed) * phrase

end Wording

open Wording

namespace Literal

mutual

/-- The tokens of a value. -/
def wording : Literal → Language Token
  | .reference name => mark .dollar * word name
  | .int value => token (.int value)
  | .float value => token (.float value)
  | .string text => token (.string text) + token (.blockString text)
  | .bool value => word (if value then "true" else "false")
  | .null => word "null"
  | .enumValue value => word value
  | .list items => mark .leftBracket * (wordingOfItems items * mark .rightBracket)
  | .object fields => mark .leftBrace * (wordingOfFields fields * mark .rightBrace)

/-- The tokens of the items of a list. -/
def wordingOfItems : List Literal → Language Token
  | [] => 1
  | item :: rest => item.wording * wordingOfItems rest

/-- The tokens of the fields of an object. -/
def wordingOfFields : List (String × Literal) → Language Token
  | [] => 1
  | (field, value) :: rest => word field * mark .colon * value.wording * wordingOfFields rest

end

theorem wordingOfItems_eq (items : List Literal) :
    wordingOfItems items = (items.map wording).prod := by
  induction items with
  | nil => rfl
  | cons item rest ih => rw [wordingOfItems, ih, List.map_cons, List.prod_cons]

/-- The tokens of a field of an object. -/
def wordingOfField (field : String × Literal) : Language Token :=
  word field.1 * mark .colon * field.2.wording

theorem wordingOfFields_eq (fields : List (String × Literal)) :
    wordingOfFields fields = (fields.map wordingOfField).prod := by
  induction fields with
  | nil => rfl
  | cons field rest ih => rw [wordingOfFields, ih, List.map_cons, List.prod_cons, wordingOfField]

end Literal

/-- The tokens of a type reference. -/
def TypeRef.wording : TypeRef → Language Token
  | .named text => word text
  | .list item => mark .leftBracket * item.wording * mark .rightBracket
  | .nonNull inner => inner.wording * mark .bang

/-- The tokens of an argument. -/
def Argument.wording (argument : Argument) : Language Token :=
  covering argument.span (word argument.name * mark .colon * argument.value.wording)

/-- The tokens of a directive. -/
def Directive.wording (directive : Directive) : Language Token :=
  covering directive.span (mark .atSign * word directive.name *
    listed .leftParen .rightParen (directive.arguments.map Argument.wording))

namespace Wording

/-- Directives one after another. -/
def directives (directives : List Directive) : Language Token :=
  (directives.map Directive.wording).prod

/-- Directives that mean nothing. -/
def anyDirectives : Language Token :=
  ⨆ meaningless, directives meaningless

/-- A default, if there is one. -/
def byDefault (default? : Option Literal) : Language Token :=
  (default?.map fun value => mark .equals * value.wording).getD 1

/-- What a field is selected as. -/
def called (called : Option String × String) : Language Token :=
  (called.1.map fun key => word key * mark .colon).getD 1 * word called.2

/-- The type condition of an inline fragment, if it has one. -/
def condition (condition? : Option String) : Language Token :=
  (condition?.map fun condition => word "on" * word condition).getD 1

end Wording

namespace Selection

mutual

/-- The tokens of a selection. -/
def wording : Selection → Language Token
  | .field selected selections braces? =>
    covering selected.span (called (selected.alias?, selected.name) *
      listed .leftParen .rightParen (selected.arguments.map Argument.wording) *
        Wording.directives selected.directives *
          match braces? with
          | none => nothing (selections = [])
          | some braces => covering braces
              (mark .leftBrace * (wordingOfAll selections * mark .rightBrace)))
  | .spread fragment directives span =>
    covering span (mark .spread * word fragment * Wording.directives directives)
  | .inline condition? directives selections braces span =>
    covering span (mark .spread * condition condition? * Wording.directives directives *
      covering braces (mark .leftBrace * (wordingOfAll selections * mark .rightBrace)))

/-- The tokens of selections one after another. -/
def wordingOfAll : List Selection → Language Token
  | [] => 1
  | selection :: rest => selection.wording * wordingOfAll rest

end

theorem wordingOfAll_eq (selections : List Selection) :
    wordingOfAll selections = (selections.map wording).prod := by
  induction selections with
  | nil => rfl
  | cons selection rest ih => rw [wordingOfAll, ih, List.map_cons, List.prod_cons]

/-- The tokens of a selection set. -/
def wordingOfSet (selections : List Selection) (braces : Span) : Language Token :=
  covering braces (mark .leftBrace * (wordingOfAll selections * mark .rightBrace))

end Selection

/-- The tokens of a variable of an operation. Directives on it mean nothing. -/
def VariableDefinition.wording (defined : VariableDefinition) : Language Token :=
  covering defined.span (mark .dollar * word defined.name * mark .colon * defined.type.wording *
    byDefault defined.default? * anyDirectives)

/-- The tokens of an operation. A query may be no more than its selection set. -/
def Operation.wording (operation : Operation) : Language Token :=
  covering operation.span
    ((nothing (operation.kind = .query ∧ operation.name? = none ∧
          operation.variableDefinitions = [] ∧ operation.directives = []) +
        word operation.kind.keyword * (operation.name?.map word).getD 1 *
          listed .leftParen .rightParen
            (operation.variableDefinitions.map VariableDefinition.wording) *
          Wording.directives operation.directives) *
      Selection.wordingOfSet operation.selections operation.braces)

/-- The tokens of a fragment. -/
def Fragment.wording (fragment : Fragment) : Language Token :=
  covering fragment.span (word "fragment" * word fragment.name * word "on" *
    word fragment.condition * Wording.directives fragment.directives *
      Selection.wordingOfSet fragment.selections fragment.braces)

namespace Wording

/-- A root type of a schema. -/
def root (root : OperationKind × String) : Language Token :=
  word root.1.keyword * mark .colon * word root.2

end Wording

/-- The tokens of a schema definition. Directives on it mean nothing. -/
def SchemaDefinition.wording (schema : SchemaDefinition) : Language Token :=
  covering schema.span (word "schema" * anyDirectives * mark .leftBrace *
    ((schema.roots.map root).prod * mark .rightBrace))

/-- The tokens of an argument definition or of a field of an input type. -/
def InputDefinition.wording (input : InputDefinition) : Language Token :=
  described (covering input.span (word input.name * mark .colon * input.type.wording *
    byDefault input.default? * Wording.directives input.directives))

/-- The tokens of an output field. -/
def FieldDefinition.wording (field : FieldDefinition) : Language Token :=
  described (covering field.span (word field.name *
    listed .leftParen .rightParen (field.arguments.map InputDefinition.wording) * mark .colon *
      field.type.wording * Wording.directives field.directives))

namespace Wording

/-- The interfaces that a type implements. -/
def interfaces (interfaces : List String) : Language Token :=
  nothing (interfaces = []) + word "implements" * separated .amp interfaces

/-- A value of an enum. Directives on it mean nothing. -/
def enumValue (value : String) : Language Token :=
  described (word value * anyDirectives)

end Wording

/-- The tokens of what a type consists of, with its directives. -/
def TypeContent.wording (given : List Directive) : TypeContent → Language Token
  | .scalar => directives given
  | .object implemented fields => interfaces implemented * directives given *
      listed .leftBrace .rightBrace (fields.map FieldDefinition.wording)
  | .interface implemented fields => interfaces implemented * directives given *
      listed .leftBrace .rightBrace (fields.map FieldDefinition.wording)
  | .enum values => directives given * listed .leftBrace .rightBrace (values.map enumValue)
  | .input fields =>
    directives given * listed .leftBrace .rightBrace (fields.map InputDefinition.wording)

/-- The tokens of a type definition or extension. -/
def TypeDefinition.wording (type : TypeDefinition) : Language Token :=
  covering type.span ((if type.isExtension then word "extend" else 1) *
    word type.content.keyword * word type.name * type.content.wording type.directives)

/-- The tokens of a directive definition. -/
def DirectiveDefinition.wording (directive : DirectiveDefinition) : Language Token :=
  covering directive.span (word "directive" * mark .atSign * word directive.name *
    listed .leftParen .rightParen (directive.arguments.map InputDefinition.wording) *
      (if directive.isRepeatable then word "repeatable" else 1) * word "on" *
        separated .pipe directive.locations)

/-- The tokens of a definition. The definitions of schemas may have descriptions before them, which
are outside their spans. -/
def Definition.wording : Definition → Language Token
  | .operation part => part.wording
  | .fragment part => part.wording
  | .schema part => described part.wording
  | .type part => described part.wording
  | .directive part => described part.wording

/-- The tokens of a document. -/
def Document.wording (document : Document) : Language Token :=
  (document.definitions.map Definition.wording).prod

end TraversalQuery
