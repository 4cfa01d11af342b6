import TraversalQuery.Document.Basic
import TraversalQuery.Document.Cursor
import TraversalQuery.Source.Lexer

/-!
# The grammar of documents

Each function reads one kind of phrase. Phrases that nest in one another (selection sets, values and
type references) take the number of levels they may still open; the levels of all three count
together, and a phrase that finds none left is a syntax error at the token it stands on.

A document is read by `Document.parse`.
-/

namespace TraversalQuery

namespace Grammar

open Reading

/-- The phrase nests too deep. -/
def tooDeep {α : Type} : Reading α := do
  fail .nestsTooDeep (← span)

/-- A field of an object value: a name, a colon and a value. -/
def objectField (value : Reading Literal) : Reading (String × Literal) := do
  let name ← name
  let _ ← expect .colon
  return (name, ← value)

/-- An item of a list value. -/
def listItem (value : Reading Literal) : Reading Literal := do
  if ← atEnd then unexpected (.mark .rightBracket)
  value

/-- The literal that a name stands for by itself. -/
def wordLiteral : String → Literal
  | "true" => .bool true
  | "false" => .bool false
  | "null" => .null
  | name => .enumValue name

/-- A value. Where `isConstant`, it holds no variables. -/
def literal (isConstant : Bool) : Nat → Reading Literal
  | 0 => tooDeep
  | room + 1 => do
    match ← kind? with
    | some (.mark .dollar) =>
      if isConstant then fail .variableNotAllowed (← span)
      advance
      return .reference (← name)
    | some (.int value) =>
      advance
      return .int value
    | some (.float value) =>
      advance
      return .float value
    | some (.string text) =>
      advance
      return .string text
    | some (.blockString text) =>
      advance
      return .string text
    | some (.name text) =>
      advance
      return wordLiteral text
    | some (.mark .leftBracket) =>
      advance
      return .list (← itemsUntil .rightBracket (listItem (literal isConstant room)))
    | some (.mark .leftBrace) =>
      advance
      return .object (← itemsUntil .rightBrace (objectField (literal isConstant room)))
    | _ => unexpected .value

/-- A type reference. -/
def typeRef : Nat → Reading TypeRef
  | 0 => tooDeep
  | room + 1 => do
    let inner ←
      if ← accept .leftBracket then
        let item ← typeRef room
        let _ ← expect .rightBracket
        pure (TypeRef.list item)
      else TypeRef.named <$> name
    if ← accept .bang then return .nonNull inner
    return inner

/-- One argument. -/
def argument (isConstant : Bool) (room : Nat) : Reading Argument := do
  let start ← span
  let name ← name
  let _ ← expect .colon
  let value ← literal isConstant room
  return ⟨name, value, ← spanFrom start⟩

/-- Arguments in parentheses, or none. -/
def arguments (isConstant : Bool) (room : Nat) : Reading (List Argument) := do
  if ← accept .leftParen then itemsUntil .rightParen (argument isConstant room)
  else return []

/-- One directive. -/
def directive (isConstant : Bool) (room : Nat) : Reading Directive := do
  let start ← expect .atSign
  let name ← name
  let arguments ← arguments isConstant room
  return ⟨name, arguments, ← spanFrom start⟩

/-- The directives at this place. -/
def directives (isConstant : Bool) (room : Nat) : Reading (List Directive) :=
  itemsWhile .atSign (directive isConstant room)

/-- Selections with the span of the braces around them. -/
abbrev Braced := List Selection × Span

/-- A selected field, given how to read the selections inside it. -/
def field (inner : Reading Braced) (room : Nat) : Reading Selection := do
  let start ← span
  let first ← name
  let (alias?, name) ←
    if ← accept .colon then pure (some first, ← name) else pure (none, first)
  let arguments ← arguments false room
  let directives ← directives false room
  let (selections, braces?) ←
    if ← sees .leftBrace then
      let (selections, braces) ← inner
      pure (selections, some braces)
    else pure ([], none)
  return .field ⟨alias?, name, arguments, directives, ← spanFrom start⟩ selections braces?

/-- The type condition of an inline fragment, if it has one. -/
def inlineCondition : Reading (Option String) := do
  if ← seesWord "on" then
    advance
    return some (← name)
  else return none

/-- A spread or an inline fragment, given how to read the selections inside it. -/
def fragmentSelection (inner : Reading Braced) (room : Nat) : Reading Selection := do
  let start ← expect .spread
  let named? := match ← kind? with
    | some (.name text) => if text = "on" then none else some text
    | _ => none
  match named? with
  | some name =>
    advance
    let directives ← directives false room
    return .spread name directives (← spanFrom start)
  | none =>
    let condition? ← inlineCondition
    let directives ← directives false room
    let (selections, braces) ← inner
    return .inline condition? directives selections braces (← spanFrom start)

/-- One selection. -/
def selection (inner : Reading Braced) (room : Nat) : Reading Selection := do
  if ← atEnd then unexpected (.mark .rightBrace)
  if ← sees .spread then fragmentSelection inner room else field inner room

/-- A selection set. -/
def selectionSet : Nat → Reading Braced
  | 0 => tooDeep
  | room + 1 => do
    let start ← expect .leftBrace
    let selections ← itemsUntil .rightBrace (selection (selectionSet room) room)
    let braces ← spanFrom start
    if selections.isEmpty then fail .emptySelectionSet braces
    return (selections, braces)

/-- A default after an equals sign, if there is one. -/
def defaultValue : Reading (Option Literal) := do
  if ← accept .equals then return some (← literal true maxNesting)
  else return none

/-- A variable of an operation. Directives on it are read and mean nothing. -/
def variableDefinition : Reading VariableDefinition := do
  let start ← expect .dollar
  let name ← name
  let _ ← expect .colon
  let type ← typeRef maxNesting
  let default? ← defaultValue
  let _ ← directives true maxNesting
  return ⟨name, type, default?, ← spanFrom start⟩

/-- The variables of an operation in parentheses, or none. -/
def variableDefinitions : Reading (List VariableDefinition) := do
  if ← accept .leftParen then itemsUntil .rightParen variableDefinition else return []

/-- A query without a keyword. -/
def anonymousQuery : Reading Operation := do
  let start ← span
  let (selections, braces) ← selectionSet maxNesting
  return ⟨.query, none, [], [], selections, braces, ← spanFrom start⟩

/-- A name, if one is next. -/
def name? : Reading (Option String) := do
  match ← kind? with
  | some (.name text) =>
    advance
    return some text
  | _ => return none

/-- An operation from its keyword on. -/
def operation (kind : OperationKind) : Reading Operation := do
  let start ← span
  advance
  let name? ← name?
  let defined ← variableDefinitions
  let directives ← directives false maxNesting
  let (selections, braces) ← selectionSet maxNesting
  return ⟨kind, name?, defined, directives, selections, braces, ← spanFrom start⟩

/-- A fragment from its keyword on. -/
def fragment : Reading Fragment := do
  let start ← expectWord "fragment"
  let name ← name
  if name = "on" then fail .fragmentNamedOn start
  let _ ← expectWord "on"
  let condition ← Reading.name
  let directives ← directives false maxNesting
  let (selections, braces) ← selectionSet maxNesting
  return ⟨name, condition, directives, selections, braces, ← spanFrom start⟩

/-- A description, which means nothing; tells whether there was one. -/
def description : Reading Bool := do
  match ← kind? with
  | some (.string _) =>
    advance
    return true
  | some (.blockString _) =>
    advance
    return true
  | _ => return false

/-- One root type of a schema. -/
def rootType : Reading (OperationKind × String) := do
  let start ← span
  let keyword ← name
  match OperationKind.ofKeyword? keyword with
  | none => fail (.unknownRootOperation keyword) start
  | some kind =>
    let _ ← expect .colon
    return (kind, ← name)

/-- A schema definition from its keyword on. -/
def schemaDefinition (start : Span) : Reading SchemaDefinition := do
  let _ ← expectWord "schema"
  let _ ← directives true maxNesting
  let _ ← expect .leftBrace
  let roots ← itemsUntil .rightBrace rootType
  return ⟨roots, ← spanFrom start⟩

/-- An argument definition or a field of an input type. -/
def inputDefinition : Reading InputDefinition := do
  let _ ← description
  let start ← span
  let name ← name
  let _ ← expect .colon
  let type ← typeRef maxNesting
  let default? ← defaultValue
  let directives ← directives true maxNesting
  return ⟨name, type, default?, directives, ← spanFrom start⟩

/-- Input definitions between two marks, or none. -/
def inputDefinitions (opening closing : Punctuator) : Reading (List InputDefinition) := do
  if ← accept opening then itemsUntil closing inputDefinition else return []

/-- An output field of a type. -/
def fieldDefinition : Reading FieldDefinition := do
  let _ ← description
  let start ← span
  let name ← name
  let arguments ← inputDefinitions .leftParen .rightParen
  let _ ← expect .colon
  let type ← typeRef maxNesting
  let directives ← directives true maxNesting
  return ⟨name, arguments, type, directives, ← spanFrom start⟩

/-- Output fields in braces, or none. -/
def fieldDefinitions : Reading (List FieldDefinition) := do
  if ← accept .leftBrace then itemsUntil .rightBrace fieldDefinition else return []

/-- A name after the mark that separates it from the one before. -/
def separated (mark : Punctuator) : Reading String := do
  let _ ← expect mark
  name

/-- Names with a mark between neighbours, and optionally one before the first. -/
def separatedNames (mark : Punctuator) : Reading (List String) := do
  let _ ← accept mark
  let first ← name
  let others ← itemsWhile mark (separated mark)
  return first :: others

/-- The interfaces a type implements. -/
def implementedInterfaces : Reading (List String) := do
  if ← seesWord "implements" then
    advance
    separatedNames .amp
  else return []

/-- A value of an enum. -/
def enumValue : Reading String := do
  let _ ← description
  let start ← span
  let value ← name
  if value = "true" ∨ value = "false" ∨ value = "null" then fail (.reservedEnumValue value) start
  let _ ← directives true maxNesting
  return value

/-- The values of an enum in braces, or none. -/
def enumValues : Reading (List String) := do
  if ← accept .leftBrace then itemsUntil .rightBrace enumValue else return []

/-- What a type consists of, after its keyword and name, together with its directives. -/
def typeContent (keyword : String) (keywordSpan : Span) :
    Reading (TypeContent × List Directive) := do
  match keyword with
  | "scalar" => return (.scalar, ← directives true maxNesting)
  | "type" =>
    let interfaces ← implementedInterfaces
    let directives ← directives true maxNesting
    return (.object interfaces (← fieldDefinitions), directives)
  | "interface" =>
    let interfaces ← implementedInterfaces
    let directives ← directives true maxNesting
    return (.interface interfaces (← fieldDefinitions), directives)
  | "enum" =>
    let directives ← directives true maxNesting
    return (.enum (← enumValues), directives)
  | "input" =>
    let directives ← directives true maxNesting
    return (.input (← inputDefinitions .leftBrace .rightBrace), directives)
  | other => fail (.unsupportedDefinition other) keywordSpan

/-- A type definition, or an extension after the word that marks it. -/
def typeDefinition (start : Span) (isExtension : Bool) : Reading TypeDefinition := do
  let keywordSpan ← span
  let keyword ← name
  let name ← name
  let (content, directives) ← typeContent keyword keywordSpan
  return ⟨name, content, directives, isExtension, ← spanFrom start⟩

/-- Whether the word that makes a directive repeatable is next; moves past it. -/
def repeatable : Reading Bool := do
  if ← seesWord "repeatable" then
    advance
    return true
  else return false

/-- A directive definition from its keyword on. -/
def directiveDefinition (start : Span) : Reading DirectiveDefinition := do
  let _ ← expectWord "directive"
  let _ ← expect .atSign
  let name ← name
  let arguments ← inputDefinitions .leftParen .rightParen
  let isRepeatable ← repeatable
  let _ ← expectWord "on"
  let locations ← separatedNames .pipe
  return ⟨name, arguments, isRepeatable, locations, ← spanFrom start⟩

/-- A definition that begins with a keyword. Operations and fragments take no description, so after
one their keywords are those of a type definition, which has none of them. -/
def keywordDefinition (isDescribed : Bool) (start : Span) (keyword : String) :
    Reading Definition := do
  match OperationKind.ofKeyword? keyword, isDescribed with
  | some kind, false => Definition.operation <$> operation kind
  | _, _ =>
    if keyword = "fragment" ∧ !isDescribed then Definition.fragment <$> fragment
    else if keyword = "schema" then Definition.schema <$> schemaDefinition start
    else if keyword = "directive" then Definition.directive <$> directiveDefinition start
    else if keyword = "extend" then
      advance
      Definition.type <$> typeDefinition start true
    else Definition.type <$> typeDefinition start false

/-- One definition of a document. -/
def definition : Reading Definition := do
  if ← sees .leftBrace then return .operation (← anonymousQuery)
  let isDescribed ← description
  let start ← span
  match ← kind? with
  | some (.name keyword) => keywordDefinition isDescribed start keyword
  | _ => unexpected .definition

/-- A whole document. -/
def document : Reading Document := do
  let definitions ← itemsToEnd definition
  if definitions.isEmpty then fail .noDefinitions (← span)
  return ⟨definitions⟩

end Grammar

namespace Document

/-- The document that tokens write; `length` is the length of their text in bytes. -/
def ofTokens (tokens : List Token) (length : Nat) : Except SyntaxError Document := do
  let (document, _) ← Grammar.document.run (.start tokens length)
  return document

/-- The document that a source text writes. -/
def parse (source : String) : Except SyntaxError Document := do
  ofTokens (← Lexer.tokens source) source.utf8ByteSize

end Document

end TraversalQuery
