import TraversalQuery.Document.Basic
import TraversalQuery.Source.Token

/-!
# Documents as tokens

A document is written as a sequence of tokens. Operations have their keywords; lists of arguments,
variables and interfaces that are empty are left out, while the bodies of types stand in braces even
when they are empty. With each token goes the level of the phrase that begins with it: selection
sets, values, named types and list types are one level deeper than the phrase around them. What
names consist of is left to the reader of the text: the grammar takes any of them.
-/

namespace TraversalQuery

/-- A token as it is written, and the level of the selection set, value or type reference that
begins with it. The level is zero when none does. -/
structure Glyph where
  kind : TokenKind
  level : Nat
deriving DecidableEq, Inhabited

namespace Glyph

/-- A mark with which no phrase begins that counts as a level. -/
def mark (mark : Punctuator) : Glyph :=
  ⟨.mark mark, 0⟩

/-- A name with which no phrase begins that counts as a level. -/
def name (text : String) : Glyph :=
  ⟨.name text, 0⟩

end Glyph

/-- The tokens that a phrase is written with. -/
abbrev Spelling := List Glyph

namespace Spelling

/-- A selection set or a value in braces. -/
def braced (level : Nat) (inside : Spelling) : Spelling :=
  ⟨.mark .leftBrace, level⟩ :: (inside ++ [.mark .rightBrace])

/-- A list in parentheses, or nothing when there is nothing to list. -/
def listed {α : Type} (written : α → Spelling) (parts : List α) : Spelling :=
  if parts.isEmpty then []
  else .mark .leftParen :: (parts.flatMap written ++ [.mark .rightParen])

/-- Names with a mark between neighbours. -/
def separated (separator : Punctuator) : List String → Spelling
  | [] => []
  | first :: others => .name first :: others.flatMap fun other => [.mark separator, .name other]

/-- The first token of a phrase, or the one ahead when the phrase has no tokens. -/
def lead (spelling : Spelling) (ahead : Option TokenKind) : Option TokenKind :=
  (spelling.head?.map Glyph.kind).or ahead

@[simp] theorem lead_nil (ahead : Option TokenKind) : lead [] ahead = ahead := rfl

@[simp] theorem lead_cons (glyph : Glyph) (more : Spelling) (ahead : Option TokenKind) :
    lead (glyph :: more) ahead = some glyph.kind := rfl

@[simp] theorem lead_append (first second : Spelling) (ahead : Option TokenKind) :
    lead (first ++ second) ahead = lead first (lead second ahead) := by
  cases first with
  | nil => rfl
  | cons => rfl

end Spelling

namespace Literal

mutual

/-- A value of a level as it is written. -/
def written (level : Nat) : Literal → Spelling
  | .reference name => [⟨.mark .dollar, level⟩, .name name]
  | .int value => [⟨.int value, level⟩]
  | .float value => [⟨.float value, level⟩]
  | .string text => [⟨.string text, level⟩]
  | .bool value => [⟨.name (if value then "true" else "false"), level⟩]
  | .null => [⟨.name "null", level⟩]
  | .enumValue name => [⟨.name name, level⟩]
  | .list items =>
    ⟨.mark .leftBracket, level⟩ :: (writtenItems (level + 1) items ++ [.mark .rightBracket])
  | .object fields => Spelling.braced level (writtenFields (level + 1) fields)

/-- The items of a list as they are written. -/
def writtenItems (level : Nat) : List Literal → Spelling
  | [] => []
  | item :: rest => item.written level ++ writtenItems level rest

/-- The fields of an object as they are written. -/
def writtenFields (level : Nat) : List (String × Literal) → Spelling
  | [] => []
  | (name, value) :: rest =>
    (.name name :: .mark .colon :: value.written level) ++ writtenFields level rest

end

mutual

/-- Whether a value can be written: no name of an enum value stands for another value, and a
constant holds no variables. -/
def isProper (isConstant : Bool) : Literal → Bool
  | .reference _ => !isConstant
  | .enumValue name => name ∉ ["true", "false", "null"]
  | .list items => areProper isConstant items
  | .object fields => areProperFields isConstant fields
  | _ => true

/-- Whether the items of a list can be written. -/
def areProper (isConstant : Bool) : List Literal → Bool
  | [] => true
  | item :: rest => item.isProper isConstant && areProper isConstant rest

/-- Whether the fields of an object can be written. -/
def areProperFields (isConstant : Bool) : List (String × Literal) → Bool
  | [] => true
  | (_, value) :: rest => value.isProper isConstant && areProperFields isConstant rest

end

/-- Items are written one after another. -/
theorem writtenItems_eq (level : Nat) (items : List Literal) :
    writtenItems level items = items.flatMap (written level) := by
  induction items with
  | nil => rfl
  | cons item rest ih => rw [writtenItems, ih, List.flatMap_cons]

/-- Fields of an object are written one after another. -/
theorem writtenFields_eq (level : Nat) (fields : List (String × Literal)) :
    writtenFields level fields = fields.flatMap fun field =>
      .name field.1 :: .mark .colon :: field.2.written level := by
  induction fields with
  | nil => rfl
  | cons field rest ih => rw [writtenFields, ih, List.flatMap_cons]

/-- Items can be written if each of them can. -/
theorem areProper_iff {isConstant : Bool} {items : List Literal} :
    areProper isConstant items = true ↔ ∀ item ∈ items, item.isProper isConstant = true := by
  induction items with
  | nil => simp [areProper]
  | cons item rest ih => rw [areProper, Bool.and_eq_true, ih, List.forall_mem_cons]

/-- Fields of an object can be written if each of their values can. -/
theorem areProperFields_iff {isConstant : Bool} {fields : List (String × Literal)} :
    areProperFields isConstant fields = true ↔
      ∀ field ∈ fields, field.2.isProper isConstant = true := by
  induction fields with
  | nil => simp [areProperFields]
  | cons field rest ih => rw [areProperFields, Bool.and_eq_true, ih, List.forall_mem_cons]

end Literal

namespace TypeRef

/-- A type reference of a level as it is written. A mark that forbids `null` adds no level. -/
def written (level : Nat) : TypeRef → Spelling
  | .named name => [⟨.name name, level⟩]
  | .list item => ⟨.mark .leftBracket, level⟩ :: (item.written (level + 1) ++ [.mark .rightBracket])
  | .nonNull inner => inner.written level ++ [.mark .bang]

/-- Whether a type reference can be written: `null` is not forbidden twice in one place. -/
def isProper : TypeRef → Bool
  | .named _ => true
  | .list item => item.isProper
  | .nonNull inner => !inner.isNonNull && inner.isProper

end TypeRef

namespace Argument

/-- An argument as it is written, its value at a level. -/
def written (level : Nat) (argument : Argument) : Spelling :=
  .name argument.name :: .mark .colon :: argument.value.written level

/-- The argument without its place. -/
def bare (argument : Argument) : Argument :=
  { argument with span := .zero }

end Argument

namespace Directive

/-- A directive as it is written, the values of its arguments at a level. -/
def written (level : Nat) (directive : Directive) : Spelling :=
  .mark .atSign :: .name directive.name :: Spelling.listed (·.written level) directive.arguments

/-- Whether a directive can be written. -/
def isProper (isConstant : Bool) (directive : Directive) : Bool :=
  directive.arguments.all (·.value.isProper isConstant)

/-- The directive without its place. -/
def bare (directive : Directive) : Directive :=
  { directive with arguments := directive.arguments.map Argument.bare, span := .zero }

end Directive

namespace Field

/-- A field as it is written, without what is selected inside it. -/
def written (level : Nat) (field : Field) : Spelling :=
  (field.alias?.toList.flatMap fun key => [.name key, .mark .colon]) ++
    .name field.name :: (Spelling.listed (·.written level) field.arguments ++
      field.directives.flatMap (·.written level))

/-- Whether a field can be written. -/
def isProper (field : Field) : Bool :=
  field.arguments.all (·.value.isProper false) && field.directives.all (·.isProper false)

/-- The field without its place. -/
def bare (field : Field) : Field :=
  { field with
    arguments := field.arguments.map Argument.bare
    directives := field.directives.map Directive.bare
    span := .zero }

end Field

namespace Selection

mutual

/-- A selection as it is written where what it holds is at a level. -/
def written (level : Nat) : Selection → Spelling
  | .field selected selections _ =>
    selected.written level ++
      if selections.isEmpty then [] else Spelling.braced level (writtenAll (level + 1) selections)
  | .spread name directives _ =>
    .mark .spread :: .name name :: directives.flatMap (·.written level)
  | .inline condition? directives selections _ _ =>
    .mark .spread :: ((condition?.toList.flatMap fun condition => [.name "on", .name condition]) ++
      (directives.flatMap (·.written level) ++
        Spelling.braced level (writtenAll (level + 1) selections)))

/-- Selections as they are written. -/
def writtenAll (level : Nat) : List Selection → Spelling
  | [] => []
  | selection :: rest => selection.written level ++ writtenAll level rest

end

mutual

/-- Whether a selection can be written: selection sets are not empty, and a field has braces if
something is selected inside it. -/
def isProper : Selection → Bool
  | .field selected selections braces? =>
    selected.isProper && braces?.isSome == !selections.isEmpty && areProper selections
  | .spread name directives _ => name != "on" && directives.all (·.isProper false)
  | .inline _ directives selections _ _ =>
    directives.all (·.isProper false) && !selections.isEmpty && areProper selections

/-- Whether selections can be written. -/
def areProper : List Selection → Bool
  | [] => true
  | selection :: rest => selection.isProper && areProper rest

end

mutual

/-- The selection without its places. -/
def bare : Selection → Selection
  | .field selected selections braces? =>
    .field selected.bare (bareAll selections) (braces?.map fun _ => .zero)
  | .spread name directives _ => .spread name (directives.map Directive.bare) .zero
  | .inline condition? directives selections _ _ =>
    .inline condition? (directives.map Directive.bare) (bareAll selections) .zero .zero

/-- Selections without their places. -/
def bareAll : List Selection → List Selection
  | [] => []
  | selection :: rest => selection.bare :: bareAll rest

end

/-- Selections are written one after another. -/
theorem writtenAll_eq (level : Nat) (selections : List Selection) :
    writtenAll level selections = selections.flatMap (written level) := by
  induction selections with
  | nil => rfl
  | cons selection rest ih => rw [writtenAll, ih, List.flatMap_cons]

/-- Selections can be written if each of them can. -/
theorem areProper_iff {selections : List Selection} :
    areProper selections = true ↔ ∀ selection ∈ selections, selection.isProper = true := by
  induction selections with
  | nil => simp [areProper]
  | cons selection rest ih => rw [areProper, Bool.and_eq_true, ih, List.forall_mem_cons]

/-- Selections lose their places one by one. -/
theorem bareAll_eq (selections : List Selection) : bareAll selections = selections.map bare := by
  induction selections with
  | nil => rfl
  | cons selection rest ih => rw [bareAll, ih, List.map_cons]

/-- A selection set of a level as it is written. -/
def writtenSet (level : Nat) (selections : List Selection) : Spelling :=
  Spelling.braced level (writtenAll (level + 1) selections)

/-- Whether selections can be written as a selection set. -/
def isProperSet (selections : List Selection) : Bool :=
  !selections.isEmpty && areProper selections

end Selection

/-- A default as it is written. -/
def writtenDefault (default? : Option Literal) : Spelling :=
  default?.toList.flatMap fun value => .mark .equals :: value.written 1

namespace VariableDefinition

/-- A variable as it is written. -/
def written (defined : VariableDefinition) : Spelling :=
  .mark .dollar :: .name defined.name :: .mark .colon ::
    (defined.type.written 1 ++ writtenDefault defined.default?)

/-- Whether a variable can be written. -/
def isProper (defined : VariableDefinition) : Bool :=
  defined.type.isProper && defined.default?.all (·.isProper true)

/-- The variable without its place. -/
def bare (defined : VariableDefinition) : VariableDefinition :=
  { defined with span := .zero }

end VariableDefinition

namespace Operation

/-- An operation as it is written. -/
def written (operation : Operation) : Spelling :=
  .name operation.kind.keyword :: (operation.name?.toList.map .name ++
    (Spelling.listed VariableDefinition.written operation.variableDefinitions ++
      (operation.directives.flatMap (·.written 1) ++ Selection.writtenSet 1 operation.selections)))

/-- Whether an operation can be written. -/
def isProper (operation : Operation) : Bool :=
  operation.variableDefinitions.all (·.isProper) &&
    operation.directives.all (·.isProper false) && Selection.isProperSet operation.selections

/-- The operation without its places. -/
def bare (operation : Operation) : Operation :=
  { operation with
    variableDefinitions := operation.variableDefinitions.map VariableDefinition.bare
    directives := operation.directives.map Directive.bare
    selections := Selection.bareAll operation.selections
    braces := .zero
    span := .zero }

end Operation

namespace Fragment

/-- A fragment as it is written. -/
def written (fragment : Fragment) : Spelling :=
  .name "fragment" :: .name fragment.name :: .name "on" :: .name fragment.condition ::
    (fragment.directives.flatMap (·.written 1) ++ Selection.writtenSet 1 fragment.selections)

/-- Whether a fragment can be written. -/
def isProper (fragment : Fragment) : Bool :=
  fragment.name != "on" && fragment.directives.all (·.isProper false) &&
    Selection.isProperSet fragment.selections

/-- The fragment without its places. -/
def bare (fragment : Fragment) : Fragment :=
  { fragment with
    directives := fragment.directives.map Directive.bare
    selections := Selection.bareAll fragment.selections
    braces := .zero
    span := .zero }

end Fragment

namespace SchemaDefinition

/-- A schema definition as it is written. -/
def written (schema : SchemaDefinition) : Spelling :=
  .name "schema" :: Spelling.braced 0 (schema.roots.flatMap fun root =>
    [.name root.1.keyword, .mark .colon, .name root.2])

/-- The schema definition without its place. -/
def bare (schema : SchemaDefinition) : SchemaDefinition :=
  { schema with span := .zero }

end SchemaDefinition

namespace InputDefinition

/-- An argument definition or a field of an input type as it is written. -/
def written (input : InputDefinition) : Spelling :=
  .name input.name :: .mark .colon :: (input.type.written 1 ++
    (writtenDefault input.default? ++ input.directives.flatMap (·.written 1)))

/-- Whether an input definition can be written. -/
def isProper (input : InputDefinition) : Bool :=
  input.type.isProper && input.default?.all (·.isProper true) &&
    input.directives.all (·.isProper true)

/-- The input definition without its places. -/
def bare (input : InputDefinition) : InputDefinition :=
  { input with directives := input.directives.map Directive.bare, span := .zero }

end InputDefinition

namespace FieldDefinition

/-- An output field as it is written. -/
def written (field : FieldDefinition) : Spelling :=
  .name field.name :: (Spelling.listed InputDefinition.written field.arguments ++
    .mark .colon :: (field.type.written 1 ++ field.directives.flatMap (·.written 1)))

/-- Whether an output field can be written. -/
def isProper (field : FieldDefinition) : Bool :=
  field.arguments.all (·.isProper) && field.type.isProper && field.directives.all (·.isProper true)

/-- The output field without its places. -/
def bare (field : FieldDefinition) : FieldDefinition :=
  { field with
    arguments := field.arguments.map InputDefinition.bare
    directives := field.directives.map Directive.bare
    span := .zero }

end FieldDefinition

namespace TypeContent

/-- The keyword of a kind of type. -/
def keyword : TypeContent → String
  | .scalar => "scalar"
  | .object .. => "type"
  | .interface .. => "interface"
  | .enum _ => "enum"
  | .input _ => "input"

/-- The interfaces that a type implements as they are written. -/
def writtenInterfaces (interfaces : List String) : Spelling :=
  if interfaces.isEmpty then [] else .name "implements" :: Spelling.separated .amp interfaces

/-- What a type consists of as it is written, with its directives. -/
def written (directives : List Directive) : TypeContent → Spelling
  | .scalar => directives.flatMap (·.written 1)
  | .object interfaces fields =>
    writtenInterfaces interfaces ++ (directives.flatMap (·.written 1) ++
      Spelling.braced 0 (fields.flatMap FieldDefinition.written))
  | .interface interfaces fields =>
    writtenInterfaces interfaces ++ (directives.flatMap (·.written 1) ++
      Spelling.braced 0 (fields.flatMap FieldDefinition.written))
  | .enum values => directives.flatMap (·.written 1) ++ Spelling.braced 0 (values.map .name)
  | .input fields =>
    directives.flatMap (·.written 1) ++ Spelling.braced 0 (fields.flatMap InputDefinition.written)

/-- Whether what a type consists of can be written: no name of an enum value stands for another
value. -/
def isProper : TypeContent → Bool
  | .scalar => true
  | .object _ fields => fields.all (·.isProper)
  | .interface _ fields => fields.all (·.isProper)
  | .enum values => values.all (· ∉ ["true", "false", "null"])
  | .input fields => fields.all (·.isProper)

/-- What a type consists of without its places. -/
def bare : TypeContent → TypeContent
  | .scalar => .scalar
  | .object interfaces fields => .object interfaces (fields.map FieldDefinition.bare)
  | .interface interfaces fields => .interface interfaces (fields.map FieldDefinition.bare)
  | .enum values => .enum values
  | .input fields => .input (fields.map InputDefinition.bare)

end TypeContent

namespace TypeDefinition

/-- A type definition as it is written. -/
def written (type : TypeDefinition) : Spelling :=
  (if type.isExtension then [.name "extend"] else []) ++
    .name type.content.keyword :: .name type.name :: type.content.written type.directives

/-- Whether a type definition can be written. -/
def isProper (type : TypeDefinition) : Bool :=
  type.content.isProper && type.directives.all (·.isProper true)

/-- The type definition without its places. -/
def bare (type : TypeDefinition) : TypeDefinition :=
  { type with
    content := type.content.bare
    directives := type.directives.map Directive.bare
    span := .zero }

end TypeDefinition

namespace DirectiveDefinition

/-- A directive definition as it is written. -/
def written (directive : DirectiveDefinition) : Spelling :=
  .name "directive" :: .mark .atSign :: .name directive.name ::
    (Spelling.listed InputDefinition.written directive.arguments ++
      ((if directive.isRepeatable then [.name "repeatable"] else []) ++
        .name "on" :: Spelling.separated .pipe directive.locations))

/-- Whether a directive definition can be written: it names a location. -/
def isProper (directive : DirectiveDefinition) : Bool :=
  directive.arguments.all (·.isProper) && !directive.locations.isEmpty

/-- The directive definition without its places. -/
def bare (directive : DirectiveDefinition) : DirectiveDefinition :=
  { directive with arguments := directive.arguments.map InputDefinition.bare, span := .zero }

end DirectiveDefinition

namespace Definition

/-- A definition as it is written. -/
def written : Definition → Spelling
  | .operation part => part.written
  | .fragment part => part.written
  | .schema part => part.written
  | .type part => part.written
  | .directive part => part.written

/-- Whether a definition can be written. -/
def isProper : Definition → Bool
  | .operation part => part.isProper
  | .fragment part => part.isProper
  | .schema _ => true
  | .type part => part.isProper
  | .directive part => part.isProper

/-- The definition without its places. -/
def bare : Definition → Definition
  | .operation part => .operation part.bare
  | .fragment part => .fragment part.bare
  | .schema part => .schema part.bare
  | .type part => .type part.bare
  | .directive part => .directive part.bare

end Definition

namespace Document

/-- A document as it is written. -/
def written (document : Document) : Spelling :=
  document.definitions.flatMap Definition.written

/-- Whether a document can be written: it defines something, and all its definitions can be
written. -/
def isProper (document : Document) : Bool :=
  !document.definitions.isEmpty && document.definitions.all (·.isProper)

/-- The document without its places. -/
def bare (document : Document) : Document :=
  ⟨document.definitions.map Definition.bare⟩

end Document

end TraversalQuery
