import TraversalQuery.Outline.Basic
import TraversalQuery.Text.Digits
import TraversalQuery.Text.Split

/-!
# Reading outlines

An outline is read back from the text it is written as. Lines are read one after another: the lines
drawn before a node tell how deep it stands, and it has to stand no more than one deeper than the
node before it. The tree then grows from the last line to the first.
-/

namespace TraversalQuery

/-- What is wrong with a line of an outline. -/
inductive OutlineFault where
  | secondRoot
  | unexpectedDepth (depth : Nat)
  | missing (mark : Char) (text : String)
  | badId (text : String)
  | unknownKind (name : String)
  | missingDirection (text : String)
  | badDirection (text : String)
  | unknownOperator (unknown : UnknownOperator)
  | unknownQuantifier (name : String)
  | empty
deriving DecidableEq, Inhabited, Repr

namespace OutlineFault

/-- What is wrong, in words. -/
def message : OutlineFault → String
  | .secondRoot => "more than one root"
  | .unexpectedDepth depth => s!"unexpected indentation depth {depth}"
  | .missing mark text => s!"missing `{mark}` in `{text}`"
  | .badId text => s!"bad node id `{text}`"
  | .unknownKind name => s!"unknown node kind `{name}`"
  | .missingDirection text => s!"missing direction in `{text}`"
  | .badDirection text => s!"bad direction in `{text}`"
  | .unknownOperator unknown => unknown.message
  | .unknownQuantifier name => s!"unknown quantifier `{name}`"
  | .empty => "empty description"

end OutlineFault

/-- Why a text is no outline: a line is at fault, or a line has its first closing bracket before its
first opening one. Nothing stands between such brackets, and reading breaks off without a line. -/
inductive OutlineError where
  | malformed (line : Nat) (fault : OutlineFault)
  | crossedBrackets
deriving DecidableEq, Inhabited, Repr

namespace OutlineError

/-- The line at fault. -/
def line? : OutlineError → Option Nat
  | .malformed line _ => some line
  | .crossedBrackets => none

/-- Why a text is no outline, in words. -/
def message : OutlineError → String
  | .malformed line fault => s!"line {line}: {fault.message}"
  | .crossedBrackets => "`]` stands before `[`"

end OutlineError

namespace Label

/-- The text before the first `mark` and the text after it. -/
def cut (mark : Char) (text : List Char) : Except OutlineFault (List Char × List Char) :=
  match Text.cutFirst? mark text with
  | some parts => .ok parts
  | none => .error (.missing mark (String.ofList text))

/-- The text before a `mark` at the end; `whole` is blamed when there is none. -/
def cutEnd (mark : Char) (whole text : List Char) : Except OutlineFault (List Char) :=
  match Text.dropEnd? mark text with
  | some before => .ok before
  | none => .error (.missing mark (String.ofList whole))

/-- The number of a node, 32 bits wide; `shown` is blamed when it is none. -/
def readId (shown digits : List Char) : Except OutlineFault NodeId :=
  match Text.unsigned? digits with
  | some id => if id < Nat.pow 2 32 then .ok id else .error (.badId (String.ofList shown))
  | none => .error (.badId (String.ofList shown))

/-- A step to entities of a type. -/
def readEntity (body : List Char) : Except OutlineFault Label := do
  let (typeName, tag) ← cut '#' body
  return .entity ⟨String.ofList tag, String.ofList typeName, none⟩

/-- An entity: its id, and after a bar the name to show for it. -/
def readConcrete (text : List Char) : ConcreteEntity :=
  match Text.cutFirst? '|' text with
  | none => ⟨String.ofList text, none⟩
  | some (id, name) => ⟨String.ofList id, some (String.ofList name)⟩

/-- A step to one entity. -/
def readConcreteStep (body : List Char) : Except OutlineFault Label := do
  let (typeName, rest) ← cut '#' body
  let (tag, inner) ← cut '(' rest
  let inner ← cutEnd ')' body inner
  return .entity ⟨String.ofList tag, String.ofList typeName, some (readConcrete inner)⟩

/-- The direction before a closing parenthesis. -/
def readDirection? (text : List Char) : Option Direction :=
  (Text.dropEnd? ')' text).bind fun name => Direction.ofText? (String.ofList name)

/-- A step over a relation. -/
def readRelation (body : List Char) : Except OutlineFault Label :=
  match Text.cutLast? '#' body with
  | none => .error (.missing '#' (String.ofList body))
  | some (head, tag) =>
    match Text.cutLast? '(' head with
    | none => .error (.missingDirection (String.ofList body))
    | some (relationType, rest) =>
      match readDirection? rest with
      | none => .error (.badDirection (String.ofList body))
      | some direction =>
        .ok (.relation ⟨String.ofList relationType, direction, String.ofList tag⟩)

/-- What a test compares with: nothing when the text is empty. -/
def readExpression (text : List Char) : Option String :=
  if text.isEmpty then none else some (String.ofList text)

/-- What is done with a property. -/
def readUse (text : List Char) : Except OutlineFault PropertyUse :=
  if String.ofList text = PropertyUse.shown.text then .ok .shown
  else do
    let (name, expression) ← cut ',' text
    let operator ← (Operator.read (String.ofList name)).mapError .unknownOperator
    return .tested ⟨operator, readExpression expression⟩

/-- A property. -/
def readProperty (scope : PropertyScope) (body : List Char) : Except OutlineFault Label := do
  let (propertyType, rest) ← cut '<' body
  let use ← readUse (← cutEnd '>' body rest)
  return .property ⟨scope, String.ofList propertyType, use⟩

/-- The numbers of nodes between commas. Blanks around a number do not count, and neither do empty
pieces. -/
def readIds (text : List Char) : Except OutlineFault (List NodeId) :=
  ((Text.pieces ',' text).filter fun piece => !piece.isEmpty).mapM fun piece =>
    readId piece (Text.trim piece)

/-- A quantifier and the nodes in braces after it. -/
def readScope (body : List Char) : Except OutlineFault (Quantifier × List NodeId) := do
  let (name, rest) ← cut '\x7b' body
  match Quantifier.ofText? (String.ofList name) with
  | none => throw (.unknownQuantifier (String.ofList name))
  | some kind => return (kind, ← readIds (← cutEnd '\x7d' body rest))

/-- What a node of the named kind stands for. -/
def readDetail (kind : String) (body : List Char) : Except OutlineFault Label :=
  match kind with
  | "Start" => .ok .start
  | "Entity" => readEntity body
  | "Concrete" => readConcreteStep body
  | "Rel" => readRelation body
  | "Prop" => readProperty .entity body
  | "RelProp" => readProperty .relation body
  | "Group" => do
    let (kind, members) ← readScope body
    return .group kind members
  | "Quant" => do
    let (kind, next) ← readScope body
    return .quantifier kind next
  | other => .error (.unknownKind other)

/-- The text after the colon, if there is one right at the start. -/
def bodyOf : List Char → List Char
  | ':' :: body => body
  | _ => []

/-- The node on a line, with its number. -/
def read (line : Nat) (text : List Char) : Except OutlineError (NodeId × Label) := do
  let (kind, rest) ← (cut '[' text).mapError (.malformed line)
  if ']' ∈ kind then throw .crossedBrackets
  match Text.cutFirst? ']' rest with
  | none => throw (.malformed line (.missing ']' (String.ofList text)))
  | some (digits, after) =>
    let id ← (readId digits digits).mapError (.malformed line)
    let label ← (readDetail (String.ofList kind) (bodyOf after)).mapError (.malformed line)
    return (id, label)

end Label

namespace Outline

/-- A line with one more step drawn before it. -/
def deeper : Nat × List Char → Nat × List Char
  | (depth, text) => (depth + 1, text)

/-- How deep the node of a line stands, and the line without what is drawn before the node and
without blanks around it. -/
def cutIndent : List Char → Nat × List Char
  | '│' :: ' ' :: ' ' :: ' ' :: rest => deeper (cutIndent rest)
  | ' ' :: ' ' :: ' ' :: ' ' :: rest => deeper (cutIndent rest)
  | '├' :: '─' :: '─' :: ' ' :: rest => (1, Text.trimEnd rest)
  | '└' :: '─' :: '─' :: ' ' :: rest => (1, Text.trimEnd rest)
  | text => (0, Text.trim text)

/-- A node on a line and how deep it stands. -/
structure Row where
  depth : Nat
  id : NodeId
  label : Label
deriving DecidableEq, Inhabited, Repr

/-- The nodes on numbered lines. Blank lines do not count. A node stands at most `depthLimit` deep,
and only the first node at depth zero. -/
def readRows : Nat → List (List Char × Nat) → Except OutlineError (List Row)
  | _, [] => .ok []
  | depthLimit, (text, index) :: rest =>
    if Text.allBlank text then readRows depthLimit rest
    else
      let line := index + 1
      let (depth, text) := cutIndent text
      if depth = 0 ∧ depthLimit ≠ 0 then .error (.malformed line .secondRoot)
      else if depthLimit < depth then .error (.malformed line (.unexpectedDepth depth))
      else do
        let (id, label) ← Label.read line text
        let others ← readRows (depth + 1) rest
        return ⟨depth, id, label⟩ :: others

/-- A row before outlines with their depths: those that stand deeper go below it. -/
def plant (row : Row) (grown : List (Nat × Outline)) : List (Nat × Outline) :=
  let below := grown.takeWhile fun (depth, _) => row.depth < depth
  let beside := grown.dropWhile fun (depth, _) => row.depth < depth
  (row.depth, .node row.id row.label (below.map Prod.snd)) :: beside

/-- The outlines that rows describe, with their depths. -/
def grow (rows : List Row) : List (Nat × Outline) :=
  rows.foldr plant []

/-- The outline that a text describes. -/
def read (text : String) : Except OutlineError Outline := do
  match grow (← readRows 0 (Text.lines text.toList).zipIdx) with
  | [] => throw (.malformed 0 .empty)
  | (_, outline) :: _ => return outline

end Outline

end TraversalQuery
