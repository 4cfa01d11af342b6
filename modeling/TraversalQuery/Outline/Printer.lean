import TraversalQuery.Outline.Basic

/-!
# Writing outlines

An outline is written with a node on each line, and lines drawn to the nodes below another:

    Start[0]
    └── Entity[1]:Book#book
        └── Quant[2]:ALL{3,4}
            ├── Prop[3]:title<Identity>
            └── Group[4]:SOME{5}
                └── Prop[5]:name<like,jhone>
-/

namespace TraversalQuery

/-- Numbers of nodes as they are written. -/
def idsText (ids : List NodeId) : String :=
  "\x7b" ++ ",".intercalate (ids.map toString) ++ "\x7d"

namespace ConcreteEntity

/-- An entity as it is written: its id, and the name to show for it after a bar. -/
def text (entity : ConcreteEntity) : String :=
  match entity.displayName? with
  | none => entity.id
  | some name => entity.id ++ "|" ++ name

end ConcreteEntity

namespace Label

/-- What a node stands for as it is written after the kind and the number of the node. -/
def detail : Label → String
  | .start => ""
  | .entity ⟨tag, typeName, none⟩ => ":" ++ typeName ++ "#" ++ tag
  | .entity ⟨tag, typeName, some concrete⟩ =>
    ":" ++ typeName ++ "#" ++ tag ++ "(" ++ concrete.text ++ ")"
  | .relation step =>
    ":" ++ step.relationType ++ "(" ++ step.direction.text ++ ")#" ++ step.tag
  | .property held => ":" ++ held.propertyType ++ "<" ++ held.use.text ++ ">"
  | .group kind members => ":" ++ kind.text ++ idsText members
  | .quantifier kind next => ":" ++ kind.text ++ idsText next

/-- A node as it is written. -/
def text (label : Label) (id : NodeId) : String :=
  label.kind ++ "[" ++ toString id ++ "]" ++ label.detail

end Label

namespace Outline

mutual

/-- The lines of the nodes below the one at the top, each after `lead`. -/
def linesBelow (lead : String) : Outline → List String
  | .node _ _ children => linesOf lead children

/-- The lines of outlines beside one another, each after `lead`. -/
def linesOf (lead : String) : List Outline → List String
  | [] => []
  | .node id label children :: rest =>
    let isLast := rest.isEmpty
    let line := lead ++ (if isLast then "└── " else "├── ") ++ label.text id
    let below := lead ++ (if isLast then "    " else "│   ")
    (line :: linesOf below children) ++ linesOf lead rest

end

/-- The lines of an outline. -/
def lines (outline : Outline) : List String :=
  outline.label.text outline.id :: linesBelow "" outline

/-- An outline as it is written. -/
def text (outline : Outline) : String :=
  String.join (outline.lines.map (· ++ "\n"))

end Outline

end TraversalQuery
