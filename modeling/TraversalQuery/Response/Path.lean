/-!
# Response paths

Where the value of a field stands in the response, such as `/person/books[0]/title`.
-/

namespace TraversalQuery

/-- One step of a response path: into a field or into an item of a list. -/
inductive PathSegment where
  | field (key : String)
  | index (number : Nat)
deriving DecidableEq, Inhabited, Repr

/-- A path from the root of the response, its first step first. -/
structure ResponsePath where
  segments : List PathSegment
deriving DecidableEq, Inhabited, Repr

namespace PathSegment

/-- A step as it is written. -/
def text : PathSegment → String
  | .field key => "/" ++ key
  | .index number => s!"[{number}]"

/-- Whether the step goes into a field. -/
def isField : PathSegment → Bool
  | .field _ => true
  | .index _ => false

end PathSegment

namespace ResponsePath

/-- The root of the response. -/
def root : ResponsePath := ⟨[]⟩

/-- The path of a field of the object at a path. -/
def child (path : ResponsePath) (key : String) : ResponsePath :=
  ⟨path.segments ++ [.field key]⟩

/-- The path of an item of the list at a path. -/
def item (path : ResponsePath) (index : Nat) : ResponsePath :=
  ⟨path.segments ++ [.index index]⟩

/-- A path as it is written. -/
def text (path : ResponsePath) : String :=
  if path.segments.isEmpty then "/" else String.join (path.segments.map PathSegment.text)

/-- The path of the fields alone, without the steps into lists. -/
def fieldPath (path : ResponsePath) : ResponsePath :=
  ⟨path.segments.filter PathSegment.isField⟩

@[simp] theorem fieldPath_root : root.fieldPath = root := rfl

@[simp] theorem fieldPath_item (path : ResponsePath) (index : Nat) :
    (path.item index).fieldPath = path.fieldPath := by
  simp [fieldPath, item, PathSegment.isField]

@[simp] theorem fieldPath_child (path : ResponsePath) (key : String) :
    (path.child key).fieldPath = path.fieldPath.child key := by
  simp [fieldPath, child, PathSegment.isField]

end ResponsePath

end TraversalQuery
