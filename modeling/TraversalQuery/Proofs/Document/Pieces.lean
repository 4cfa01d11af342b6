import TraversalQuery.Document.Grammar

/-!
# The pieces of phrases

Phrases in which one of two ways is taken before the rest is read, put together from the piece with
the two ways and what comes after it.
-/

namespace TraversalQuery

namespace Grammar

open Reading

/-- What a field is selected as: the key that it is given, if any, and its name. -/
def calling : Reading (Option String × String) := do
  let first ← name
  if ← accept .colon then return (some first, ← name)
  return (none, first)

/-- The selections inside a field, with the braces around them if there are braces. -/
def selectedInside (set : Reading Braced) : Reading (List Selection × Option Span) := do
  if ← sees .leftBrace then
    let braced ← set
    return (braced.1, some braced.2)
  return ([], none)

/-- The name of the fragment that is spread, if it is one by name: it is next and not yet read. -/
def spreadName? : Reading (Option String) := do
  match ← kind? with
  | some (.name text) => return if text = "on" then none else some text
  | _ => return none

/-- A spread or an inline fragment after its mark. -/
def spreadOf (set : Reading Braced) (room : Nat) (start : Span) (named? : Option String) :
    Reading Selection := do
  match named? with
  | some name =>
    advance
    let directives ← directives false room
    return .spread name directives (← spanFrom start)
  | none =>
    let condition? ← inlineCondition
    let directives ← directives false room
    let braced ← set
    return .inline condition? directives braced.1 braced.2 (← spanFrom start)

/-- A type reference without the mark after it that forbids `null`. -/
def nullableRef (room : Nat) : Reading TypeRef := do
  if ← accept .leftBracket then
    let item ← typeRef room
    let _ ← expect .rightBracket
    return .list item
  return .named (← name)

theorem ite_bind {α β : Type} (taken : Bool) (yes no : Reading α) (next : α → Reading β) :
    (if taken then yes else no) >>= next = if taken then yes >>= next else no >>= next :=
  apply_ite (· >>= next) _ _ _

theorem field_eq (set : Reading Braced) (room : Nat) :
    field set room = do
      let start ← span
      let called ← calling
      let arguments ← arguments false room
      let directives ← directives false room
      let held ← selectedInside set
      let span ← spanFrom start
      return .field ⟨called.1, called.2, arguments, directives, span⟩ held.1 held.2 := by
  simp only [field, calling, selectedInside, bind_assoc, ite_bind, pure_bind]

theorem fragmentSelection_eq (set : Reading Braced) (room : Nat) :
    fragmentSelection set room =
      expect .spread >>= fun start => spreadName? >>= fun named? =>
        spreadOf set room start named? := by
  unfold fragmentSelection spreadName?
  refine bind_congr fun start => ?_
  rw [bind_assoc]
  refine bind_congr fun kind => ?_
  cases kind with
  | none => rfl
  | some kind => cases kind <;> rfl

theorem typeRef_eq (room : Nat) :
    typeRef (room + 1) = do
      let inner ← nullableRef room
      if ← accept .bang then return .nonNull inner
      return inner := by
  simp only [typeRef, nullableRef, bind_assoc, ite_bind, pure_bind, map_eq_pure_bind]

end Grammar

end TraversalQuery
