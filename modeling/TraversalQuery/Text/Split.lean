/-!
# Cutting texts apart

Lines, and the cuts at a separator that readers of line formats need. Each cut takes a list of
characters and gives back parts of it; none changes a character.
-/

namespace TraversalQuery

namespace Text

/-- The lines of a text. A line ends at a line feed, together with a carriage return just before
it; the text after the last line feed is a line unless it is empty. -/
def lines : List Char → List (List Char)
  | [] => []
  | '\n' :: rest => [] :: lines rest
  | '\r' :: '\n' :: rest => [] :: lines rest
  | c :: rest =>
    match lines rest with
    | [] => [[c]]
    | line :: others => (c :: line) :: others

/-- The text before the first `separator` and the text after it. -/
def cutFirst? (separator : Char) : List Char → Option (List Char × List Char)
  | [] => none
  | c :: rest =>
    if c = separator then some ([], rest)
    else (cutFirst? separator rest).map fun (before, after) => (c :: before, after)

/-- The text before the last `separator` and the text after it. -/
def cutLast? (separator : Char) (text : List Char) : Option (List Char × List Char) :=
  (cutFirst? separator text.reverse).map fun (after, before) => (before.reverse, after.reverse)

/-- The text that follows `opening`, when the text starts with it. -/
def dropStart? : List Char → List Char → Option (List Char)
  | [], text => some text
  | _ :: _, [] => none
  | o :: opening, c :: text => if c = o then dropStart? opening text else none

/-- Whether a text starts with `opening`. -/
def startsWith (opening text : String) : Bool :=
  opening.toList.isPrefixOf text.toList

/-- The text before `closing`, when the text ends in it. -/
def dropEnd? (closing : Char) (text : List Char) : Option (List Char) :=
  match text.reverse with
  | [] => none
  | c :: before => if c = closing then some before.reverse else none

/-- The pieces of a text between the separators, empty ones included. -/
def pieces (separator : Char) : List Char → List (List Char)
  | [] => [[]]
  | c :: rest =>
    if c = separator then [] :: pieces separator rest
    else
      match pieces separator rest with
      | [] => [[c]]
      | piece :: others => (c :: piece) :: others

/-- Texts written one after another with `separator` between neighbours. -/
def joined (separator : List Char) : List (List Char) → List Char
  | [] => []
  | [piece] => piece
  | piece :: next :: others => piece ++ separator ++ joined separator (next :: others)

@[simp] theorem dropStart?_append (opening rest : List Char) :
    dropStart? opening (opening ++ rest) = some rest := by
  induction opening with
  | nil => rfl
  | cons o opening ih => simp [dropStart?, ih]

/-- A text is cut at the first separator. -/
theorem cutFirst?_append {separator : Char} {before : List Char} (after : List Char)
    (free : separator ∉ before) :
    cutFirst? separator (before ++ separator :: after) = some (before, after) := by
  induction before with
  | nil => simp [cutFirst?]
  | cons c rest ih =>
    have hne : c ≠ separator := fun h => free (by simp [h])
    have hrest : separator ∉ rest := fun h => free (List.mem_cons_of_mem _ h)
    simp [cutFirst?, hne, ih hrest]

theorem dropEnd?_append (closing : Char) (text : List Char) :
    dropEnd? closing (text ++ [closing]) = some text := by
  simp [dropEnd?]

end Text

end TraversalQuery
