import TraversalQuery.Text.Blank
import TraversalQuery.Text.Split

/-!
# Files

Commands read files by their paths. Where the files come from is left open: `Files` says what comes
of reading a path. `Directory` is a directory held in memory, with the usual rules for paths: empty
names and single dots stay where they are, double dots go up, and only a directory can be gone
through. Nothing is known of what lies outside of it, except that directories lead to it.
-/

namespace TraversalQuery

namespace Command

/-- What comes of reading a file. -/
inductive FileContent where
  | text (text : String)
  | unreadable (reason : String)
deriving DecidableEq, Inhabited, Repr

namespace FileContent

/-- A file that is not there. -/
def missing : FileContent := .unreadable "No such file or directory (os error 2)"

/-- A directory in place of a file. -/
def ofDirectory : FileContent := .unreadable "Is a directory (os error 21)"

/-- A path that goes through a file. -/
def throughFile : FileContent := .unreadable "Not a directory (os error 20)"

/-- A path with a name, or of a length, that no file can have. -/
def tooLong : FileContent := .unreadable "File name too long (os error 36)"

/-- A path with a character that no name can have. -/
def withNul : FileContent := .unreadable "file name contained an unexpected NUL byte"

/-- The content of a file of the given bytes. -/
def ofBytes (bytes : ByteArray) : FileContent :=
  match String.fromUTF8? bytes with
  | some content => .text content
  | none => .unreadable "stream did not contain valid UTF-8"

end FileContent

/-- What comes of reading each path. -/
abbrev Files := String → FileContent

/-- The files of a list of paths and contents. -/
def Files.ofList (contents : List (String × FileContent)) : Files := fun path =>
  (contents.lookup path).getD .missing

/-- A directory with the files in and below it, by the names that lead to them. -/
structure Directory where
  files : List (List String × FileContent)

namespace Directory

/-- What the names of a path lead to. -/
inductive Entry where
  | file (content : FileContent)
  | directory

/-- The longest name, in bytes. -/
def nameLimit : Nat := 255

/-- The longest path, in bytes. -/
def pathLimit : Nat := 4095

/-- The names in a path, those that lead nowhere included. -/
def names (path : String) : List String :=
  (Text.pieces '/' path.toList).map String.ofList

/-- The directory with files at the given paths. -/
def ofList (contents : List (String × FileContent)) : Directory where
  files := contents.map fun (path, content) =>
    ((names path).filter fun name => name != "" && name != ".", content)

/-- What stands at the end of the names. A directory stands wherever a file is below it, and at the
start. -/
def entry? (directory : Directory) (place : List String) : Option Entry :=
  match directory.files.lookup place with
  | some content => some (.file content)
  | none =>
    if place.isEmpty || directory.files.any fun (names, _) => place.isPrefixOf names then
      some .directory
    else none

/-- What the names lead to from outside of the directory: nowhere, or to another directory when none
of them names anything. -/
def outside (names : List String) : Except FileContent Entry :=
  match names.find? fun name => ¬ ["", ".", ".."].contains name with
  | none => .ok .directory
  | some name => .error (if nameLimit < name.utf8ByteSize then .tooLong else .missing)

/-- What the names lead to from a place, and why they lead nowhere. -/
def follow (directory : Directory) : List String → List String → Except FileContent Entry
  | [], place =>
    match directory.entry? place with
    | some entry => .ok entry
    | none => .error .missing
  | name :: others, place =>
    match directory.entry? place with
    | none => .error .missing
    | some (.file _) => .error .throughFile
    | some .directory =>
      if name = "" ∨ name = "." then directory.follow others place
      else if name = ".." then
        if place.isEmpty then outside others else directory.follow others place.dropLast
      else if nameLimit < name.utf8ByteSize then .error .tooLong
      else directory.follow others (place ++ [name])

/-- What a path leads to from the directory. A slash at its start leads outside, and an empty path
leads nowhere. -/
def resolve (directory : Directory) (path : String) : Except FileContent Entry :=
  if path.toList.contains '\x00' then .error .withNul
  else if pathLimit < path.utf8ByteSize then .error .tooLong
  else if path = "" then .error .missing
  else if Text.startsWith "/" path then outside (names path)
  else directory.follow (names path) []

/-- What comes of reading a path from the directory. -/
def content (directory : Directory) : Files := fun path =>
  match directory.resolve path with
  | .ok (.file content) => content
  | .ok .directory => .ofDirectory
  | .error content => content

end Directory

end Command

end TraversalQuery
