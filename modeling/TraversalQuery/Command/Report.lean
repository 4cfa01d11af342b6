import TraversalQuery.Command.Files
import TraversalQuery.Planning.Model
import TraversalQuery.Source.Location

/-!
# Reports

Commands report what is wrong with the files they work on. A syntax error is reported with the file
and the place it is in.
-/

namespace TraversalQuery

namespace Command

/-- A file that was read. -/
structure SourceFile where
  path : String
  text : String
deriving DecidableEq, Inhabited, Repr

/-- Why a command has no output. -/
inductive CommandError where
  | usage (problem : String)
  | unreadable (path reason : String)
  | malformedJson (path problem : String)
  | notAnObject (path : String)
  | malformedSource (file : SourceFile) (error : SyntaxError)
  | planning (error : PlanError)

namespace SourceFile

/-- Reads a file. -/
def read (files : Files) (path : String) : Except CommandError SourceFile :=
  match files path with
  | .text text => .ok ⟨path, text⟩
  | .unreadable reason => .error (.unreadable path reason)

/-- The place in a file where a span begins. -/
def place? (file : SourceFile) (span : Span) : Option String :=
  (Location.ofSpan? file.text.toList span).map fun location => location.text file.path

/-- The first line of a report. -/
def headline (message : String) : String :=
  String.ofList (Text.trimEnd ("Error: " ++ message).toList)

/-- What is wrong with a file, and where. -/
def report (file : SourceFile) (error : SyntaxError) : String :=
  headline error.message ++ "\n" ++
    match file.place? error.span with
    | none => ""
    | some place => "  at " ++ place ++ "\n"

end SourceFile

namespace CommandError

/-- Why a command has no output, in words. -/
def message : CommandError → String
  | .usage problem => problem
  | .unreadable path reason => s!"cannot read `{path}`: {reason}"
  | .malformedJson path problem => s!"`{path}` is not valid JSON: {problem}"
  | .notAnObject path => s!"`{path}` must hold a JSON object"
  | .malformedSource file error => file.report error
  | .planning error => error.message

/-- The schema file of a source. The types of filters are source zero, before those of the
files. -/
def schemaFile? (schemas : List SourceFile) : Nat → Option SourceFile
  | 0 => none
  | index + 1 => schemas[index]?

/-- The report of a planning error: a syntax error is reported with its file. -/
def ofPlanError (schemas : List SourceFile) (query? : Option SourceFile) :
    PlanError → CommandError
  | .malformedQuery error =>
    match query? with
    | some file => .malformedSource file error
    | none => .planning (.malformedQuery error)
  | .schema (.malformedSource source error) =>
    match schemaFile? schemas source with
    | some file => .malformedSource file error
    | none => .planning (.schema (.malformedSource source error))
  | other => .planning other

end CommandError

end Command

end TraversalQuery
