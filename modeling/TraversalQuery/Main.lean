import TraversalQuery.Command.Line

/-!
# The program

Reads the files that the command line names, runs it, and prints what it comes to.
-/

namespace TraversalQuery

namespace Command

/-- What comes of a file that the operating system refuses to read. -/
def refused : IO.Error → FileContent
  | .noFileOrDirectory .. => .missing
  | .inappropriateType .. => .ofDirectory
  | .permissionDenied .. => .unreadable "Permission denied (os error 13)"
  | other => .unreadable (toString other)

/-- Reads a file. -/
def readContent (path : String) : IO FileContent := do
  try
    return .ofBytes (← IO.FS.readBinFile path)
  catch error =>
    return refused error

/-- Reads files. -/
def readFiles (paths : List String) : IO Files := do
  return .ofList (← paths.mapM fun path => return (path, ← readContent path))

end Command

end TraversalQuery

open TraversalQuery

/-- Runs the command line. -/
def main (arguments : List String) : IO UInt32 := do
  let options := Command.Options.ofArguments (arguments.drop 1)
  let outcome := Command.run (← Command.readFiles options.paths) arguments
  IO.print outcome.output
  IO.eprint outcome.errors
  return outcome.code.toUInt32
