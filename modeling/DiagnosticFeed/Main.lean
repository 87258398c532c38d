import DiagnosticFeed.Command.Run

/-!
# The program

Read what the command needs, run it, and write what it leaves behind.
-/

open DiagnosticFeed

def reasonOf : IO.Error → ReadError
  | .noFileOrDirectory .. => .missing
  | .inappropriateType _ _ "is a directory" => .directory
  | .inappropriateType .. => .notDirectory
  | .invalidArgument _ _ "name too long" => .nameTooLong
  | e => .other (toString e)

def readFileText (path : String) : IO (Except ReadError String) := do
  try
    return textOfBytes (← IO.FS.readBinFile path)
  catch e =>
    return .error (reasonOf e)

def findSource (path : String) : IO (Except ReadError Command.Source) := do
  if path ∈ Command.inputPaths then return .ok .input
  return (← readFileText path).map .text

def main (args : List String) : IO UInt32 := do
  let directory := (← IO.currentDir).toString
  let found ← (Command.pathsRead directory args).mapM fun path => do
    return (path, ← findSource path)
  let input ←
    if Command.readsInput directory args then (← IO.getStdin).readToEnd
    else pure ""
  let exit := Command.run
    { directory, input, find := fun path => (found.lookup path).getD (.error .missing) }
    args
  IO.print exit.output
  IO.eprint exit.errorOutput
  return exit.code
