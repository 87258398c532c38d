import DiagnosticFeed.Settings.File

/-!
# The surroundings of a command

A command sees the directory that it runs in, its standard input, and what
stands at the paths that it reads.  The standard input can be read once; where
it stands at a path, reading that path uses it up as well.
-/

namespace DiagnosticFeed.Command

inductive Source where
  | text (content : String)
  | input
deriving DecidableEq

structure Environment where
  directory : String
  /-- What is left of the standard input. -/
  input : String
  find : String → Except ReadError Source

namespace Environment

def read (env : Environment) (path : String) : Except ReadError String :=
  (env.find path).map fun
    | .text content => content
    | .input => env.input

def after (env : Environment) (path : String) : Environment :=
  match env.find path with
  | .ok .input => { env with input := "" }
  | _ => env

end Environment

/-- The paths by which the standard input is known. -/
def inputPaths : List String := ["/dev/stdin", "/dev/fd/0", "/proc/self/fd/0"]

end DiagnosticFeed.Command
