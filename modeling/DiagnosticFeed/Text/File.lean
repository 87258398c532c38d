/-!
# Files as text

A file is read as UTF-8 text.  `ReadError` says why that may fail.
-/

namespace DiagnosticFeed

inductive ReadError where
  | missing
  | directory
  | notDirectory
  | nameTooLong
  | notText
  | other (description : String)
deriving DecidableEq

def ReadError.message : ReadError → String
  | missing => "No such file or directory (os error 2)"
  | directory => "Is a directory (os error 21)"
  | notDirectory => "Not a directory (os error 20)"
  | nameTooLong => "File name too long (os error 36)"
  | notText => "stream did not contain valid UTF-8"
  | other description => description

def ReadError.isAbsence : ReadError → Bool
  | missing | notDirectory | nameTooLong => true
  | directory | notText | other _ => false

def textOfBytes (bytes : ByteArray) : Except ReadError String :=
  match String.fromUTF8? bytes with
  | some text => .ok text
  | none => .error .notText

def ReadError.complaint (path : String) (e : ReadError) : String :=
  "failed to read " ++ path ++ ": " ++ e.message

end DiagnosticFeed
