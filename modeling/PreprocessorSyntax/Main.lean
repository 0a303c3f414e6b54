import PreprocessorSyntax.CommandLine.Program

/-!
# The program

The command line, carried out on real files.
-/

namespace PreprocessorSyntax
namespace CommandLine

/-- The wording of a failure that the operating system reports under a number. -/
def describeFailure (code : UInt32) (details : String) : String :=
  details ++ " (os error " ++ toString code.toNat ++ ")"

/-- The fault that stands for a failed file operation. -/
def faultOfError : IO.Error → FileFault
  | .noFileOrDirectory _ _ _ => .notFound
  | .inappropriateType _ 20 _ => .notADirectory
  | .inappropriateType _ 21 _ => .isADirectory
  | .inappropriateType _ code details => .other (describeFailure code details)
  | .permissionDenied _ code details => .other (describeFailure code details)
  | .resourceExhausted _ code details => .other (describeFailure code details)
  | .invalidArgument _ code details => .other (describeFailure code details)
  | .otherError code details => .other (describeFailure code details)
  | error => .other (toString error)

/-- Write a text in some way.  How much of it was written before a failure is not known. -/
def attemptWrite (write : IO Unit) : IO (Except WriteFault Unit) := do
  try
    write
    pure (.ok ())
  catch error => pure (.error ⟨"", faultOfError error⟩)

/-- Access to real files. -/
def realFiles : FileAccess IO where
  create path := do
    try
      IO.FS.writeFile path ""
      pure (.ok ())
    catch error => pure (.error (faultOfError error))
  read path := do
    try
      let bytes ← IO.FS.withFile path .read fun handle => handle.readBinToEnd
      match String.fromUTF8? bytes with
      | some text => pure (.ok text)
      | none => pure (.error .invalidText)
    catch error => pure (.error (faultOfError error))
  write path text := attemptWrite (IO.FS.writeFile path text)
  print text := attemptWrite do
    let output ← IO.getStdout
    output.putStr text
    output.flush

end CommandLine
end PreprocessorSyntax

/-- Carry out the command line and exit with its status. -/
def main (arguments : List String) : IO UInt32 := do
  match PreprocessorSyntax.CommandLine.libraries.parse arguments with
  | .error outcome =>
    (← IO.getStdout).putStr outcome.output
    (← IO.getStderr).putStr outcome.errors
    pure outcome.status.toUInt32
  | .ok options =>
    let outcome ← options.run PreprocessorSyntax.CommandLine.libraries.pretty
      PreprocessorSyntax.CommandLine.realFiles
    (← IO.getStderr).putStr outcome.errors
    pure outcome.status.toUInt32
