import Aggregation.Command.Run

/-! The command line.

Only reading files and standard input, and writing what a command leaves, happens here. -/
namespace Aggregation

/-- The text of some bytes. -/
def textOf (bytes : ByteArray) : Except CommandError String :=
  match String.fromUTF8? bytes with
  | some text => .ok text
  | none => .error (.unreadable .notText)

/-- The text at an origin. -/
def readOrigin : Origin → IO (Except CommandError String)
  | .file path => do
    try
      return textOf (← IO.FS.readBinFile path)
    catch
      | .noFileOrDirectory .. => return .error (.unreadable .missing)
      | e => return .error (.unreadable (.other (toString e)))
  | .input => do
    let input ← IO.getStdin
    if ← input.isTty then return .error .noInput
    let bytes ← IO.FS.Stream.readBinToEnd input
    return textOf bytes

end Aggregation

open Aggregation in
/-- Runs the command of the words, and answers with its code. -/
def main (args : List String) : IO UInt32 := do
  match Command.ofWords args with
  | none =>
    IO.eprintln "Usage: aggc [OPTIONS] <COMMAND>"
    return 2
  | some command =>
    let text ← match command.origin? with
      | some origin => readOrigin origin
      | none => pure (.error .noInput)
    let outcome := command.run fun _ => text
    IO.print outcome.output
    IO.eprint outcome.errors
    return outcome.code.toUInt32
