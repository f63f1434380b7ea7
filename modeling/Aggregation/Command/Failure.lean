import Aggregation.Compile.Fault
import Aggregation.Script.Reading

/-! Why a command fails.

A failure is a cause; `CommandError.message` is the text that the command line shows for it. -/
namespace Aggregation

/-- Why a text cannot be read. -/
inductive Unreadable
  | missing
  | notText
  | other (reason : String)
deriving DecidableEq, Repr

def Unreadable.text : Unreadable → String
  | missing => "No such file or directory (os error 2)"
  | notText => "stream did not contain valid UTF-8"
  | other reason => reason

/-- Why a command fails. -/
inductive CommandError
  | parse (e : ParseError)
  | context (e : ParseError)
  | compile (e : CompileError)
  | unreadable (u : Unreadable)
  | noInput
  | entries (failed total : Nat)
  | unknownTopic (name : String)

def CommandError.message : CommandError → String
  | parse e => "Parse error: " ++ e.message
  | context e => "Invalid --context type: " ++ e.message
  | compile e => "Compile error: " ++ e.message
  | unreadable u => "IO error: " ++ u.text
  | noInput => "No input provided. Use --input or pipe a program to stdin."
  | entries failed total =>
    toString failed ++ " of " ++ toString total ++ " entry points failed to compile"
  | unknownTopic name =>
    "Unknown topic: '" ++ name ++ "'\nRun 'aggc operators' to see available topics."

end Aggregation
