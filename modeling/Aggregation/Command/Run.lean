import Aggregation.Command.Line

/-! Running commands.

A command is a function from what it reads to what it writes: a text, a text for errors, and the code
with which it ends. -/
namespace Aggregation

/-- What running a command leaves. -/
structure Outcome where
  output : String
  errors : String
  code : Nat
deriving DecidableEq, Repr

namespace Outcome

/-- The outcome of a command that writes a text and ends well. -/
def written (text : String) : Outcome := ⟨text, "", 0⟩

def failure (e : CommandError) : Outcome := ⟨"", e.message ++ "\n", 1⟩

/-- The outcome of writing a result, or of failing. -/
def of {α : Type} (write : α → Outcome) : Except CommandError α → Outcome
  | .ok a => write a
  | .error e => failure e

/-- The text of a document, on lines of its own. -/
def line (pretty : Bool) (d : Document) : String :=
  (if pretty then d.pretty else d.compact) ++ "\n"

/-- The outcome of a report. The document is written even if some entries failed. -/
def ofReport (pretty : Bool) (r : Report) : Outcome :=
  let output := line pretty r.document
  if r.failed = 0 then written output
  else
    let summary := CommandError.entries r.failed r.total
    ⟨output, unlines (r.diagnostics ++ [summary.message]), 1⟩

end Outcome

namespace Command

/-- The name and the version of the command line. -/
def versionText : String := "aggc 0.2.0"

/-- Where the command reads a program from, if it does. -/
def origin? : Command → Option Origin
  | compile origin _ _ => some origin
  | _ => none

/-- Runs a command, where `read` gives the text at an origin. -/
def run (read : Origin → Except CommandError String) : Command → Outcome
  | version => .written (versionText ++ "\n")
  | compile origin placeholder? pretty =>
    .of (.ofReport pretty) (read origin >>= Report.ofSource placeholder?)
  | fragment f pretty => .of (fun d => .written (Outcome.line pretty d)) f.document
  | reference topic? => .of .written (Reference.lookup topic?)

end Command

end Aggregation
