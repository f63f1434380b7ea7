import Aggregation.Command.Failure
import Aggregation.Program.Entry
import Aggregation.Reference.Page

/-! The work behind the commands.

A fragment is one expression or one chain of stages, with the type of its placeholder in a text of
its own. A report holds the documents of a program's entries and a diagnostic for each entry that has
none. -/
namespace Aggregation

/-- A text to be compiled by itself. -/
structure Fragment where
  kind : BuilderKind
  source : String
  context? : Option String
  placeholder : String
deriving DecidableEq, Repr

namespace Fragment

/-- The type of the placeholder, if one is given. -/
def context (f : Fragment) : Except CommandError (Option TypeExpr) :=
  match f.context? with
  | none => .ok none
  | some text => ((parseType text).map some).mapError .context

/-- The document of a fragment. A text that cannot be parsed is refused before its type is looked
at. -/
def document (f : Fragment) : Except CommandError Document := do
  let e ← (parseExpression f.source).mapError .parse
  let context ← f.context
  let compiled ← (compileTyped f.kind f.placeholder context e).mapError fun fault =>
    .compile (.ofFault f.source.toList fault)
  return compiled.document

end Fragment

/-- What compiling a program gave. -/
structure Report where
  document : Document
  diagnostics : List String
  total : Nat

namespace Report

/-- The number of entries that were not compiled. -/
def failed (r : Report) : Nat := r.diagnostics.length

/-- The document of an entry, if it was compiled. -/
def output? (e : Entry) : Option Document :=
  match e.result with
  | .ok c => some (.object [("builder", .string e.name), ("line", .integer e.position.line),
      ("output", c.document)])
  | .error _ => none

/-- The diagnostic of an entry, if it was not compiled. -/
def diagnostic? (e : Entry) : Option String :=
  match e.result with
  | .ok _ => none
  | .error error => some (e.name ++ " at " ++ e.position.text ++ ": " ++ error.message)

def ofEntries (entries : List Entry) : Report where
  document := .list (entries.filterMap output?)
  diagnostics := entries.filterMap diagnostic?
  total := entries.length

/-- The report on a text, with the placeholder of functions without a parameter if one is given. -/
def ofSource (placeholder? : Option String) (source : String) : Except CommandError Report :=
  let config := { Config.standard with
    placeholder := placeholder?.getD Config.standard.placeholder }
  ((compileSource config source).map ofEntries).mapError .parse

end Report

/-- The page of the reference with a name, and the overview if no name is given. -/
def Reference.lookup (name? : Option String) : Except CommandError String :=
  match name? with
  | none => .ok overview
  | some name =>
    match Topic.find? name with
    | some t => .ok (page t)
    | none => .error (.unknownTopic name)

end Aggregation
