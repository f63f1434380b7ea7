import Aggregation.Script.Tree

/-! Aggregation expressions, stages and pipelines.

A `Value` keeps apart what a document would write alike: a reference to a field, a reference to a
variable and a bare name are all strings there, and a constant stands under a key of its own so that
it is never taken for one of them. References carry their sigils. -/
namespace Aggregation

/-- An aggregation expression. Operators take one operand, a list of operands, or named operands. -/
inductive Value
  | fieldRef (path : String)
  | localRef (path : String)
  | literal (value : Literal)
  | name (s : String)
  | single (op : String) (operand : Value)
  | list (op : String) (operands : List Value)
  | named (op : String) (operands : List (String × Value))
deriving Repr

namespace Value

/-- The reference to a field, with its sigil. -/
def ofField (name : String) : Value := fieldRef ("$" ++ name)

/-- The reference to a variable, with its sigil. -/
def ofLocal (name : String) : Value := localRef ("$$" ++ name)

/-- The name of the operator, if the value is one. -/
def operator? : Value → Option String
  | single op _ => some op
  | list op _ => some op
  | named op _ => some op
  | _ => none

/-- The text of a reference to a field or a variable. -/
def reference? : Value → Option String
  | fieldRef path => some path
  | localRef path => some path
  | _ => none

end Value

/-- A stage of a pipeline: its name, and a value for each of its fields. -/
structure Stage where
  name : String
  body : List (String × Value)

/-- The value of a field; of two with one name the first counts. -/
def Stage.get? (s : Stage) (key : String) : Option Value :=
  s.body.lookup key

/-- Stages in the order in which documents pass through them. -/
structure Pipeline where
  stages : List Stage

end Aggregation
