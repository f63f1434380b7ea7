/-! Topics of the reference.

A topic goes by a few names, written in either case and with a dash or an underscore. -/
namespace Aggregation

inductive Topic
  | references
  | arithmetic
  | comparison
  | logic
  | arrays
  | stages
deriving DecidableEq, Repr

namespace Topic

def all : List Topic := [references, arithmetic, comparison, logic, arrays, stages]

def names : Topic → List String
  | references => ["references", "refs", "fields"]
  | arithmetic => ["arithmetic", "math"]
  | comparison => ["comparison", "compare"]
  | logic => ["logic", "logical", "conditional"]
  | arrays => ["arrays", "array", "array_methods"]
  | stages => ["stages", "stage", "pipeline"]

/-- A name in the form in which topics list it: small letters, and underscores for dashes. The names
are made of letters whose only capital is the usual one, so no other letter has to be lowered. -/
def plainName (name : String) : String :=
  name.map fun c => if c = '-' then '_' else c.toLower

def find? (name : String) : Option Topic :=
  all.find? (plainName name ∈ ·.names)

end Topic

end Aggregation
