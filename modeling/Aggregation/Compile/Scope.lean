import Aggregation.Script.Tree

/-! What the names of an expression stand for.

The placeholder stands for the current document. Around it lie the parameters of the functions that
an expression is inside of, and a parameter hides the placeholder and outer parameters of its
name. -/
namespace Aggregation

/-- What a name stands for. -/
inductive Binding
  | context
  | parameter
deriving DecidableEq, Repr

/-- The placeholder, and the parameters in scope with the innermost first. -/
structure Scope where
  placeholder : String
  locals : List String
deriving DecidableEq, Repr

namespace Scope

variable {ν : Type}

def root (placeholder : String) : Scope := ⟨placeholder, []⟩

/-- The scope inside a function with the given parameter. -/
def bind (s : Scope) (name : String) : Scope :=
  { s with locals := name :: s.locals }

/-- The scope around the innermost function, and the scope itself if there is none. -/
def outer (s : Scope) : Scope :=
  { s with locals := s.locals.tail }

/-- What a name stands for, if anything. -/
def resolve (s : Scope) (name : String) : Option Binding :=
  if name ∈ s.locals then some .parameter
  else if name = s.placeholder then some .context
  else none

/-- Whether a name stands for nothing. -/
def isFree (s : Scope) (name : String) : Bool :=
  (s.resolve name).isNone

/-- Whether an expression, parentheses aside, is the placeholder and not hidden. -/
def isContext (s : Scope) (e : Expr ν) : Bool :=
  e.bare.name?.any (s.resolve · == some .context)

theorem resolve_eq_parameter {s : Scope} {x : String} :
    s.resolve x = some .parameter ↔ x ∈ s.locals := by
  by_cases hx : x ∈ s.locals
  · simp [resolve, hx]
  · by_cases hp : x = s.placeholder <;> simp [resolve, hx, hp]

theorem resolve_eq_context {s : Scope} {x : String} :
    s.resolve x = some .context ↔ x ∉ s.locals ∧ x = s.placeholder := by
  by_cases hx : x ∈ s.locals
  · simp [resolve, hx]
  · by_cases hp : x = s.placeholder <;> simp [resolve, hx, hp]

end Scope

end Aggregation
