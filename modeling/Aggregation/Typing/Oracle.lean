import Aggregation.Typing.Infer

/-! Oracles, which tell the compiler the class of a node.

The compiler asks for the class of a node and nothing else, so an oracle is a function on nodes. One
answers from the types found for a whole tree, one from a list of texts with their classes, and one
knows nothing. -/
namespace Aggregation

/-- What tells the class of a node. -/
abbrev Oracle := Expr Nat → TypeClass

def Oracle.unknown : Oracle := fun _ => .unknown

/-- The oracle that knows classes by the text of a node in a source; of two classes for one text the
later counts. -/
def Oracle.ofTexts (source : List Char) (classes : List (String × TypeClass)) : Oracle :=
  fun e => (classes.reverse.lookup (String.ofList (e.span.slice source))).getD .unknown

/-- Types by the numbers of nodes, in the order in which they were recorded. -/
structure DeclaredTypes where
  entries : List (Nat × Ty)

namespace DeclaredTypes

/-- The types of the nodes of an expression, where the placeholder stands for a document of the
annotated type. -/
def infer (root : Expr Nat) (placeholder : String) (context : Option TypeExpr) : DeclaredTypes :=
  ⟨(Env.mk placeholder ((context.map Ty.ofTypeExpr).getD .unknown) []).records root⟩

/-- The type recorded for a number; of two records the later counts. -/
def type? (d : DeclaredTypes) (n : Nat) : Option Ty :=
  d.entries.reverse.lookup n

/-- The oracle that answers from the recorded types. -/
def oracle (d : DeclaredTypes) : Oracle :=
  fun e => ((d.type? e.mark.label).map Ty.toClass).getD .unknown

end DeclaredTypes

end Aggregation
