import Aggregation.Script.Grammar
import Aggregation.Script.Numbering

/-! Reading texts into trees.

The three kinds of text are an expression, a program and a type annotation. Each is cut into tokens
first, so a text with a bad token is refused for that token even if the grammar would have stopped
before it. -/
namespace Aggregation

/-- Reads the tokens of a text by a rule of the grammar. -/
def readWith {α : Type} (rule : List Lexeme → Except ParseFault α) (source : String) :
    Except ParseError α :=
  match tokenize source with
  | .error e => .error (.lexical e)
  | .ok ts => (rule ts).mapError (.ofFault source.toList)

/-- The expression that a text is. -/
def parseExpression (source : String) : Except ParseError (Expr Nat) :=
  (readWith Grammar.wholeExpression source).map fun e => (e.number.run 0).1

/-- The program that a text is. -/
def parseProgram (source : String) : Except ParseError (List (Statement Nat)) :=
  (readWith Grammar.program source).map fun ss => ((numberStatements ss).run 0).1

/-- The type annotation that a text is. -/
def parseType (source : String) : Except ParseError TypeExpr :=
  readWith Grammar.wholeType source

end Aggregation
