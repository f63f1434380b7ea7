import Aggregation.Script.Tree
import Aggregation.Token.Lexer

/-! Reading from a list of tokens.

A grammar rule takes the tokens that are left and gives a value and what it leaves. Each rule that
succeeds has read something, and a `Read` carries the proof of it; that is what makes the rules of
the grammar, which refer to one another, end. A rule that fails says what it wanted and names the
token it found instead, or that it found the end of the text. -/
namespace Aggregation

/-- What a rule wanted to find. -/
inductive Expectation
  | symbol (s : Symbol)
  | endOfInput
  | identifier
  | propertyName
  | typeExpr
deriving DecidableEq, Repr

/-- How a message names what was wanted. -/
def Expectation.text : Expectation → String
  | symbol s => (Token.symbol s).text
  | endOfInput => "end of input"
  | identifier => "identifier"
  | propertyName => "property name"
  | typeExpr => "type"

/-- Why tokens fit no rule. The token is the one at which reading stopped, none at the end. -/
inductive ParseFault
  | expected (what : Expectation) (found : Option Lexeme)
  | unexpected (found : Option Lexeme)
deriving DecidableEq, Repr

/-- Why a text cannot be read. -/
inductive ParseError
  | lexical (e : LexError)
  | expected (what : Expectation) (found : Option Token) (position : Position)
  | unexpected (found : Option Token) (position : Position)
deriving DecidableEq, Repr

namespace ParseError

/-- How a message names the token found. -/
def found (t : Option Token) : String :=
  (t.map Token.text).getD "end of input"

def message : ParseError → String
  | lexical e => e.message
  | expected what t p => "expected " ++ what.text ++ ", found " ++ found t ++ " at " ++ p.text
  | unexpected t p => "unexpected " ++ found t ++ " at " ++ p.text

/-- Where in the text a token starts; the end of input stands behind the last character. -/
def place (source : List Char) (x : Option Lexeme) : Position :=
  Position.of source ((x.map (·.span.start)).getD (byteLength source))

def ofFault (source : List Char) : ParseFault → ParseError
  | .expected what x => expected what (x.map Lexeme.token) (place source x)
  | .unexpected x => unexpected (x.map Lexeme.token) (place source x)

end ParseError

/-- A value read from fewer than `n` left-over tokens ago: `stop` is the end of the last token read,
and fewer than `n` tokens are left. -/
structure Read (α : Type) (n : Nat) where
  value : α
  stop : Nat
  rest : List Lexeme
  shorter : rest.length < n

/-- A value read from tokens of which fewer than `n` are left, or a fault. -/
abbrev Parse (α : Type) (n : Nat) := Except ParseFault (Read α n)

/-- What is left behind one token is shorter. -/
theorem length_lt (ts : List Lexeme) : ts.length < ts.length + 1 := Nat.lt_succ_self _

/-- What is left behind a token that may be left out is shorter than one token more. -/
theorem length_lt_add_two (ts : List Lexeme) : ts.length < ts.length + 1 + 1 :=
  Nat.lt_succ_of_lt (length_lt ts)

/-- Where the first of the tokens starts. -/
def startOf : List Lexeme → Nat
  | [] => 0
  | x :: _ => x.span.start

def expect (s : Symbol) : (ts : List Lexeme) → Parse Unit ts.length
  | [] => .error (.expected (.symbol s) none)
  | x :: r =>
    if x.token = .symbol s then .ok ⟨(), x.span.stop, r, length_lt r⟩
    else .error (.expected (.symbol s) (some x))

def identifier : (ts : List Lexeme) → Parse String ts.length
  | [] => .error (.expected .identifier none)
  | x :: r =>
    match x.token with
    | .name s => .ok ⟨s, x.span.stop, r, length_lt r⟩
    | _ => .error (.expected .identifier (some x))

/-- Whether the next token is the given symbol. -/
def startsWith (s : Symbol) (ts : List Lexeme) : Bool :=
  ts.head?.any (·.token == .symbol s)

/-- Passes over a symbol that may be left out. `stop` is the end of the last token before it. -/
def optional (s : Symbol) (stop : Nat) (ts : List Lexeme) : Read Bool (ts.length + 1) :=
  match expect s ts with
  | .ok r => ⟨true, r.stop, r.rest, Nat.lt_succ_of_lt r.shorter⟩
  | .error _ => ⟨false, stop, ts, length_lt ts⟩

/-- Passes over the comma behind an item of a list; before the end of the list there need be
none. -/
def separator (close : Symbol) (ts : List Lexeme) : Parse Unit (ts.length + 1) :=
  if startsWith close ts then .ok ⟨(), 0, ts, length_lt ts⟩
  else (expect .comma ts).map fun r => ⟨(), r.stop, r.rest, Nat.lt_succ_of_lt r.shorter⟩

end Aggregation
