import Aggregation.Number.Decimal
import Aggregation.Text.Place
import Aggregation.Text.Quoted

/-! Tokens, the words of a builder program.

A token is a constant, a name, a keyword or a symbol. Symbols and keywords are known by their
spelling alone; constants carry the value that they denote, so two spellings of one string are one
token. A `Lexeme` is a token with the stretch of text it was read from. -/
namespace Aggregation

/-- Punctuation and operators. -/
inductive Symbol
  | dot | comma | colon | semicolon | question | arrow | assign
  | leftParen | rightParen | leftBrace | rightBrace | leftBracket | rightBracket
  | plus | minus | star | slash | percent
  | strictEq | strictNe | looseEq | looseNe | lt | gt | le | ge
  | not | and | or
deriving DecidableEq, Repr

def Symbol.text : Symbol → String
  | .dot => "."
  | .comma => ","
  | .colon => ":"
  | .semicolon => ";"
  | .question => "?"
  | .arrow => "=>"
  | .assign => "="
  | .leftParen => "("
  | .rightParen => ")"
  | .leftBrace => "\x7b"
  | .rightBrace => "\x7d"
  | .leftBracket => "["
  | .rightBracket => "]"
  | .plus => "+"
  | .minus => "-"
  | .star => "*"
  | .slash => "/"
  | .percent => "%"
  | .strictEq => "==="
  | .strictNe => "!=="
  | .looseEq => "=="
  | .looseNe => "!="
  | .lt => "<"
  | .gt => ">"
  | .le => "<="
  | .ge => ">="
  | .not => "!"
  | .and => "&&"
  | .or => "||"

/-- No symbol is spelled with nothing. -/
theorem Symbol.text_ne_nil (s : Symbol) : s.text.toList ≠ [] := by
  cases s <;> decide

/-- Words that cannot be names. -/
inductive Keyword
  | functionKey
  | returnKey
  | constKey
  | letKey
  | varKey
deriving DecidableEq, Repr

def Keyword.text : Keyword → String
  | .functionKey => "function"
  | .returnKey => "return"
  | .constKey => "const"
  | .letKey => "let"
  | .varKey => "var"

inductive Token
  | integer (n : Nat)
  | float (x : Binary64)
  | string (s : String)
  | boolean (b : Bool)
  | null
  | name (s : String)
  | keyword (k : Keyword)
  | symbol (s : Symbol)
deriving DecidableEq, Repr

namespace Token

/-- Numbers in messages have no exponent, show no fraction when whole, and round a tie up. -/
def numbers : Layout := ⟨none, none, false, .up⟩

/-- A text between backticks. -/
def ticked (s : String) : String :=
  "`" ++ s ++ "`"

/-- How a message names the token. -/
def text : Token → String
  | integer n => "number " ++ toString n
  | float x => "number " ++ numbers.number x
  | string s => "string " ++ Quoted.quote s
  | boolean true => ticked "true"
  | boolean false => ticked "false"
  | null => ticked "null"
  | name s => "identifier " ++ ticked s
  | keyword k => ticked k.text
  | symbol s => ticked s.text

/-- The token of a word: a keyword, one of the three constant words, or a name. -/
def ofWord (w : String) : Token :=
  match [Keyword.functionKey, .returnKey, .constKey, .letKey, .varKey].find? (·.text == w) with
  | some k => keyword k
  | none =>
    if w == "true" then boolean true
    else if w == "false" then boolean false
    else if w == "null" then null
    else name w

end Token

/-- A token and where it stands. -/
structure Lexeme where
  token : Token
  span : Span
deriving DecidableEq, Repr

/-- A token, or the end of the text, and where it stands. -/
structure Item where
  token? : Option Token
  span : Span
deriving DecidableEq, Repr

def Lexeme.item (x : Lexeme) : Item := ⟨some x.token, x.span⟩

/-- The end of a text, which is empty. -/
def Item.ending (place : Nat) : Item := ⟨none, ⟨place, place⟩⟩

/-- The token, if the item is not the end. -/
def Item.lexeme? (i : Item) : Option Lexeme := i.token?.map (⟨·, i.span⟩)

theorem filterMap_lexeme? (ts : List Lexeme) (place : Nat) :
    (ts.map Lexeme.item ++ [Item.ending place]).filterMap Item.lexeme? = ts := by
  induction ts with
  | nil => rfl
  | cons x ts ih => exact congrArg (x :: ·) ih

end Aggregation
