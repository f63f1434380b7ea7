import Aggregation.Text.Cut
import Aggregation.Text.Letter
import Aggregation.Text.Numeral
import Aggregation.Token.Basic

/-! Number constants.

A number begins with a digit and runs on over digits, a point that a digit follows, and exponent
letters with their signs. The run is taken whole, together with any name glued to it, before its
spelling is judged: it denotes a number if it is made of digits, perhaps a fraction and perhaps one
exponent, and otherwise the whole run is faulty. Digits alone denote an integer if it is below
`2^63`, and every other number is of double precision. -/
namespace Aggregation

/-- Whether a name may begin with the character. -/
def isNameStart (c : Char) : Bool :=
  isLetter c || c == '_' || c == '$'

/-- Whether a name may go on with the character. -/
def isNamePart (c : Char) : Bool :=
  isLetter c || isNumeral c || c == '_' || c == '$'

namespace Number

def startsWithDigit : List Char → Bool
  | [] => false
  | c :: _ => c.isDigit

/-- The characters of a number at the start of a text. A point is taken only while the number is
`whole`, that is before any point or exponent. -/
def run (whole : Bool) : List Char → Cut
  | [] => .none []
  | c :: cs =>
    if c.isDigit then (run whole cs).push [c]
    else if c == '.' && whole && startsWithDigit cs then (run false cs).push [c]
    else if c == 'e' || c == 'E' then
      match cs with
      | [] => ⟨[c], []⟩
      | s :: ds =>
        if s == '+' || s == '-' then (run false ds).push [c, s]
        else (run false (s :: ds)).push [c]
    else .none (c :: cs)

/-- The characters of a number and what follows them make up the text. -/
@[simp] theorem whole_run (whole : Bool) (cs : List Char) : (run whole cs).whole = cs := by
  fun_induction run whole cs <;> simp_all

/-- A number takes the digit it begins with. -/
theorem taken_run_ne_nil (whole : Bool) {c : Char} (cs : List Char) (h : c.isDigit = true) :
    (run whole (c :: cs)).taken ≠ [] := by
  unfold run
  simp [h, Cut.push]

/-- The number that decimal digits denote. -/
def ofDigits (ds : List Char) : Nat :=
  ds.foldl (fun n d => 10 * n + (d.toNat - '0'.toNat)) 0

/-- The exponent that a text denotes: none if it is empty, else a letter, perhaps a sign, and
digits. -/
def exponent? : List Char → Option Int
  | [] => some 0
  | e :: cs =>
    if e == 'e' || e == 'E' then
      let negative := cs.head? == some '-'
      let ds := if negative || cs.head? == some '+' then cs.tail else cs
      if ds.isEmpty || !ds.all Char.isDigit then none
      else some (if negative then -(ofDigits ds : Int) else ofDigits ds)
    else none

/-- The value of a decimal with a fraction or an exponent. -/
def decimal? (cs : List Char) : Option Binary64 :=
  let whole := cs.takeWhile Char.isDigit
  let rest := cs.dropWhile Char.isDigit
  let fraction := if rest.head? == some '.' then rest.tail.takeWhile Char.isDigit else []
  let tail := if rest.head? == some '.' then rest.tail.dropWhile Char.isDigit else rest
  (exponent? tail).map fun e =>
    Binary64.ofDecimal (ofDigits (whole ++ fraction)) (e - fraction.length)

/-- The bound of integer constants; digits for a number from here on give one of double precision. -/
def integerBound : Nat := 1 <<< 63

/-- The token that the characters of a number spell. -/
def token? (cs : List Char) : Option Token :=
  if cs.all Char.isDigit && ofDigits cs < integerBound then some (.integer (ofDigits cs))
  else (decimal? cs).map .float

end Number

end Aggregation
