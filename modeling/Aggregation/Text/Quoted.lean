import Aggregation.Text.Combining
import Aggregation.Text.Printable

/-! Quoted text in messages.

A text is shown between double quotes. The double quote, the backslash and four controls have short
forms, every other character that would not be seen, or would be drawn onto its neighbour, is given
by its number, and all else stands for itself. -/
namespace Aggregation.Quoted

/-- The form of a character given by its code point. -/
def numbered (c : Char) : List Char :=
  "\\u\x7b".toList ++ Nat.toDigits 16 c.toNat ++ "\x7d".toList

/-- The form of a character inside the quotes. -/
def escape (c : Char) : List Char :=
  match c with
  | '\x00' => ['\\', '0']
  | '\t' => ['\\', 't']
  | '\r' => ['\\', 'r']
  | '\n' => ['\\', 'n']
  | '"' => ['\\', '"']
  | '\\' => ['\\', '\\']
  | c => if isCombining c || !isPrintable c then numbered c else [c]

/-- The text between double quotes. -/
def quote (s : String) : String :=
  String.ofList ('"' :: s.toList.flatMap escape ++ ['"'])

end Aggregation.Quoted
