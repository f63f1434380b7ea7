import Aggregation.Text.Cut

/-! String constants.

A string stands between two single or two double quotes, on one line. A backslash makes the next
character stand for something else, and only seven characters may follow one. `Quotation.body` reads
on after the opening quote; it stops where it finds that there is no string, before the character
that shows it. -/
namespace Aggregation.Quotation

/-- How the reading of a string ends. -/
inductive Ending
  | closed (value : List Char)
  | unterminated
  | badEscape (c : Char)
deriving DecidableEq, Repr

/-- Puts a character in front of the value, if there is one. -/
def Ending.push (c : Char) : Ending → Ending
  | closed value => closed (c :: value)
  | e => e

/-- An ending, and the text cut where it was found. -/
structure Outcome where
  ending : Ending
  cut : Cut
deriving DecidableEq, Repr

/-- Puts a character in front of the value, and the characters that spell it in front of those
read. -/
def Outcome.push (c : Char) (spelled : List Char) (o : Outcome) : Outcome :=
  ⟨o.ending.push c, o.cut.push spelled⟩

/-- What a character denotes after a backslash. -/
def escaped? : Char → Option Char
  | 'n' => some '\n'
  | 't' => some '\t'
  | 'r' => some '\r'
  | '0' => some '\x00'
  | '"' => some '"'
  | '\'' => some '\''
  | '\\' => some '\\'
  | _ => none

/-- Reads a string up to and with the quote that closes it. -/
def body (quote : Char) : List Char → Outcome
  | [] => ⟨.unterminated, .none []⟩
  | c :: cs =>
    if c = quote then ⟨.closed [], ⟨[c], cs⟩⟩
    else if c = '\n' then ⟨.unterminated, .none (c :: cs)⟩
    else if c = '\\' then
      match cs with
      | [] => ⟨.unterminated, ⟨[c], []⟩⟩
      | e :: ds =>
        match escaped? e with
        | some d => (body quote ds).push d [c, e]
        | none => ⟨.badEscape e, ⟨[c], e :: ds⟩⟩
    else (body quote cs).push c [c]

/-- What was read of a string and what follows it make up the text. -/
@[simp] theorem whole_body (quote : Char) (cs : List Char) : (body quote cs).cut.whole = cs := by
  fun_induction body quote cs <;> simp_all [Outcome.push]

end Aggregation.Quotation
