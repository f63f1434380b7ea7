import Aggregation.Script.Grammar

/-! The rules of the grammar as walks of a cursor.

Here a rule moves a cursor over a fixed list of tokens, and the end of the list stands for the token that
ends every text. What a rule does is said once, with `call` for the rules that it calls (`body`), and a
loop is a rule that calls itself. Nothing bounds loops and calls but how deep they may be nested: `walk n`
allows `n` calls inside each other, and a rule that needs more comes out `unfinished`.

A rule that fails stops at the token that does not fit. Where a token has been looked at and is then
taken, to find another one in its place is an outcome of its own (`unreachable`).

The one choice that the next token does not decide, between an arrow function and any other expression,
is a parameter: `choose` says at which positions an arrow function is read. The grammar looks ahead for it
(`lookahead`). -/
namespace Aggregation.Cursor

/-- How a walk ends: behind what it has read, at a token that does not fit, where it was held to be
impossible, or not within the calls allowed to it. -/
inductive Outcome
  | done (position : Nat)
  | failed (fault : ParseFault) (position : Nat)
  | unreachable
  | unfinished
deriving DecidableEq, Repr

/-- The walk goes on from where another one is done. -/
def Outcome.andThen : Outcome → (Nat → Outcome) → Outcome
  | done c, next => next c
  | failed fault c, _ => failed fault c
  | unreachable, _ => unreachable
  | unfinished, _ => unfinished

/-- The rules, with a rule of its own for each loop. -/
inductive Rule
  | typeExpr | brackets | typeArgs | members | params
  | expression | arrowFunction | conditional
  | binary (l : Level) | binaryTail (l : Level)
  | unary | suffixed | suffixes | arguments | primary | properties
  | block | statement | program
deriving DecidableEq, Repr

/-- The kinds of tokens that are taken after a look at them. -/
inductive Kind
  | name | string | integer
deriving DecidableEq, Repr

/-- Whether a token is of a kind. -/
def Kind.has : Kind → Token → Bool
  | name, .name _ => true
  | string, .string _ => true
  | integer, .integer _ => true
  | _, _ => false

section

variable (tokens : List Lexeme)

/-! ### Single tokens -/

/-- Whether the token at the cursor has a property. The end of the tokens has none. -/
def fits (p : Token → Bool) (c : Nat) : Bool :=
  tokens[c]?.any (p ·.token)

/-- Whether the token at the cursor is the given symbol. -/
def sees (s : Symbol) (c : Nat) : Bool :=
  fits tokens (· == .symbol s) c

/-- Whether the cursor is behind all tokens. -/
def atEnd (c : Nat) : Bool :=
  tokens[c]?.isNone

/-- Moves over a token. At the end the cursor stays. -/
def advance (c : Nat) : Nat :=
  if atEnd tokens c then c else c + 1

/-- Moves over a symbol that may be left out. -/
def skip (s : Symbol) (c : Nat) : Nat :=
  if sees tokens s c then advance tokens c else c

/-- Stops at a token in place of which something else was wanted. -/
def stuck (what : Expectation) (c : Nat) : Outcome :=
  .failed (.expected what tokens[c]?) c

def expect (s : Symbol) (c : Nat) : Outcome :=
  if sees tokens s c then .done (advance tokens c) else stuck tokens (.symbol s) c

/-- Takes a token that was seen to be of a kind. -/
def take (k : Kind) (c : Nat) : Outcome :=
  if fits tokens k.has c then .done (advance tokens c) else .unreachable

def identifier (c : Nat) : Outcome :=
  if fits tokens Kind.name.has c then take tokens .name c else stuck tokens .identifier c

/-- Moves over the comma behind an item of a list; before the end of the list there need be none. -/
def separator (close : Symbol) (c : Nat) : Outcome :=
  if sees tokens close c then .done c else expect tokens .comma c

/-- Ends the walk at the end of the tokens. -/
def finish (c : Nat) : Outcome :=
  if atEnd tokens c then .done c else stuck tokens .endOfInput c

/-- Whether something is read from what stands before the cursor, or it is called. -/
def seesSuffix (c : Nat) : Bool :=
  sees tokens .dot c || sees tokens .leftBracket c || sees tokens .leftParen c

/-- Whether an arrow function is read at the cursor, by looking ahead. -/
def lookahead (c : Nat) : Bool :=
  Grammar.atArrow (tokens.drop c)

/-! ### Rules -/

section Rules

variable (call : Rule → Nat → Outcome)

/-- One round of a loop over the items of a list, up to and with the symbol that closes it. -/
def list (close : Symbol) (item again : Nat → Outcome) (c : Nat) : Outcome :=
  if sees tokens close c then expect tokens close c
  else (item c).andThen fun c => (separator tokens close c).andThen again

/-- Reads a type annotation without array brackets behind it. -/
def plainType (c : Nat) : Outcome :=
  if sees tokens .leftBrace c then call .members (advance tokens c)
  else if fits tokens Kind.name.has c then
    (identifier tokens c).andThen fun c =>
      if sees tokens .lt c then call .typeArgs (advance tokens c) else .done c
  else if fits tokens (· == .null) c then .done (advance tokens c)
  else stuck tokens .typeExpr c

def typeExpr (c : Nat) : Outcome :=
  (plainType tokens call c).andThen (call .brackets)

/-- Passes over pairs of brackets. -/
def brackets (c : Nat) : Outcome :=
  if sees tokens .leftBracket c && sees tokens .rightBracket (c + 1) then
    call .brackets (advance tokens (advance tokens c))
  else .done c

/-- Reads the arguments of a named type. -/
def typeArgs (c : Nat) : Outcome :=
  (call .typeExpr c).andThen fun c =>
    if sees tokens .comma c then call .typeArgs (advance tokens c) else expect tokens .gt c

/-- Reads the name of a member of an object type. -/
def memberName (c : Nat) : Outcome :=
  if fits tokens Kind.string.has c then take tokens .string c else identifier tokens c

def members (c : Nat) : Outcome :=
  if sees tokens .rightBrace c then expect tokens .rightBrace c
  else (memberName tokens c).andThen fun c =>
    (expect tokens .colon (skip tokens .question c)).andThen fun c =>
      (call .typeExpr c).andThen fun c =>
        if sees tokens .semicolon c || sees tokens .comma c then call .members (advance tokens c)
        else expect tokens .rightBrace c

/-- Reads an annotation behind a colon, if there is a colon. -/
def typeAfterColon (c : Nat) : Outcome :=
  if sees tokens .colon c then call .typeExpr (advance tokens c) else .done c

def param (c : Nat) : Outcome :=
  (identifier tokens c).andThen (typeAfterColon tokens call)

/-- Reads what stands before an arrow. -/
def arrowParams (c : Nat) : Outcome :=
  if sees tokens .leftParen c then call .params (advance tokens c) else identifier tokens c

def arrowFunction (c : Nat) : Outcome :=
  (arrowParams tokens call c).andThen fun c => (expect tokens .arrow c).andThen fun c =>
    if sees tokens .leftBrace c then call .block (advance tokens c) else call .expression c

/-- Reads a conditional, or the operators that would be its condition. -/
def conditional (c : Nat) : Outcome :=
  (call (.binary .or) c).andThen fun c =>
    if sees tokens .question c then
      (call .expression (advance tokens c)).andThen fun c =>
        (expect tokens .colon c).andThen (call .expression)
    else .done c

def operand (l : Level) (c : Nat) : Outcome :=
  match l.tighter with
  | some m => call (.binary m) c
  | none => call .unary c

/-- Reads the further operands of a level. -/
def binaryTail (l : Level) (c : Nat) : Outcome :=
  if fits tokens (fun t => (l.operator? t).isSome) c then
    (operand call l (advance tokens c)).andThen (call (.binaryTail l))
  else .done c

/-- Reads prefix operators and their operand. -/
def unary (c : Nat) : Outcome :=
  if sees tokens .not c then call .unary (advance tokens c)
  else if sees tokens .minus c then
    if fits tokens (fun t => (Grammar.negated? t).isSome) (c + 1) && !seesSuffix tokens (c + 2) then
      .done (advance tokens (advance tokens c))
    else call .unary (advance tokens c)
  else call .suffixed c

/-- Reads properties, elements and calls. -/
def suffixes (c : Nat) : Outcome :=
  if sees tokens .dot c then (identifier tokens (advance tokens c)).andThen (call .suffixes)
  else if sees tokens .leftBracket c then
    (call .expression (advance tokens c)).andThen fun c =>
      (expect tokens .rightBracket c).andThen (call .suffixes)
  else if sees tokens .leftParen c then (call .arguments (advance tokens c)).andThen (call .suffixes)
  else .done c

/-- Reads a function behind its keyword. The name may be left out. -/
def functionRest (c : Nat) : Outcome :=
  (expect tokens .leftParen (if fits tokens Kind.name.has c then advance tokens c else c)).andThen
    fun c => (call .params c).andThen fun c => (typeAfterColon tokens call c).andThen fun c =>
      (expect tokens .leftBrace c).andThen (call .block)

/-- Reads a constant, a name, a group, an object or a function. -/
def primary (c : Nat) : Outcome :=
  if sees tokens .leftParen c then
    (call .expression (advance tokens c)).andThen (expect tokens .rightParen)
  else if sees tokens .leftBrace c then call .properties (advance tokens c)
  else if fits tokens (· == .keyword .functionKey) c then functionRest tokens call (advance tokens c)
  else if fits tokens Kind.name.has c then identifier tokens c
  else if fits tokens (fun t => (Grammar.literal? t).isSome) c then .done (advance tokens c)
  else .failed (.unexpected tokens[c]?) c

/-- Reads the value of an entry, from the colon on. -/
def fieldValue (c : Nat) : Outcome :=
  (expect tokens .colon c).andThen (call .expression)

/-- Reads an entry of an object. -/
def property (c : Nat) : Outcome :=
  if fits tokens Kind.name.has c then
    (identifier tokens c).andThen fun c =>
      if sees tokens .comma c || sees tokens .rightBrace c then .done c
      else fieldValue tokens call c
  else if fits tokens Kind.string.has c then (take tokens .string c).andThen (fieldValue tokens call)
  else if fits tokens Kind.integer.has c then (take tokens .integer c).andThen (fieldValue tokens call)
  else if sees tokens .leftBracket c then
    (call .expression (advance tokens c)).andThen fun c =>
      (expect tokens .rightBracket c).andThen (fieldValue tokens call)
  else stuck tokens .propertyName c

/-- Reads the statements of a block. -/
def block (c : Nat) : Outcome :=
  if sees tokens .rightBrace c then expect tokens .rightBrace c
  else if atEnd tokens c then stuck tokens (.symbol .rightBrace) c
  else (call .statement c).andThen (call .block)

/-- Reads a declaration behind its keyword. -/
def declaration (c : Nat) : Outcome :=
  (identifier tokens c).andThen fun c => (typeAfterColon tokens call c).andThen fun c =>
    if sees tokens .assign c then call .expression (advance tokens c) else .done c

/-- Reads a statement up to its semicolon. -/
def plainStatement (c : Nat) : Outcome :=
  if fits tokens (· ∈ [.keyword .constKey, .keyword .letKey, .keyword .varKey]) c then
    declaration tokens call (advance tokens c)
  else if fits tokens (· == .keyword .returnKey) c then
    if atEnd tokens (c + 1) || sees tokens .semicolon (c + 1) || sees tokens .rightBrace (c + 1) then
      .done (advance tokens c)
    else call .expression (advance tokens c)
  else call .expression c

/-- What a rule does at the cursor, where `call` runs the rules that it calls. -/
def body (choose : Nat → Bool) : Rule → Nat → Outcome
  | .typeExpr, c => typeExpr tokens call c
  | .brackets, c => brackets tokens call c
  | .typeArgs, c => typeArgs tokens call c
  | .members, c => members tokens call c
  | .params, c => list tokens .rightParen (param tokens call) (call .params) c
  | .expression, c => if choose c then call .arrowFunction c else call .conditional c
  | .arrowFunction, c => arrowFunction tokens call c
  | .conditional, c => conditional tokens call c
  | .binary l, c => (operand call l c).andThen (call (.binaryTail l))
  | .binaryTail l, c => binaryTail tokens call l c
  | .unary, c => unary tokens call c
  | .suffixed, c => (call .primary c).andThen (call .suffixes)
  | .suffixes, c => suffixes tokens call c
  | .arguments, c => list tokens .rightParen (call .expression) (call .arguments) c
  | .primary, c => primary tokens call c
  | .properties, c => list tokens .rightBrace (property tokens call) (call .properties) c
  | .block, c => block tokens call c
  | .statement, c =>
    (plainStatement tokens call c).andThen fun c => .done (skip tokens .semicolon c)
  | .program, c =>
    if atEnd tokens c then .done c else (call .statement c).andThen (call .program)

end Rules

/-- A rule at the cursor, with calls nested at most `n` deep. -/
def walk (choose : Nat → Bool) : Nat → Rule → Nat → Outcome
  | 0, _, _ => .unfinished
  | n + 1, rule, c => body tokens (walk choose n) choose rule c

/-- One expression and nothing else, but for a semicolon. -/
def wholeExpression (choose : Nat → Bool) (n c : Nat) : Outcome :=
  (walk tokens choose n .expression c).andThen fun c => finish tokens (skip tokens .semicolon c)

end

end Aggregation.Cursor
