import Aggregation.Token.Gap
import Aggregation.Token.Number
import Aggregation.Token.Quotation

/-! Reading tokens.

`Token.scan` reads one token from the start of a text without a gap. It never looks at what came
before, so the tokens of a text depend on nothing but the characters that follow. `Lexer.next` adds
the gaps and the places, and `Lexer.items` reads a text to its end, which is its last item, or to the
first fault. A lexer that met a fault stands where it had read to, and can go on from there. -/
namespace Aggregation

/-- Why no token can be read. -/
inductive LexFault
  | unexpectedChar (c : Char)
  | unterminatedString
  | invalidEscape (c : Char)
  | invalidNumber (text : String)
  | unterminatedComment
deriving DecidableEq, Repr

/-- A fault and where it is reported. -/
structure LexError where
  fault : LexFault
  position : Position
deriving DecidableEq, Repr

def LexError.message (e : LexError) : String :=
  let place := e.position.text
  match e.fault with
  | .unexpectedChar c => "unexpected character '" ++ c.toString ++ "' at " ++ place
  | .unterminatedString => "unterminated string starting at " ++ place
  | .invalidEscape c => "invalid escape sequence '\\" ++ c.toString ++ "' at " ++ place
  | .invalidNumber text => "invalid number " ++ Token.ticked text ++ " at " ++ place
  | .unterminatedComment => "unterminated block comment starting at " ++ place

namespace Token

/-- The symbols, a longer spelling before a shorter one. -/
def symbols : List Symbol := [
  .strictEq, .strictNe,
  .looseEq, .looseNe, .arrow, .le, .ge, .and, .or,
  .dot, .comma, .colon, .semicolon, .question, .assign,
  .leftParen, .rightParen, .leftBrace, .rightBrace, .leftBracket, .rightBracket,
  .plus, .minus, .star, .slash, .percent, .lt, .gt, .not]

/-- The longest symbol at the start of a text. -/
def symbol? (cs : List Char) : Option Symbol :=
  symbols.find? (·.text.toList.isPrefixOf cs)

/-- A token or a fault, and the text cut behind the characters read for it. -/
structure Scan where
  result : Except LexFault Token
  cut : Cut

/-- Reads a number, and any name glued to it. -/
def scanNumber (cs : List Char) : Scan :=
  let number := Number.run true cs
  if number.rest.head?.any isNameStart then
    let glued := (Cut.span isNamePart number.rest).push number.taken
    ⟨.error (.invalidNumber (String.ofList glued.taken)), glued⟩
  else
    match Number.token? number.taken with
    | some t => ⟨.ok t, number⟩
    | none => ⟨.error (.invalidNumber (String.ofList number.taken)), number⟩

/-- Reads a string from its opening quote on. -/
def scanString (quote : Char) (cs : List Char) : Scan :=
  let o := Quotation.body quote cs
  let result : Except LexFault Token :=
    match o.ending with
    | .closed value => .ok (.string (String.ofList value))
    | .unterminated => .error .unterminatedString
    | .badEscape c => .error (.invalidEscape c)
  ⟨result, o.cut.push [quote]⟩

/-- Reads a name, a keyword or a constant word. -/
def scanWord (cs : List Char) : Scan :=
  let word := Cut.span isNamePart cs
  ⟨.ok (ofWord (String.ofList word.taken)), word⟩

/-- Reads a token that begins with the given character. -/
def scan (c : Char) (cs : List Char) : Scan :=
  if ['/', '*'].isPrefixOf (c :: cs) then ⟨.error .unterminatedComment, ⟨c :: cs, []⟩⟩
  else
    match symbol? (c :: cs) with
    | some s =>
      let n := s.text.toList.length
      ⟨.ok (.symbol s), ⟨(c :: cs).take n, (c :: cs).drop n⟩⟩
    | none =>
      if c = '"' || c = '\'' then scanString c cs
      else if c.isDigit then scanNumber (c :: cs)
      else if isNameStart c then scanWord (c :: cs)
      else ⟨.error (.unexpectedChar c), .none (c :: cs)⟩

/-! What is read and what is left make up the text, and a token is never empty. -/

theorem whole_scanNumber (cs : List Char) : (scanNumber cs).cut.whole = cs := by
  have h := Number.whole_run true cs
  unfold scanNumber
  simp only
  split
  · rw [Cut.whole_push, Cut.whole_span]
    exact h
  · split <;> exact h

theorem whole_scan (c : Char) (cs : List Char) : (scan c cs).cut.whole = c :: cs := by
  unfold scan
  split
  · simp
  · split
    · exact List.take_append_drop _ _
    · split
      · simp [scanString]
      · split
        · exact whole_scanNumber _
        · split
          · exact Cut.whole_span _ _
          · rfl

theorem isNamePart_of_isNameStart {c : Char} (h : isNameStart c = true) : isNamePart c = true := by
  simp only [isNameStart, isNamePart, Bool.or_eq_true] at h ⊢
  rcases h with (h | h) | h <;> simp [h]

theorem taken_scanNumber_ne_nil {c : Char} (cs : List Char) (hc : c.isDigit = true) :
    (scanNumber (c :: cs)).cut.taken ≠ [] := by
  have h := Number.taken_run_ne_nil true cs hc
  unfold scanNumber
  simp only
  split
  · simp [Cut.push, h]
  · split <;> exact h

theorem taken_scan_ne_nil {c : Char} {cs : List Char} {t : Token}
    (h : (scan c cs).result = .ok t) : (scan c cs).cut.taken ≠ [] := by
  revert h
  unfold scan
  split
  · intro h
    simp at h
  · split
    · rename_i s _
      intro _
      simpa using s.text_ne_nil
    · split
      · intro _
        simp [scanString, Cut.push]
      · split
        · rename_i hc
          intro _
          exact taken_scanNumber_ne_nil cs hc
        · split
          · rename_i hc
            intro _
            simp [scanWord, Cut.span, isNamePart_of_isNameStart hc]
          · intro h
            simp at h

end Token

/-- A reader of tokens: the whole text, how many bytes of it are read, and what is left. -/
structure Lexer where
  source : List Char
  offset : Nat
  rest : List Char
deriving DecidableEq, Repr

namespace Lexer

/-- A reader at the start of a text. -/
def start (source : List Char) : Lexer := ⟨source, 0, source⟩

/-- The next token, or none at the end of the text. A bad escape is reported at its character, any
other fault where the token would have begun. -/
def next (l : Lexer) : Except LexError (Option Lexeme) × Lexer :=
  let gap := Gap.split l.rest
  let begin := l.offset + byteLength gap.taken
  match gap.rest with
  | [] => (.ok none, { l with offset := begin, rest := [] })
  | c :: cs =>
    let s := Token.scan c cs
    let finish := begin + byteLength s.cut.taken
    let after := { l with offset := finish, rest := s.cut.rest }
    match s.result with
    | .ok t => (.ok (some ⟨t, ⟨begin, finish⟩⟩), after)
    | .error f =>
      let place := match f with
        | .invalidEscape _ => finish
        | _ => begin
      (.error ⟨f, Position.of l.source place⟩, after)

/-- The text left after a token is shorter. -/
theorem length_rest_next {l after : Lexer} {x : Lexeme} (h : l.next = (.ok (some x), after)) :
    after.rest.length < l.rest.length := by
  have hgap := Gap.whole_split l.rest
  unfold next at h
  simp only at h
  split at h
  · simp at h
  · rename_i c cs hrest
    split at h
    · rename_i t ht
      obtain ⟨-, rfl⟩ := Prod.mk.inj h
      have hwhole := congrArg List.length (Token.whole_scan c cs)
      have hlen := congrArg List.length hgap
      have htaken := List.length_pos_iff.2 (Token.taken_scan_ne_nil ht)
      simp only [Cut.whole, hrest, List.length_append, List.length_cons] at hwhole hlen
      simp only
      omega
    · simp at h

/-- The next token, or the end of the text where the reader then stands. -/
def nextItem (l : Lexer) : Except LexError Item × Lexer :=
  let (answer, after) := l.next
  (answer.map fun x => (x.map Lexeme.item).getD (.ending after.offset), after)

/-- The tokens that are left and the end of the text, or the first fault. -/
def items (l : Lexer) : Except LexError (List Item) :=
  match _h : l.next with
  | (.error e, _) => .error e
  | (.ok none, after) => .ok [.ending after.offset]
  | (.ok (some x), after) => after.items.map (x.item :: ·)
termination_by l.rest.length
decreasing_by exact length_rest_next ‹_›

theorem items_eq (l : Lexer) : l.items = l.next.1 >>= fun
    | none => .ok [.ending l.next.2.offset]
    | some x => l.next.2.items.map (x.item :: ·) := by
  rw [items]
  split <;> rename_i h <;> rw [h] <;> rfl

/-- The same without the end. -/
def tokens (l : Lexer) : Except LexError (List Lexeme) :=
  l.items.map (·.filterMap Item.lexeme?)

end Lexer

/-- The tokens of a text and its end. -/
def itemize (source : String) : Except LexError (List Item) :=
  (Lexer.start source.toList).items

/-- The tokens of a text. -/
def tokenize (source : String) : Except LexError (List Lexeme) :=
  (Lexer.start source.toList).tokens

end Aggregation
