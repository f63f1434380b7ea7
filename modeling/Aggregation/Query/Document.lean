import Aggregation.Query.Value

/-! Documents, the written form of aggregations.

A document is a tree of objects, lists and scalars in which the fields of an object keep their
order. Setting a field that an object already has gives it the new value in its old place. Documents
have two texts, one without any blanks and one with two blanks of indentation for each level. -/
namespace Aggregation

inductive Document
  | null
  | boolean (b : Bool)
  | integer (n : Int)
  | float (x : Binary64)
  | string (s : String)
  | list (items : List Document)
  | object (fields : List (String × Document))
deriving Repr

namespace Document

/-! ### Objects -/

/-- Sets a field, in its old place if it has one and else at the end. -/
def set (fields : List (String × Document)) (key : String) (d : Document) :
    List (String × Document) :=
  match fields with
  | [] => [(key, d)]
  | (k, v) :: rest => if k = key then (k, d) :: rest else (k, v) :: set rest key d

/-- The object that results from setting fields one after the other. -/
def ofFields (fields : List (String × Document)) : Document :=
  object (fields.foldl (fun done (k, d) => set done k d) [])

/-- The object with one field. -/
def ofField (key : String) (d : Document) : Document :=
  object [(key, d)]

/-! ### Aggregations as documents -/

/-- The document of a constant. A number that is not finite has none and becomes null. -/
def ofLiteral : Literal → Document
  | .integer n => integer n
  | .float x => if x.isFinite then float x else null
  | .string s => string s
  | .boolean b => boolean b
  | .null => null

mutual

def ofValue : Value → Document
  | .fieldRef path => string path
  | .localRef path => string path
  | .name s => string s
  | .literal v => ofField "$literal" (ofLiteral v)
  | .single op v => ofField op (ofValue v)
  | .list op vs => ofField op (list (ofValues vs))
  | .named op vs => ofField op (ofFields (ofEntries vs))

def ofValues : List Value → List Document
  | [] => []
  | v :: vs => ofValue v :: ofValues vs

/-- The documents of named expressions. -/
def ofEntries : List (String × Value) → List (String × Document)
  | [] => []
  | (k, v) :: vs => (k, ofValue v) :: ofEntries vs

end

def ofStage (s : Stage) : Document :=
  ofField s.name (ofFields (ofEntries s.body))

def ofPipeline (p : Pipeline) : Document :=
  list (p.stages.map ofStage)

/-! ### Text -/

/-- Numbers from `10^-5` up to `10^16` are written positionally and always with a fraction, the
others with a signed exponent; a tie goes to the even digit. -/
def numbers : Layout := ⟨some (-5), some 15, true, .even⟩

/-- A character inside a quoted text: the quote, the backslash and controls are escaped. -/
def escape (c : Char) : List Char :=
  match c with
  | '"' => ['\\', '"']
  | '\\' => ['\\', '\\']
  | '\x08' => ['\\', 'b']
  | '\t' => ['\\', 't']
  | '\n' => ['\\', 'n']
  | '\x0c' => ['\\', 'f']
  | '\r' => ['\\', 'r']
  | c =>
    if c.toNat < 32 then
      let ds := Nat.toDigits 16 c.toNat
      ['\\', 'u'] ++ List.replicate (4 - ds.length) '0' ++ ds
    else [c]

def quote (s : String) : String :=
  String.ofList ('"' :: s.toList.flatMap escape ++ ['"'])

/-- Items between brackets, separated by commas. -/
def enclose (opening closing : String) (items : List String) : String :=
  opening ++ ",".intercalate items ++ closing

/-- A line break and the blanks that follow it. -/
def newline (depth : Nat) : String :=
  String.ofList ('\n' :: List.replicate (2 * depth) ' ')

/-- Items between brackets, each on a line of its own; without items there is just the pair. -/
def encloseLines (opening closing : String) (depth : Nat) (items : List String) : String :=
  match items with
  | [] => opening ++ closing
  | items =>
    opening ++ newline (depth + 1) ++ ("," ++ newline (depth + 1)).intercalate items ++
      newline depth ++ closing

mutual

/-- The text without blanks. -/
def compact : Document → String
  | null => "null"
  | boolean true => "true"
  | boolean false => "false"
  | integer n => toString n
  | float x => numbers.number x
  | string s => quote s
  | list items => enclose "[" "]" (compactItems items)
  | object fields => enclose "\x7b" "\x7d" (compactFields fields)

def compactItems : List Document → List String
  | [] => []
  | d :: ds => compact d :: compactItems ds

def compactFields : List (String × Document) → List String
  | [] => []
  | (k, d) :: ds => (quote k ++ ":" ++ compact d) :: compactFields ds

end

mutual

/-- The indented text of a document that stands at the given depth. -/
def indented (depth : Nat) : Document → String
  | null => "null"
  | boolean true => "true"
  | boolean false => "false"
  | integer n => toString n
  | float x => numbers.number x
  | string s => quote s
  | list items => encloseLines "[" "]" depth (indentedItems (depth + 1) items)
  | object fields => encloseLines "\x7b" "\x7d" depth (indentedFields (depth + 1) fields)

def indentedItems (depth : Nat) : List Document → List String
  | [] => []
  | d :: ds => indented depth d :: indentedItems depth ds

def indentedFields (depth : Nat) : List (String × Document) → List String
  | [] => []
  | (k, d) :: ds => (quote k ++ ": " ++ indented depth d) :: indentedFields depth ds

end

/-- The indented text. -/
def pretty (d : Document) : String :=
  indented 0 d

end Document

end Aggregation
