import Aggregation.Script.Reading

/-! The grammar of builder programs.

One function per rule, each on the list of tokens that are left. The rules follow the text from left
to right and never go back: one look ahead decides between an arrow function and any other
expression (`atArrow`), and every other choice is made by the next token. Node spans run from the
first token of the node to the last one read for it.

Rules that refer to one another end because the tokens get fewer, or stay as they are while the rule
called ranks lower. The ranks stand in the measures: twenty for each token that is left, and below
that one rank per rule.

The rules leave open how nodes are made, and in which monad. -/
namespace Aggregation.Grammar

/-- An unlabelled mark from `start` to `stop`. -/
def mark (start stop : Nat) : Mark Unit := ⟨(), ⟨start, stop⟩⟩

/-! ### Type annotations -/

/-- The annotation that a name with its arguments denotes. -/
def namedType (name : String) (args : List TypeExpr) : TypeExpr :=
  match name, args with
  | "number", [] => .number
  | "boolean", [] => .boolean
  | "string", [] => .string
  | "any", [] => .any
  | "unknown", [] => .any
  | "Array", [element] => .array element
  | name, args => .named name args

/-- Passes over pairs of brackets, each of which makes an array. -/
def brackets (a : TypeExpr) (stop : Nat) : (ts : List Lexeme) → Read TypeExpr (ts.length + 1)
  | ⟨.symbol .leftBracket, _⟩ :: ⟨.symbol .rightBracket, s⟩ :: r =>
    let ⟨a, stop, rest, h⟩ := brackets (.array a) s.stop r
    ⟨a, stop, rest, by simp only [List.length_cons]; omega⟩
  | ts => ⟨a, stop, ts, length_lt ts⟩

/-- The name of a member of an object type, which may be quoted. -/
def memberName : (ts : List Lexeme) → Parse String ts.length
  | ⟨.string name, s⟩ :: r => .ok ⟨name, s.stop, r, length_lt r⟩
  | ts => identifier ts

mutual

def typeExpr (ts : List Lexeme) : Parse TypeExpr ts.length := do
  let ⟨a, stop, r, h⟩ ← plainType ts
  let ⟨a, stop, r', h'⟩ := brackets a stop r
  return ⟨a, stop, r', by omega⟩
termination_by 4 * ts.length + 1
decreasing_by all_goals grind

/-- A type annotation without array brackets behind it. -/
def plainType (ts : List Lexeme) : Parse TypeExpr ts.length :=
  match ts with
  | ⟨.symbol .leftBrace, _⟩ :: r => do
    let ⟨fields, stop, r', h⟩ ← members r
    return ⟨.object fields, stop, r', by grind⟩
  | ⟨.name name, _⟩ :: ⟨.symbol .lt, _⟩ :: r => do
    let ⟨args, stop, r', h⟩ ← typeArgs r
    return ⟨namedType name args, stop, r', by grind⟩
  | ⟨.name name, s⟩ :: r => .ok ⟨namedType name [], s.stop, r, by grind⟩
  | ⟨.null, s⟩ :: r => .ok ⟨.named "null" [], s.stop, r, by grind⟩
  | ts => .error (.expected .typeExpr ts.head?)
termination_by 4 * ts.length
decreasing_by all_goals grind

/-- The arguments of a named type, up to and with the closing bracket. -/
def typeArgs (ts : List Lexeme) : Parse (List TypeExpr) ts.length := do
  let ⟨a, _, r, h⟩ ← typeExpr ts
  match r, h with
  | ⟨.symbol .comma, _⟩ :: r, h =>
    let ⟨as, stop, r', h'⟩ ← typeArgs r
    return ⟨a :: as, stop, r', by grind⟩
  | r, h =>
    let ⟨_, stop, r', h'⟩ ← expect .gt r
    return ⟨[a], stop, r', by grind⟩
termination_by 4 * ts.length + 2
decreasing_by all_goals grind

/-- The members of an object type, up to and with the closing brace. -/
def members (ts : List Lexeme) : Parse (List (String × TypeExpr)) ts.length :=
  match ts with
  | ⟨.symbol .rightBrace, s⟩ :: r => .ok ⟨[], s.stop, r, by grind⟩
  | ts => do
    let ⟨name, _, r, h⟩ ← memberName ts
    let ⟨_, _, r₁, h₁⟩ := optional .question 0 r
    let ⟨_, _, r₂, h₂⟩ ← expect .colon r₁
    let ⟨a, _, r₃, h₃⟩ ← typeExpr r₂
    if startsWith .semicolon r₃ || startsWith .comma r₃ then
      let ⟨ms, stop, r₄, h₄⟩ ← members r₃.tail
      return ⟨(name, a) :: ms, stop, r₄, by grind⟩
    else
      let ⟨_, stop, r₄, h₄⟩ ← expect .rightBrace r₃
      return ⟨[(name, a)], stop, r₄, by grind⟩
termination_by 4 * ts.length + 3
decreasing_by all_goals grind

end

/-- An annotation behind a colon, which may be left out. -/
def typeAfterColon (stop : Nat) : (ts : List Lexeme) → Parse (Option TypeExpr) (ts.length + 1)
  | ⟨.symbol .colon, _⟩ :: r => do
    let ⟨a, stop, r', h⟩ ← typeExpr r
    return ⟨some a, stop, r', by grind⟩
  | ts => .ok ⟨none, stop, ts, length_lt ts⟩

/-! ### Parameters -/

/-- A parameter. Its span is that of its name. -/
def param (ts : List Lexeme) : Parse Param ts.length := do
  let ⟨name, stop, r, h⟩ ← identifier ts
  let ⟨a, stop', r', h'⟩ ← typeAfterColon stop r
  return ⟨⟨name, ⟨startOf ts, stop⟩, a⟩, stop', r', by grind⟩

/-- The parameters of a function, up to and with the closing parenthesis. -/
def params (ts : List Lexeme) : Parse (List Param) ts.length :=
  match ts with
  | ⟨.symbol .rightParen, s⟩ :: r => .ok ⟨[], s.stop, r, by grind⟩
  | ts => do
    let ⟨p, _, r, h⟩ ← param ts
    let ⟨_, _, r₁, h₁⟩ ← separator .rightParen r
    let ⟨ps, stop, r₂, h₂⟩ ← params r₁
    return ⟨p :: ps, stop, r₂, by grind⟩
termination_by ts.length
decreasing_by all_goals grind

/-- What stands before an arrow: parameters in parentheses, or one bare name. -/
def arrowParams : (ts : List Lexeme) → Parse (List Param) ts.length
  | ⟨.symbol .leftParen, _⟩ :: r => do
    let ⟨ps, stop, r', h⟩ ← params r
    return ⟨ps, stop, r', by grind⟩
  | ts => do
    let ⟨name, stop, r, h⟩ ← identifier ts
    return ⟨[⟨name, ⟨startOf ts, stop⟩, none⟩], stop, r, h⟩

/-! ### Looking ahead -/

/-- The brackets of all kinds that open. -/
def opens (t : Token) : Bool :=
  t ∈ [.symbol .leftParen, .symbol .leftBracket, .symbol .leftBrace]

/-- The brackets of all kinds that close. -/
def closes (t : Token) : Bool :=
  t ∈ [.symbol .rightParen, .symbol .rightBracket, .symbol .rightBrace]

/-- Whether an arrow stands behind the bracket that closes the outermost of `depth` open ones. -/
def arrowAfter : Nat → List Lexeme → Bool
  | _, [] => false
  | depth, x :: r =>
    if opens x.token then arrowAfter (depth + 1) r
    else if closes x.token then
      if depth ≤ 1 then startsWith .arrow r else arrowAfter (depth - 1) r
    else arrowAfter depth r

/-- Whether the tokens begin an arrow function: a name or a group, and then an arrow. -/
def atArrow : List Lexeme → Bool
  | ⟨.name _, _⟩ :: r => startsWith .arrow r
  | ⟨.symbol .leftParen, _⟩ :: r => arrowAfter 1 r
  | _ => false

/-! ### Constants -/

/-- The constant that a token is. -/
def literal? : Token → Option Literal
  | .integer n => some (.integer n)
  | .float x => some (.float x)
  | .string s => some (.string s)
  | .boolean b => some (.boolean b)
  | .null => some .null
  | _ => none

/-- The constant that a number is behind a minus sign. -/
def negated? : Token → Option Literal
  | .integer n => some (.integer (-n))
  | .float x => some (.float (-x))
  | _ => none

/-- A number behind a minus sign is a negative constant, unless something is read from it. -/
def negative? : (ts : List Lexeme) → Option (Read Literal ts.length)
  | [] => none
  | x :: r =>
    if startsWith .dot r || startsWith .leftBracket r || startsWith .leftParen r then none
    else (negated? x.token).map fun v => ⟨v, x.span.stop, r, length_lt r⟩

/-- A name that may be left out and means nothing. -/
def skipName : (ts : List Lexeme) → Read Unit (ts.length + 1)
  | ⟨.name _, s⟩ :: r => ⟨(), s.stop, r, length_lt_add_two r⟩
  | ts => ⟨(), 0, ts, length_lt ts⟩

/-! ### Making nodes

A rule makes a node when the last token of the node has been read, and before anything behind it is. -/

/-- A way to make nodes while reading. -/
class NodeMaker (m : Type → Type) (ν : outParam Type) where
  node (make : Mark ν → Expr ν) (start stop : Nat) : m (Expr ν)

export NodeMaker (node)

/-- Nodes without labels. This is what a rule makes where nothing else is said. -/
@[default_instance]
instance : NodeMaker (Except ParseFault) Unit :=
  ⟨fun make start stop => .ok (make (mark start stop))⟩

section Rules

variable {m : Type → Type} {ν : Type} [Monad m] [MonadLiftT (Except ParseFault) m] [NodeMaker m ν]

def fail {α : Type} (f : ParseFault) : m α :=
  liftM (Except.error f : Except ParseFault α)

/-! ### Expressions and statements -/

mutual

def expression (ts : List Lexeme) : m (Read (Expr ν) ts.length) :=
  if atArrow ts then arrowFunction ts else conditional ts
termination_by 20 * ts.length + 17

/-- An arrow function. Its body is an expression, or a block in braces. -/
def arrowFunction (ts : List Lexeme) : m (Read (Expr ν) ts.length) := do
  let ⟨ps, _, r, h⟩ ← arrowParams ts
  let ⟨_, _, r₁, h₁⟩ ← expect .arrow r
  match r₁, h₁ with
  | ⟨.symbol .leftBrace, _⟩ :: r₂, h₁ =>
    let ⟨body, stop, r₃, h₃⟩ ← block r₂
    let e ← node (.function · .arrow ps body) (startOf ts) stop
    return ⟨e, stop, r₃, by grind⟩
  | r₁, h₁ =>
    let ⟨body, stop, r₂, h₂⟩ ← expression r₁
    let e ← node (.lambda · ps body) (startOf ts) stop
    return ⟨e, stop, r₂, by grind⟩
termination_by 20 * ts.length + 16
decreasing_by all_goals grind

/-- A conditional, or the operators that would be its condition. -/
def conditional (ts : List Lexeme) : m (Read (Expr ν) ts.length) := do
  let ⟨c, stop, r, h⟩ ← binary .or ts
  match r, h with
  | ⟨.symbol .question, _⟩ :: r, h =>
    let ⟨yes, _, r₁, h₁⟩ ← expression r
    let ⟨_, _, r₂, h₂⟩ ← expect .colon r₁
    let ⟨no, stop, r₃, h₃⟩ ← expression r₂
    let e ← node (.conditional · c yes no) c.span.start stop
    return ⟨e, stop, r₃, by grind⟩
  | r, h => return ⟨c, stop, r, h⟩
termination_by 20 * ts.length + 16
decreasing_by all_goals grind [Level.rank]

/-- Operands joined by the operators of a level, grouped to the left. -/
def binary (l : Level) (ts : List Lexeme) : m (Read (Expr ν) ts.length) := do
  let ⟨e, stop, r, h⟩ ← operand l ts
  let ⟨e, stop, r', h'⟩ ← binaryTail l e stop r
  return ⟨e, stop, r', by grind⟩
termination_by 20 * ts.length + 5 + 2 * l.rank
decreasing_by all_goals grind

def operand (l : Level) (ts : List Lexeme) : m (Read (Expr ν) ts.length) :=
  match _h : l.tighter with
  | some k => binary k ts
  | none => unary ts
termination_by 20 * ts.length + 4 + 2 * l.rank
decreasing_by
  · have := Level.rank_tighter ‹_›
    omega
  · omega

/-- The further operands of a level, behind those read so far. -/
def binaryTail (l : Level) (left : Expr ν) (stop : Nat) (ts : List Lexeme) :
    m (Read (Expr ν) (ts.length + 1)) :=
  match ts with
  | [] => return ⟨left, stop, [], by grind⟩
  | x :: r =>
    match l.operator? x.token with
    | none => return ⟨left, stop, x :: r, by grind⟩
    | some op => do
      let ⟨right, stop, r₁, h₁⟩ ← operand l r
      let joined ← node (.binary · op left right) left.span.start stop
      let ⟨e, stop, r₂, h₂⟩ ← binaryTail l joined stop r₁
      return ⟨e, stop, r₂, by grind⟩
termination_by 20 * ts.length
decreasing_by all_goals grind [Level.rank_le]

/-- Prefix operators and their operand. -/
def unary (ts : List Lexeme) : m (Read (Expr ν) ts.length) :=
  match ts with
  | ⟨.symbol .not, s⟩ :: r => do
    let ⟨e, stop, r', h⟩ ← unary r
    let e ← node (.unary · .not e) s.start stop
    return ⟨e, stop, r', by grind⟩
  | ⟨.symbol .minus, s⟩ :: r =>
    match negative? r with
    | some ⟨v, stop, r', h⟩ => do
      let e ← node (.literal · v) s.start stop
      return ⟨e, stop, r', by grind⟩
    | none => do
      let ⟨e, stop, r', h⟩ ← unary r
      let e ← node (.unary · .negate e) s.start stop
      return ⟨e, stop, r', by grind⟩
  | ts => suffixed ts
termination_by 20 * ts.length + 3
decreasing_by all_goals grind

/-- An expression with what is read from it or called on it. -/
def suffixed (ts : List Lexeme) : m (Read (Expr ν) ts.length) := do
  let ⟨e, stop, r, h⟩ ← primary ts
  let ⟨e, stop, r', h'⟩ ← suffixes e stop r
  return ⟨e, stop, r', by grind⟩
termination_by 20 * ts.length + 2
decreasing_by all_goals grind

/-- Properties, elements and calls, behind the expression they belong to. -/
def suffixes (e : Expr ν) (stop : Nat) (ts : List Lexeme) :
    m (Read (Expr ν) (ts.length + 1)) :=
  match ts with
  | ⟨.symbol .dot, _⟩ :: r => do
    let ⟨name, stop, r₁, h₁⟩ ← identifier r
    let e ← node (.property · e name) e.span.start stop
    let ⟨e, stop, r₂, h₂⟩ ← suffixes e stop r₁
    return ⟨e, stop, r₂, by grind⟩
  | ⟨.symbol .leftBracket, _⟩ :: r => do
    let ⟨index, _, r₁, h₁⟩ ← expression r
    let ⟨_, stop, r₂, h₂⟩ ← expect .rightBracket r₁
    let e ← node (.element · e index) e.span.start stop
    let ⟨e, stop, r₃, h₃⟩ ← suffixes e stop r₂
    return ⟨e, stop, r₃, by grind⟩
  | ⟨.symbol .leftParen, _⟩ :: r => do
    let ⟨args, stop, r₁, h₁⟩ ← arguments r
    let e ← node (.call · e args) e.span.start stop
    let ⟨e, stop, r₂, h₂⟩ ← suffixes e stop r₁
    return ⟨e, stop, r₂, by grind⟩
  | ts => return ⟨e, stop, ts, length_lt ts⟩
termination_by 20 * ts.length
decreasing_by all_goals grind

/-- The arguments of a call, up to and with the closing parenthesis. -/
def arguments (ts : List Lexeme) : m (Read (List (Expr ν)) ts.length) :=
  match ts with
  | ⟨.symbol .rightParen, s⟩ :: r => return ⟨[], s.stop, r, by grind⟩
  | ts => do
    let ⟨e, _, r, h⟩ ← expression ts
    let ⟨_, _, r₁, h₁⟩ ← separator .rightParen r
    let ⟨es, stop, r₂, h₂⟩ ← arguments r₁
    return ⟨e :: es, stop, r₂, by grind⟩
termination_by 20 * ts.length + 18
decreasing_by all_goals grind

/-- A constant, a name, a group, an object or a function. -/
def primary (ts : List Lexeme) : m (Read (Expr ν) ts.length) :=
  match ts with
  | ⟨.symbol .leftParen, s⟩ :: r => do
    let ⟨e, _, r₁, h₁⟩ ← expression r
    let ⟨_, stop, r₂, h₂⟩ ← expect .rightParen r₁
    let e ← node (.paren · e) s.start stop
    return ⟨e, stop, r₂, by grind⟩
  | ⟨.symbol .leftBrace, s⟩ :: r => do
    let ⟨ps, stop, r₁, h₁⟩ ← properties r
    let e ← node (.object · ps) s.start stop
    return ⟨e, stop, r₁, by grind⟩
  | ⟨.keyword .functionKey, s⟩ :: r => do
    let ⟨_, _, r₁, h₁⟩ := skipName r
    let ⟨_, _, r₂, h₂⟩ ← expect .leftParen r₁
    let ⟨ps, _, r₃, h₃⟩ ← params r₂
    let ⟨_, _, r₄, h₄⟩ ← typeAfterColon 0 r₃
    let ⟨_, _, r₅, h₅⟩ ← expect .leftBrace r₄
    let ⟨body, stop, r₆, h₆⟩ ← block r₅
    let e ← node (.function · .word ps body) s.start stop
    return ⟨e, stop, r₆, by grind⟩
  | ⟨.name name, s⟩ :: r => do
    let e ← node (.name · name) s.start s.stop
    return ⟨e, s.stop, r, by grind⟩
  | x :: r =>
    match literal? x.token with
    | some v => do
      let e ← node (.literal · v) x.span.start x.span.stop
      return ⟨e, x.span.stop, r, by grind⟩
    | none => fail (.unexpected (some x))
  | [] => fail (.unexpected none)
termination_by 20 * ts.length + 1
decreasing_by all_goals grind

/-- The entries of an object, up to and with the closing brace. -/
def properties (ts : List Lexeme) : m (Read (List (Property ν)) ts.length) :=
  match ts with
  | ⟨.symbol .rightBrace, s⟩ :: r => return ⟨[], s.stop, r, by grind⟩
  | ts => do
    let ⟨p, _, r, h⟩ ← property ts
    let ⟨_, _, r₁, h₁⟩ ← separator .rightBrace r
    let ⟨ps, stop, r₂, h₂⟩ ← properties r₁
    return ⟨p :: ps, stop, r₂, by grind⟩
termination_by 20 * ts.length + 1
decreasing_by all_goals grind

/-- An entry of an object. A name alone is its own value. -/
def property (ts : List Lexeme) : m (Read (Property ν) ts.length) :=
  match ts with
  | ⟨.name name, s⟩ :: r =>
    if startsWith .comma r || startsWith .rightBrace r then do
      let e ← node (.name · name) s.start s.stop
      return ⟨.shorthand s name e, s.stop, r, by grind⟩
    else do
      let ⟨e, stop, r', h⟩ ← fieldValue r
      return ⟨.field ⟨s.start, stop⟩ (.bare name) e, stop, r', by grind⟩
  | ⟨.string key, s⟩ :: r => do
    let ⟨e, stop, r', h⟩ ← fieldValue r
    return ⟨.field ⟨s.start, stop⟩ (.quoted key) e, stop, r', by grind⟩
  | ⟨.integer n, s⟩ :: r => do
    let ⟨e, stop, r', h⟩ ← fieldValue r
    return ⟨.field ⟨s.start, stop⟩ (.quoted (toString n)) e, stop, r', by grind⟩
  | ⟨.symbol .leftBracket, s⟩ :: r => do
    let ⟨key, _, r₁, h₁⟩ ← expression r
    let ⟨_, _, r₂, h₂⟩ ← expect .rightBracket r₁
    let ⟨e, stop, r₃, h₃⟩ ← fieldValue r₂
    return ⟨.computed ⟨s.start, stop⟩ key e, stop, r₃, by grind⟩
  | ts => fail (.expected .propertyName ts.head?)
termination_by 20 * ts.length
decreasing_by all_goals grind

/-- The value of an entry, from the colon on. -/
def fieldValue (ts : List Lexeme) : m (Read (Expr ν) ts.length) := do
  let ⟨_, _, r, h⟩ ← expect .colon ts
  let ⟨e, stop, r', h'⟩ ← expression r
  return ⟨e, stop, r', by grind⟩
termination_by 20 * ts.length
decreasing_by all_goals grind

/-- The statements of a block, up to and with the closing brace. -/
def block (ts : List Lexeme) : m (Read (List (Statement ν)) ts.length) :=
  match ts with
  | [] => fail (.expected (.symbol .rightBrace) none)
  | ⟨.symbol .rightBrace, s⟩ :: r => return ⟨[], s.stop, r, by grind⟩
  | ts => do
    let ⟨st, _, r, h⟩ ← statement ts
    let ⟨ss, stop, r', h'⟩ ← block r
    return ⟨st :: ss, stop, r', by grind⟩
termination_by 20 * ts.length + 20
decreasing_by all_goals grind

/-- A statement, with the semicolon behind it if there is one. -/
def statement (ts : List Lexeme) : m (Read (Statement ν) ts.length) := do
  let ⟨make, stop, r, h⟩ ← plainStatement ts
  let ⟨_, stop, r', h'⟩ := optional .semicolon stop r
  return ⟨make ⟨startOf ts, stop⟩, stop, r', by grind⟩
termination_by 20 * ts.length + 19
decreasing_by all_goals grind

/-- A statement up to its semicolon, still without its span. -/
def plainStatement (ts : List Lexeme) : m (Read (Span → Statement ν) ts.length) :=
  match ts with
  | ⟨.keyword .constKey, _⟩ :: r => do
    let ⟨d, stop, r', h⟩ ← declaration r
    return ⟨d, stop, r', by grind⟩
  | ⟨.keyword .letKey, _⟩ :: r => do
    let ⟨d, stop, r', h⟩ ← declaration r
    return ⟨d, stop, r', by grind⟩
  | ⟨.keyword .varKey, _⟩ :: r => do
    let ⟨d, stop, r', h⟩ ← declaration r
    return ⟨d, stop, r', by grind⟩
  | ⟨.keyword .returnKey, s⟩ :: r =>
    if r.isEmpty || startsWith .semicolon r || startsWith .rightBrace r then
      return ⟨(.result · none), s.stop, r, by grind⟩
    else do
      let ⟨e, stop, r', h⟩ ← expression r
      return ⟨(.result · (some e)), stop, r', by grind⟩
  | ts => do
    let ⟨e, stop, r, h⟩ ← expression ts
    return ⟨(.expression · e), stop, r, h⟩
termination_by 20 * ts.length + 18
decreasing_by all_goals grind

/-- A declaration behind its keyword. -/
def declaration (ts : List Lexeme) : m (Read (Span → Statement ν) ts.length) := do
  let ⟨name, stop, r, h⟩ ← identifier ts
  let ⟨_, stop, r₁, h₁⟩ ← typeAfterColon stop r
  match r₁, h₁ with
  | ⟨.symbol .assign, _⟩ :: r₂, h₁ =>
    let ⟨e, stop, r₃, h₃⟩ ← expression r₂
    return ⟨(.declaration · name (some e)), stop, r₃, by grind⟩
  | r₁, h₁ => return ⟨(.declaration · name none), stop, r₁, by grind⟩
termination_by 20 * ts.length
decreasing_by all_goals grind

end

/-! ### Whole texts -/

/-- The end of the tokens. -/
def finish : List Lexeme → Except ParseFault Unit
  | [] => .ok ()
  | x :: _ => .error (.expected .endOfInput (some x))

/-- One expression and nothing else, but for a semicolon. -/
def wholeExpression (ts : List Lexeme) : m (Expr ν) := do
  let ⟨e, stop, r, _⟩ ← expression ts
  finish (optional .semicolon stop r).rest
  return e

/-- One annotation and nothing else. -/
def wholeType (ts : List Lexeme) : Except ParseFault TypeExpr := do
  let ⟨a, _, r, _⟩ ← typeExpr ts
  finish r
  return a

/-- Statements up to the end. -/
def program (ts : List Lexeme) : m (List (Statement ν)) :=
  match ts with
  | [] => return []
  | ts => do
    let ⟨st, _, r, _⟩ ← statement ts
    let ss ← program r
    return st :: ss
termination_by ts.length

end Rules

end Aggregation.Grammar
