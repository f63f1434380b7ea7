import Aggregation.Script.Operator

/-! The trees of builder programs.

Every expression node carries a `Mark`: its span, and a label of a type that the tree leaves open.
Reading a program gives unlabelled trees, and numbering them gives each node its own number. Groups
in parentheses are nodes of their own; `Expr.bare` looks through them. -/
namespace Aggregation

/-- A scalar constant. -/
inductive Literal
  | integer (n : Int)
  | float (x : Binary64)
  | string (s : String)
  | boolean (b : Bool)
  | null
deriving DecidableEq, Repr

inductive TypeExpr
  | number
  | boolean
  | string
  | any
  | array (element : TypeExpr)
  | object (fields : List (String × TypeExpr))
  | named (name : String) (args : List TypeExpr)
deriving Repr

structure Param where
  name : String
  span : Span
  type? : Option TypeExpr
deriving Repr

/-- Whether a function is written with an arrow or with the word `function`. -/
inductive FunctionStyle
  | arrow
  | word
deriving DecidableEq, Repr

/-- A written-out key of an object. -/
inductive FieldName
  | bare (s : String)
  | quoted (s : String)
deriving DecidableEq, Repr

/-- The key itself, however written. -/
def FieldName.text : FieldName → String
  | .bare s => s
  | .quoted s => s

/-- What a node carries besides its meaning. -/
structure Mark (ν : Type) where
  label : ν
  span : Span
deriving DecidableEq, Repr

mutual

inductive Expr (ν : Type)
  | name (mark : Mark ν) (s : String)
  | literal (mark : Mark ν) (value : Literal)
  | paren (mark : Mark ν) (inner : Expr ν)
  | property (mark : Mark ν) (object : Expr ν) (name : String)
  | element (mark : Mark ν) (object index : Expr ν)
  | binary (mark : Mark ν) (op : BinaryOp) (left right : Expr ν)
  | unary (mark : Mark ν) (op : UnaryOp) (operand : Expr ν)
  | conditional (mark : Mark ν) (condition yes no : Expr ν)
  | call (mark : Mark ν) (callee : Expr ν) (args : List (Expr ν))
  | lambda (mark : Mark ν) (params : List Param) (body : Expr ν)
  | function (mark : Mark ν) (style : FunctionStyle) (params : List Param)
      (body : List (Statement ν))
  | object (mark : Mark ν) (properties : List (Property ν))

/-- An entry of an object: a key with its value, a name that is both, or a computed key. -/
inductive Property (ν : Type)
  | field (span : Span) (key : FieldName) (value : Expr ν)
  | shorthand (span : Span) (key : String) (value : Expr ν)
  | computed (span : Span) (key value : Expr ν)

inductive Statement (ν : Type)
  | declaration (span : Span) (name : String) (init : Option (Expr ν))
  | result (span : Span) (value : Option (Expr ν))
  | expression (span : Span) (value : Expr ν)

end

/-- A function, seen as what calls of it need: its parameters, and the expression that it does
nothing but return, if it is of that form. -/
structure Callable (ν : Type) where
  params : List Param
  result? : Option (Expr ν)

/-- The value of a block that is a single `return` with a value. -/
def Statement.singleResult? {ν : Type} : List (Statement ν) → Option (Expr ν)
  | [.result _ value] => value
  | _ => none

namespace Expr

variable {ν : Type}

/-- What the node carries. -/
def mark : Expr ν → Mark ν
  | name m _ => m
  | literal m _ => m
  | paren m _ => m
  | property m _ _ => m
  | element m _ _ => m
  | binary m _ _ _ => m
  | unary m _ _ => m
  | conditional m _ _ _ => m
  | call m _ _ => m
  | lambda m _ _ => m
  | function m _ _ _ => m
  | object m _ => m

def span (e : Expr ν) : Span :=
  e.mark.span

/-- The expression without the parentheses around it. -/
def bare : Expr ν → Expr ν
  | paren _ inner => inner.bare
  | e => e

def name? : Expr ν → Option String
  | name _ s => some s
  | _ => none

/-- The function, if the expression is one. -/
def callable? : Expr ν → Option (Callable ν)
  | lambda _ params body => some ⟨params, some body⟩
  | function _ _ params body => some ⟨params, Statement.singleResult? body⟩
  | _ => none

/-- What messages call this kind of node. -/
def kind : Expr ν → String
  | name _ _ => "Identifier"
  | literal _ v => match v with
    | .integer _ => "NumericLiteral"
    | .float _ => "NumericLiteral"
    | .string _ => "StringLiteral"
    | .boolean true => "TrueKeyword"
    | .boolean false => "FalseKeyword"
    | .null => "NullKeyword"
  | paren _ _ => "ParenthesizedExpression"
  | property _ _ _ => "PropertyAccessExpression"
  | element _ _ _ => "ElementAccessExpression"
  | binary _ _ _ _ => "BinaryExpression"
  | unary _ _ _ => "PrefixUnaryExpression"
  | conditional _ _ _ _ => "ConditionalExpression"
  | call _ _ _ => "CallExpression"
  | lambda _ _ _ => "ArrowFunction"
  | function _ .arrow _ _ => "ArrowFunction"
  | function _ .word _ _ => "FunctionExpression"
  | object _ _ => "ObjectLiteralExpression"

/-- Looking through parentheses finds no more parentheses. -/
@[simp] theorem bare_bare (e : Expr ν) : e.bare.bare = e.bare := by
  match e with
  | paren _ inner => exact bare_bare inner
  | name _ _ | literal _ _ | property _ _ _ | element _ _ _ | binary _ _ _ _ | unary _ _ _
  | conditional _ _ _ _ | call _ _ _ | lambda _ _ _ | function _ _ _ _ | object _ _ => rfl

end Expr

end Aggregation
