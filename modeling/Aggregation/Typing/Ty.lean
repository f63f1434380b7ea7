import Aggregation.Script.Tree

/-! Types of expressions, as far as annotations tell them.

A type is coarse: what the annotations say nothing about is `unknown`, and so is what the language
could type but the compiler has no use for. Of a type, the compiler itself sees only the `TypeClass`,
which is one of the three that its rules ask for, or unknown. -/
namespace Aggregation

/-- What the compiler asks about an operand. -/
inductive TypeClass
  | numeric
  | boolean
  | array
  | unknown
deriving DecidableEq, Repr

def TypeClass.text : TypeClass → String
  | numeric => "numeric"
  | boolean => "boolean"
  | array => "array"
  | unknown => "unknown"

/-- The type of an expression. -/
inductive Ty
  | number
  | boolean
  | string
  | array (element : Ty)
  | object (fields : List (String × Ty))
  | unknown
deriving Repr

namespace Ty

mutual

/-- Whether two types are the same, field by field and in order. -/
def same : Ty → Ty → Bool
  | number, number => true
  | boolean, boolean => true
  | string, string => true
  | unknown, unknown => true
  | array a, array b => same a b
  | object fs, object gs => sameFields fs gs
  | _, _ => false

def sameFields : List (String × Ty) → List (String × Ty) → Bool
  | [], [] => true
  | (x, a) :: fs, (y, b) :: gs => x == y && same a b && sameFields fs gs
  | _, _ => false

end

mutual

theorem same_iff (a b : Ty) : same a b = true ↔ a = b := by
  match a, b with
  | array a, array b => simp [same, same_iff a b]
  | object fs, object gs => simp [same, sameFields_iff fs gs]
  | number, b | boolean, b | string, b | unknown, b => cases b <;> simp [same]
  | array _, number | array _, boolean | array _, string | array _, object _ | array _, unknown
  | object _, number | object _, boolean | object _, string | object _, array _
  | object _, unknown => simp [same]

theorem sameFields_iff (fs gs : List (String × Ty)) : sameFields fs gs = true ↔ fs = gs := by
  match fs, gs with
  | [], [] => simp [sameFields]
  | [], _ :: _ => simp [sameFields]
  | _ :: _, [] => simp [sameFields]
  | (x, a) :: fs, (y, b) :: gs => simp [sameFields, same_iff a b, sameFields_iff fs gs]

end

instance : DecidableEq Ty := fun a b => decidable_of_iff _ (same_iff a b)

def toClass : Ty → TypeClass
  | number => .numeric
  | boolean => .boolean
  | array _ => .array
  | _ => .unknown

/-- The type of a field of an object; of two fields with one name the first counts. -/
def field (t : Ty) (name : String) : Ty :=
  match t with
  | object fields => (fields.lookup name).getD unknown
  | _ => unknown

mutual

/-- The type that an annotation describes. A named type describes what its first argument does, so
that a wrapper stands for the document inside it. -/
def ofTypeExpr : TypeExpr → Ty
  | .number => number
  | .boolean => boolean
  | .string => string
  | .any => unknown
  | .array element => array (ofTypeExpr element)
  | .object fields => object (ofFields fields)
  | .named _ [] => unknown
  | .named _ (first :: _) => ofTypeExpr first

def ofFields : List (String × TypeExpr) → List (String × Ty)
  | [] => []
  | (name, t) :: fields => (name, ofTypeExpr t) :: ofFields fields

end

def ofLiteral : Literal → Ty
  | .integer _ => number
  | .float _ => number
  | .string _ => string
  | .boolean _ => boolean
  | .null => unknown

/-! ### The types of compound expressions, from those of their parts -/

/-- The type of a property read from a value. -/
def property (t : Ty) (name : String) : Ty :=
  match t, name with
  | array _, "length" => number
  | string, "length" => number
  | t, name => t.field name

/-- The type of an element of a value; `key` is the index, if it is a string constant. -/
def element (t : Ty) (key : Option String) : Ty :=
  match t, key with
  | array e, _ => e
  | object fields, some key => (object fields).field key
  | _, _ => unknown

/-- The type of what a method of a value returns; `argument` tells what its only argument returns for
elements of a type. -/
def method (t : Ty) (name : String) (count : Nat) (argument : Ty → Ty) : Ty :=
  match t, name with
  | array e, "filter" => if count = 1 then array e else unknown
  | array e, "map" => if count = 1 then array (argument e) else unknown
  | array e, "concat" => array e
  | array e, "reverse" => array e
  | array _, "includes" => boolean
  | array _, "indexOf" => number
  | _, _ => unknown

/-- The type of two operands joined by an operator. -/
def binary (op : BinaryOp) (left right : Ty) : Ty :=
  if op = .add ∧ (left = string ∨ right = string) then string
  else if op.isArithmetic ∧ left = number ∧ right = number then number
  else if op.isComparison then boolean
  else if (op = .and ∨ op = .or) ∧ left = boolean ∧ right = boolean then boolean
  else unknown

/-- The type of an operand behind an operator. -/
def unary (op : UnaryOp) (operand : Ty) : Ty :=
  match op with
  | .not => boolean
  | .negate => if operand = number then number else unknown

/-- The type of a choice between two values. -/
def join (yes no : Ty) : Ty :=
  if yes = no then yes else unknown

end Ty

end Aggregation
