import Aggregation.Script.Tree

/-! Numbers for the nodes of a tree.

Numbering goes through a tree in the order of its text and numbers each node after the nodes inside
it, so that a tree of `n` nodes gets the numbers from `0` to `n - 1`, the root the last of them.
Types found for the nodes are kept under these numbers. -/
namespace Aggregation

/-- The next number. -/
def fresh : StateM Nat Nat :=
  modifyGet fun n => (n, n + 1)

/-- The mark with the next number for its label. -/
def Mark.number (m : Mark Unit) : StateM Nat (Mark Nat) :=
  return ⟨← fresh, m.span⟩

mutual

def Expr.number : Expr Unit → StateM Nat (Expr Nat)
  | .name m s => return .name (← m.number) s
  | .literal m v => return .literal (← m.number) v
  | .paren m e => do
    let e ← e.number
    return .paren (← m.number) e
  | .property m object name => do
    let object ← object.number
    return .property (← m.number) object name
  | .element m object index => do
    let object ← object.number
    let index ← index.number
    return .element (← m.number) object index
  | .binary m op left right => do
    let left ← left.number
    let right ← right.number
    return .binary (← m.number) op left right
  | .unary m op operand => do
    let operand ← operand.number
    return .unary (← m.number) op operand
  | .conditional m condition yes no => do
    let condition ← condition.number
    let yes ← yes.number
    let no ← no.number
    return .conditional (← m.number) condition yes no
  | .call m callee args => do
    let callee ← callee.number
    let args ← numberAll args
    return .call (← m.number) callee args
  | .lambda m params body => do
    let body ← body.number
    return .lambda (← m.number) params body
  | .function m style params body => do
    let body ← numberStatements body
    return .function (← m.number) style params body
  | .object m properties => do
    let properties ← numberProperties properties
    return .object (← m.number) properties

def numberAll : List (Expr Unit) → StateM Nat (List (Expr Nat))
  | [] => return []
  | e :: es => do
    let e ← e.number
    return e :: (← numberAll es)

/-- Numbers the entries of an object, a computed key before its value. -/
def numberProperties : List (Property Unit) → StateM Nat (List (Property Nat))
  | [] => return []
  | .field span key value :: ps => do
    let value ← value.number
    return .field span key value :: (← numberProperties ps)
  | .shorthand span key value :: ps => do
    let value ← value.number
    return .shorthand span key value :: (← numberProperties ps)
  | .computed span key value :: ps => do
    let key ← key.number
    let value ← value.number
    return .computed span key value :: (← numberProperties ps)

def numberStatements : List (Statement Unit) → StateM Nat (List (Statement Nat))
  | [] => return []
  | .declaration span name none :: ss =>
    return .declaration span name none :: (← numberStatements ss)
  | .declaration span name (some e) :: ss => do
    let e ← e.number
    return .declaration span name (some e) :: (← numberStatements ss)
  | .result span none :: ss =>
    return .result span none :: (← numberStatements ss)
  | .result span (some e) :: ss => do
    let e ← e.number
    return .result span (some e) :: (← numberStatements ss)
  | .expression span e :: ss => do
    let e ← e.number
    return .expression span e :: (← numberStatements ss)

end

end Aggregation
