import Aggregation.Compile.Scope

/-! Expressions without their places.

Erasing an expression leaves what is written and forgets where: numbers, spans and parentheses go, and
names, constants and the order of everything stay. Two expressions with one erasure differ in layout
and grouping and in nothing else. -/
namespace Aggregation

def Mark.erased : Mark Unit := ⟨(), ⟨0, 0⟩⟩

/-- The parameter without its place. -/
def Param.erase (p : Param) : Param := { p with span := ⟨0, 0⟩ }

variable {ν : Type}

mutual

/-- The expression without numbers, spans and parentheses. -/
def Expr.erase : Expr ν → Expr Unit
  | .name _ x => .name .erased x
  | .literal _ c => .literal .erased c
  | .paren _ e => e.erase
  | .property _ object name => .property .erased object.erase name
  | .element _ object index => .element .erased object.erase index.erase
  | .binary _ op left right => .binary .erased op left.erase right.erase
  | .unary _ op operand => .unary .erased op operand.erase
  | .conditional _ condition yes no => .conditional .erased condition.erase yes.erase no.erase
  | .call _ callee args => .call .erased callee.erase (eraseAll args)
  | .lambda _ params body => .lambda .erased (params.map Param.erase) body.erase
  | .function _ style params body =>
    .function .erased style (params.map Param.erase) (eraseStatements body)
  | .object _ properties => .object .erased (eraseProperties properties)

def eraseAll : List (Expr ν) → List (Expr Unit)
  | [] => []
  | e :: es => e.erase :: eraseAll es

def eraseProperties : List (Property ν) → List (Property Unit)
  | [] => []
  | .field _ key value :: ps => .field ⟨0, 0⟩ key value.erase :: eraseProperties ps
  | .shorthand _ key value :: ps => .shorthand ⟨0, 0⟩ key value.erase :: eraseProperties ps
  | .computed _ key value :: ps => .computed ⟨0, 0⟩ key.erase value.erase :: eraseProperties ps

def eraseStatements : List (Statement ν) → List (Statement Unit)
  | [] => []
  | .declaration _ name none :: ss => .declaration ⟨0, 0⟩ name none :: eraseStatements ss
  | .declaration _ name (some e) :: ss =>
    .declaration ⟨0, 0⟩ name (some e.erase) :: eraseStatements ss
  | .result _ none :: ss => .result ⟨0, 0⟩ none :: eraseStatements ss
  | .result _ (some e) :: ss => .result ⟨0, 0⟩ (some e.erase) :: eraseStatements ss
  | .expression _ e :: ss => .expression ⟨0, 0⟩ e.erase :: eraseStatements ss

end

namespace Expr

/-- Parentheses leave no trace. -/
theorem erase_bare (e : Expr ν) : e.bare.erase = e.erase := by
  match e with
  | paren _ inner => exact erase_bare inner
  | name _ _ | literal _ _ | property _ _ _ | element _ _ _ | binary _ _ _ _ | unary _ _ _
  | conditional _ _ _ _ | call _ _ _ | lambda _ _ _ | function _ _ _ _ | object _ _ => rfl

/-- What is left has no parentheses around it. -/
theorem bare_erase (e : Expr ν) : e.erase.bare = e.erase := by
  match e with
  | paren _ inner => exact bare_erase inner
  | name _ _ | literal _ _ | property _ _ _ | element _ _ _ | binary _ _ _ _ | unary _ _ _
  | conditional _ _ _ _ | call _ _ _ | lambda _ _ _ | function _ _ _ _ | object _ _ => rfl

/-- An erased expression is a name if the expression is one in parentheses. -/
theorem name?_erase (e : Expr ν) : e.erase.name? = e.bare.name? := by
  match e with
  | paren _ inner => exact name?_erase inner
  | name _ _ | literal _ _ | property _ _ _ | element _ _ _ | binary _ _ _ _ | unary _ _ _
  | conditional _ _ _ _ | call _ _ _ | lambda _ _ _ | function _ _ _ _ | object _ _ => rfl

end Expr

/-- Erasing keeps which expressions are the placeholder. -/
@[simp] theorem Scope.isContext_erase (s : Scope) (e : Expr ν) :
    s.isContext e.erase = s.isContext e := by
  rw [isContext, isContext, Expr.bare_erase, Expr.name?_erase]

end Aggregation
