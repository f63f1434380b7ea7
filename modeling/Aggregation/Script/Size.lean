import Aggregation.Script.Tree

/-! The number of nodes of a tree, by which recursion on trees is measured where it goes to a part
that is found by looking through parentheses. -/
namespace Aggregation

variable {ν : Type}

mutual

/-- The number of nodes of an expression. -/
def Expr.size : Expr ν → Nat
  | .name _ _ => 1
  | .literal _ _ => 1
  | .paren _ e => e.size + 1
  | .property _ object _ => object.size + 1
  | .element _ object index => object.size + index.size + 1
  | .binary _ _ left right => left.size + right.size + 1
  | .unary _ _ operand => operand.size + 1
  | .conditional _ condition yes no => condition.size + yes.size + no.size + 1
  | .call _ callee args => callee.size + sizeAll args + 1
  | .lambda _ _ body => body.size + 1
  | .function _ _ _ body => sizeStatements body + 1
  | .object _ properties => sizeProperties properties + 1

def sizeAll : List (Expr ν) → Nat
  | [] => 0
  | e :: es => e.size + sizeAll es

def sizeProperties : List (Property ν) → Nat
  | [] => 0
  | .field _ _ value :: ps => value.size + sizeProperties ps
  | .shorthand _ _ value :: ps => value.size + sizeProperties ps
  | .computed _ key value :: ps => key.size + value.size + sizeProperties ps

def sizeStatements : List (Statement ν) → Nat
  | [] => 0
  | .declaration _ _ none :: ss => sizeStatements ss
  | .declaration _ _ (some e) :: ss => e.size + sizeStatements ss
  | .result _ none :: ss => sizeStatements ss
  | .result _ (some e) :: ss => e.size + sizeStatements ss
  | .expression _ e :: ss => e.size + sizeStatements ss

end

namespace Expr

theorem size_bare_le (e : Expr ν) : e.bare.size ≤ e.size := by
  match e with
  | paren _ inner =>
    have := size_bare_le inner
    simp only [bare, size]
    omega
  | name _ _ | literal _ _ | property _ _ _ | element _ _ _ | binary _ _ _ _ | unary _ _ _
  | conditional _ _ _ _ | call _ _ _ | lambda _ _ _ | function _ _ _ _ | object _ _ =>
    exact Nat.le_refl _

/-- What a function returns is smaller than the function. -/
theorem size_result_lt {e body : Expr ν} {f : Callable ν} (hf : e.callable? = some f)
    (hb : f.result? = some body) : body.size < e.size := by
  cases e with
  | lambda m params b =>
    obtain rfl := Option.some.inj hf
    obtain rfl := Option.some.inj hb
    simp [size]
  | function m style params ss =>
    obtain rfl := Option.some.inj hf
    simp only [Statement.singleResult?] at hb
    split at hb
    · subst hb
      simp [size, sizeStatements]
    · simp at hb
  | _ => simp [callable?] at hf

end Expr

end Aggregation
