import Aggregation.Compile.Rule

/-! Compiling an expression.

An expression is compiled by the rule of its root and then, from left to right, by those of its
operands. What comes out depends on nothing but the tree, the scope and the classes that the oracle
gives. -/
namespace Aggregation

/-- The value of an expression. -/
def compile (oracle : Oracle) (scope : Scope) (e : Expr Nat) : Except CompileFault Value :=
  match _h : Rule.of oracle scope e with
  | .error f => .error f
  | .ok (.done v) => .ok v
  | .ok (.same inner) => compile oracle scope inner
  | .ok (.single op x) => do
    let v ← compile oracle scope x
    return .single op v
  | .ok (.one op x) => do
    let v ← compile oracle scope x
    return .list op [v]
  | .ok (.two op x y) => do
    let v ← compile oracle scope x
    let w ← compile oracle scope y
    return .list op [v, w]
  | .ok (.swapped op x y) => do
    let v ← compile oracle scope x
    let w ← compile oracle scope y
    return .list op [w, v]
  | .ok (.choice c y n) => do
    let c ← compile oracle scope c
    let y ← compile oracle scope y
    let n ← compile oracle scope n
    return .named "$cond" [("if", c), ("then", y), ("else", n)]
  | .ok (.each op key param input body) => do
    let i ← compile oracle scope input
    let b ← compile oracle (scope.bind param) body
    return .named op [("input", i), ("as", .name param), (key, b)]
termination_by e.size
decreasing_by all_goals exact Rule.size_operand ‹_› (by simp [Rule.operands])

end Aggregation
