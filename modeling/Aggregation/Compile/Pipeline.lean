import Aggregation.Compile.Stage

/-! Compiling a pipeline.

A pipeline is written as a chain of calls on the placeholder, the first stage nearest to it. The
chain is followed down to the placeholder before any stage is compiled, and the stages are then
compiled from the placeholder outwards. -/
namespace Aggregation.Pipeline

/-- A call in a chain: the call itself, what it is called on, and the stage with its arguments. -/
structure Link where
  call : Expr Nat
  receiver : Expr Nat
  name : String
  args : List (Expr Nat)

/-- A part of a chain is broken at the given node. -/
def broken {α : Type} (e : Expr Nat) (reason : BrokenChain) : Except CompileFault α :=
  .error ⟨.brokenChain reason, e⟩

/-- The call that an expression is. -/
def link (e : Expr Nat) : Except CompileFault Link :=
  match e.bare with
  | .call m callee args =>
    match callee.bare with
    | .property _ object name => .ok ⟨.call m callee args, object.bare, name, args⟩
    | _ => broken (.call m callee args) .notMethod
  | e => broken e .notCall

/-- What a call is called on is smaller than the call. -/
theorem size_receiver {e : Expr Nat} {l : Link} (h : link e = .ok l) :
    l.receiver.size < e.size := by
  have he := Expr.size_bare_le e
  unfold link at h
  split at h
  · rename_i m callee args hcall
    have hc := Expr.size_bare_le callee
    split at h
    · rename_i m' object name hprop
      obtain rfl := Except.ok.inj h
      have ho := Expr.size_bare_le object
      rw [hcall, Expr.size] at he
      rw [hprop, Expr.size] at hc
      simp only
      omega
    · simp [broken] at h
  · simp [broken] at h

/-- The stages of a chain. -/
def unwind (oracle : Oracle) (scope : Scope) (e : Expr Nat) :
    Except CompileFault (List Stage) :=
  match _h : link e with
  | .error f => .error f
  | .ok l => do
    let before ←
      if scope.isContext l.receiver then pure []
      else
        match l.receiver with
        | .call _ _ _ => unwind oracle scope l.receiver
        | r => broken r (.notRooted scope.placeholder)
    let stage ← Stage.compile oracle scope l.name l.call l.args
    return before ++ [stage]
termination_by e.size
decreasing_by exact size_receiver ‹_›

/-- The pipeline that a chain makes; the placeholder alone makes none. -/
def compile (oracle : Oracle) (scope : Scope) (e : Expr Nat) : Except CompileFault Pipeline :=
  if scope.isContext e then broken e.bare (.empty scope.placeholder)
  else (unwind oracle scope e).map Pipeline.mk

end Aggregation.Pipeline
