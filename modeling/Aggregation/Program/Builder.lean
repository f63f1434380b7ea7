import Aggregation.Script.Tree

/-! Builder calls in a program.

A program hands a function to a builder, and the builder's name says whether the function returns a
pipeline or an operator. `locate` finds the builder calls in the order of the text. What is handed to
a builder is not searched for further calls. -/
namespace Aggregation

/-- What a builder builds. -/
inductive BuilderKind
  | pipeline
  | operator
deriving DecidableEq, Repr

def BuilderKind.text : BuilderKind → String
  | pipeline => "pipeline"
  | operator => "operator"

/-- The names that a program uses: the placeholder of a builder function without a parameter, and
the two builders. -/
structure Config where
  placeholder : String
  pipelineBuilder : String
  operatorBuilder : String
deriving DecidableEq, Repr

namespace Config

/-- The usual names. -/
def standard : Config := ⟨"this", "aggregate", "aggregateOp"⟩

/-- The kind of the builder with a name. One name for both stands for pipelines. -/
def builder? (config : Config) (name : String) : Option BuilderKind :=
  if name = config.pipelineBuilder then some .pipeline
  else if name = config.operatorBuilder then some .operator
  else none

end Config

structure BuilderCall where
  kind : BuilderKind
  name : String
  call : Expr Nat
  args : List (Expr Nat)

namespace BuilderCall

/-- The builder call that a call of the given callee is, if it is one. -/
def of? (config : Config) (call callee : Expr Nat) (args : List (Expr Nat)) :
    Option BuilderCall := do
  let name ← callee.name?
  let kind ← config.builder? name
  return ⟨kind, name, call, args⟩

mutual

/-- The builder calls in an expression. -/
def within (config : Config) : Expr Nat → List BuilderCall
  | .name _ _ => []
  | .literal _ _ => []
  | .paren _ e => within config e
  | .property _ object _ => within config object
  | .element _ object index => within config object ++ within config index
  | .binary _ _ left right => within config left ++ within config right
  | .unary _ _ operand => within config operand
  | .conditional _ condition yes no =>
    within config condition ++ within config yes ++ within config no
  | .call m callee args =>
    match of? config (.call m callee args) callee args with
    | some found => [found]
    | none => within config callee ++ withinAll config args
  | .lambda _ _ body => within config body
  | .function _ _ _ body => withinStatements config body
  | .object _ properties => withinProperties config properties

def withinAll (config : Config) : List (Expr Nat) → List BuilderCall
  | [] => []
  | e :: es => within config e ++ withinAll config es

def withinProperties (config : Config) : List (Property Nat) → List BuilderCall
  | [] => []
  | .field _ _ value :: ps => within config value ++ withinProperties config ps
  | .shorthand _ _ value :: ps => within config value ++ withinProperties config ps
  | .computed _ key value :: ps =>
    within config key ++ within config value ++ withinProperties config ps

def withinStatements (config : Config) : List (Statement Nat) → List BuilderCall
  | [] => []
  | .declaration _ _ none :: ss => withinStatements config ss
  | .declaration _ _ (some e) :: ss => within config e ++ withinStatements config ss
  | .result _ none :: ss => withinStatements config ss
  | .result _ (some e) :: ss => within config e ++ withinStatements config ss
  | .expression _ e :: ss => within config e ++ withinStatements config ss

end

end BuilderCall

/-- The builder calls of a program, in the order of its text. -/
def locate (config : Config) (program : List (Statement Nat)) : List BuilderCall :=
  BuilderCall.withinStatements config program

end Aggregation
