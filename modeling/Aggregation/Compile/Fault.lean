import Aggregation.Script.Operator
import Aggregation.Script.Tree
import Aggregation.Typing.Ty

/-! Why an expression cannot be compiled.

A fault is a cause and the node it was found at. The causes fall into five groups: no rule fits the
node, an argument has the wrong form, a stage has the wrong number of arguments, a stage is not
known, and a pipeline is no chain of stages. A `CompileError` is a fault with the text of its node,
as it is shown to a reader. -/
namespace Aggregation

/-- What is done with an array. -/
inductive ArrayUse
  | element
  | length
  | method (name : String)
deriving DecidableEq, Repr

def ArrayUse.text : ArrayUse → String
  | element => "element access"
  | length => Token.ticked ".length"
  | method name => Token.ticked ("." ++ name ++ "()")

/-- Why no rule fits a node. -/
inductive Unsupported
  | emptyField
  | computedField
  | operands (op : BinaryOp) (required left right : TypeClass)
  | loose (op : BinaryOp)
  | modulo
  | notOperand (found : TypeClass)
  | negation
  | property (placeholder : String)
  | receiver (use : ArrayUse) (found : TypeClass)
  | callee
  | arrayFunction (name : String)
  | arrayTest (found : TypeClass)
  | stageCall (name : String)
  | concatArgument (found : TypeClass)
  | method (name : String)
  | wholeDocument (name : String)
  | unboundName (name : String)
  | function
  | object
deriving DecidableEq, Repr

def Unsupported.text : Unsupported → String
  | emptyField => "field name must not be empty"
  | computedField =>
    "fields of the current document must be named with `.name` or a string literal"
  | operands op required left right =>
    Token.ticked op.text ++ " requires " ++ required.text ++ " operands, found " ++ left.text ++
      " and " ++ right.text
  | loose op =>
    "loose " ++ Token.ticked op.text ++ " has no aggregation equivalent; use " ++
      Token.ticked (op.text ++ "=")
  | modulo => "`%` is not supported"
  | notOperand found => "`!` requires a boolean operand, found " ++ found.text
  | negation => "unary `-` is only supported on numeric literals"
  | property placeholder =>
    "only fields of " ++ Token.ticked placeholder ++ " and `.length` of arrays can be read"
  | receiver use found => use.text ++ " requires an array receiver, found " ++ found.text
  | callee => "only array methods and `Array.isArray` can be called"
  | arrayFunction name => Token.ticked ("Array." ++ name) ++ " is not supported"
  | arrayTest found => "`Array.isArray` requires an array operand, found " ++ found.text
  | stageCall name =>
    "stage " ++ Token.ticked name ++ " can only be called in a pipeline builder"
  | concatArgument found => "`.concat()` requires an array argument, found " ++ found.text
  | method name => "array method " ++ Token.ticked ("." ++ name ++ "()") ++ " is not supported"
  | wholeDocument name =>
    "the whole document " ++ Token.ticked name ++
      " cannot be used as a value; read one of its fields"
  | unboundName name =>
    Token.ticked name ++ " is neither the placeholder nor a filter/map callback parameter"
  | function => "functions are only allowed as the callback of `.filter` or `.map`"
  | object => "object literals are only allowed as stage arguments"

/-- Why an argument has the wrong form. -/
inductive Misshapen
  | argumentCount (method : String) (found : Nat)
  | reverseArguments (found : Nat)
  | callback (method : String)
  | callbackParams (method : String) (found : Nat)
  | callbackBody
  | stageFields (stage : String)
  | shorthandField
  | computedKey
  | emptyKey
  | repeatedKey (key : String)
  | builderCount (name : String)
  | builder (name : String)
  | builderParams
  | builderBody
deriving DecidableEq, Repr

def Misshapen.text : Misshapen → String
  | argumentCount method found =>
    Token.ticked method ++ " takes exactly one argument, found " ++ toString found
  | reverseArguments found => "`.reverse()` takes no arguments, found " ++ toString found
  | callback method =>
    Token.ticked ("." ++ method ++ "()") ++ " expects an inline function such as `(v) => ...`"
  | callbackParams method found =>
    Token.ticked ("." ++ method ++ "()") ++
      " callback must take exactly one parameter, found " ++ toString found
  | callbackBody => "callback body must be an expression or a single `return` statement"
  | stageFields stage =>
    Token.ticked stage ++ " expects an object literal of field expressions"
  | shorthandField => "shorthand properties are not supported; write `key: expression`"
  | computedKey => "computed keys are not supported"
  | emptyKey => "field names must not be empty"
  | repeatedKey key => "field " ++ Token.ticked key ++ " is set more than once"
  | builderCount name => Token.ticked name ++ " takes exactly one builder function"
  | builder name => "called " ++ Token.ticked name ++ " without a function expression"
  | builderParams => "a builder function takes at most the placeholder parameter"
  | builderBody => "the builder body must be exactly one `return` statement"

/-- Why a pipeline is no chain of stages. -/
inductive BrokenChain
  | empty (placeholder : String)
  | notCall
  | notMethod
  | notRooted (placeholder : String)
deriving DecidableEq, Repr

def BrokenChain.text : BrokenChain → String
  | empty placeholder =>
    "a pipeline needs at least one stage call, such as " ++
      Token.ticked (placeholder ++ ".$addFields(\x7b ... \x7d)")
  | notCall => "expected a stage call"
  | notMethod => "stages must be called as methods, as in `.$addFields(...)`"
  | notRooted placeholder => "the chain must start at " ++ Token.ticked placeholder

/-- Why an expression cannot be compiled. -/
inductive CompileCause
  | unsupported (reason : Unsupported)
  | misshapen (reason : Misshapen)
  | arity (stage : String) (expected found : Nat)
  | unknownStage (name : String)
  | brokenChain (reason : BrokenChain)
deriving DecidableEq, Repr

/-- A cause, and the node at which it was found. -/
structure CompileFault where
  cause : CompileCause
  node : Expr Nat

/-- The text of a node, for a message. -/
structure Snippet where
  kind : String
  text : String
  span : Span
  position : Position
deriving DecidableEq, Repr

namespace Snippet

/-- The snippet of a node of a text. -/
def of (source : List Char) (e : Expr Nat) : Snippet where
  kind := e.kind
  text := String.ofList (e.span.slice source)
  span := e.span
  position := Position.of source e.span.start

/-- How a message shows the snippet. -/
def shown (s : Snippet) : String :=
  s.kind ++ " " ++ Token.ticked s.text ++ " at " ++ s.position.text

end Snippet

/-- A cause, and the text of the node at which it was found. -/
structure CompileError where
  cause : CompileCause
  snippet : Snippet
deriving DecidableEq, Repr

namespace CompileError

/-- The error of a fault in a text. -/
def ofFault (source : List Char) (f : CompileFault) : CompileError :=
  ⟨f.cause, Snippet.of source f.node⟩

/-- Whether an argument is to blame, by its form or its absence. -/
def isShape (e : CompileError) : Bool :=
  match e.cause with
  | .misshapen _ => true
  | .arity _ _ _ => true
  | _ => false

def message (e : CompileError) : String :=
  let shown := e.snippet.shown
  match e.cause with
  | .unsupported reason => "unsupported construct " ++ shown ++ ": " ++ reason.text
  | .misshapen reason => "invalid shape " ++ shown ++ ": " ++ reason.text
  | .arity stage expected found =>
    "stage " ++ Token.ticked stage ++ " takes " ++ toString expected ++ " argument(s) but " ++
      toString found ++ " were given: " ++ shown
  | .unknownStage name => "unknown stage " ++ Token.ticked name ++ ": " ++ shown
  | .brokenChain reason => "malformed pipeline chain " ++ shown ++ ": " ++ reason.text

end CompileError

end Aggregation
