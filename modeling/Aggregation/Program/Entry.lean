import Aggregation.Compile.Pipeline
import Aggregation.Program.Builder
import Aggregation.Query.Document
import Aggregation.Script.Parse

/-! Compiling the builder calls of a program.

Each call is an entry of the program, and is compiled by itself: the parameter of its function names
the placeholder and the annotation of the parameter types it. One entry that fails leaves the others
as they are. -/
namespace Aggregation

/-- What a builder call compiles to. -/
inductive Compiled
  | pipeline (p : Pipeline)
  | expression (v : Value)

def Compiled.document : Compiled → Document
  | pipeline p => .ofPipeline p
  | expression v => .ofValue v

/-- An expression compiled as an operator or as a pipeline, where the placeholder stands for a
document of the annotated type. -/
def compileTyped (kind : BuilderKind) (placeholder : String) (context : Option TypeExpr)
    (e : Expr Nat) : Except CompileFault Compiled :=
  let oracle := (DeclaredTypes.infer e placeholder context).oracle
  let scope := Scope.root placeholder
  match kind with
  | .pipeline => (Pipeline.compile oracle scope e).map .pipeline
  | .operator => (compile oracle scope e).map .expression

namespace BuilderCall

/-- The function handed to a builder, with the node that it is. -/
def callable (b : BuilderCall) : Except CompileFault (Expr Nat × Callable Nat) :=
  match b.args with
  | [arg] =>
    match arg.bare.callable? with
    | some f => .ok (arg.bare, f)
    | none => Rule.misfit arg.bare (.builder b.name)
  | _ => Rule.misfit b.call (.builderCount b.name)

/-- What a builder call compiles to. -/
def compile (config : Config) (b : BuilderCall) : Except CompileFault Compiled := do
  let (e, f) ← b.callable
  let (placeholder, context) ← match f.params with
    | [] => pure (config.placeholder, none)
    | [param] => pure (param.name, param.type?)
    | _ => Rule.misfit e .builderParams
  match f.result? with
  | some body => compileTyped b.kind placeholder context body
  | none => Rule.misfit e .builderBody

end BuilderCall

/-- A builder call of a text, with what it compiles to. -/
structure Entry where
  kind : BuilderKind
  name : String
  span : Span
  position : Position
  result : Except CompileError Compiled

/-- The entry of a builder call in a text. -/
def Entry.of (config : Config) (source : List Char) (b : BuilderCall) : Entry where
  kind := b.kind
  name := b.name
  span := b.call.span
  position := Position.of source b.call.span.start
  result := (b.compile config).mapError (.ofFault source)

/-- The entries of a program. -/
def compileProgram (config : Config) (source : List Char) (program : List (Statement Nat)) :
    List Entry :=
  (locate config program).map (Entry.of config source)

/-- The entries of a text. -/
def compileSource (config : Config) (source : String) : Except ParseError (List Entry) :=
  (parseProgram source).map (compileProgram config source.toList)

end Aggregation
