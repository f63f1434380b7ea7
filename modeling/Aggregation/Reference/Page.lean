import Aggregation.Compile.Stage
import Aggregation.Reference.Topic
import Aggregation.Text.Lines

/-! The pages of the reference.

A page is a list of lines. There is one for each topic and an overview, which ends with the stages
that the compiler knows. -/
namespace Aggregation.Reference

/-! ### Topics -/

/-- Fields, variables and constants. -/
def references : List String := [
  "REFERENCES - Fields, Locals, and Literals",
  "",
  "FIELD ACCESS",
  "  this.field",
  "  this[\"field\"]",
  "    A field of the current document.",
  "",
  "    Example:",
  "      Source: this.foo",
  "      Output: \"$foo\"",
  "",
  "    Constraints:",
  "      - Only direct fields of the placeholder; `this.a.b` is rejected",
  "      - Bracket keys must be non-empty string literals",
  "",
  "LOCAL VARIABLES",
  "  v",
  "    The parameter of a `filter` or `map` callback, inside that callback.",
  "",
  "    Example:",
  "      Source: this.arr.map(v => v)",
  "      Output: \x7b\"$map\": \x7b\"input\": \"$arr\", \"as\": \"v\", \"in\": \"$$v\"\x7d\x7d",
  "",
  "    Constraints:",
  "      - Only visible inside the callback that binds it",
  "      - Unbound identifiers are rejected",
  "",
  "LITERALS",
  "  0   1.5   -3   \"text\"   true   false   null",
  "    Every constant is wrapped, so a string can never be read as a field path.",
  "",
  "    Example:",
  "      Source: \"$foo\"",
  "      Output: \x7b\"$literal\": \"$foo\"\x7d"]

/-- Operators on numbers. -/
def arithmetic : List String := [
  "ARITHMETIC - Numeric Operators",
  "",
  "  +     $add",
  "  -     $subtract",
  "  *     $multiply",
  "  /     $divide",
  "",
  "  Examples:",
  "    this.na + this.nb       \x7b\"$add\": [\"$na\", \"$nb\"]\x7d",
  "    this.na - 1             \x7b\"$subtract\": [\"$na\", \x7b\"$literal\": 1\x7d]\x7d",
  "",
  "  Constraints:",
  "    - Both operands must be known to be numbers",
  "    - Operand order is kept: a - b and b - a differ",
  "    - % and unary - on expressions are not supported"]

/-- Equality and order. -/
def comparison : List String := [
  "COMPARISON - Equality and Ordering",
  "",
  "  ===   $eq",
  "  !==   $ne",
  "  >     $gt",
  "  >=    $gte",
  "  <     $lt",
  "  <=    $lte",
  "",
  "  Examples:",
  "    this.na === this.nb     \x7b\"$eq\": [\"$na\", \"$nb\"]\x7d",
  "    this.na >= 18           \x7b\"$gte\": [\"$na\", \x7b\"$literal\": 18\x7d]\x7d",
  "",
  "  Constraints:",
  "    - Operands may have any type",
  "    - Loose == and != are rejected; use === or !=="]

/-- Operators on truth values, and the conditional. -/
def logic : List String := [
  "LOGIC - Boolean Operators and Conditionals",
  "",
  "  &&    $and",
  "  ||    $or",
  "  !     $not",
  "",
  "  Examples:",
  "    this.ba && this.bb      \x7b\"$and\": [\"$ba\", \"$bb\"]\x7d",
  "    !this.ba                \x7b\"$not\": [\"$ba\"]\x7d",
  "",
  "  Constraints:",
  "    - Operands must be known to be booleans",
  "",
  "CONDITIONAL",
  "  c ? a : b",
  "    $cond with named branches.",
  "",
  "    Example:",
  "      Source: this.ba ? this.na : this.nb",
  "      Output: \x7b\"$cond\": \x7b\"if\": \"$ba\", \"then\": \"$na\", \"else\": \"$nb\"\x7d\x7d"]

/-- What can be done with an array. -/
def arrays : List String := [
  "ARRAYS - Length, Indexing, and Methods",
  "",
  "  arr.length              $size",
  "  arr[i]                  $arrayElemAt",
  "  Array.isArray(x)        $isArray",
  "  arr.concat(other)       $concatArrays",
  "  arr.filter(v => c)      $filter",
  "  arr.map(v => e)         $map",
  "  arr.includes(x)         $in",
  "  arr.indexOf(x)          $indexOfArray",
  "  arr.reverse()           $reverseArray",
  "",
  "  Examples:",
  "    this.arr.length",
  "      \x7b\"$size\": \"$arr\"\x7d",
  "",
  "    this.arr[this.arr.length - 1]",
  "      \x7b\"$arrayElemAt\": [\"$arr\", \x7b\"$subtract\": [\x7b\"$size\": \"$arr\"\x7d, \x7b\"$literal\": 1\x7d]\x7d]\x7d",
  "",
  "    this.arr.filter(v => v !== 0)",
  "      \x7b\"$filter\": \x7b\"input\": \"$arr\", \"as\": \"v\", \"cond\": \x7b\"$ne\": [\"$$v\", \x7b\"$literal\": 0\x7d]\x7d\x7d\x7d",
  "",
  "    this.arr.includes(this.na)",
  "      \x7b\"$in\": [\"$na\", \"$arr\"]\x7d",
  "",
  "  Constraints:",
  "    - The receiver must be known to be an array",
  "    - filter and map take one callback with exactly one parameter",
  "    - The callback body is an expression or a single return statement",
  "    - includes puts the needle first, as $in expects"]

/-- Chains, and the stages in them. -/
def stages : List String := [
  "STAGES - Pipeline Steps",
  "",
  "CHAINS",
  "  this.$stage(..).$stage(..)",
  "    Stages run in the order they are called.",
  "",
  "    Example:",
  "      Source: this.$addFields(\x7b a: this.x \x7d).$addFields(\x7b b: this.y \x7d)",
  "      Output: [\x7b\"$addFields\": \x7b\"a\": \"$x\"\x7d\x7d, \x7b\"$addFields\": \x7b\"b\": \"$y\"\x7d\x7d]",
  "",
  "    Constraints:",
  "      - The chain must start at the placeholder",
  "      - A pipeline needs at least one stage",
  "",
  "$addFields",
  "  this.$addFields(\x7b key: expression, ... \x7d)",
  "    Adds or replaces fields; key order is kept.",
  "",
  "    Constraints:",
  "      - Exactly one object literal argument",
  "      - Keys are identifiers or string literals",
  "      - Shorthand, computed and repeated keys are rejected"]

/-- The lines on a topic. -/
def lines : Topic → List String
  | .references => references
  | .arithmetic => arithmetic
  | .comparison => comparison
  | .logic => logic
  | .arrays => arrays
  | .stages => stages

/-- The page on a topic. -/
def page (t : Topic) : String := unlines (lines t)

/-! ### Overview -/

/-- What the compiler does, and the topics. -/
def introduction : List String := [
  "AGGREGATE COMPILER REFERENCE",
  "",
  "aggc compiles TypeScript builder functions into aggregation pipelines.",
  "Inside a builder the placeholder (`this` by default) stands for the current",
  "document; fields, operators and array methods on it become aggregation",
  "expressions.",
  "",
  "    aggregate(function (this: \x7b foo: string \x7d) \x7b",
  "      return this.$addFields(\x7b bar: this.foo \x7d);",
  "    \x7d);",
  "",
  "    => [\x7b\"$addFields\": \x7b\"bar\": \"$foo\"\x7d\x7d]",
  "",
  "TOPICS",
  "",
  "  references        Field references, locals and literals",
  "  arithmetic        + - * / on numeric operands",
  "  comparison        === !== > >= < <=",
  "  logic             && || ! and the conditional operator",
  "  arrays            length, indexing and array methods",
  "  stages            Pipeline stages",
  "",
  "STAGES"]

/-- The columns that the name of a stage takes up. -/
def nameWidth : Nat := 18

/-- A name followed by blanks up to the next column. -/
def padded (name : String) : String :=
  name ++ String.ofList (List.replicate (nameWidth - name.length) ' ')

def stageLine (k : StageKind) : String :=
  "  " ++ padded k.name ++ k.description ++ " (arguments: " ++ toString k.arity ++ ")"

def overview : String :=
  unlines (introduction ++ StageKind.all.map stageLine ++
    ["", "Run 'aggc operators <topic>' for detailed documentation."])

end Aggregation.Reference
