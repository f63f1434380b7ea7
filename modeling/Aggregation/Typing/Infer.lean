import Aggregation.Typing.Ty

/-! The types of the nodes of an expression.

The placeholder has the type that its annotation describes, and the parameter of a function given to
`filter` or `map` of an array has the type of the elements. `Env.typeOf` computes the type of an
expression from the bindings around it; it looks through no parentheses, except around such a
function. `Env.records` lists, with their types, the nodes that are typed on the way: the body of a
function that does more than return a value is not among them. -/
namespace Aggregation

/-- The bindings around an expression: the placeholder with the type of the document, and the
parameters of the functions around it, the innermost first. -/
structure Env where
  placeholder : String
  context : Ty
  locals : List (String × Ty)

namespace Env

variable {ν : Type}

def lookup (env : Env) (name : String) : Ty :=
  match env.locals.lookup name with
  | some t => t
  | none => if name = env.placeholder then env.context else .unknown

/-- Whether nothing binds a name. -/
def isFree (env : Env) (name : String) : Bool :=
  name != env.placeholder && (env.locals.lookup name).isNone

/-- Binds parameters. An annotation goes before everything else; without one, the first parameter has
the type given and the others are unknown. -/
def bind (env : Env) (first : Ty) : List Param → Env
  | [] => env
  | p :: ps =>
    let t := (p.type?.map Ty.ofTypeExpr).getD first
    bind { env with locals := (p.name, t) :: env.locals } .unknown ps

/-- Whether a call of a property is the test for arrays. -/
def isArrayTest (env : Env) (object : Expr ν) (name : String) : Bool :=
  object.name? == some "Array" && env.isFree "Array" && name == "isArray"

/-- The string, if an index is a string constant. -/
def stringKey : Expr ν → Option String
  | .literal _ (.string s) => some s
  | _ => none

mutual

/-- The type of an expression. -/
def typeOf (env : Env) : Expr ν → Ty
  | .name _ s => env.lookup s
  | .literal _ v => .ofLiteral v
  | .paren _ e => typeOf env e
  | .property _ object name => (typeOf env object).property name
  | .element _ object index => (typeOf env object).element (stringKey index)
  | .binary _ op left right => .binary op (typeOf env left) (typeOf env right)
  | .unary _ op operand => .unary op (typeOf env operand)
  | .conditional _ _ yes no => .join (typeOf env yes) (typeOf env no)
  | .call _ (.property _ object name) args =>
    if env.isArrayTest object name then .boolean
    else (typeOf env object).method name args.length (argumentType env args)
  | .call _ _ _ => .unknown
  | .lambda _ _ _ => .unknown
  | .function _ _ _ _ => .unknown
  | .object _ properties => .object (fieldTypes env properties)

def fieldTypes (env : Env) : List (Property ν) → List (String × Ty)
  | [] => []
  | .field _ key value :: ps => (key.text, typeOf env value) :: fieldTypes env ps
  | .shorthand _ key value :: ps => (key, typeOf env value) :: fieldTypes env ps
  | .computed _ _ _ :: ps => fieldTypes env ps

/-- The type of what the only argument of a call returns for elements of the given type. -/
def argumentType (env : Env) : List (Expr ν) → Ty → Ty
  | [callback], element => callbackType env element callback
  | _, _ => .unknown

/-- The type of what a function returns for elements of the given type. -/
def callbackType (env : Env) (element : Ty) : Expr ν → Ty
  | .paren _ e => callbackType env element e
  | .lambda _ params body => typeOf (env.bind element params) body
  | .function _ _ params body => resultType (env.bind element params) body
  | _ => .unknown

/-- The type of what a block returns, if that is all it does. -/
def resultType (env : Env) : List (Statement ν) → Ty
  | [.result _ (some e)] => typeOf env e
  | _ => .unknown

end

/-- The records of a node: those made inside it, and its own. -/
def record (env : Env) (e : Expr Nat) (inside : List (Nat × Ty)) : List (Nat × Ty) :=
  inside ++ [(e.mark.label, env.typeOf e)]

/-- The methods of arrays that take a function for the elements. -/
def iterates (name : String) : Bool :=
  name == "filter" || name == "map"

/-- The records of a function for the elements of an array itself. It has no type, and neither have
the outermost parentheses around it; parentheses between the two are not recorded. -/
def unknownLabels : Expr Nat → List (Nat × Ty)
  | .paren m e => [(m.label, .unknown), (e.bare.mark.label, .unknown)]
  | e => [(e.mark.label, .unknown)]

mutual

/-- The records made inside a node. -/
def inside (env : Env) : Expr Nat → List (Nat × Ty)
  | .name _ _ => []
  | .literal _ _ => []
  | .paren _ e => env.record e (inside env e)
  | .property _ object _ => env.record object (inside env object)
  | .element _ object index =>
    env.record object (inside env object) ++ env.record index (inside env index)
  | .binary _ _ left right =>
    env.record left (inside env left) ++ env.record right (inside env right)
  | .unary _ _ operand => env.record operand (inside env operand)
  | .conditional _ condition yes no =>
    env.record condition (inside env condition) ++ env.record yes (inside env yes) ++
      env.record no (inside env no)
  | .call _ (.property m object name) args =>
    (m.label, .unknown) ::
      if env.isArrayTest object name then (object.mark.label, .unknown) :: recordAll env args
      else
        env.record object (inside env object) ++
          match env.typeOf object, iterates name, args with
          | .array element, true, [callback] =>
            if callback.bare.callable?.isSome then
              unknownLabels callback ++ recordBody env element callback
            else env.record callback (inside env callback)
          | _, _, args => recordAll env args
  | .call _ callee args => env.record callee (inside env callee) ++ recordAll env args
  | .lambda _ params body =>
    let env := env.bind .unknown params
    env.record body (inside env body)
  | .function _ _ params body => recordResult (env.bind .unknown params) body
  | .object _ properties => recordProperties env properties

def recordAll (env : Env) : List (Expr Nat) → List (Nat × Ty)
  | [] => []
  | e :: es => env.record e (inside env e) ++ recordAll env es

/-- The records of the entries of an object, a computed key before its value. -/
def recordProperties (env : Env) : List (Property Nat) → List (Nat × Ty)
  | [] => []
  | .field _ _ value :: ps => env.record value (inside env value) ++ recordProperties env ps
  | .shorthand _ _ value :: ps => env.record value (inside env value) ++ recordProperties env ps
  | .computed _ key value :: ps =>
    env.record key (inside env key) ++ env.record value (inside env value) ++
      recordProperties env ps

/-- The records of the body of a function for the elements of an array. -/
def recordBody (env : Env) (element : Ty) : Expr Nat → List (Nat × Ty)
  | .paren _ e => recordBody env element e
  | .lambda _ params body =>
    let env := env.bind element params
    env.record body (inside env body)
  | .function _ _ params body => recordResult (env.bind element params) body
  | _ => []

/-- The records of a block that does nothing but return a value. -/
def recordResult (env : Env) : List (Statement Nat) → List (Nat × Ty)
  | [.result _ (some e)] => env.record e (inside env e)
  | _ => []

end

/-- The records of an expression. -/
def records (env : Env) (e : Expr Nat) : List (Nat × Ty) :=
  env.record e (env.inside e)

end Env

end Aggregation
