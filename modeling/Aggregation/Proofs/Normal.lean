import Aggregation.Proofs.Erasure
import Aggregation.Proofs.Translation

/-! Normal expressions.

Two spellings are left when places are erased. A field of the document is read with a dot or with a
constant index, and a function that only returns is an arrow or a block, with or without annotations
of its parameters. `Expr.normal` settles on the dot and on the bare arrow. Which expressions are the
document depends on the scope, and the parameters of a function are in the scope of its body.

`Expr.written` says what the rules write for a normal expression when no class is asked for, and
`Translates.written_normal` that this is what they write for every expression of that normal form. -/
namespace Aggregation

variable {ν : Type}

/-- The parameter by its name alone. -/
def Param.plain (p : Param) : Param := ⟨p.name, ⟨0, 0⟩, none⟩

/-- The scope inside a function with the given parameters. -/
def Scope.bindAll (s : Scope) (params : List Param) : Scope :=
  params.foldl (fun s p => s.bind p.name) s

/-- The name that a constant index gives. -/
def Expr.key? : Expr ν → Option String
  | .literal _ (.string key) => some key
  | _ => none

/-! ### The normal spelling -/

mutual

/-- The expression with a dot for every field of the document, and a bare arrow for every function
that only returns. -/
def Expr.normal (s : Scope) : Expr ν → Expr ν
  | .name m x => .name m x
  | .literal m c => .literal m c
  | .paren m e => .paren m (e.normal s)
  | .property m object name => .property m (object.normal s) name
  | .element m object index =>
    match (if s.isContext object then index.key? else none) with
    | some key => .property m (object.normal s) key
    | none => .element m (object.normal s) (index.normal s)
  | .binary m op left right => .binary m op (left.normal s) (right.normal s)
  | .unary m op operand => .unary m op (operand.normal s)
  | .conditional m condition yes no =>
    .conditional m (condition.normal s) (yes.normal s) (no.normal s)
  | .call m callee args => .call m (callee.normal s) (normalAll s args)
  | .lambda m params body => .lambda m (params.map Param.plain) (body.normal (s.bindAll params))
  | .function m style params body =>
    let body := normalStatements (s.bindAll params) body
    match Statement.singleResult? body with
    | some e => .lambda m (params.map Param.plain) e
    | none => .function m style params body
  | .object m properties => .object m (normalProperties s properties)

def normalAll (s : Scope) : List (Expr ν) → List (Expr ν)
  | [] => []
  | e :: es => e.normal s :: normalAll s es

def normalProperties (s : Scope) : List (Property ν) → List (Property ν)
  | [] => []
  | .field span key value :: ps => .field span key (value.normal s) :: normalProperties s ps
  | .shorthand span key value :: ps =>
    .shorthand span key (value.normal s) :: normalProperties s ps
  | .computed span key value :: ps =>
    .computed span (key.normal s) (value.normal s) :: normalProperties s ps

def normalStatements (s : Scope) : List (Statement ν) → List (Statement ν)
  | [] => []
  | .declaration span name none :: ss => .declaration span name none :: normalStatements s ss
  | .declaration span name (some e) :: ss =>
    .declaration span name (some (e.normal s)) :: normalStatements s ss
  | .result span none :: ss => .result span none :: normalStatements s ss
  | .result span (some e) :: ss => .result span (some (e.normal s)) :: normalStatements s ss
  | .expression span e :: ss => .expression span (e.normal s) :: normalStatements s ss

end

/-- The normal spelling makes no names. -/
theorem Expr.name?_normal (s : Scope) (e : Expr ν) : (e.normal s).bare.name? = e.bare.name? := by
  match e with
  | paren _ inner => exact name?_normal s inner
  | element m o i =>
    rw [normal]
    split <;> rfl
  | function m style params body =>
    rw [normal]
    split <;> rfl
  | name _ _ | literal _ _ | property _ _ _ | binary _ _ _ _ | unary _ _ _
  | conditional _ _ _ _ | call _ _ _ | lambda _ _ _ | object _ _ => rfl

/-- The normal spelling keeps which expressions are the placeholder. -/
@[simp] theorem Scope.isContext_normal (s : Scope) (e : Expr ν) :
    s.isContext (e.normal s) = s.isContext e := by
  rw [isContext, isContext, Expr.name?_normal]

theorem Expr.key?_erase {e : Expr ν} {m : Mark ν} {key : String}
    (h : e.bare = .literal m (.string key)) : e.erase.key? = some key := by
  rw [← erase_bare, h]
  rfl

/-- However a function of one parameter is written, if it only returns it is a bare arrow. -/
theorem Expr.normal_callback {s : Scope} {e body : Expr ν} {param : Param}
    (h : e.bare.callable? = some ⟨[param], some body⟩) : e.erase.normal s =
      .lambda .erased [param.plain] (body.erase.normal (s.bind param.name)) := by
  rw [← erase_bare]
  obtain ⟨m, he⟩ | ⟨m, style, span, he⟩ := eq_of_callable h
  · rw [he]
    rfl
  · rw [he]
    rfl

def Expr.methodCall (object : Expr Unit) (name : String) (args : List (Expr Unit)) : Expr Unit :=
  .call .erased (.property .erased object name) args

/-- The call of a method, erased and in the normal spelling. -/
theorem Expr.normal_call {s : Scope} {m : Mark ν} {callee object : Expr ν} {m' : Mark ν}
    {name : String} (args : List (Expr ν)) (h : callee.bare = .property m' object name) :
    (Expr.call m callee args).erase.normal s =
      methodCall (object.erase.normal s) name (normalAll s (eraseAll args)) := by
  rw [erase, ← erase_bare callee, h]
  rfl

/-! ### What the rules write -/

/-- What a call writes, from the array and the arguments: `params` are those of a function among the
arguments. -/
def callValue (name : String) (array : Value) (params : List Param) (args : List Value) : Value :=
  match args with
  | [] => .single "$reverseArray" array
  | arg :: _ =>
    if name = "isArray" then .list "$isArray" [arg]
    else if name = "includes" then .list "$in" [arg, array]
    else
      match pairMethods.lookup name, params with
      | some op, _ => .list op [array, arg]
      | none, [param] =>
        .named ("$" ++ name) [("input", array), ("as", .name param.name),
          ((iterationMethods.lookup name).getD "", arg)]
      | none, _ => .literal .null

theorem callValue_pair {name op : String} (h : (name, op) ∈ pairMethods) (array arg : Value)
    (params : List Param) : callValue name array params [arg] = .list op [array, arg] := by
  obtain ⟨rfl, rfl⟩ | ⟨rfl, rfl⟩ := eq_of_mem_pairMethods h <;> rfl

theorem callValue_iteration {name key : String} (h : (name, key) ∈ iterationMethods)
    (array arg : Value) (param : Param) : callValue name array [param] [arg] =
      .named ("$" ++ name) [("input", array), ("as", .name param.name), (key, arg)] := by
  obtain ⟨rfl, rfl⟩ | ⟨rfl, rfl⟩ := eq_of_mem_iterationMethods h <;> rfl

/-- The parameters of a function that is the first of the arguments. -/
def paramsOf : List (Expr ν) → List Param
  | .lambda _ params _ :: _ => params
  | _ => []

mutual

/-- What the rules write for a normal expression when they ask for no class. Functions stand for what
they return, and for expressions that no rule fits there is a value without a meaning. -/
def Expr.written (s : Scope) : Expr ν → Value
  | .name _ x => .ofLocal x
  | .literal _ c => .literal c
  | .paren _ e => e.written s
  | .property _ object name =>
    if s.isContext object then .ofField name else .single "$size" (object.written s)
  | .element _ object index => .list "$arrayElemAt" [object.written s, index.written s]
  | .binary _ op left right => .list (op.operator?.getD "") [left.written s, right.written s]
  | .unary _ _ operand => .list "$not" [operand.written s]
  | .conditional _ condition yes no =>
    .named "$cond" [("if", condition.written s), ("then", yes.written s), ("else", no.written s)]
  | .call _ (.property _ object name) args =>
    callValue name (object.written s) (paramsOf args) (writtenAll s args)
  | .call _ _ _ => .literal .null
  | .lambda _ params body => body.written (s.bindAll params)
  | .function _ _ _ _ => .literal .null
  | .object _ _ => .literal .null

def writtenAll (s : Scope) : List (Expr ν) → List Value
  | [] => []
  | e :: es => e.written s :: writtenAll s es

end

/-- A method call of a normal expression is written from what its parts write. -/
theorem Expr.written_call {s : Scope} {m : Mark ν} {callee object : Expr ν} {m' : Mark ν}
    {name : String} (args : List (Expr ν)) (h : callee.bare = .property m' object name) :
    ((Expr.call m callee args).erase.normal s).written s =
      callValue name ((object.erase.normal s).written s) (paramsOf (normalAll s (eraseAll args)))
        (writtenAll s (normalAll s (eraseAll args))) := by
  rw [normal_call args h]
  rfl

/-- What is written depends on the normal form alone. -/
theorem Translates.written_normal {s : Scope} {e : Expr Nat} {v : Value} (h : Translates s e v) :
    (e.erase.normal s).written s = v := by
  induction h with
  | group _ ih => exact ih
  | parameter _ => rfl
  | literal => rfl
  | field ho _ => simp [Expr.erase, Expr.normal, Expr.written, ho]
  | fieldByKey ho hi _ =>
    simp [Expr.erase, Expr.normal, Expr.written, ho, Expr.key?_erase hi]
  | length ho _ ih => simp [Expr.erase, Expr.normal, Expr.written, ho, ih]
  | element ho _ _ ihv ihw => simp [Expr.erase, Expr.normal, Expr.written, ho, ihv, ihw]
  | binary hop _ _ ihv ihw => simp [Expr.erase, Expr.normal, Expr.written, hop, ihv, ihw]
  | not _ ih => simp [Expr.erase, Expr.normal, Expr.written, ih]
  | choice _ _ _ ihc ihy ihn => simp [Expr.erase, Expr.normal, Expr.written, ihc, ihy, ihn]
  | isArray hc _ _ ih =>
    rw [Expr.written_call _ hc, eraseAll, eraseAll, normalAll, normalAll, writtenAll, ih]
    rfl
  | pair hop hc _ _ _ ihv ihw =>
    rw [Expr.written_call _ hc, eraseAll, eraseAll, normalAll, normalAll, writtenAll, writtenAll,
      ihv, ihw, callValue_pair hop]
  | includes hc _ _ _ ihv ihw =>
    rw [Expr.written_call _ hc, eraseAll, eraseAll, normalAll, normalAll, writtenAll, ihv, ihw]
    rfl
  | reverse hc _ _ ih =>
    rw [Expr.written_call _ hc, ih]
    rfl
  | iteration hk hc _ hf _ _ ihv ihw =>
    rw [Expr.written_call _ hc, eraseAll, eraseAll, normalAll, normalAll, writtenAll, writtenAll,
      Expr.normal_callback hf, paramsOf, ihv, callValue_iteration hk]
    -- The body is written in the scope of the bare parameter, which has the same name.
    exact congrArg (fun w => Value.named _ [_, _, (_, w)]) ihw

end Aggregation
