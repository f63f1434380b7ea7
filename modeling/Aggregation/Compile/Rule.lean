import Aggregation.Compile.Fault
import Aggregation.Compile.Scope
import Aggregation.Query.Value
import Aggregation.Result
import Aggregation.Script.Size
import Aggregation.Typing.Oracle

/-! The rules of compilation, one node at a time.

`Rule.of` looks at a node, at the scope and at the classes of the operands, and says what the node
becomes: a finished value, or an operator over operands that are still to be compiled. Every check
that a node asks for is made here, before any operand is compiled, so a fault of a node comes before
the faults of its operands. The operands are smaller than the node (`Rule.size_operand`), which is
what ends the compilation of an expression. -/
namespace Aggregation

/-- What a node becomes. `two` compiles its operands in the order in which it writes them, and
`swapped` in the other order; `each` compiles its body inside a function of one parameter. -/
inductive Rule
  | done (v : Value)
  | same (e : Expr Nat)
  | single (op : String) (e : Expr Nat)
  | one (op : String) (e : Expr Nat)
  | two (op : String) (first second : Expr Nat)
  | swapped (op : String) (first second : Expr Nat)
  | choice (condition yes no : Expr Nat)
  | each (op key param : String) (input body : Expr Nat)

namespace Rule

/-- The expressions that are still to be compiled. -/
def operands : Rule → List (Expr Nat)
  | done _ => []
  | same e => [e]
  | single _ e => [e]
  | one _ e => [e]
  | two _ first second => [first, second]
  | swapped _ first second => [first, second]
  | choice condition yes no => [condition, yes, no]
  | each _ _ _ input body => [input, body]

/-- No rule fits the node. -/
def refuse {α : Type} (e : Expr Nat) (reason : Unsupported) : Except CompileFault α :=
  .error ⟨.unsupported reason, e⟩

/-- An argument has the wrong form. -/
def misfit {α : Type} (e : Expr Nat) (reason : Misshapen) : Except CompileFault α :=
  .error ⟨.misshapen reason, e⟩

/-- The class of a node, which parentheses do not change. -/
def classOf (oracle : Oracle) (e : Expr Nat) : TypeClass :=
  oracle e.bare

/-! ### Operators -/

/-- The operator that stands for a binary operator: on operands of one class, on any operands, or
none because the comparison is loose or because there is no such operator. -/
inductive Target
  | typed (required : TypeClass) (name : String)
  | untyped (name : String)
  | loose
  | missing

/-- The operator that stands for a binary operator. -/
def target : BinaryOp → Target
  | .add => .typed .numeric "$add"
  | .subtract => .typed .numeric "$subtract"
  | .multiply => .typed .numeric "$multiply"
  | .divide => .typed .numeric "$divide"
  | .modulo => .missing
  | .and => .typed .boolean "$and"
  | .or => .typed .boolean "$or"
  | .strictEq => .untyped "$eq"
  | .strictNe => .untyped "$ne"
  | .gt => .untyped "$gt"
  | .ge => .untyped "$gte"
  | .lt => .untyped "$lt"
  | .le => .untyped "$lte"
  | .looseEq => .loose
  | .looseNe => .loose

def ofBinary (oracle : Oracle) (e : Expr Nat) (op : BinaryOp) (left right : Expr Nat) :
    Except CompileFault Rule :=
  match target op with
  | .typed required name =>
    let l := classOf oracle left
    let r := classOf oracle right
    if l = required ∧ r = required then .ok (two name left right)
    else refuse e (.operands op required l r)
  | .untyped name => .ok (two name left right)
  | .loose => refuse e (.loose op)
  | .missing => refuse e .modulo

def ofUnary (oracle : Oracle) (e : Expr Nat) (op : UnaryOp) (operand : Expr Nat) :
    Except CompileFault Rule :=
  match op with
  | .not =>
    let c := classOf oracle operand
    if c = .boolean then .ok (one "$not" operand) else refuse e (.notOperand c)
  | .negate => refuse e .negation

/-! ### Fields and elements -/

/-- A field of the document. -/
def ofField (e : Expr Nat) (name : String) : Except CompileFault Rule :=
  if name = "" then refuse e .emptyField else .ok (done (Value.ofField name))

/-- The operator on an array, if the node that is to be one is known to be. -/
def onArray (oracle : Oracle) (e receiver : Expr Nat) (use : ArrayUse) (rule : Rule) :
    Except CompileFault Rule :=
  let c := classOf oracle receiver
  if c = .array then .ok rule else refuse e (.receiver use c)

/-- The rule of a property: a field of the document, or the length of an array. -/
def ofProperty (oracle : Oracle) (scope : Scope) (e object : Expr Nat) (name : String) :
    Except CompileFault Rule :=
  if scope.isContext object then ofField e name
  else if name ≠ "length" then refuse e (.property scope.placeholder)
  else onArray oracle e object .length (single "$size" object)

/-- The rule of an element: a field of the document by its name, or an element of an array. -/
def ofElement (oracle : Oracle) (scope : Scope) (e object index : Expr Nat) :
    Except CompileFault Rule :=
  if scope.isContext object then
    match index.bare with
    | .literal _ (.string key) => ofField e key
    | _ => refuse e .computedField
  else onArray oracle e object .element (two "$arrayElemAt" object index)

def ofName (scope : Scope) (e : Expr Nat) (name : String) : Except CompileFault Rule :=
  match scope.resolve name with
  | some .parameter => .ok (done (Value.ofLocal name))
  | some .context => refuse e (.wholeDocument name)
  | none => refuse e (.unboundName name)

/-! ### Calls -/

/-- The only argument of a call. -/
def onlyArgument (e : Expr Nat) (method : String) :
    List (Expr Nat) → Except CompileFault (Expr Nat)
  | [arg] => .ok arg
  | args => misfit e (.argumentCount method args.length)

/-- The rule of a function of `Array` itself. -/
def ofArrayFunction (oracle : Oracle) (e : Expr Nat) (name : String) (args : List (Expr Nat)) :
    Except CompileFault Rule := do
  if name ≠ "isArray" then refuse e (.arrayFunction name)
  else
    let arg ← onlyArgument e "Array.isArray" args
    let c := classOf oracle arg
    if c = .array then return one "$isArray" arg else refuse e (.arrayTest c)

/-- The rule of a method that calls a function for each element. -/
def ofIteration (e : Expr Nat) (method key : String) (input : Expr Nat)
    (args : List (Expr Nat)) : Except CompileFault Rule := do
  let arg ← onlyArgument e method args
  match arg.bare.callable? with
  | none => misfit arg.bare (.callback method)
  | some f =>
    match f.params with
    | [param] =>
      match f.result? with
      | some body => return each ("$" ++ method) key param.name input body
      | none => misfit arg.bare .callbackBody
    | params => misfit arg.bare (.callbackParams method params.length)

def ofMethod (oracle : Oracle) (e object : Expr Nat) (name : String) (args : List (Expr Nat)) :
    Except CompileFault Rule :=
  match name with
  | "concat" => do
    let other ← onlyArgument e name args
    let c := classOf oracle other
    if c = .array then return two "$concatArrays" object other
    else refuse e (.concatArgument c)
  | "filter" => ofIteration e "filter" "cond" object args
  | "map" => ofIteration e "map" "in" object args
  | "includes" => do
    let needle ← onlyArgument e name args
    return swapped "$in" object needle
  | "indexOf" => do
    let needle ← onlyArgument e name args
    return two "$indexOfArray" object needle
  | "reverse" =>
    if args.isEmpty then .ok (single "$reverseArray" object)
    else misfit e (.reverseArguments args.length)
  | name => refuse e (.method name)

def ofCall (oracle : Oracle) (scope : Scope) (e callee : Expr Nat) (args : List (Expr Nat)) :
    Except CompileFault Rule :=
  match callee.bare with
  | .property _ object name =>
    if object.name? = some "Array" ∧ scope.isFree "Array" then
      ofArrayFunction oracle e name args
    else if scope.isContext object then refuse e (.stageCall name)
    else
      let c := classOf oracle object
      if c = .array then ofMethod oracle e object name args
      else refuse e (.receiver (.method name) c)
  | _ => refuse e .callee

def of (oracle : Oracle) (scope : Scope) (e : Expr Nat) : Except CompileFault Rule :=
  match e with
  | .paren _ inner => .ok (same inner)
  | .name _ s => ofName scope e s
  | .literal _ v => .ok (done (.literal v))
  | .property _ object name => ofProperty oracle scope e object name
  | .element _ object index => ofElement oracle scope e object index
  | .binary _ op left right => ofBinary oracle e op left right
  | .unary _ op operand => ofUnary oracle e op operand
  | .conditional _ condition yes no => .ok (choice condition yes no)
  | .call _ callee args => ofCall oracle scope e callee args
  | .lambda _ _ _ => refuse e .function
  | .function _ _ _ _ => refuse e .function
  | .object _ _ => refuse e .object

/-! ### The operands are smaller -/

/-- The operands of a rule are smaller than a bound. -/
def Below (n : Nat) (r : Rule) : Prop := ∀ x ∈ r.operands, x.size < n

theorem Below.mono {n m : Nat} {r : Rule} (h : r.Below n) (hnm : n ≤ m) : r.Below m :=
  fun x hx => Nat.lt_of_lt_of_le (h x hx) hnm

theorem below_single {n : Nat} {r : Rule} {x : Expr Nat} (h : r.operands = [x])
    (hx : x.size < n) : r.Below n := by
  intro z hz
  rw [h] at hz
  rwa [List.mem_singleton.1 hz]

theorem below_pair {n : Nat} {r : Rule} {x y : Expr Nat} (h : r.operands = [x, y])
    (hx : x.size < n) (hy : y.size < n) : r.Below n := by
  intro z hz
  rw [h] at hz
  rcases List.mem_cons.1 hz with rfl | hz
  · exact hx
  · rwa [List.mem_singleton.1 hz]

theorem eq_of_onlyArgument {e arg : Expr Nat} {method : String} {args : List (Expr Nat)}
    (h : onlyArgument e method args = .ok arg) : args = [arg] := by
  unfold onlyArgument at h
  split at h
  · rw [Except.ok.inj h]
  · simp [misfit] at h

theorem below_ofBinary {oracle : Oracle} {e left right : Expr Nat} {op : BinaryOp} {r : Rule}
    (h : ofBinary oracle e op left right = .ok r) : r.Below (left.size + right.size + 1) := by
  unfold ofBinary at h
  split at h
  · simp only at h
    split at h
    · obtain rfl := Except.ok.inj h
      exact below_pair rfl (by omega) (by omega)
    · simp [refuse] at h
  · obtain rfl := Except.ok.inj h
    exact below_pair rfl (by omega) (by omega)
  · simp [refuse] at h
  · simp [refuse] at h

theorem below_ofUnary {oracle : Oracle} {e operand : Expr Nat} {op : UnaryOp} {r : Rule}
    (h : ofUnary oracle e op operand = .ok r) : r.Below (operand.size + 1) := by
  unfold ofUnary at h
  split at h
  · simp only at h
    split at h
    · obtain rfl := Except.ok.inj h
      simp [Below, operands]
    · simp [refuse] at h
  · simp [refuse] at h

theorem below_ofField {e : Expr Nat} {name : String} {r : Rule} (n : Nat)
    (h : ofField e name = .ok r) : r.Below n := by
  unfold ofField at h
  split at h
  · simp [refuse] at h
  · obtain rfl := Except.ok.inj h
    simp [Below, operands]

theorem eq_of_onArray {oracle : Oracle} {e receiver : Expr Nat} {use : ArrayUse} {rule r : Rule}
    (h : onArray oracle e receiver use rule = .ok r) : rule = r := by
  unfold onArray at h
  simp only at h
  split at h
  · exact Except.ok.inj h
  · simp [refuse] at h

theorem below_ofProperty {oracle : Oracle} {scope : Scope} {e object : Expr Nat} {name : String}
    {r : Rule} (h : ofProperty oracle scope e object name = .ok r) :
    r.Below (object.size + 1) := by
  unfold ofProperty at h
  split at h
  · exact below_ofField _ h
  · split at h
    · simp [refuse] at h
    · obtain rfl := eq_of_onArray h
      simp [Below, operands]

theorem below_ofElement {oracle : Oracle} {scope : Scope} {e object index : Expr Nat} {r : Rule}
    (h : ofElement oracle scope e object index = .ok r) :
    r.Below (object.size + index.size + 1) := by
  unfold ofElement at h
  split at h
  · split at h
    · exact below_ofField _ h
    · simp [refuse] at h
  · obtain rfl := eq_of_onArray h
    exact below_pair rfl (by omega) (by omega)

theorem below_ofName {scope : Scope} {e : Expr Nat} {name : String} {r : Rule} (n : Nat)
    (h : ofName scope e name = .ok r) : r.Below n := by
  unfold ofName at h
  split at h
  · obtain rfl := Except.ok.inj h
    simp [Below, operands]
  · simp [refuse] at h
  · simp [refuse] at h

theorem below_ofArrayFunction {oracle : Oracle} {e : Expr Nat} {name : String}
    {args : List (Expr Nat)} {r : Rule} (h : ofArrayFunction oracle e name args = .ok r) :
    r.Below (sizeAll args + 1) := by
  unfold ofArrayFunction at h
  split at h
  · simp [refuse] at h
  · obtain ⟨arg, ha, hr⟩ := bind_eq_ok.1 h
    obtain rfl := eq_of_onlyArgument ha
    simp only at hr
    split at hr
    · obtain rfl := Except.ok.inj hr
      simp [Below, operands, sizeAll]
    · simp [refuse] at hr

theorem below_ofIteration {e input : Expr Nat} {method key : String} {args : List (Expr Nat)}
    {r : Rule} (h : ofIteration e method key input args = .ok r) :
    r.Below (input.size + sizeAll args + 1) := by
  unfold ofIteration at h
  obtain ⟨arg, ha, hr⟩ := bind_eq_ok.1 h
  obtain rfl := eq_of_onlyArgument ha
  split at hr
  · simp [misfit] at hr
  · rename_i f hf
    split at hr
    · split at hr
      · rename_i body hbody
        obtain rfl := Except.ok.inj hr
        have hlt := Expr.size_result_lt hf hbody
        have hle := Expr.size_bare_le arg
        simp only [Below, operands, sizeAll, List.mem_cons, List.not_mem_nil, or_false]
        rintro x (rfl | rfl) <;> omega
      · simp [misfit] at hr
    · simp [misfit] at hr

theorem below_ofMethod {oracle : Oracle} {e object : Expr Nat} {name : String}
    {args : List (Expr Nat)} {r : Rule} (h : ofMethod oracle e object name args = .ok r) :
    r.Below (object.size + sizeAll args + 1) := by
  unfold ofMethod at h
  split at h
  · obtain ⟨arg, ha, hr⟩ := bind_eq_ok.1 h
    obtain rfl := eq_of_onlyArgument ha
    simp only at hr
    split at hr
    · obtain rfl := Except.ok.inj hr
      exact below_pair rfl (by rw [sizeAll, sizeAll]; omega) (by rw [sizeAll, sizeAll]; omega)
    · simp [refuse] at hr
  · exact below_ofIteration h
  · exact below_ofIteration h
  · obtain ⟨arg, ha, hr⟩ := bind_eq_ok.1 h
    obtain rfl := eq_of_onlyArgument ha
    obtain rfl := Except.ok.inj hr
    exact below_pair rfl (by rw [sizeAll, sizeAll]; omega) (by rw [sizeAll, sizeAll]; omega)
  · obtain ⟨arg, ha, hr⟩ := bind_eq_ok.1 h
    obtain rfl := eq_of_onlyArgument ha
    obtain rfl := Except.ok.inj hr
    exact below_pair rfl (by rw [sizeAll, sizeAll]; omega) (by rw [sizeAll, sizeAll]; omega)
  · split at h
    · obtain rfl := Except.ok.inj h
      exact below_single rfl (by omega)
    · simp [misfit] at h
  · simp [refuse] at h

theorem below_ofCall {oracle : Oracle} {scope : Scope} {e callee : Expr Nat}
    {args : List (Expr Nat)} {r : Rule} (h : ofCall oracle scope e callee args = .ok r) :
    r.Below (callee.size + sizeAll args + 1) := by
  unfold ofCall at h
  have hle := Expr.size_bare_le callee
  split at h
  · rename_i m object name hc
    rw [hc, Expr.size] at hle
    split at h
    · exact (below_ofArrayFunction h).mono (by omega)
    · split at h
      · simp [refuse] at h
      · simp only at h
        split at h
        · exact (below_ofMethod h).mono (by omega)
        · simp [refuse] at h
  · simp [refuse] at h

/-- The operands of the rule of a node are smaller than the node. -/
theorem size_operand {oracle : Oracle} {scope : Scope} {e : Expr Nat} {r : Rule}
    (h : of oracle scope e = .ok r) {x : Expr Nat} (hx : x ∈ r.operands) : x.size < e.size := by
  suffices hr : r.Below e.size from hr x hx
  cases e with
  | paren m inner =>
    obtain rfl := Except.ok.inj h
    simp [Below, operands, Expr.size]
  | name m s => exact below_ofName _ h
  | literal m v =>
    obtain rfl := Except.ok.inj h
    simp [Below, operands]
  | property m object name => exact below_ofProperty h
  | element m object index => exact below_ofElement h
  | binary m op left right => exact below_ofBinary h
  | unary m op operand => exact below_ofUnary h
  | conditional m condition yes no =>
    obtain rfl := Except.ok.inj h
    simp only [Below, operands, Expr.size, List.mem_cons, List.not_mem_nil, or_false]
    rintro x (rfl | rfl | rfl) <;> omega
  | call m callee args => exact below_ofCall h
  | lambda m ps b => simp [of, refuse] at h
  | function m s ps b => simp [of, refuse] at h
  | object m ps => simp [of, refuse] at h

end Rule

end Aggregation
