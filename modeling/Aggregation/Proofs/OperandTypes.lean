import Aggregation.Proofs.Gating
import Aggregation.Proofs.Grouping

/-! The types of the operands of compiled values.

A value can be typed by itself, from the type of the document alone: `Value.type` gives the type of an
operator from those of its operands, and a variable has the type of the elements of the array that it
goes over. Some operators take only numbers, booleans or arrays, and a value is `Value.supported` if
all operands of such operators in it have this type.

The type of a compiled value is that of its expression, as long as nothing is written that only one of
the two sees: an annotation of a parameter, or parentheses around a called method or the string of a
key (`hasType_compile`). So what the compiler gates is supported in the value (`supported_compile`).
For this the type of a concatenation has to be that of its first array: with a rule that looks at the
second too, there are expressions that compile to values that are not supported, and so there are where
parentheses hide keys (`compiles_unsupported`). -/
namespace Aggregation

/-! ### Operators -/

namespace Ty

/-- The type of a concatenation: that of both arrays, or an array of which nothing else is known. -/
def common (first second : Ty) : Ty :=
  if first = second then first else array unknown

/-- The type of a concatenation: that of the first array. -/
def leading (first _second : Ty) : Ty := first

/-- The type of what an operator gives for operands of the given types. How the types of concatenated
arrays are put together is left open. -/
def ofOperator (concat : Ty → Ty → Ty) : String → List Ty → Ty
  | "$add", _ | "$subtract", _ | "$multiply", _ | "$divide", _ => number
  | "$size", _ | "$indexOfArray", _ => number
  | "$eq", _ | "$ne", _ | "$gt", _ | "$gte", _ | "$lt", _ | "$lte", _ => boolean
  | "$and", _ | "$or", _ | "$not", _ | "$in", _ | "$isArray", _ => boolean
  | "$cond", [_, yes, no] => join yes no
  | "$arrayElemAt", [items, _] => items.element none
  | "$reverseArray", [items] => items
  | "$filter", [items, _] => items
  | "$map", [_, body] => array body
  | "$concatArrays", [first, second] => concat first second
  | _, _ => unknown

end Ty

/-- The class that an operator wants of its operand with the given index, if it wants one. -/
def neededClass : String → Nat → Option TypeClass
  | "$add", _ | "$subtract", _ | "$multiply", _ | "$divide", _ => some .numeric
  | "$and", _ | "$or", _ | "$not", _ => some .boolean
  | "$size", _ | "$reverseArray", _ | "$isArray", _ | "$concatArrays", _ => some .array
  | "$arrayElemAt", 0 | "$indexOfArray", 0 | "$filter", 0 | "$map", 0 => some .array
  | "$in", 1 => some .array
  | _, _ => none

/-- Whether operands of the given types are such as the operator wants them. -/
def operandsFit (op : String) (ts : List Ty) : Bool :=
  ts.zipIdx.all fun (t, i) => (neededClass op i).all (· == t.toClass)

/-! ### Values -/

namespace Value

section Typing

variable (concat : Ty → Ty → Ty) (context : Ty)

mutual

/-- The type of a value. -/
def type (locals : List (String × Ty)) : Value → Ty
  | fieldRef path => context.field (String.ofList (path.toList.drop 1))
  | localRef path => (locals.lookup (String.ofList (path.toList.drop 2))).getD .unknown
  | literal c => .ofLiteral c
  | name _ => .unknown
  | single op v => .ofOperator concat op [type locals v]
  | list op vs => .ofOperator concat op (types locals vs)
  | named op [("input", input), ("as", .name x), (_, body)] =>
    let t := type locals input
    .ofOperator concat op [t, type ((x, t.element none) :: locals) body]
  | named op entries => .ofOperator concat op (entryTypes locals entries)

def types (locals : List (String × Ty)) : List Value → List Ty
  | [] => []
  | v :: vs => type locals v :: types locals vs

def entryTypes (locals : List (String × Ty)) : List (String × Value) → List Ty
  | [] => []
  | (_, v) :: entries => type locals v :: entryTypes locals entries

end

mutual

/-- Whether every operator in a value has operands such as it wants them. -/
def supported (locals : List (String × Ty)) : Value → Bool
  | fieldRef _ => true
  | localRef _ => true
  | literal _ => true
  | name _ => true
  | single op v => operandsFit op [v.type concat context locals] && supported locals v
  | list op vs => operandsFit op (types concat context locals vs) && supportedAll locals vs
  | named op [("input", input), ("as", .name x), (_, body)] =>
    let t := input.type concat context locals
    let inner := (x, t.element none) :: locals
    operandsFit op [t, body.type concat context inner] && supported locals input &&
      supported inner body
  | named op entries =>
    operandsFit op (entryTypes concat context locals entries) && supportedEntries locals entries

def supportedAll (locals : List (String × Ty)) : List Value → Bool
  | [] => true
  | v :: vs => supported locals v && supportedAll locals vs

def supportedEntries (locals : List (String × Ty)) : List (String × Value) → Bool
  | [] => true
  | (_, v) :: entries => supported locals v && supportedEntries locals entries

end

end Typing

/-- A value of the given type in which every operator has operands such as it wants them. -/
def HasType (env : Env) (v : Value) (t : Ty) : Prop :=
  v.type .leading env.context env.locals = t ∧
    v.supported .leading env.context env.locals = true

end Value

/-- What an operator gives for operands of the given types, which are such as it wants them. -/
def Signature (op : String) (ts : List Ty) (t : Ty) : Prop :=
  Ty.ofOperator .leading op ts = t ∧ operandsFit op ts = true

namespace Value.HasType

variable {env : Env} {op : String} {u v w : Value} {t t₁ t₂ t₃ : Ty}

theorem single (hv : v.HasType env t₁) (hop : Signature op [t₁] t) :
    (Value.single op v).HasType env t := by
  obtain ⟨rfl, hv⟩ := hv
  refine ⟨hop.1, ?_⟩
  rw [supported, hop.2, hv]
  rfl

theorem one (hv : v.HasType env t₁) (hop : Signature op [t₁] t) :
    (Value.list op [v]).HasType env t := by
  obtain ⟨rfl, hv⟩ := hv
  refine ⟨hop.1, ?_⟩
  show (operandsFit op [_] && (v.supported .leading env.context env.locals && true)) = true
  rw [hop.2, hv]
  rfl

theorem two (hv : v.HasType env t₁) (hw : w.HasType env t₂) (hop : Signature op [t₁, t₂] t) :
    (Value.list op [v, w]).HasType env t := by
  obtain ⟨rfl, hv⟩ := hv
  obtain ⟨rfl, hw⟩ := hw
  refine ⟨hop.1, ?_⟩
  show (operandsFit op [_, _] && (v.supported .leading env.context env.locals &&
    (w.supported .leading env.context env.locals && true))) = true
  rw [hop.2, hv, hw]
  rfl

theorem choice (hu : u.HasType env t₁) (hv : v.HasType env t₂) (hw : w.HasType env t₃) :
    (Value.named "$cond" [("if", u), ("then", v), ("else", w)]).HasType env (t₂.join t₃) := by
  obtain ⟨rfl, hu⟩ := hu
  obtain ⟨rfl, hv⟩ := hv
  obtain ⟨rfl, hw⟩ := hw
  refine ⟨rfl, ?_⟩
  show (true && (u.supported .leading env.context env.locals &&
    (v.supported .leading env.context env.locals &&
      (w.supported .leading env.context env.locals && true)))) = true
  rw [hu, hv, hw]
  rfl

theorem iteration {inner : Env} {x key : String} (hv : v.HasType env t₁)
    (hcontext : inner.context = env.context)
    (hlocals : inner.locals = (x, t₁.element none) :: env.locals) (hw : w.HasType inner t₂)
    (hop : Signature op [t₁, t₂] t) :
    (Value.named op [("input", v), ("as", .name x), (key, w)]).HasType env t := by
  obtain ⟨rfl, hv⟩ := hv
  obtain ⟨rfl, hw⟩ := hw
  rw [hcontext, hlocals] at hw hop
  refine ⟨hop.1, ?_⟩
  show (operandsFit op [_, _] && v.supported .leading env.context env.locals &&
    w.supported .leading env.context _) = true
  rw [hop.2, hv, hw]
  rfl

end Value.HasType

/-! ### Rules -/

/-- Whether parentheses hide the name of a method that is called, or of a field in brackets. -/
def Expr.hidesName {ν : Type} : Expr ν → Bool
  | .call _ callee _ => callee.isGroup
  | .element _ _ index => index.isGroupedString
  | _ => false

/-- Whether the expression is a function that has an annotation for a parameter. -/
def Expr.annotates {ν : Type} (e : Expr ν) : Bool :=
  e.callable?.any (·.params.any (·.type?.isSome))

namespace Rule

/-- A rule that writes a value with the type of the node, if the operands have theirs. -/
def Typed (env : Env) (e : Expr Nat) : Rule → Prop
  | done v => v.HasType env (env.typeOf e)
  | same x => env.typeOf x = env.typeOf e
  | single op x => Signature op [env.typeOf x] (env.typeOf e)
  | one op x => Signature op [env.typeOf x] (env.typeOf e)
  | two op x y => Signature op [env.typeOf x, env.typeOf y] (env.typeOf e)
  | swapped op x y => Signature op [env.typeOf y, env.typeOf x] (env.typeOf e)
  | choice _ y n => (env.typeOf y).join (env.typeOf n) = env.typeOf e
  | each op _ param input body =>
    (env.inner e).context = env.context ∧
      (env.inner e).locals = (param, (env.typeOf input).element none) :: env.locals ∧
      Signature op [env.typeOf input, (env.inner e).typeOf body] (env.typeOf e)

variable {env : Env} {e x : Expr Nat} {r : Rule} {fields : List (String × Ty)}

/-! What the classes say about types. -/

theorem classOf_oracle (env : Env) (x : Expr Nat) :
    classOf env.oracle x = (env.typeOf x).toClass := by
  rw [classOf, Env.oracle, Env.typeOf_bare]

theorem typeOf_of_numeric (h : classOf env.oracle x = .numeric) : env.typeOf x = .number := by
  rw [classOf_oracle] at h
  generalize env.typeOf x = t at h
  cases t <;> cases h
  rfl

theorem typeOf_of_boolean (h : classOf env.oracle x = .boolean) : env.typeOf x = .boolean := by
  rw [classOf_oracle] at h
  generalize env.typeOf x = t at h
  cases t <;> cases h
  rfl

theorem typeOf_of_array (h : classOf env.oracle x = .array) : ∃ t, env.typeOf x = .array t := by
  rw [classOf_oracle] at h
  generalize env.typeOf x = t at h
  cases t with
  | array t => exact ⟨t, rfl⟩
  | _ => cases h

theorem classOf_of_onArray {use : ArrayUse} {rule : Rule}
    (h : onArray env.oracle e x use rule = .ok r) : classOf env.oracle x = .array := by
  unfold onArray at h
  simp only at h
  split at h
  · assumption
  · cases h

/-- The placeholder has the type of the document. -/
theorem typeOf_of_isContext (h : env.scope.isContext x) : env.typeOf x = env.context := by
  rw [← Env.typeOf_bare]
  unfold Scope.isContext at h
  cases hx : x.bare with
  | name m y =>
    rw [hx] at h
    obtain ⟨hlocal, rfl⟩ : y ∉ env.scope.locals ∧ y = env.scope.placeholder :=
      Scope.resolve_eq_context.1 (by simpa [Expr.name?] using h)
    have hnone := Option.isNone_iff_eq_none.1 ((Env.isNone_lookup env.locals _).2 hlocal)
    show env.lookup env.placeholder = env.context
    rw [Env.lookup, show env.locals.lookup env.placeholder = none from hnone]
    exact if_pos rfl
  | _ =>
    rw [hx] at h
    cases h

theorem typed_ofField {name : String} (ht : env.typeOf e = env.context.field name)
    (h : ofField x name = .ok r) : r.Typed env e := by
  unfold ofField at h
  split at h
  · cases h
  · obtain rfl := Except.ok.inj h
    refine ⟨?_, rfl⟩
    rw [ht]
    simp [Value.ofField, Value.type]

theorem typed_ofName {m : Mark Nat} {name : String} (h : ofName env.scope e name = .ok r) :
    r.Typed env (.name m name) := by
  unfold ofName at h
  split at h
  · rename_i hname
    obtain rfl := Except.ok.inj h
    refine ⟨?_, rfl⟩
    have hmem := Scope.resolve_eq_parameter.1 hname
    show (env.locals.lookup (String.ofList (("$$" ++ name).toList.drop 2))).getD .unknown =
      env.lookup name
    have hdrop : String.ofList (("$$" ++ name).toList.drop 2) = name := by simp
    rw [hdrop, Env.lookup]
    cases hlookup : env.locals.lookup name with
    | some t => rfl
    | none =>
      have hnone := Option.isNone_iff_eq_none.2 hlookup
      exact absurd hmem ((Env.isNone_lookup env.locals name).1 hnone)
  · cases h
  · cases h

theorem typed_ofProperty {m : Mark Nat} {object : Expr Nat} {name : String}
    (hcontext : env.context = .object fields)
    (h : ofProperty env.oracle env.scope e object name = .ok r) :
    r.Typed env (.property m object name) := by
  unfold ofProperty at h
  split at h
  · rename_i hobject
    refine typed_ofField ?_ h
    show (env.typeOf object).property name = _
    rw [typeOf_of_isContext hobject, hcontext]
    rfl
  · split at h
    · cases h
    · rename_i hname
      obtain rfl := not_not.1 hname
      obtain ⟨t, ht⟩ := typeOf_of_array (classOf_of_onArray h)
      obtain rfl := eq_of_onArray h
      show Signature "$size" [env.typeOf object] ((env.typeOf object).property "length")
      rw [ht]
      exact ⟨rfl, rfl⟩

theorem typed_ofElement {m : Mark Nat} {object index : Expr Nat}
    (hcontext : env.context = .object fields) (hindex : index.isGroupedString = false)
    (h : ofElement env.oracle env.scope e object index = .ok r) :
    r.Typed env (.element m object index) := by
  rw [ofElement_eq] at h
  split at h
  · rename_i hobject
    split at h
    · rename_i key hkey
      refine typed_ofField ?_ h
      -- A string that is not in parentheses is seen by the types too.
      have hbare : Env.stringKey index = some key := by
        by_cases hgroup : index.isGroup = true
        · rw [Expr.isGroupedString, hgroup, hkey] at hindex
          cases hindex
        · rwa [Expr.bare_of_not_isGroup (by simpa using hgroup)] at hkey
      show (env.typeOf object).element (Env.stringKey index) = _
      rw [typeOf_of_isContext hobject, hcontext, hbare]
      rfl
    · cases h
  · obtain ⟨t, ht⟩ := typeOf_of_array (classOf_of_onArray h)
    obtain rfl := eq_of_onArray h
    show Signature "$arrayElemAt" [env.typeOf object, env.typeOf index]
      ((env.typeOf object).element (Env.stringKey index))
    rw [ht]
    exact ⟨rfl, rfl⟩

theorem eq_of_typed {op : BinaryOp} {left right : Expr Nat} {required : TypeClass} {name : String}
    (htarget : target op = .typed required name)
    (h : ofBinary env.oracle e op left right = .ok r) :
    classOf env.oracle left = required ∧ classOf env.oracle right = required ∧
      r = two name left right := by
  simp only [ofBinary, htarget] at h
  split at h
  · rename_i hclasses
    exact ⟨hclasses.1, hclasses.2, (Except.ok.inj h).symm⟩
  · cases h

theorem typed_ofBinary {m : Mark Nat} {op : BinaryOp} {left right : Expr Nat}
    (h : ofBinary env.oracle e op left right = .ok r) : r.Typed env (.binary m op left right) := by
  cases op with
  | add | subtract | multiply | divide =>
    obtain ⟨hleft, hright, rfl⟩ := eq_of_typed rfl h
    show Signature _ [env.typeOf left, env.typeOf right]
      (.binary _ (env.typeOf left) (env.typeOf right))
    rw [typeOf_of_numeric hleft, typeOf_of_numeric hright]
    exact ⟨rfl, rfl⟩
  | and | or =>
    obtain ⟨hleft, hright, rfl⟩ := eq_of_typed rfl h
    show Signature _ [env.typeOf left, env.typeOf right]
      (.binary _ (env.typeOf left) (env.typeOf right))
    rw [typeOf_of_boolean hleft, typeOf_of_boolean hright]
    exact ⟨rfl, rfl⟩
  | strictEq | strictNe | gt | ge | lt | le =>
    obtain rfl := Except.ok.inj h
    exact ⟨rfl, rfl⟩
  | modulo | looseEq | looseNe => cases h

theorem typed_ofUnary {m : Mark Nat} {op : UnaryOp} {operand : Expr Nat}
    (h : ofUnary env.oracle e op operand = .ok r) : r.Typed env (.unary m op operand) := by
  cases op with
  | not =>
    simp only [ofUnary] at h
    split at h
    · rename_i hclass
      obtain rfl := Except.ok.inj h
      show Signature "$not" [env.typeOf operand] .boolean
      rw [typeOf_of_boolean hclass]
      exact ⟨rfl, rfl⟩
    · cases h
  | negate => cases h

section Call

variable {m p : Mark Nat} {object : Expr Nat} {name : String} {args : List (Expr Nat)} {t : Ty}

theorem typed_ofArrayFunction (harray : object.name? = some "Array" ∧ env.scope.isFree "Array")
    (h : ofArrayFunction env.oracle e name args = .ok r) :
    r.Typed env (.call m (.property p object name) args) := by
  unfold ofArrayFunction at h
  split at h
  · cases h
  · rename_i hname
    obtain rfl := not_not.1 hname
    obtain ⟨arg, harg, hr⟩ := bind_eq_ok.1 h
    obtain rfl := eq_of_onlyArgument harg
    simp only at hr
    split at hr
    · rename_i hclass
      obtain rfl := Except.ok.inj hr
      obtain ⟨t, ht⟩ := typeOf_of_array hclass
      have htest : env.isArrayTest object "isArray" = true := by
        simp [Env.isArrayTest, harray.1, ← Env.isFree_scope, harray.2]
      show Signature "$isArray" [env.typeOf arg] (env.typeOf (.call m (.property p object _) [arg]))
      rw [Env.typeOf, if_pos htest, ht]
      exact ⟨rfl, rfl⟩
    · cases hr

/-- The type of what a method returns, if it is not a function of `Array`. -/
theorem typeOf_method (harray : ¬ (object.name? = some "Array" ∧ env.scope.isFree "Array"))
    (ht : env.typeOf object = t) :
    env.typeOf (.call m (.property p object name) args) =
      t.method name args.length (env.argumentType args) := by
  have htest : ¬ env.isArrayTest object name = true := by
    intro htest
    apply harray
    rw [Env.isFree_scope]
    simp only [Env.isArrayTest, Bool.and_eq_true, beq_iff_eq] at htest
    exact htest.1
  rw [Env.typeOf, if_neg htest, ht]

/-- The rule of a method with a function for the elements; `hop` says what its operator gives for an
array of type `t` and a function with the results of `g`. -/
theorem typed_ofIteration {method key : String}
    (harray : ¬ (object.name? = some "Array" ∧ env.scope.isFree "Array"))
    (ht : env.typeOf object = .array t) (hargs : ∀ x ∈ args, x.bare.annotates = false)
    (hop : ∀ g : Ty → Ty, Signature ("$" ++ method) [.array t, g t] ((Ty.array t).method method 1 g))
    (h : ofIteration e method key object args = .ok r) :
    r.Typed env (.call m (.property p object method) args) := by
  unfold ofIteration at h
  obtain ⟨arg, harg, hr⟩ := bind_eq_ok.1 h
  obtain rfl := eq_of_onlyArgument harg
  split at hr
  · cases hr
  · rename_i f hf
    split at hr
    · rename_i q hq
      split at hr
      · rename_i body hbody
        obtain rfl := Except.ok.inj hr
        have htype : q.type? = none := by
          have hnone := hargs arg (List.mem_singleton.2 rfl)
          rw [Expr.annotates, hf] at hnone
          simpa [hq] using hnone
        have hinner : env.inner (.call m (.property p object method) [arg]) =
            { env with locals := (q.name, t) :: env.locals } := by
          rw [Env.inner_of_callable hf, hq, Env.elementOf, ht, Env.bind, Env.bind, htype]
          rfl
        have hresult : env.argumentType [arg] t =
            (env.inner (.call m (.property p object method) [arg])).typeOf body := by
          rw [Env.inner_of_callable hf, Env.argumentType, Env.callbackType_eq, hf]
          obtain ⟨params, result⟩ := f
          obtain rfl : result = some body := hbody
          rw [Env.elementOf, ht]
          rfl
        refine ⟨?_, ?_, ?_⟩
        · rw [hinner]
        · rw [hinner, ht]
          rfl
        · rw [typeOf_method harray ht, ht, ← hresult]
          exact hop _
      · cases hr
    · cases hr

theorem typed_ofMethod (harray : ¬ (object.name? = some "Array" ∧ env.scope.isFree "Array"))
    (ht : env.typeOf object = .array t) (hargs : ∀ x ∈ args, x.bare.annotates = false)
    (h : ofMethod env.oracle e object name args = .ok r) :
    r.Typed env (.call m (.property p object name) args) := by
  unfold ofMethod at h
  split at h
  · obtain ⟨arg, harg, hr⟩ := bind_eq_ok.1 h
    obtain rfl := eq_of_onlyArgument harg
    simp only at hr
    split at hr
    · rename_i hclass
      obtain rfl := Except.ok.inj hr
      obtain ⟨u, hu⟩ := typeOf_of_array hclass
      rw [Typed, typeOf_method harray ht, ht, hu]
      exact ⟨rfl, rfl⟩
    · cases hr
  · exact typed_ofIteration harray ht hargs (fun g => ⟨rfl, rfl⟩) h
  · exact typed_ofIteration harray ht hargs (fun g => ⟨rfl, rfl⟩) h
  · obtain ⟨arg, harg, hr⟩ := bind_eq_ok.1 h
    obtain rfl := eq_of_onlyArgument harg
    obtain rfl := Except.ok.inj hr
    rw [Typed, typeOf_method harray ht, ht]
    exact ⟨rfl, rfl⟩
  · obtain ⟨arg, harg, hr⟩ := bind_eq_ok.1 h
    obtain rfl := eq_of_onlyArgument harg
    obtain rfl := Except.ok.inj hr
    rw [Typed, typeOf_method harray ht, ht]
    exact ⟨rfl, rfl⟩
  · split at h
    · obtain rfl := Except.ok.inj h
      rw [Typed, typeOf_method harray ht, ht]
      exact ⟨rfl, rfl⟩
    · cases h
  · cases h

theorem typed_ofCall {callee : Expr Nat} (hcallee : callee.isGroup = false)
    (hargs : ∀ x ∈ args, x.bare.annotates = false)
    (h : ofCall env.oracle env.scope e callee args = .ok r) : r.Typed env (.call m callee args) := by
  unfold ofCall at h
  rw [Expr.bare_of_not_isGroup hcallee] at h
  split at h
  · split at h
    · exact typed_ofArrayFunction ‹_› h
    · split at h
      · cases h
      · simp only at h
        split at h
        · rename_i hclass
          obtain ⟨t, ht⟩ := typeOf_of_array hclass
          exact typed_ofMethod ‹_› ht hargs h
        · cases h
  · cases h

end Call

/-- The rule of a node writes a value with the type of the node. -/
theorem typed_of (hcontext : env.context = .object fields) (hname : e.hidesName = false)
    (hparams : ∀ n ∈ e.nodes, n.annotates = false) (h : of env.oracle env.scope e = .ok r) :
    r.Typed env e := by
  cases e with
  | name m x => exact typed_ofName h
  | literal m c =>
    obtain rfl := Except.ok.inj h
    exact ⟨rfl, rfl⟩
  | paren m inner =>
    obtain rfl := Except.ok.inj h
    rfl
  | property m object name => exact typed_ofProperty hcontext h
  | element m object index => exact typed_ofElement hcontext hname h
  | binary m op left right => exact typed_ofBinary h
  | unary m op operand => exact typed_ofUnary h
  | conditional m condition yes no =>
    obtain rfl := Except.ok.inj h
    rfl
  | call m callee args =>
    refine typed_ofCall hname (fun x hx => hparams x.bare ?_) h
    have hsub := closed_nodesAll args x (mem_nodesAll hx)
    exact List.mem_append_left _ (List.mem_append_right _ (hsub.subset x.bare_mem_nodes))
  | lambda | function | object => cases h

end Rule

/-! ### Expressions -/

/-- The value of an expression has the type of the expression, and supported operands. -/
theorem hasType_compile {fields : List (String × Ty)} (env : Env) (e : Expr Nat)
    (hcontext : env.context = .object fields) (hnames : ∀ n ∈ e.nodes, n.hidesName = false)
    (hparams : ∀ n ∈ e.nodes, n.annotates = false) {v : Value} (hv : env.compile e = .ok v) :
    v.HasType env (env.typeOf e) := by
  rw [Env.compile_eq_build] at hv
  obtain ⟨r, hr, hv⟩ := bind_eq_ok.1 hv
  have htyped := Rule.typed_of hcontext (hnames e e.mem_nodes_self) hparams hr
  have hsees := Rule.sees_of hr
  have hplain (x : Expr Nat) (hx : x ∈ r.plain) (u : Value) (hu : env.compile x = .ok u) :
      u.HasType env (env.typeOf x) := by
    have hsub := (e.closed_nodes x (Rule.part_mem_nodes (hsees.plain x hx))).subset
    exact hasType_compile env x hcontext (fun n hn => hnames n (hsub hn))
      (fun n hn => hparams n (hsub hn)) hu
  cases r with
  | done u =>
    obtain rfl := Except.ok.inj hv
    exact htyped
  | same x => exact htyped ▸ hplain x (by simp [Rule.plain]) v hv
  | single op x =>
    obtain ⟨u, hu, hv⟩ := bind_eq_ok.1 hv
    obtain rfl := Except.ok.inj hv
    exact (hplain x (by simp [Rule.plain]) u hu).single htyped
  | one op x =>
    obtain ⟨u, hu, hv⟩ := bind_eq_ok.1 hv
    obtain rfl := Except.ok.inj hv
    exact (hplain x (by simp [Rule.plain]) u hu).one htyped
  | two op x y =>
    obtain ⟨u, hu, hv⟩ := bind_eq_ok.1 hv
    obtain ⟨w, hw, hv⟩ := bind_eq_ok.1 hv
    obtain rfl := Except.ok.inj hv
    exact (hplain x (by simp [Rule.plain]) u hu).two (hplain y (by simp [Rule.plain]) w hw) htyped
  | swapped op x y =>
    obtain ⟨u, hu, hv⟩ := bind_eq_ok.1 hv
    obtain ⟨w, hw, hv⟩ := bind_eq_ok.1 hv
    obtain rfl := Except.ok.inj hv
    exact (hplain y (by simp [Rule.plain]) w hw).two (hplain x (by simp [Rule.plain]) u hu) htyped
  | choice c y n =>
    obtain ⟨t, ht, hv⟩ := bind_eq_ok.1 hv
    obtain ⟨u, hu, hv⟩ := bind_eq_ok.1 hv
    obtain ⟨w, hw, hv⟩ := bind_eq_ok.1 hv
    obtain rfl := Except.ok.inj hv
    have hchoice := (hplain c (by simp [Rule.plain]) t ht).choice
      (hplain y (by simp [Rule.plain]) u hu) (hplain n (by simp [Rule.plain]) w hw)
    rwa [show (env.typeOf y).join (env.typeOf n) = env.typeOf e from htyped] at hchoice
  | each op key param input body =>
    obtain ⟨u, hu, hv⟩ := bind_eq_ok.1 hv
    obtain ⟨w, hw, hv⟩ := bind_eq_ok.1 hv
    obtain rfl := Except.ok.inj hv
    obtain ⟨hsame, hlocals, hop⟩ := htyped
    have hsub := (e.closed_nodes body (hsees.body param body rfl).body_mem_nodes).subset
    have hbody := hasType_compile (env.inner e) body (hsame.trans hcontext)
      (fun n hn => hnames n (hsub hn)) (fun n hn => hparams n (hsub hn)) hw
    exact (hplain input (by simp [Rule.plain]) u hu).iteration hsame hlocals hbody hop
termination_by e.size
decreasing_by
  · exact Rule.size_operand hr (Rule.plain_subset_operands r hx)
  · exact Rule.size_operand hr (by simp [Rule.operands])

/-- Let an expression be read from a text, where no parameter has an annotation and no parentheses
stand around a called method or the string of a key, and let the document be an object. If it compiles,
then every operator in the value that takes numbers, booleans or arrays only has such operands, and the
value has the type of the expression. -/
theorem supported_compile {root : Expr Nat} (h : Parsed root)
    (hparams : ∀ n ∈ root.nodes, n.annotates = false)
    (hnames : ∀ n ∈ root.nodes, n.hidesName = false) (placeholder : String) (context : TypeExpr)
    (fields : List (String × Ty)) (hcontext : Ty.ofTypeExpr context = .object fields) (v : Value)
    (hv : compile (DeclaredTypes.infer root placeholder (some context)).oracle (.root placeholder)
      root = .ok v) :
    v.supported .leading (.ofTypeExpr context) [] = true ∧
      v.type .leading (.ofTypeExpr context) [] =
        (Env.root placeholder (some context)).typeOf root := by
  rw [compile_infer_eq h.labels_nodup] at hv
  have htype := hasType_compile _ root hcontext hnames hparams hv
  exact ⟨htype.2, htype.1⟩

/-- The tree of a text and the value that it compiles to, for documents of the given type. -/
def compiled? (source : String) (context : TypeExpr) : Option (Expr Nat × Value) := do
  let root ← (parseExpression source).toOption
  let v ← (compile (DeclaredTypes.infer root "this" (some context)).oracle (.root "this")
    root).toOption
  return (root, v)

theorem eq_ok_of_toOption {ε α : Type} {x : Except ε α} {a : α} (h : x.toOption = some a) :
    x = .ok a := by
  cases x with
  | error e => cases h
  | ok b => rw [Option.some.inj h]

theorem compiled?_eq_some {source : String} {context : TypeExpr} {root : Expr Nat} {v : Value}
    (h : compiled? source context = some (root, v)) : parseExpression source = .ok root ∧
      compile (DeclaredTypes.infer root "this" (some context)).oracle (.root "this") root =
        .ok v := by
  obtain ⟨root', hroot, h⟩ := Option.bind_eq_some_iff.1 h
  obtain ⟨v', hv, h⟩ := Option.bind_eq_some_iff.1 h
  obtain ⟨rfl, rfl⟩ := Prod.mk.inj (Option.some.inj h)
  exact ⟨eq_ok_of_toOption hroot, eq_ok_of_toOption hv⟩

/-- A text that compiles to a value with the given property. -/
theorem exists_of_compiled (source : String) (context : TypeExpr) (p : Expr Nat → Value → Bool)
    (h : (compiled? source context).any (fun c => p c.1 c.2) = true) :
    ∃ root v, parseExpression source = .ok root ∧
      compile (DeclaredTypes.infer root "this" (some context)).oracle (.root "this") root =
        .ok v ∧ p root v = true := by
  obtain ⟨⟨root, v⟩, hc, hp⟩ := (Option.any_eq_true _ _).1 h
  obtain ⟨hroot, hv⟩ := compiled?_eq_some hc
  exact ⟨root, v, hroot, hv, hp⟩

/-- Elements that were filtered and mapped are added to a number and to a length. -/
theorem supported_compile_sums :
    ∃ root v,
      parseExpression "this.a.filter(x => x > this.n).map(x => x + 1)[0] + this.a.length" =
          .ok root ∧
        compile (DeclaredTypes.infer root "this" (some numbersContext)).oracle (.root "this") root =
          .ok v ∧
        v.supported .leading (.ofTypeExpr numbersContext) [] = true := by
  obtain ⟨root, v, hroot, hv, hplain⟩ := exists_of_compiled
    "this.a.filter(x => x > this.n).map(x => x + 1)[0] + this.a.length" numbersContext
    (fun root _ => root.nodes.all fun n => !n.annotates && !n.hidesName) (by decide +kernel)
  have hnode (n : Expr Nat) (hn : n ∈ root.nodes) : n.annotates = false ∧ n.hidesName = false := by
    simpa using List.all_eq_true.1 hplain n hn
  refine ⟨root, v, hroot, hv, ?_⟩
  exact (supported_compile (.expression hroot) (fun n hn => (hnode n hn).1)
    (fun n hn => (hnode n hn).2) "this" numbersContext _ rfl v hv).1

/-! ### Operands that are not supported -/

/-- A text without annotations that compiles, for documents of the given type, to a value with operands
that are not such as their operators want them, if the types of concatenated arrays have to be the
same. -/
def CompilesUnsupported (source : String) (context : TypeExpr) : Prop :=
  ∃ root v, parseExpression source = .ok root ∧ (∀ n ∈ root.nodes, n.annotates = false) ∧
    compile (DeclaredTypes.infer root "this" (some context)).oracle (.root "this") root = .ok v ∧
    v.supported .common (.ofTypeExpr context) [] = false

theorem CompilesUnsupported.of_compiled {source : String} {context : TypeExpr}
    (h : (compiled? source context).any (fun c => c.1.nodes.all (!·.annotates) &&
      !c.2.supported .common (.ofTypeExpr context) []) = true) :
    CompilesUnsupported source context := by
  obtain ⟨root, v, hroot, hv, hp⟩ := exists_of_compiled source context
    (fun root v => root.nodes.all (!·.annotates) && !v.supported .common (.ofTypeExpr context) []) h
  obtain ⟨hparams, hunsupported⟩ := Bool.and_eq_true_iff.1 hp
  refine ⟨root, v, hroot, fun n hn => ?_, hv, by simpa using hunsupported⟩
  simpa using List.all_eq_true.1 hparams n hn

/-- An element of an array of numbers with an array of booleans behind it is taken for a number. Two
arrays of what different keys hold are taken for arrays of one type, if parentheses hide the keys. -/
theorem compiles_unsupported :
    CompilesUnsupported "this.a.concat(this.b)[0] + 1"
        (.object [("a", .array .number), ("b", .array .boolean)]) ∧
      CompilesUnsupported
        "(this.c ? this.a.map(x => this[(\"n\")]) : this.a.map(x => this[(\"c\")])).length"
        (.object [("a", .array .number), ("n", .number), ("c", .boolean)]) := by
  constructor
  · exact .of_compiled (by decide +kernel)
  · exact .of_compiled (by decide +kernel)

end Aggregation
