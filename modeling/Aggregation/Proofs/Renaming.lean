import Aggregation.Proofs.Records

/-! Renaming the parameter of a function.

`Expr.rename y a` gives the name `y` to one parameter. What it does in a part of the tree is told by an
`Aim`: nothing, or rename the uses of a parameter, or go on along a path to the function whose parameter
it is. Where a name is bound anew, its uses are not those of the parameter any more.

If `y` is new to the tree then the bindings around a part and those around the renamed part give
corresponding names the same type (`Tracks`), and nothing that is recorded about the nodes changes
(`infer_rename`). -/
namespace Aggregation

variable {ν : Type}

/-! ### What to rename -/

/-- What to rename in a part of a tree. -/
inductive Aim
  | nothing
  | uses (x : String)
  | callback (path : List Nat)

namespace Aim

/-- What to rename in the part of a node with the given index. -/
def child (i : Nat) : Aim → Aim
  | nothing => nothing
  | uses x => uses x
  | callback [] => nothing
  | callback (j :: path) => if i = j then callback path else nothing

/-- The new name for a name. -/
def apply (y : String) : Aim → String → String
  | uses x, name => if name = x then y else name
  | _, name => name

/-- What to rename where the given names are bound anew. -/
def hide (names : List String) : Aim → Aim
  | uses x => if x ∈ names then nothing else uses x
  | a => a

/-- The parameters of a function, renamed if it is the one. -/
def params (y : String) : Aim → List Param → List Param
  | callback [], [p] => [{ p with name := y }]
  | _, ps => ps

/-- What to rename inside a function. -/
def enter : Aim → List Param → Aim
  | callback [], [p] => uses p.name
  | a, ps => a.hide (ps.map (·.name))

end Aim

/-- The names that a block declares. -/
def declared : List (Statement ν) → List String
  | [] => []
  | .declaration _ name _ :: ss => name :: declared ss
  | _ :: ss => declared ss

mutual

/-- The expression with the name `y` for what the aim says. The parts of a node are counted from the
left; the entries of an object count twice, for the value and for the key before it. -/
def Expr.rename (y : String) (a : Aim) : Expr ν → Expr ν
  | .name m s => .name m (a.apply y s)
  | .literal m v => .literal m v
  | .paren m e => .paren m (e.rename y a)
  | .property m object name => .property m (object.rename y (a.child 0)) name
  | .element m object index =>
    .element m (object.rename y (a.child 0)) (index.rename y (a.child 1))
  | .binary m op left right =>
    .binary m op (left.rename y (a.child 0)) (right.rename y (a.child 1))
  | .unary m op operand => .unary m op (operand.rename y (a.child 0))
  | .conditional m condition yes no =>
    .conditional m (condition.rename y (a.child 0)) (yes.rename y (a.child 1))
      (no.rename y (a.child 2))
  | .call m callee args => .call m (callee.rename y (a.child 0)) (renameAll y a 1 args)
  | .lambda m ps body => .lambda m (a.params y ps) (body.rename y ((a.enter ps).child 0))
  | .function m style ps body =>
    .function m style (a.params y ps) (renameStatements y ((a.enter ps).hide (declared body)) 0 body)
  | .object m properties => .object m (renameProperties y a 0 properties)

/-- Expressions with a parameter renamed, the first of them the part with index `i`. -/
def renameAll (y : String) (a : Aim) (i : Nat) : List (Expr ν) → List (Expr ν)
  | [] => []
  | e :: es => e.rename y (a.child i) :: renameAll y a (i + 1) es

/-- The entries of an object with a parameter renamed. A name that is key and value keeps its key. -/
def renameProperties (y : String) (a : Aim) (i : Nat) : List (Property ν) → List (Property ν)
  | [] => []
  | .field span key value :: ps =>
    .field span key (value.rename y (a.child i)) :: renameProperties y a (i + 2) ps
  | .shorthand span key value :: ps =>
    (if a.apply y key = key then .shorthand span key (value.rename y (a.child i))
      else .field span (.bare key) (value.rename y (a.child i))) :: renameProperties y a (i + 2) ps
  | .computed span key value :: ps =>
    .computed span (key.rename y (a.child (i + 1))) (value.rename y (a.child i)) ::
      renameProperties y a (i + 2) ps

/-- Statements with a parameter renamed. -/
def renameStatements (y : String) (a : Aim) (i : Nat) : List (Statement ν) → List (Statement ν)
  | [] => []
  | .declaration span name none :: ss =>
    .declaration span name none :: renameStatements y a (i + 1) ss
  | .declaration span name (some e) :: ss =>
    .declaration span name (some (e.rename y (a.child i))) :: renameStatements y a (i + 1) ss
  | .result span none :: ss => .result span none :: renameStatements y a (i + 1) ss
  | .result span (some e) :: ss =>
    .result span (some (e.rename y (a.child i))) :: renameStatements y a (i + 1) ss
  | .expression span e :: ss =>
    .expression span (e.rename y (a.child i)) :: renameStatements y a (i + 1) ss

end

/-! ### What a renamed node looks like -/

namespace Expr

variable (y : String) (a : Aim)

theorem mark_rename (e : Expr ν) : (e.rename y a).mark = e.mark := by
  cases e <;> rfl

theorem bare_rename (e : Expr ν) : (e.rename y a).bare = e.bare.rename y a := by
  match e with
  | .paren _ e => exact bare_rename e
  | .name _ _ | .literal _ _ | .property _ _ _ | .element _ _ _ | .binary _ _ _ _ | .unary _ _ _
  | .conditional _ _ _ _ | .call _ _ _ | .lambda _ _ _ | .function _ _ _ _ | .object _ _ => rfl

theorem name?_rename (e : Expr ν) : (e.rename y a).name? = e.name?.map (a.apply y) := by
  cases e <;> rfl

theorem stringKey_rename (e : Expr ν) : Env.stringKey (e.rename y a) = Env.stringKey e := by
  cases e <;> rfl

end Expr

def Callable.rename (y : String) (a : Aim) (f : Callable ν) : Callable ν :=
  ⟨a.params y f.params, f.result?.map (·.rename y ((a.enter f.params).child 0))⟩

theorem Aim.hide_nil (a : Aim) : a.hide [] = a := by
  cases a <;> rfl

theorem Aim.hide_hide (a : Aim) (p : String) (ps : List String) :
    (a.hide [p]).hide ps = a.hide (p :: ps) := by
  cases a with
  | uses x =>
    by_cases hx : x = p
    · simp [hide, hx]
    · simp [hide, hx]
  | _ => rfl

/-- A block that only returns declares nothing. -/
theorem singleResult?_rename (y : String) (a : Aim) (ss : List (Statement ν)) :
    Statement.singleResult? (renameStatements y (a.hide (declared ss)) 0 ss) =
      (Statement.singleResult? ss).map (·.rename y (a.child 0)) := by
  match ss with
  | [.result _ (some e)] =>
    show some (e.rename y ((a.hide []).child 0)) = some (e.rename y (a.child 0))
    rw [a.hide_nil]
  | [.result _ none] => rfl
  | [] | [.declaration _ _ none] | [.declaration _ _ (some _)] | [.expression _ _] => rfl
  | .result _ none :: s :: _ | .result _ (some _) :: s :: _ | .declaration _ _ none :: s :: _
  | .declaration _ _ (some _) :: s :: _ | .expression _ _ :: s :: _ =>
    cases s with
    | declaration _ _ init => cases init <;> rfl
    | result _ value => cases value <;> rfl
    | expression => rfl

theorem Expr.callable?_rename (y : String) (a : Aim) (e : Expr ν) :
    (e.rename y a).callable? = e.callable?.map (·.rename y a) := by
  cases e with
  | function m style ps body =>
    show some (Callable.mk _ _) = some (Callable.rename y a ⟨ps, Statement.singleResult? body⟩)
    rw [singleResult?_rename]
    rfl
  | _ => rfl

theorem length_renameAll (y : String) (a : Aim) (i : Nat) (es : List (Expr ν)) :
    (renameAll y a i es).length = es.length := by
  induction es generalizing i with
  | nil => rfl
  | cons e es ih => exact congrArg (· + 1) (ih (i + 1))

/-! ### Bindings -/

/-- The names of variables that a node itself has: its name, or what it binds. -/
def Expr.ownNames : Expr ν → List String
  | .name _ s => [s]
  | .lambda _ ps _ => ps.map (·.name)
  | .function _ _ ps body => ps.map (·.name) ++ declared body
  | _ => []

/-- The names of variables in an expression, used or bound. -/
def Expr.variables (e : Expr ν) : List String :=
  e.nodes.flatMap Expr.ownNames

/-- The name is new to nodes. -/
def Fresh (y : String) (es : List (Expr ν)) : Prop :=
  ∀ e ∈ es, y ∉ e.ownNames

theorem fresh_of_not_mem {y : String} {e : Expr ν} (h : y ∉ e.variables) : Fresh y e.nodes :=
  fun x hx hy => h (List.mem_flatMap.2 ⟨x, hx, hy⟩)

namespace Fresh

variable {y : String} {es fs : List (Expr ν)}

theorem left (h : Fresh y (es ++ fs)) : Fresh y es :=
  fun e he => h e (List.mem_append_left fs he)

theorem right (h : Fresh y (es ++ fs)) : Fresh y fs :=
  fun e he => h e (List.mem_append_right es he)

theorem own {e : Expr ν} (h : Fresh y e.nodes) : y ∉ e.ownNames :=
  h e e.mem_nodes_self

theorem of_mem {e x : Expr ν} (h : Fresh y e.nodes) (hx : x ∈ e.nodes) : Fresh y x.nodes :=
  fun n hn => h n ((e.closed_nodes x hx).subset hn)

end Fresh

/-- The bindings with one more parameter. -/
def Env.push (env : Env) (name : String) (t : Ty) : Env :=
  { env with locals := (name, t) :: env.locals }

theorem Env.lookup_push (env : Env) (p name : String) (t : Ty) :
    (env.push p t).locals.lookup name =
      if name = p then some t else env.locals.lookup name := by
  show ((p, t) :: env.locals).lookup name = _
  by_cases hname : name = p
  · simp [hname]
  · rw [List.lookup_cons, beq_false_of_ne hname, if_neg hname]

/-- Bindings around a part of a tree and around the renamed part. Names other than the new one are
bound to the same types, and only names of parameters change. -/
structure Tracks (y : String) (a : Aim) (env env' : Env) : Prop where
  placeholder : env'.placeholder = env.placeholder
  context : env'.context = env.context
  lookup : ∀ name, name ≠ y → env'.locals.lookup (a.apply y name) = env.locals.lookup name
  fixed : ∀ name, env.locals.lookup name = none → a.apply y name = name

namespace Tracks

variable {y : String} {a b : Aim} {env env' : Env}

/-- Aims that treat names alike are alike here. -/
theorem congr (h : Tracks y a env env') (hb : b.apply y = a.apply y) : Tracks y b env env' where
  placeholder := h.placeholder
  context := h.context
  lookup := by rw [hb]; exact h.lookup
  fixed := by rw [hb]; exact h.fixed

theorem start (env : Env) (path : List Nat) : Tracks y (.callback path) env env where
  placeholder := rfl
  context := rfl
  lookup := fun _ _ => rfl
  fixed := fun _ _ => rfl

theorem child (h : Tracks y a env env') (i : Nat) : Tracks y (a.child i) env env' := by
  refine h.congr ?_
  match a with
  | .nothing => rfl
  | .uses x => rfl
  | .callback [] => rfl
  | .callback (j :: path) =>
    show (if i = j then Aim.callback path else Aim.nothing).apply y = _
    split <;> rfl

/-- A name that is bound anew is the same on both sides. -/
theorem push (h : Tracks y a env env') {p : String} (hp : p ≠ y) (t : Ty) :
    Tracks y (a.hide [p]) (env.push p t) (env'.push p t) := by
  -- Names that are not bound here are treated as before.
  have happly (name : String) (hname : name ≠ p) : (a.hide [p]).apply y name = a.apply y name := by
    cases a with
    | uses x =>
      by_cases hx : x = p
      · subst hx
        simp [Aim.hide, Aim.apply, hname]
      · simp [Aim.hide, hx]
    | _ => rfl
  have hself : (a.hide [p]).apply y p = p := by
    cases a with
    | uses x =>
      by_cases hx : x = p
      · simp [Aim.hide, Aim.apply, hx]
      · simp [Aim.hide, Aim.apply, hx, Ne.symm hx]
    | _ => rfl
  have hne (name : String) (hname : name ≠ p) (hy : name ≠ y) : a.apply y name ≠ p := by
    cases a with
    | uses x =>
      show (if name = x then y else name) ≠ p
      split
      · exact hp.symm
      · exact hname
    | _ => exact hname
  refine ⟨h.placeholder, h.context, fun name hy => ?_, fun name hnone => ?_⟩
  · rw [Env.lookup_push, Env.lookup_push]
    by_cases hname : name = p
    · rw [if_pos hname, hname, hself, if_pos rfl]
    · rw [happly name hname, if_neg hname, if_neg (hne name hname hy)]
      exact h.lookup name hy
  · rw [Env.lookup_push] at hnone
    split at hnone
    · cases hnone
    · rw [happly name ‹_›]
      exact h.fixed name hnone

theorem bind (h : Tracks y a env env') {ps : List Param} (hps : y ∉ ps.map (·.name)) (t : Ty) :
    Tracks y (a.hide (ps.map (·.name))) (env.bind t ps) (env'.bind t ps) := by
  induction ps generalizing a env env' t with
  | nil =>
    rw [List.map_nil, a.hide_nil]
    exact h
  | cons p ps ih =>
    rw [List.map_cons, List.mem_cons, not_or] at hps
    rw [List.map_cons, ← a.hide_hide]
    exact ih (h.push (Ne.symm hps.1) _) hps.2 _

/-- Inside the function whose parameter is renamed. -/
theorem pushCallback {path : List Nat} (h : Tracks y (.callback path) env env') (x : String)
    (t : Ty) : Tracks y (.uses x) (env.push x t) (env'.push y t) := by
  refine ⟨h.placeholder, h.context, fun name hy => ?_, fun name hnone => ?_⟩
  · show (env'.push y t).locals.lookup (if name = x then y else name) = _
    rw [Env.lookup_push, Env.lookup_push]
    by_cases hname : name = x
    · rw [if_pos hname, if_pos hname, if_pos rfl]
    · rw [if_neg hname, if_neg hname, if_neg hy]
      exact h.lookup name hy
  · rw [Env.lookup_push] at hnone
    split at hnone
    · cases hnone
    · exact if_neg ‹_›

/-- Inside a function, and inside the function whose parameter is renamed. -/
theorem enter (h : Tracks y a env env') {ps : List Param} (hps : y ∉ ps.map (·.name)) (t : Ty) :
    Tracks y (a.enter ps) (env.bind t ps) (env'.bind t (a.params y ps)) := by
  match a, ps with
  | .callback [], [p] => exact h.pushCallback p.name _
  | .callback [], [] | .callback [], _ :: _ :: _ | .callback (_ :: _), _ | .nothing, _
  | .uses _, _ => exact h.bind hps t

/-! What the bindings say about a name. -/

theorem lookup_eq (h : Tracks y a env env') {name : String} (hname : name ≠ y) :
    env'.lookup (a.apply y name) = env.lookup name := by
  rw [Env.lookup, Env.lookup, h.lookup name hname, h.placeholder, h.context]
  cases hlookup : env.locals.lookup name with
  | some t => rfl
  | none => rw [h.fixed name hlookup]

theorem isFree_eq (h : Tracks y a env env') {name : String} (hname : name ≠ y) :
    env'.isFree (a.apply y name) = env.isFree name := by
  rw [Env.isFree, Env.isFree, h.lookup name hname, h.placeholder]
  cases hlookup : env.locals.lookup name with
  | some t => simp
  | none => rw [h.fixed name hlookup]

theorem apply_of_isFree (h : Tracks y a env env') {name : String} (hfree : env.isFree name) :
    a.apply y name = name := by
  rw [Env.isFree, Bool.and_eq_true] at hfree
  exact h.fixed name (Option.isNone_iff_eq_none.1 hfree.2)

/-- The name `Array` is free just where it was. -/
theorem isArrayName_eq (h : Tracks y a env env') {e : Expr ν} (hy : y ∉ e.ownNames) :
    ((e.rename y a).isArrayName && env'.isFree "Array") =
      (e.isArrayName && env.isFree "Array") := by
  cases e with
  | name m s =>
    have hs : s ≠ y := fun hs => hy (by simp [Expr.ownNames, hs])
    have hfree := h.isFree_eq hs
    show ((some (a.apply y s) == some "Array") && env'.isFree "Array") =
      ((some s == some "Array") && env.isFree "Array")
    rw [Bool.eq_iff_iff]
    simp only [Bool.and_eq_true, beq_iff_eq, Option.some.injEq]
    constructor
    · intro ⟨harray, hA⟩
      rw [harray, hA] at hfree
      have hname := h.apply_of_isFree hfree.symm
      rw [harray] at hname
      exact ⟨hname.symm, hname ▸ hfree.symm⟩
    · intro ⟨harray, hA⟩
      subst harray
      have hname := h.apply_of_isFree hA
      rw [hname] at hfree
      exact ⟨hname, hfree.trans hA⟩
  | _ => rfl

end Tracks

/-! ### Types -/

section Types

variable {y : String}

theorem isArrayTest_rename {a : Aim} {env env' : Env} (h : Tracks y a env env') {e : Expr ν}
    (hy : Fresh y e.nodes) (name : String) :
    env'.isArrayTest (e.rename y a) name = env.isArrayTest e name :=
  congrArg (· && name == "isArray") (h.isArrayName_eq hy.own)

mutual

theorem typeOf_rename {a : Aim} {env env' : Env} (h : Tracks y a env env') (e : Expr ν)
    (hy : Fresh y e.nodes) : env'.typeOf (e.rename y a) = env.typeOf e := by
  match e with
  | .name m s => exact h.lookup_eq (fun hs => hy.own (by simp [Expr.ownNames, hs]))
  | .literal m v => rfl
  | .paren m e => exact typeOf_rename h e hy.left
  | .property m object name =>
    show (env'.typeOf (object.rename y (a.child 0))).property name =
      (env.typeOf object).property name
    rw [typeOf_rename (h.child 0) object hy.left]
  | .element m object index =>
    show (env'.typeOf (object.rename y (a.child 0))).element
        (Env.stringKey (index.rename y (a.child 1))) =
      (env.typeOf object).element (Env.stringKey index)
    rw [typeOf_rename (h.child 0) object hy.left.left, index.stringKey_rename]
  | .binary m op left right =>
    show Ty.binary op (env'.typeOf (left.rename y (a.child 0)))
        (env'.typeOf (right.rename y (a.child 1))) =
      .binary op (env.typeOf left) (env.typeOf right)
    rw [typeOf_rename (h.child 0) left hy.left.left, typeOf_rename (h.child 1) right hy.left.right]
  | .unary m op operand =>
    show Ty.unary op (env'.typeOf (operand.rename y (a.child 0))) = .unary op (env.typeOf operand)
    rw [typeOf_rename (h.child 0) operand hy.left]
  | .conditional m condition yes no =>
    show Ty.join (env'.typeOf (yes.rename y (a.child 1))) (env'.typeOf (no.rename y (a.child 2))) =
      .join (env.typeOf yes) (env.typeOf no)
    rw [typeOf_rename (h.child 1) yes hy.left.left.right, typeOf_rename (h.child 2) no hy.left.right]
  | .call m (.property p object name) args =>
    have hobject := (h.child 0).child 0
    have hnodes := hy.left.left.left
    show (if env'.isArrayTest (object.rename y ((a.child 0).child 0)) name then Ty.boolean
        else (env'.typeOf (object.rename y ((a.child 0).child 0))).method name
          (renameAll y a 1 args).length (env'.argumentType (renameAll y a 1 args))) =
      if env.isArrayTest object name then Ty.boolean
        else (env.typeOf object).method name args.length (env.argumentType args)
    rw [isArrayTest_rename hobject hnodes, typeOf_rename hobject object hnodes, length_renameAll,
      argumentType_rename h args hy.left.right]
  | .call m (.name _ _) args | .call m (.literal _ _) args | .call m (.paren _ _) args
  | .call m (.element _ _ _) args | .call m (.binary _ _ _ _) args | .call m (.unary _ _ _) args
  | .call m (.conditional _ _ _ _) args | .call m (.call _ _ _) args
  | .call m (.lambda _ _ _) args | .call m (.function _ _ _ _) args
  | .call m (.object _ _) args => rfl
  | .lambda m ps body => rfl
  | .function m style ps body => rfl
  | .object m properties =>
    exact congrArg Ty.object (fieldTypes_rename h 0 properties hy.left)

theorem fieldTypes_rename {a : Aim} {env env' : Env} (h : Tracks y a env env') (i : Nat)
    (ps : List (Property ν)) (hy : Fresh y (nodesProperties ps)) :
    env'.fieldTypes (renameProperties y a i ps) = env.fieldTypes ps := by
  match ps with
  | [] => rfl
  | .field span key value :: ps =>
    show (key.text, env'.typeOf (value.rename y (a.child i))) ::
        env'.fieldTypes (renameProperties y a (i + 2) ps) =
      (key.text, env.typeOf value) :: env.fieldTypes ps
    rw [typeOf_rename (h.child i) value hy.left, fieldTypes_rename h (i + 2) ps hy.right]
  | .shorthand span key value :: ps =>
    have hentry : env'.fieldTypes (renameProperties y a i (.shorthand span key value :: ps)) =
        (key, env'.typeOf (value.rename y (a.child i))) ::
          env'.fieldTypes (renameProperties y a (i + 2) ps) := by
      show env'.fieldTypes ((if a.apply y key = key then _ else _) :: _) = _
      split <;> rfl
    show _ = (key, env.typeOf value) :: env.fieldTypes ps
    rw [hentry, typeOf_rename (h.child i) value hy.left, fieldTypes_rename h (i + 2) ps hy.right]
  | .computed span key value :: ps => exact fieldTypes_rename h (i + 2) ps hy.right

theorem argumentType_rename {a : Aim} {env env' : Env} (h : Tracks y a env env')
    (args : List (Expr ν)) (hy : Fresh y (nodesAll args)) :
    env'.argumentType (renameAll y a 1 args) = env.argumentType args := by
  funext t
  match args with
  | [] => rfl
  | [arg] => exact callbackType_rename (h.child 1) t arg hy.left
  | _ :: _ :: _ => rfl

theorem callbackType_rename {a : Aim} {env env' : Env} (h : Tracks y a env env') (t : Ty)
    (e : Expr ν) (hy : Fresh y e.nodes) :
    env'.callbackType t (e.rename y a) = env.callbackType t e := by
  match e with
  | .paren m e => exact callbackType_rename h t e hy.left
  | .lambda m ps body => exact typeOf_rename ((h.enter hy.own t).child 0) body hy.left
  | .function m style ps body =>
    have hps : y ∉ ps.map (·.name) := fun hmem => hy.own (List.mem_append_left _ hmem)
    exact resultType_rename (h.enter hps t) body hy.left
  | .name _ _ | .literal _ _ | .property _ _ _ | .element _ _ _ | .binary _ _ _ _ | .unary _ _ _
  | .conditional _ _ _ _ | .call _ _ _ | .object _ _ => rfl

theorem resultType_rename {a : Aim} {env env' : Env} (h : Tracks y a env env')
    (ss : List (Statement ν)) (hy : Fresh y (nodesStatements ss)) :
    env'.resultType (renameStatements y (a.hide (declared ss)) 0 ss) = env.resultType ss := by
  match ss with
  | [.result _ (some e)] =>
    show env'.typeOf (e.rename y ((a.hide []).child 0)) = env.typeOf e
    rw [a.hide_nil]
    exact typeOf_rename (h.child 0) e hy.left
  | [] | [.result _ none] | .result _ none :: _ :: _ | .result _ (some _) :: _ :: _
  | .declaration _ _ _ :: _ | .expression _ _ :: _ =>
    rw [Env.resultType_eq, Env.resultType_eq, singleResult?_rename]
    rfl

end

/-! ### Records -/

theorem record_rename {a : Aim} {env env' : Env} (h : Tracks y a env env') {e : Expr Nat}
    (hy : Fresh y e.nodes) {inside inside' : List (Nat × Ty)} (hinside : inside' = inside) :
    env'.record (e.rename y a) inside' = env.record e inside := by
  rw [Env.record, Env.record, e.mark_rename, typeOf_rename h e hy, hinside]

theorem unknownLabels_rename (a : Aim) (e : Expr Nat) :
    Env.unknownLabels (e.rename y a) = Env.unknownLabels e := by
  cases e with
  | paren m e =>
    show [(m.label, Ty.unknown), ((e.rename y a).bare.mark.label, Ty.unknown)] = _
    rw [e.bare_rename, e.bare.mark_rename]
    rfl
  | _ => rfl

theorem isSome_callable?_rename (a : Aim) (e : Expr Nat) :
    (e.rename y a).bare.callable?.isSome = e.bare.callable?.isSome := by
  rw [e.bare_rename, e.bare.callable?_rename, Option.isSome_map]

/-- The records of the arguments of a method that is called on a value of the given type. -/
def Env.argumentRecords (env : Env) (t : Ty) (iterates : Bool) (args : List (Expr Nat)) :
    List (Nat × Ty) :=
  match t, iterates, args with
  | .array element, true, [callback] =>
    if callback.bare.callable?.isSome then
      unknownLabels callback ++ env.recordBody element callback
    else env.records callback
  | _, _, args => env.recordAll args

theorem Env.inside_method (env : Env) (m p : Mark Nat) (object : Expr Nat) (name : String)
    (args : List (Expr Nat)) :
    env.inside (.call m (.property p object name) args) =
      (p.label, .unknown) ::
        if env.isArrayTest object name then (object.mark.label, .unknown) :: env.recordAll args
        else
          env.records object ++ env.argumentRecords (env.typeOf object) (iterates name) args := by
  unfold inside
  rfl

theorem argumentRecords_rename {a : Aim} {env env' : Env} {args : List (Expr Nat)}
    (hall : env'.recordAll (renameAll y a 1 args) = env.recordAll args)
    (hbody : ∀ t arg, args = [arg] →
      env'.recordBody t (arg.rename y (a.child 1)) = env.recordBody t arg)
    (t : Ty) (iterates : Bool) :
    env'.argumentRecords t iterates (renameAll y a 1 args) =
      env.argumentRecords t iterates args := by
  match t, iterates, args with
  | .array t, true, [arg] =>
    have harg : env'.records (arg.rename y (a.child 1)) = env.records arg := by
      have happend : env'.records (arg.rename y (a.child 1)) ++ [] = env.records arg ++ [] := hall
      rwa [List.append_nil, List.append_nil] at happend
    show (if (arg.rename y (a.child 1)).bare.callable?.isSome then
        Env.unknownLabels (arg.rename y (a.child 1)) ++
          env'.recordBody t (arg.rename y (a.child 1))
      else env'.records (arg.rename y (a.child 1))) = _
    rw [isSome_callable?_rename, unknownLabels_rename, hbody t arg rfl, harg]
    rfl
  | .array _, true, [] | .array _, true, _ :: _ :: _ | .array _, false, _ | .number, _, _
  | .boolean, _, _ | .string, _, _ | .object _, _, _ | .unknown, _, _ => exact hall

mutual

theorem inside_rename {a : Aim} {env env' : Env} (h : Tracks y a env env') (e : Expr Nat)
    (hy : Fresh y e.nodes) : env'.inside (e.rename y a) = env.inside e := by
  match e with
  | .name m s => rfl
  | .literal m v => rfl
  | .paren m e => exact record_rename h hy.left (inside_rename h e hy.left)
  | .property m object name =>
    exact record_rename (h.child 0) hy.left (inside_rename (h.child 0) object hy.left)
  | .element m object index =>
    exact congrArg₂ (· ++ ·)
      (record_rename (h.child 0) hy.left.left (inside_rename (h.child 0) object hy.left.left))
      (record_rename (h.child 1) hy.left.right (inside_rename (h.child 1) index hy.left.right))
  | .binary m op left right =>
    exact congrArg₂ (· ++ ·)
      (record_rename (h.child 0) hy.left.left (inside_rename (h.child 0) left hy.left.left))
      (record_rename (h.child 1) hy.left.right (inside_rename (h.child 1) right hy.left.right))
  | .unary m op operand =>
    exact record_rename (h.child 0) hy.left (inside_rename (h.child 0) operand hy.left)
  | .conditional m condition yes no =>
    have hcondition := hy.left.left.left
    have hyes := hy.left.left.right
    exact congrArg₂ (· ++ ·)
      (congrArg₂ (· ++ ·)
        (record_rename (h.child 0) hcondition (inside_rename (h.child 0) condition hcondition))
        (record_rename (h.child 1) hyes (inside_rename (h.child 1) yes hyes)))
      (record_rename (h.child 2) hy.left.right (inside_rename (h.child 2) no hy.left.right))
  | .call m (.property p object name) args =>
    have hobject := (h.child 0).child 0
    have hnodes := hy.left.left.left
    have hargs := recordAll_rename h 1 args hy.left.right
    have hrecords := record_rename hobject hnodes (inside_rename hobject object hnodes)
    have harguments := argumentRecords_rename hargs
      (recordCallback_rename h args hy.left.right) (env.typeOf object) (Env.iterates name)
    show env'.inside (.call m (.property p (object.rename y ((a.child 0).child 0)) name)
      (renameAll y a 1 args)) = _
    rw [Env.inside_method, Env.inside_method, isArrayTest_rename hobject hnodes, object.mark_rename,
      typeOf_rename hobject object hnodes, Env.records, hrecords, hargs, harguments, Env.records]
  | .call m (.name _ _) args | .call m (.literal _ _) args | .call m (.element _ _ _) args
  | .call m (.binary _ _ _ _) args | .call m (.unary _ _ _) args
  | .call m (.conditional _ _ _ _) args | .call m (.call _ _ _) args
  | .call m (.lambda _ _ _) args | .call m (.function _ _ _ _) args
  | .call m (.object _ _) args | .call m (.paren _ _) args =>
    exact congrArg₂ (· ++ ·)
      (record_rename (h.child 0) hy.left.left (inside_rename (h.child 0) _ hy.left.left))
      (recordAll_rename h 1 args hy.left.right)
  | .lambda m ps body =>
    have hbody := (h.enter hy.own .unknown).child 0
    exact record_rename hbody hy.left (inside_rename hbody body hy.left)
  | .function m style ps body =>
    have hps : y ∉ ps.map (·.name) := fun hmem => hy.own (List.mem_append_left _ hmem)
    exact recordResult_rename (h.enter hps .unknown) body hy.left
  | .object m properties => exact recordProperties_rename h 0 properties hy.left

theorem recordAll_rename {a : Aim} {env env' : Env} (h : Tracks y a env env') (i : Nat)
    (es : List (Expr Nat)) (hy : Fresh y (nodesAll es)) :
    env'.recordAll (renameAll y a i es) = env.recordAll es := by
  match es with
  | [] => rfl
  | e :: es =>
    exact congrArg₂ (· ++ ·)
      (record_rename (h.child i) hy.left (inside_rename (h.child i) e hy.left))
      (recordAll_rename h (i + 1) es hy.right)

theorem recordCallback_rename {a : Aim} {env env' : Env} (h : Tracks y a env env')
    (args : List (Expr Nat)) (hy : Fresh y (nodesAll args)) (t : Ty) (arg : Expr Nat)
    (harg : args = [arg]) :
    env'.recordBody t (arg.rename y (a.child 1)) = env.recordBody t arg := by
  match args, harg with
  | [e], rfl => exact recordBody_rename (h.child 1) t e hy.left

theorem recordProperties_rename {a : Aim} {env env' : Env} (h : Tracks y a env env') (i : Nat)
    (ps : List (Property Nat)) (hy : Fresh y (nodesProperties ps)) :
    env'.recordProperties (renameProperties y a i ps) = env.recordProperties ps := by
  match ps with
  | [] => rfl
  | .field span key value :: ps =>
    exact congrArg₂ (· ++ ·)
      (record_rename (h.child i) hy.left (inside_rename (h.child i) value hy.left))
      (recordProperties_rename h (i + 2) ps hy.right)
  | .shorthand span key value :: ps =>
    have hvalue := record_rename (h.child i) hy.left (inside_rename (h.child i) value hy.left)
    have hps := recordProperties_rename h (i + 2) ps hy.right
    show env'.recordProperties ((if a.apply y key = key then _ else _) :: _) = _
    split <;> exact congrArg₂ (· ++ ·) hvalue hps
  | .computed span key value :: ps =>
    have hkey := hy.left.left
    have hvalue := hy.left.right
    exact congrArg₂ (· ++ ·)
      (congrArg₂ (· ++ ·)
        (record_rename (h.child (i + 1)) hkey (inside_rename (h.child (i + 1)) key hkey))
        (record_rename (h.child i) hvalue (inside_rename (h.child i) value hvalue)))
      (recordProperties_rename h (i + 2) ps hy.right)

theorem recordBody_rename {a : Aim} {env env' : Env} (h : Tracks y a env env') (t : Ty)
    (e : Expr Nat) (hy : Fresh y e.nodes) :
    env'.recordBody t (e.rename y a) = env.recordBody t e := by
  match e with
  | .paren m e => exact recordBody_rename h t e hy.left
  | .lambda m ps body =>
    have hbody := (h.enter hy.own t).child 0
    exact record_rename hbody hy.left (inside_rename hbody body hy.left)
  | .function m style ps body =>
    have hps : y ∉ ps.map (·.name) := fun hmem => hy.own (List.mem_append_left _ hmem)
    exact recordResult_rename (h.enter hps t) body hy.left
  | .name _ _ | .literal _ _ | .property _ _ _ | .element _ _ _ | .binary _ _ _ _ | .unary _ _ _
  | .conditional _ _ _ _ | .call _ _ _ | .object _ _ => rfl

theorem recordResult_rename {a : Aim} {env env' : Env} (h : Tracks y a env env')
    (ss : List (Statement Nat)) (hy : Fresh y (nodesStatements ss)) :
    env'.recordResult (renameStatements y (a.hide (declared ss)) 0 ss) = env.recordResult ss := by
  match ss with
  | [.result _ (some e)] =>
    show env'.records (e.rename y ((a.hide []).child 0)) = env.records e
    rw [a.hide_nil]
    exact record_rename (h.child 0) hy.left (inside_rename (h.child 0) e hy.left)
  | [] | [.result _ none] | .result _ none :: _ :: _ | .result _ (some _) :: _ :: _
  | .declaration _ _ _ :: _ | .expression _ _ :: _ =>
    rw [Env.recordResult_eq, Env.recordResult_eq, singleResult?_rename]
    rfl

end

/-- Nothing that is recorded about an expression changes with the name of a parameter. -/
theorem infer_rename {e : Expr Nat} (hy : y ∉ e.variables) (path : List Nat) (placeholder : String)
    (context : Option TypeExpr) :
    DeclaredTypes.infer (e.rename y (.callback path)) placeholder context =
      DeclaredTypes.infer e placeholder context := by
  have hfresh := fresh_of_not_mem hy
  have htracks : Tracks y (.callback path) (Env.mk placeholder _ []) (Env.mk placeholder _ []) :=
    .start ⟨placeholder, (context.map Ty.ofTypeExpr).getD .unknown, []⟩ path
  exact congrArg DeclaredTypes.mk (record_rename htracks hfresh (inside_rename htracks e hfresh))

end Types

end Aggregation
