import Aggregation.Proofs.Callbacks
import Aggregation.Proofs.OnePass
import Aggregation.Proofs.Relocation

/-! Compiling with a parameter renamed.

The rule of a renamed node is that of the node itself with its operands renamed, or it fails for the
same cause (`Rule.renamed_of`). So if the parameter of a function that is given to `filter` or `map` gets
a new name, then the expression compiles if it did before, and the values differ in the variable of the
operator that this call becomes, at the place where it stands; if it did not compile, it fails for the
same cause at the same node (`compile_rename`). -/
namespace Aggregation

variable {ν : Type}

/-! ### Rules -/

/-- Classes that depend on nothing but the label of a node. -/
def Oracle.ByLabel (o : Oracle) : Prop :=
  ∀ e e' : Expr Nat, e.mark.label = e'.mark.label → o e = o e'

/-- A node, and the node with a parameter renamed in it. -/
def Expr.IsRenamed (y : String) (e e' : Expr ν) : Prop :=
  ∃ a, e' = e.rename y a

theorem Expr.isRenamed (y : String) (a : Aim) (e : Expr ν) : e.IsRenamed y (e.rename y a) :=
  ⟨a, rfl⟩

namespace Tracks

variable {y : String} {a : Aim} {env env' : Env}

theorem resolve_eq (h : Tracks y a env env') {name : String} (hname : name ≠ y) :
    env'.scope.resolve (a.apply y name) = env.scope.resolve name := by
  have hmem (env : Env) (name : String) : name ∈ env.scope.locals ↔ env.locals.lookup name ≠ none := by
    rw [ne_eq, ← Option.isNone_iff_eq_none, Env.isNone_lookup, not_not]
    rfl
  have hlocal : a.apply y name ∈ env'.scope.locals ↔ name ∈ env.scope.locals := by
    rw [hmem, hmem, h.lookup name hname]
  by_cases hlocals : name ∈ env.scope.locals
  · rw [Scope.resolve, Scope.resolve, if_pos hlocals, if_pos (hlocal.2 hlocals)]
  · have hnone : env.locals.lookup name = none := not_not.1 fun hne => hlocals ((hmem env name).2 hne)
    have hplaceholder : env'.scope.placeholder = env.scope.placeholder := h.placeholder
    rw [Scope.resolve, Scope.resolve, if_neg hlocals, if_neg (mt hlocal.1 hlocals),
      h.fixed name hnone, hplaceholder]

/-- A name that stands for no parameter stays as it is. -/
theorem apply_of_resolve (h : Tracks y a env env') {name : String}
    (hname : env.scope.resolve name ≠ some .parameter) : a.apply y name = name := by
  refine h.fixed name (Option.isNone_iff_eq_none.1 ((Env.isNone_lookup env.locals name).2 ?_))
  exact fun hmem => hname (Scope.resolve_eq_parameter.2 hmem)

theorem isContext_eq (h : Tracks y a env env') {e : Expr ν} (hy : Fresh y e.nodes) :
    env'.scope.isContext (e.rename y a) = env.scope.isContext e := by
  have hbare := hy e.bare e.bare_mem_nodes
  unfold Scope.isContext
  rw [e.bare_rename, e.bare.name?_rename]
  cases hname : e.bare.name? with
  | none => rfl
  | some s =>
    have hs : s ≠ y := by
      intro hs
      cases he : e.bare with
      | name m t =>
        rw [he] at hname hbare
        obtain rfl := Option.some.inj hname
        exact hbare (by simp [Expr.ownNames, hs])
      | _ =>
        rw [he] at hname
        cases hname
    show (env'.scope.resolve (a.apply y s) == _) = (env.scope.resolve s == _)
    rw [h.resolve_eq hs]

theorem isArray_iff (h : Tracks y a env env') {e : Expr ν} (hy : Fresh y e.nodes) :
    (e.rename y a).name? = some "Array" ∧ env'.scope.isFree "Array" ↔
      e.name? = some "Array" ∧ env.scope.isFree "Array" := by
  have harray := h.isArrayName_eq hy.own
  rw [← Env.isFree_scope, ← Env.isFree_scope, Bool.eq_iff_iff] at harray
  simpa [Expr.isArrayName] using harray

end Tracks

namespace Rule

/-- The rules of the node `n` and of the renamed node. -/
inductive Renamed (P : List String → Value → Prop) (k : Callback Nat) (y : String) (a : Aim)
    (n : Expr Nat) : Rule → Rule → Prop
  | done {v v'} : a.Relates P k.param y n v v' → Renamed P k y a n (done v) (done v')
  | same {e} : n.bare = e.bare → a.Leads k e → Renamed P k y a n (same e) (same (e.rename y a))
  | single {op e b} : a.Spread k n (Aim.operands 0 [(b, e)]) →
      Renamed P k y a n (single op e) (single op (e.rename y b))
  | one {op e b} : a.Spread k n (Aim.operands 0 [(b, e)]) →
      Renamed P k y a n (one op e) (one op (e.rename y b))
  | two {op e e' b c} : a.Spread k n (Aim.operands 0 [(b, e), (c, e')]) →
      Renamed P k y a n (two op e e') (two op (e.rename y b) (e'.rename y c))
  | swapped {op e e' b c} : a.Spread k n (Aim.operands 0 [(c, e'), (b, e)]) →
      Renamed P k y a n (swapped op e e') (swapped op (e.rename y b) (e'.rename y c))
  | choice {e₁ e₂ e₃ b₁ b₂ b₃} : a.Spread k n (Aim.operands 0 [(b₁, e₁), (b₂, e₂), (b₃, e₃)]) →
      Renamed P k y a n (choice e₁ e₂ e₃)
        (choice (e₁.rename y b₁) (e₂.rename y b₂) (e₃.rename y b₃))
  | each {name key p e e' b c} : p ≠ y →
      a.Spread k n [⟨b, e, .operand 0⟩, ⟨c, e', .element p⟩] →
      Renamed P k y a n (each ("$" ++ name) key p e e')
        (each ("$" ++ name) key p (e.rename y b) (e'.rename y (c.hide [p])))
  | callback {name key e e'} : (name, key) ∈ iterationMethods → a = .callback [1] →
      Renamed P k y a n (each ("$" ++ name) key k.param e e')
        (each ("$" ++ name) key y (e.rename y .nothing) (e'.rename y (.uses k.param)))

section Agree

variable {P : List String → Value → Prop} {o : Oracle} {k : Callback Nat} {y : String} {a : Aim}
  {env env' : Env} {e e' : Expr Nat}

/-! Nodes in which there is no function. -/

theorem callback?_eq_none {z : Expr ν} (hname : ∀ i, z.bare.callbackName? i = none)
    (hparts : ∀ i z', z.bare.part? i = some z' → ∀ path, z'.callback? path = none)
    (path : List Nat) : z.callback? path = none := by
  match path with
  | [] => rfl
  | [i] =>
    show (z.bare.callbackName? i).map _ = none
    rw [hname i]
    rfl
  | i :: j :: path =>
    show (z.bare.part? i).bind _ = none
    cases hz : z.bare.part? i with
    | none => rfl
    | some z' => exact hparts i z' hz (j :: path)

theorem callback?_of_name {z : Expr ν} (hz : z.bare.name?.isSome) (path : List Nat) :
    z.callback? path = none := by
  cases hbare : z.bare with
  | name m s =>
    refine callback?_eq_none (fun i => ?_) (fun i z' hz' => ?_) path
    · rw [hbare]
      rfl
    · rw [hbare] at hz'
      cases hz'
  | _ =>
    rw [hbare] at hz
    cases hz

theorem callback?_of_key {z : Expr ν} {key : String} (hz : Env.stringKey z.bare = some key)
    (path : List Nat) : z.callback? path = none := by
  cases hbare : z.bare with
  | literal m c =>
    refine callback?_eq_none (fun i => ?_) (fun i z' hz' => ?_) path
    · rw [hbare]
      rfl
    · rw [hbare] at hz'
      cases hz'
  | _ =>
    rw [hbare] at hz
    cases hz

theorem isSome_of_isContext {s : Scope} {z : Expr ν} (h : s.isContext z) :
    z.bare.name?.isSome := by
  unfold Scope.isContext at h
  cases hname : z.bare.name? with
  | none =>
    rw [hname] at h
    cases h
  | some _ => rfl

/-- A value without variables of a node without functions stays as it is. -/
theorem relates_of_leaf {v : Value} (hl : a.Leads k e) (he : ∀ path, e.callback? path = none)
    (hv : ∀ z, v.renameVar z y = v) : a.Relates P k.param y e v v := by
  cases a with
  | nothing => rfl
  | uses z => exact (hv z).symm
  | callback path =>
    rw [Aim.Leads, he] at hl
    cases hl

theorem renamed_ofField {z z' : Expr Nat} (hz : z.IsRenamed y z') (hl : a.Leads k e)
    (he : ∀ path, e.callback? path = none) (name : String) :
    Agree (Expr.IsRenamed y) (Renamed P k y a e) (ofField z name) (ofField z' name) := by
  unfold ofField
  split
  · exact agree_refuse hz _
  · exact .ok (.done (relates_of_leaf hl he fun _ => rfl))

/-! The rules of one kind of node after the other. -/

theorem relates_ofLocal {m : Mark Nat} {s : String} (hl : a.Leads k (.name m s : Expr Nat)) :
    a.Relates P k.param y (.name m s : Expr Nat) (.ofLocal s) (.ofLocal (a.apply y s)) := by
  cases a with
  | nothing => rfl
  | uses z =>
    have hiff : "$$" ++ s = "$$" ++ z ↔ s = z := by simp
    show Value.ofLocal (if s = z then y else s) =
      if "$$" ++ s = "$$" ++ z then Value.ofLocal y else .ofLocal s
    by_cases hs : s = z
    · rw [if_pos hs, if_pos (hiff.2 hs)]
    · rw [if_neg hs, if_neg (mt hiff.1 hs)]
  | callback path =>
    rw [Aim.Leads, callback?_of_name rfl] at hl
    cases hl

theorem renamed_ofName (h : Tracks y a env env') {m : Mark Nat} {s : String} (hs : s ≠ y)
    (hl : a.Leads k (.name m s : Expr Nat)) :
    Agree (Expr.IsRenamed y) (Renamed P k y a (.name m s)) (ofName env.scope (.name m s) s)
      (ofName env'.scope (.name m (a.apply y s)) (a.apply y s)) := by
  have hrenamed : Expr.IsRenamed y (.name m s : Expr Nat) (.name m (a.apply y s)) := ⟨a, rfl⟩
  unfold ofName
  rw [h.resolve_eq hs]
  by_cases hparameter : env.scope.resolve s = some .parameter
  · rw [hparameter]
    exact .ok (.done (relates_ofLocal hl))
  · rw [h.apply_of_resolve hparameter] at hrenamed ⊢
    split
    · exact absurd ‹_› hparameter
    · exact agree_refuse hrenamed _
    · exact agree_refuse hrenamed _

variable (ho : o.ByLabel)
include ho

theorem classOf_rename (b : Aim) (z : Expr Nat) : classOf o (z.rename y b) = classOf o z := by
  refine ho _ _ ?_
  rw [z.bare_rename, z.bare.mark_rename]

theorem renamed_onArray (hz : e.IsRenamed y e') {z : Expr Nat} {b : Aim} {r r' : Rule}
    (hr : Renamed P k y a e r r') (use : ArrayUse) :
    Agree (Expr.IsRenamed y) (Renamed P k y a e) (onArray o e z use r)
      (onArray o e' (z.rename y b) use r') := by
  unfold onArray
  rw [classOf_rename ho]
  by_cases hclass : classOf o z = .array
  · simp only [if_pos hclass]
    exact .ok hr
  · simp only [if_neg hclass]
    exact agree_refuse hz _

theorem renamed_ofProperty (h : Tracks y a env env') {m : Mark Nat} {z : Expr Nat} {name : String}
    (hy : Fresh y z.nodes) (hl : a.Leads k (.property m z name)) :
    Agree (Expr.IsRenamed y) (Renamed P k y a (.property m z name))
      (ofProperty o env.scope (.property m z name) z name)
      (ofProperty o env'.scope ((Expr.property m z name).rename y a) (z.rename y (a.child 0))
        name) := by
  have hrenamed := Expr.isRenamed y a (.property m z name)
  have hspread : a.Spread k _ (Aim.operands 0 [(a.child 0, z)]) :=
    Aim.spread_parts [z] (fun _ => rfl) (fun _ _ => rfl) hl
  unfold ofProperty
  rw [(h.child 0).isContext_eq hy]
  by_cases hcontext : env.scope.isContext z
  · simp only [if_pos hcontext]
    refine renamed_ofField hrenamed hl (callback?_eq_none (fun _ => rfl) ?_) name
    intro i z' hz' path
    obtain rfl : z = z' := List.mem_singleton.1 (List.mem_of_getElem? hz') ▸ rfl
    exact callback?_of_name (isSome_of_isContext hcontext) path
  · simp only [if_neg hcontext]
    rw [show env'.scope.placeholder = env.scope.placeholder from h.placeholder]
    split
    · exact agree_refuse hrenamed _
    · exact renamed_onArray ho hrenamed (.single hspread) _

theorem renamed_ofElement (h : Tracks y a env env') {m : Mark Nat} {z index : Expr Nat}
    (hy : Fresh y z.nodes) (hl : a.Leads k (.element m z index)) :
    Agree (Expr.IsRenamed y) (Renamed P k y a (.element m z index))
      (ofElement o env.scope (.element m z index) z index)
      (ofElement o env'.scope ((Expr.element m z index).rename y a) (z.rename y (a.child 0))
        (index.rename y (a.child 1))) := by
  have hrenamed := Expr.isRenamed y a (.element m z index)
  have hspread : a.Spread k _ (Aim.operands 0 [(a.child 0, z), (a.child 1, index)]) :=
    Aim.spread_parts [z, index] (fun _ => rfl) (fun _ _ => rfl) hl
  rw [ofElement_eq, ofElement_eq, (h.child 0).isContext_eq hy, index.bare_rename,
    index.bare.stringKey_rename]
  by_cases hcontext : env.scope.isContext z
  · simp only [if_pos hcontext]
    cases hkey : Env.stringKey index.bare with
    | none => exact agree_refuse hrenamed _
    | some key =>
      refine renamed_ofField hrenamed hl (callback?_eq_none (fun _ => rfl) ?_) key
      intro i z' hz' path
      rcases List.mem_pair.1 (List.mem_of_getElem? hz') with rfl | rfl
      · exact callback?_of_name (isSome_of_isContext hcontext) path
      · exact callback?_of_key hkey path
  · simp only [if_neg hcontext]
    exact renamed_onArray ho hrenamed (.two hspread) _

theorem renamed_ofBinary {m : Mark Nat} {op : BinaryOp} {l r : Expr Nat}
    (hl : a.Leads k (.binary m op l r)) :
    Agree (Expr.IsRenamed y) (Renamed P k y a (.binary m op l r)) (ofBinary o (.binary m op l r) op l r)
      (ofBinary o ((Expr.binary m op l r).rename y a) op (l.rename y (a.child 0))
        (r.rename y (a.child 1))) := by
  have hrenamed := Expr.isRenamed y a (.binary m op l r)
  have hspread : a.Spread k _ (Aim.operands 0 [(a.child 0, l), (a.child 1, r)]) :=
    Aim.spread_parts [l, r] (fun _ => rfl) (fun _ _ => rfl) hl
  unfold ofBinary
  cases target op with
  | typed required name =>
    simp only [classOf_rename ho]
    split
    · exact .ok (.two hspread)
    · exact agree_refuse hrenamed _
  | untyped name => exact .ok (.two hspread)
  | loose => exact agree_refuse hrenamed _
  | missing => exact agree_refuse hrenamed _

theorem renamed_ofUnary {m : Mark Nat} {op : UnaryOp} {z : Expr Nat}
    (hl : a.Leads k (.unary m op z)) :
    Agree (Expr.IsRenamed y) (Renamed P k y a (.unary m op z)) (ofUnary o (.unary m op z) op z)
      (ofUnary o ((Expr.unary m op z).rename y a) op (z.rename y (a.child 0))) := by
  have hrenamed := Expr.isRenamed y a (.unary m op z)
  have hspread : a.Spread k _ (Aim.operands 0 [(a.child 0, z)]) :=
    Aim.spread_parts [z] (fun _ => rfl) (fun _ _ => rfl) hl
  cases op with
  | not =>
    simp only [ofUnary, classOf_rename ho]
    split
    · exact .ok (.one hspread)
    · exact agree_refuse hrenamed _
  | negate => exact agree_refuse hrenamed _

/-! Calls. -/

section Call

variable {m p : Mark Nat} {callee z : Expr Nat} {name : String} {args : List (Expr Nat)}

omit ho in
theorem renamed_onlyArgument (he : e.IsRenamed y e') (a : Aim) (args : List (Expr Nat))
    (method : String) :
    Agree (Expr.IsRenamed y) (fun arg arg' => args = [arg] ∧ arg' = arg.rename y (a.child 1))
      (onlyArgument e method args) (onlyArgument e' method (renameAll y a 1 args)) := by
  match args with
  | [] => exact agree_misfit he _
  | [arg] => exact .ok ⟨rfl, rfl⟩
  | _ :: _ :: rest =>
    show Agree _ _ (misfit e (.argumentCount method (rest.length + 2)))
      (misfit e' (.argumentCount method ((renameAll y a 3 rest).length + 2)))
    rw [length_renameAll]
    exact agree_misfit he _

omit ho in
theorem callbackName?_of_not_iterates (hc : callee.bare = .property p z name)
    (hname : Env.iterates name = false) (i : Nat) :
    (Expr.call m callee args).callbackName? i = none := by
  unfold Expr.callbackName?
  split
  · rename_i hcall
    obtain ⟨-, rfl, -⟩ := Expr.call.inj hcall
    rw [hc]
    split
    · rename_i hproperty _
      obtain ⟨-, -, rfl⟩ := Expr.property.inj hproperty
      rw [hname]
      rfl
    · rfl
  · rfl

omit ho in
theorem locate_object (hc : callee.bare = .property p z name) (s : Site) :
    s.operand (objectIndex name) =
      (Expr.call m callee args).locate 0 (callee.bare.locate 0 s) := by
  simp [Expr.locate, hc, Site.operand]

omit ho in
theorem locate_argument (hc : callee.bare = .property p z name) (i : Nat) (hi : 1 ≤ i) :
    Site.operand (argumentIndex name) = (Expr.call m callee args).locate i := by
  funext s
  simp [Expr.locate, hc, Nat.ne_of_gt hi]

omit ho in
/-- The aim for a call comes to those for the object of the method and for the arguments. -/
theorem spread_method (hc : callee.bare = .property p z name)
    (hname : ∀ i, a = .callback [i] → (Expr.call m callee args).callbackName? i = none)
    (hl : a.Leads k (.call m callee args)) :
    a.Spread k (.call m callee args) (⟨(a.child 0).child 0, z, .operand (objectIndex name)⟩ ::
      a.aimed (fun _ => .operand (argumentIndex name)) 1 args) := by
  have hspread : a.Spread k (.call m callee args) (a.aimed _ 0 (callee :: args)) :=
    Aim.spread_parts (e := .call m callee args) (callee :: args) (fun _ => rfl) hname hl
  refine hspread.narrow (.cons (Aim.narrows_part ?_ ?_ (locate_object hc) _)
    (Aim.narrows_aimed (locate_argument hc) args))
  · intro i
    rw [hc]
    rfl
  · intro i
    rw [hc]
    rfl

theorem renamed_ofArrayFunction (hc : callee.bare = .property p z name)
    (hz : z.name? = some "Array") (hl : a.Leads k (.call m callee args)) :
    Agree (Expr.IsRenamed y) (Renamed P k y a (.call m callee args))
      (ofArrayFunction o (.call m callee args) name args)
      (ofArrayFunction o ((Expr.call m callee args).rename y a) name (renameAll y a 1 args)) := by
  have hrenamed := Expr.isRenamed y a (.call m callee args)
  unfold ofArrayFunction
  split
  · exact agree_refuse hrenamed _
  · rename_i hname
    obtain rfl := not_not.1 hname
    refine (renamed_onlyArgument hrenamed a args _).bind ?_
    rintro arg _ ⟨rfl, rfl⟩
    simp only [classOf_rename ho]
    split
    · have hspread := spread_method hc (fun i _ => callbackName?_of_not_iterates hc rfl i) hl
      have hname : z.bare.name?.isSome := by
        cases z with
        | name => rfl
        | _ => cases hz
      exact .ok (.one (hspread.tail (callback?_of_name hname)))
    · exact agree_refuse hrenamed _

omit ho in
theorem narrows_body {arg body : Expr Nat} {q : Param}
    (hf : arg.bare.callable? = some ⟨[q], some body⟩) (b : Aim) :
    Aim.Narrows k ⟨b, arg, .operand 2⟩ ⟨b.child 0, body, .element q.name⟩ := by
  obtain ⟨m, hbare⟩ | ⟨m, style, span, hbare⟩ := Expr.eq_of_callable hf
  · refine Aim.narrows_part (fun i => ?_) (fun i => ?_) (fun s => ?_) b
    · rw [hbare]
      rfl
    · rw [hbare]
      rfl
    · rw [hbare]
      rfl
  · refine Aim.narrows_part (fun i => ?_) (fun i => ?_) (fun s => ?_) b
    · rw [hbare]
      cases i <;> rfl
    · rw [hbare]
      rfl
    · rw [hbare]
      rfl

omit ho in
theorem param_ne_of_fresh {arg : Expr Nat} {f : Callable Nat} {q : Param} (hy : Fresh y arg.nodes)
    (hf : arg.bare.callable? = some f) (hq : q ∈ f.params) : q.name ≠ y := by
  have hown := hy arg.bare arg.bare_mem_nodes
  rintro rfl
  cases hbare : arg.bare with
  | lambda m ps body =>
    rw [hbare] at hf hown
    obtain rfl := Option.some.inj hf
    exact hown (List.mem_map_of_mem hq)
  | function m style ps body =>
    rw [hbare] at hf hown
    obtain rfl := Option.some.inj hf
    exact hown (List.mem_append_left _ (List.mem_map_of_mem hq))
  | _ =>
    rw [hbare] at hf
    cases hf

omit ho in
/-- The rule of a call with a function of one parameter, if the parameter is the one to rename. -/
theorem renamed_here {method key : String} (hm : (method, key) ∈ iterationMethods)
    (hc : callee.bare = .property p z method) {arg body : Expr Nat} {q : Param}
    (hf : arg.bare.callable? = some ⟨[q], some body⟩)
    (hl : (Aim.callback [1]).Leads k (.call m callee [arg])) :
    Renamed P k y (.callback [1]) (.call m callee [arg]) (each ("$" ++ method) key q.name z body)
      (each ("$" ++ method) key y (z.rename y .nothing) (body.rename y (.uses q.name))) := by
  have hiterates : Env.iterates method = true := by
    obtain ⟨rfl, rfl⟩ | ⟨rfl, rfl⟩ := eq_of_mem_iterationMethods hm <;> rfl
  have hname : (Expr.call m callee [arg]).callbackName? 1 = some q.name := by
    simp only [Expr.callbackName?, hc, hf, hiterates, if_true]
  have hk : some (Callback.mk (.call m callee [arg]) q.name) = some k := by
    rw [← show (Expr.call m callee [arg]).callback? [1] = some k from hl]
    show _ = ((Expr.call m callee [arg]).callbackName? 1).map _
    rw [hname]
    rfl
  obtain rfl := Option.some.inj hk
  exact .callback hm rfl

omit ho in
/-- The same, if it is not. -/
theorem renamed_elsewhere {method key : String} (hm : (method, key) ∈ iterationMethods)
    (hc : callee.bare = .property p z method) {arg body : Expr Nat} {q : Param}
    (hf : arg.bare.callable? = some ⟨[q], some body⟩) (hq : q.name ≠ y)
    (ha : a ≠ .callback [1]) (hl : a.Leads k (.call m callee [arg])) :
    Renamed P k y a (.call m callee [arg]) (each ("$" ++ method) key q.name z body)
      (each ("$" ++ method) key q.name (z.rename y ((a.child 0).child 0))
        (body.rename y (((a.child 1).hide [q.name]).child 0))) := by
  have hname (i : Nat) (hi : a = .callback [i]) :
      (Expr.call m callee [arg]).callbackName? i = none := by
    unfold Expr.callbackName?
    split
    · exact absurd hi ha
    · rfl
  have hindices : objectIndex method = 0 ∧ argumentIndex method = 2 := by
    obtain ⟨rfl, rfl⟩ | ⟨rfl, rfl⟩ := eq_of_mem_iterationMethods hm <;> decide
  have hspread := spread_method hc hname hl
  rw [hindices.1, hindices.2] at hspread
  rw [Aim.hide_child]
  exact .each hq (hspread.narrow (.cons (.refl _) (.cons (narrows_body hf _) .nil)))

omit ho in
theorem renamed_ofIteration {method key : String} (hm : (method, key) ∈ iterationMethods)
    (hc : callee.bare = .property p z method) (hy : Fresh y (nodesAll args))
    (hl : a.Leads k (.call m callee args)) :
    Agree (Expr.IsRenamed y) (Renamed P k y a (.call m callee args))
      (ofIteration (.call m callee args) method key z args)
      (ofIteration ((Expr.call m callee args).rename y a) method key
        (z.rename y ((a.child 0).child 0)) (renameAll y a 1 args)) := by
  have hrenamed := Expr.isRenamed y a (.call m callee args)
  unfold ofIteration
  refine (renamed_onlyArgument hrenamed a args _).bind ?_
  rintro arg _ ⟨rfl, rfl⟩
  have harg := Expr.isRenamed y (a.child 1) arg.bare
  rw [arg.bare_rename, arg.bare.callable?_rename]
  cases hf : arg.bare.callable? with
  | none => exact agree_misfit harg _
  | some f =>
    obtain ⟨ps, result⟩ := f
    by_cases hps : ps.length = 1
    · obtain ⟨q, rfl⟩ := List.length_eq_one_iff.1 hps
      cases result with
      | none =>
        obtain ⟨q', hq'⟩ : ∃ q', (a.child 1).params y [q] = [q'] := by
          unfold Aim.params
          split <;> exact ⟨_, rfl⟩
        simp only [Option.map_some, Callable.rename, hq', Option.map_none]
        exact agree_misfit harg _
      | some body =>
        have hq := param_ne_of_fresh hy.left hf List.mem_cons_self
        by_cases ha : a = .callback [1]
        · subst ha
          exact .ok (renamed_here hm hc hf hl)
        · have hne : a.child 1 ≠ .callback [] := mt Aim.eq_of_child_eq ha
          have hparams : (a.child 1).params y [q] = [q] := by
            unfold Aim.params
            split
            · exact absurd ‹_› hne
            · rfl
          have henter : (a.child 1).enter [q] = (a.child 1).hide [q.name] := by
            unfold Aim.enter
            split
            · exact absurd ‹_› hne
            · rfl
          simp only [Option.map_some, Callable.rename, hparams, henter]
          exact .ok (renamed_elsewhere hm hc hf hq ha hl)
    · have hparams : (a.child 1).params y ps = ps := by
        unfold Aim.params
        split
        · exact absurd rfl hps
        · rfl
      simp only [Option.map_some, Callable.rename, hparams]
      split
      · exact absurd rfl hps
      · exact agree_misfit harg _

theorem renamed_ofMethod (hc : callee.bare = .property p z name) (hy : Fresh y (nodesAll args))
    (hl : a.Leads k (.call m callee args)) :
    Agree (Expr.IsRenamed y) (Renamed P k y a (.call m callee args))
      (ofMethod o (.call m callee args) z name args)
      (ofMethod o ((Expr.call m callee args).rename y a) (z.rename y ((a.child 0).child 0)) name
        (renameAll y a 1 args)) := by
  have hrenamed := Expr.isRenamed y a (.call m callee args)
  have hspread (hname : Env.iterates name = false) :=
    spread_method hc (fun i _ => callbackName?_of_not_iterates hc hname i) hl
  unfold ofMethod
  split
  · refine (renamed_onlyArgument hrenamed a args _).bind ?_
    rintro arg _ ⟨rfl, rfl⟩
    simp only [classOf_rename ho]
    split
    · exact .ok (.two (hspread rfl))
    · exact agree_refuse hrenamed _
  · exact renamed_ofIteration (by simp [iterationMethods]) hc hy hl
  · exact renamed_ofIteration (by simp [iterationMethods]) hc hy hl
  · refine (renamed_onlyArgument hrenamed a args _).bind ?_
    rintro arg _ ⟨rfl, rfl⟩
    exact .ok (.swapped (hspread rfl).swap)
  · refine (renamed_onlyArgument hrenamed a args _).bind ?_
    rintro arg _ ⟨rfl, rfl⟩
    exact .ok (.two (hspread rfl))
  · cases args with
    | nil => exact .ok (.single (hspread rfl))
    | cons arg rest =>
      show Agree _ _ (misfit _ (.reverseArguments (rest.length + 1)))
        (misfit _ (.reverseArguments ((renameAll y a 2 rest).length + 1)))
      rw [length_renameAll]
      exact agree_misfit hrenamed _
  · exact agree_refuse hrenamed _

theorem renamed_ofCall (h : Tracks y a env env') (hyc : Fresh y callee.nodes)
    (hy : Fresh y (nodesAll args)) (hl : a.Leads k (.call m callee args)) :
    Agree (Expr.IsRenamed y) (Renamed P k y a (.call m callee args))
      (ofCall o env.scope (.call m callee args) callee args)
      (ofCall o env'.scope ((Expr.call m callee args).rename y a) (callee.rename y (a.child 0))
        (renameAll y a 1 args)) := by
  have hrenamed := Expr.isRenamed y a (.call m callee args)
  unfold ofCall
  rw [callee.bare_rename]
  cases hc : callee.bare with
  | property p z name =>
    have hz : Fresh y z.nodes := by
      have hbare := hyc.of_mem callee.bare_mem_nodes
      rw [hc] at hbare
      exact hbare.left
    have htracks := (h.child 0).child 0
    simp only [Expr.rename, htracks.isArray_iff hz, htracks.isContext_eq hz, classOf_rename ho]
    by_cases harray : z.name? = some "Array" ∧ env.scope.isFree "Array"
    · simp only [if_pos harray]
      exact renamed_ofArrayFunction ho hc harray.1 hl
    · simp only [if_neg harray]
      split
      · exact agree_refuse hrenamed _
      · split
        · exact renamed_ofMethod ho hc hy hl
        · exact agree_refuse hrenamed _
  | _ => exact agree_refuse hrenamed _

end Call

/-- The rule of a renamed node is that of the node with its operands renamed, or it fails for the same
cause. -/
theorem renamed_of (h : Tracks y a env env') (hy : Fresh y e.nodes) (hl : a.Leads k e) :
    Agree (Expr.IsRenamed y) (Renamed P k y a e) (of o env.scope e)
      (of o env'.scope (e.rename y a)) := by
  have hrenamed := Expr.isRenamed y a e
  cases e with
  | name m s => exact renamed_ofName h (fun hs => hy.own (by simp [Expr.ownNames, hs])) hl
  | literal m c =>
    refine .ok (.done (relates_of_leaf hl (callback?_eq_none (fun _ => rfl) ?_) fun _ => rfl))
    intro i z hz
    cases hz
  | paren m inner => exact .ok (.same rfl hl.of_paren)
  | property m z name => exact renamed_ofProperty ho h hy.left hl
  | element m z index => exact renamed_ofElement ho h hy.left.left hl
  | binary m op l r => exact renamed_ofBinary ho hl
  | unary m op z => exact renamed_ofUnary ho hl
  | conditional m c t f =>
    exact .ok (.choice (Aim.spread_parts [c, t, f] (fun _ => rfl) (fun _ _ => rfl) hl))
  | call m callee args => exact renamed_ofCall ho h hy.left.left hy.left.right hl
  | lambda m ps body => exact agree_refuse hrenamed _
  | function m style ps body => exact agree_refuse hrenamed _
  | object m ps => exact agree_refuse hrenamed _

end Agree

end Rule

/-! ### Expressions -/

/-- What a call of a method with a function compiles to inside functions with the given parameters. -/
def Callback.CompilesTo (k : Callback Nat) (o : Oracle) (s : Scope) (params : List String)
    (w : Value) : Prop :=
  compile o (params.foldl Scope.bind s) k.call = .ok w

/-- An expression and the renamed expression compile to related values, or fail for the same cause at
nodes that correspond. -/
theorem agree_compile_rename {o : Oracle} (ho : o.ByLabel) {k : Callback Nat} {y : String} {a : Aim}
    {env env' : Env} (h : Tracks y a env env') (e : Expr Nat) (hy : Fresh y e.nodes)
    (hl : a.Leads k e) :
    Agree (Expr.IsRenamed y) (a.Relates (k.CompilesTo o env.scope) k.param y e)
      (compile o env.scope e) (compile o env'.scope (e.rename y a)) := by
  rw [compile_eq_build o env.scope e, compile_eq_build o env'.scope (e.rename y a)]
  refine (Rule.renamed_of (P := k.CompilesTo o env.scope) ho h hy hl).keep.bind ?_
  intro r r' hboth
  obtain ⟨hrenamed, hr⟩ := hboth
  have hsees := Rule.sees_of hr
  -- The operands of the rule are smaller, and so is what is computed for each element.
  have hplain (b : Aim) (z : Expr Nat) (hz : z ∈ r.plain) (hb : b.Leads k z)
      (happly : b.apply y = a.apply y) :
      Agree (Expr.IsRenamed y) (b.Relates (k.CompilesTo o env.scope) k.param y z)
        (compile o env.scope z) (compile o env'.scope (z.rename y b)) :=
    agree_compile_rename ho (h.congr happly) z
      (hy.of_mem (Rule.part_mem_nodes (hsees.plain z hz))) hb
  have hbody (p p' : String) (b : Aim) (z : Expr Nat) (hz : r.body? = some (p, z))
      (hb : b.Leads k z) (htracks : Tracks y b (env.push p .unknown) (env'.push p' .unknown)) :
      Agree (Expr.IsRenamed y) (b.Relates (k.CompilesTo o (env.scope.bind p)) k.param y z)
        (compile o (env.scope.bind p) z) (compile o (env'.scope.bind p') (z.rename y b)) :=
    agree_compile_rename ho htracks z (hy.of_mem (hsees.body p z hz).body_mem_nodes) hb
  have hoperand {l : List (Aim.Operand Nat)} {q : Aim.Operand Nat} (hs : a.Spread k e l)
      (hq : q ∈ l) (hz : q.expr ∈ r.plain) := hplain q.aim q.expr hz (hs.leads hq) (hs.apply_eq hq)
  have hfirst {q : Aim.Operand Nat} {l} : q ∈ q :: l := List.mem_cons_self
  have hsecond {p q : Aim.Operand Nat} {l} : q ∈ p :: q :: l := List.mem_cons_of_mem p hfirst
  cases hrenamed with
  | done hv => exact .ok hv
  | @same z hbare hle =>
    exact (hplain a z (by simp [Rule.plain]) hle rfl).mono fun v v' => .of_bare hbare
  | single hs =>
    refine (hoperand hs hfirst (by simp [Rule.plain])).bind fun v v' hv => ?_
    exact .ok ((hs.relatesAll [(v, v')] (.cons hv .nil)).single _)
  | one hs =>
    refine (hoperand hs hfirst (by simp [Rule.plain])).bind fun v v' hv => ?_
    exact .ok ((hs.relatesAll [(v, v')] (.cons hv .nil)).list _)
  | two hs =>
    refine (hoperand hs hfirst (by simp [Rule.plain])).bind fun v v' hv => ?_
    refine (hoperand hs hsecond (by simp [Rule.plain])).bind fun w w' hw => ?_
    exact .ok ((hs.relatesAll [(v, v'), (w, w')] (.cons hv (.cons hw .nil))).list _)
  | swapped hs =>
    refine (hoperand hs hsecond (by simp [Rule.plain])).bind fun v v' hv => ?_
    refine (hoperand hs hfirst (by simp [Rule.plain])).bind fun w w' hw => ?_
    exact .ok ((hs.relatesAll [(w, w'), (v, v')] (.cons hw (.cons hv .nil))).list _)
  | choice hs =>
    refine (hoperand hs hfirst (by simp [Rule.plain])).bind fun u u' hu => ?_
    refine (hoperand hs hsecond (by simp [Rule.plain])).bind fun v v' hv => ?_
    refine (hoperand hs (List.mem_cons_of_mem _ hsecond) (by simp [Rule.plain])).bind fun w w' hw => ?_
    have hall := hs.relatesAll [(u, u'), (v, v'), (w, w')] (.cons hu (.cons hv (.cons hw .nil)))
    exact .ok (Aim.RelatesAll.choice hall)
  | @each name key p z z' b c hp hs =>
    have htracks := (h.congr (hs.apply_eq hsecond)).push hp .unknown
    have hz' := hbody p p (c.hide [p]) z' rfl (hs.leads hsecond).hide htracks
    refine (hoperand hs hfirst (by simp [Rule.plain])).bind fun v v' hv => ?_
    refine hz'.bind fun w w' hw => ?_
    exact .ok (hs.iteration hv hw)
  | @callback name key z z' hm ha =>
    subst ha
    have hz := hplain .nothing z (by simp [Rule.plain]) trivial rfl
    have hz' := hbody k.param y (.uses k.param) z' rfl trivial (h.pushCallback k.param .unknown)
    refine hz.keep.bind fun v v' hv => ?_
    obtain ⟨hv, hcompile⟩ := hv
    refine hz'.keep.bind fun w w' hw => ?_
    obtain ⟨hw, hcompile'⟩ := hw
    obtain rfl : v' = v := hv
    obtain rfl : w' = w.renameVar k.param y := hw
    refine .ok ⟨_, ?_, .iteration hm rfl⟩
    -- The call that the function is given to is the node itself.
    obtain ⟨x, -, rfl⟩ := Option.map_eq_some_iff.1 hl
    show compile o env.scope e.bare = _
    rw [compile_bare, compile_eq_build, hr]
    show (compile o env.scope z >>= _) = _
    rw [hcompile]
    show (compile o (env.scope.bind x) z' >>= _) = _
    rw [hcompile']
    rfl
termination_by e.size
decreasing_by
  · exact Rule.size_operand hr (Rule.plain_subset_operands r hz)
  · exact Rule.size_operand hr (Rule.body_mem_operands hz)

/-- Results that agree are both values, if the first is. -/
theorem Agree.exists_of_isOk {α β : Type} {R : Expr Nat → Expr Nat → Prop} {V : α → β → Prop}
    {r : Except CompileFault α} {r' : Except CompileFault β} (h : Agree R V r r')
    (hok : r.isOk = true) : ∃ v v', r = .ok v ∧ r' = .ok v' ∧ V v v' := by
  cases h with
  | ok hv => exact ⟨_, _, rfl, rfl, hv⟩
  | fault => cases hok

theorem DeclaredTypes.byLabel_oracle (d : DeclaredTypes) : d.oracle.ByLabel := by
  intro e e' hlabel
  rw [oracle, oracle, hlabel]

/-- Let `k` be a call of `filter` or `map` with a function of one parameter, somewhere in an expression,
and give this parameter and what it binds a name `y` that is new to the expression. Then the expression
compiles just if it did before. The call compiles in the scope at its site to the operator that the value
has at the place of the site; the new value has the variable `y` in the operator at this place and in the
references bound by it, and is otherwise the same. If the expression does not compile, it fails for the
same cause as before, at the same node. -/
theorem compile_rename (e : Expr Nat) (path : List Nat) {k : Callback Nat} {y : String}
    (hk : e.callback? path = some k) (hy : y ∉ e.variables) (placeholder : String)
    (context : Option TypeExpr) :
    let e' := e.rename y (.callback path)
    let o := (DeclaredTypes.infer e placeholder context).oracle
    let o' := (DeclaredTypes.infer e' placeholder context).oracle
    let site := e.site path
    Agree (Expr.IsRenamed y)
      (fun v v' => ∃ w, compile o (site.scope (.root placeholder)) k.call = .ok w ∧
        w.Renames k.param y site.place v v')
      (compile o (.root placeholder) e) (compile o' (.root placeholder) e') := by
  intro e' o o' site
  have ho : o' = o := congrArg DeclaredTypes.oracle (infer_rename hy path placeholder context)
  rw [ho]
  exact agree_compile_rename (DeclaredTypes.byLabel_oracle _)
    (.start (Env.root placeholder context) path) e (fresh_of_not_mem hy) hk

/-- The expression `this.m.map(x => x.filter(x => x === this.b))` and behind it, as the argument of
`concat`, the same once more. -/
def repeatedIteration : Expr Nat :=
  .call ⟨27, ⟨0, 97⟩⟩ (.property ⟨13, ⟨0, 51⟩⟩ nestedIteration "concat")
    [nestedIteration.relocate (· + 14) (· + 52)]

/-- The outer `x` of `this.m.map(x => x.filter(x => x === this.b))` may be called `z`. Where the same stands
twice, so may the inner `x` of the second, and then it is the operator in the second operand that has
the variable `z`. -/
theorem compile_rename_nestedIteration :
    let context := TypeExpr.object [("m", .array (.array .number)), ("b", .number)]
    let oracle (e : Expr Nat) := (DeclaredTypes.infer e "this" (some context)).oracle
    let renamed := nestedIteration.rename "z" (.callback [1])
    let renamedInner := repeatedIteration.rename "z" (.callback [1, 1, 0, 1])
    (∃ v v', compile (oracle nestedIteration) (.root "this") nestedIteration = .ok v ∧
      compile (oracle renamed) (.root "this") renamed = .ok v' ∧
      ∃ w, Value.Renames "x" "z" w [] v v') ∧
    ∃ k v v' w, repeatedIteration.callback? [1, 1, 0, 1] = some k ∧
      compile (oracle repeatedIteration) (.root "this") repeatedIteration = .ok v ∧
      compile (oracle renamedInner) (.root "this") renamedInner = .ok v' ∧
      compile (oracle repeatedIteration) ((Scope.root "this").bind "x") k.call = .ok w ∧
      Value.Renames k.param "z" w [1, 2] v v' := by
  intro context oracle renamed renamedInner
  have hok : (compile (oracle nestedIteration) (.root "this") nestedIteration).isOk = true := by
    decide +kernel
  have hokTwice : (compile (oracle repeatedIteration) (.root "this") repeatedIteration).isOk = true := by
    decide +kernel
  have hy : "z" ∉ nestedIteration.variables := by decide
  have hyTwice : "z" ∉ repeatedIteration.variables := by decide
  obtain ⟨k, hk⟩ : ∃ k, repeatedIteration.callback? [1, 1, 0, 1] = some k := ⟨_, rfl⟩
  have hagree := compile_rename nestedIteration [1] rfl hy "this" (some context)
  have hagreeTwice := compile_rename repeatedIteration [1, 1, 0, 1] hk hyTwice "this" (some context)
  constructor
  · obtain ⟨v, v', hv, hv', w, -, hw⟩ := hagree.exists_of_isOk hok
    exact ⟨v, v', hv, hv', w, hw⟩
  · obtain ⟨v, v', hv, hv', w, hcall, hw⟩ := hagreeTwice.exists_of_isOk hokTwice
    exact ⟨k, v, v', w, hk, hv, hv', hcall, hw⟩

end Aggregation
