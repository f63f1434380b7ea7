import Aggregation.Proofs.OnePass

/-! Like expressions compile alike.

The types of like expressions are the same under all bindings (`Likeness.typeOf_eq`), so they compile to
the same value or fail for the same cause at like nodes, each by the types recorded for it
(`Likeness.agree_infer`). -/
namespace Aggregation

/-! ### Types -/

namespace Env

variable (env : Env)

/-- The type of what a function returns for elements of the given type. -/
def returnType (t : Ty) : Option (Callable Nat) → Ty
  | some ⟨params, some body⟩ => (env.bind t params).typeOf body
  | _ => .unknown

theorem callbackType_eq (t : Ty) (e : Expr Nat) :
    env.callbackType t e = env.returnType t e.bare.callable? := by
  match e with
  | .paren m e => exact callbackType_eq t e
  | .lambda m params body => rfl
  | .function m style params ss =>
    show (env.bind t params).resultType ss =
      env.returnType t (some ⟨params, Statement.singleResult? ss⟩)
    rw [resultType_eq]
    cases Statement.singleResult? ss with
    | none => rfl
    | some body => rfl
  | .name _ _ | .literal _ _ | .property _ _ _ | .element _ _ _ | .binary _ _ _ _ | .unary _ _ _
  | .conditional _ _ _ _ | .call _ _ _ | .object _ _ => rfl

theorem isArrayTest_eq (e : Expr Nat) (name : String) :
    env.isArrayTest e name = (e.isArrayName && env.isFree "Array" && name == "isArray") := rfl

theorem typeOf_call_of_ne_property {m : Mark Nat} {callee : Expr Nat} {args : List (Expr Nat)}
    (h : ∀ p o name, callee ≠ .property p o name) : env.typeOf (.call m callee args) = .unknown := by
  cases callee with
  | property p o name => exact absurd rfl (h p o name)
  | _ => simp only [typeOf]

end Env

/-- Like parameters are bound alike. -/
theorem Env.bind_eq_of_alike {params params' : List Param}
    (h : List.Forall₂ Param.Alike params params') (env : Env) (t : Ty) :
    env.bind t params = env.bind t params' := by
  induction h generalizing env t with
  | nil => rfl
  | cons hp _ ih =>
    rw [Env.bind, Env.bind, hp.1, hp.2]
    exact ih _ _

namespace Likeness

variable {R : Expr Nat → Expr Nat → Prop} {e e' : Expr Nat}

theorem ne_property_of_isGroup {callee : Expr Nat} (h : callee.isGroup = true) :
    ∀ p o name, callee ≠ .property p o name := by
  rintro p o name rfl
  cases h

theorem ne_property_of_bare {callee : Expr Nat}
    (h : ∀ p o name, callee.bare ≠ .property p o name) : ∀ p o name, callee ≠ .property p o name := by
  rintro p o name rfl
  exact h p o name rfl

section Layer

/- In this section the types of related expressions below the size `n` are the same. -/
variable {n : Nat}
  (ih : ∀ x x', R x x' → x.size < n → ∀ env : Env, env.typeOf x = env.typeOf x')
include ih

theorem callbackType_eq (L : Likeness R) (h : R e e') (hn : e.size ≤ n) (env : Env) (t : Ty) :
    env.callbackType t e = env.callbackType t e' := by
  have hsize := e.size_bare_le
  have hrel := (L.layer h).callable?
  rw [Env.callbackType_eq, Env.callbackType_eq]
  have hbody : ∀ f body, e.bare.callable? = some f → f.result? = some body → body.size < n :=
    fun f body hf hb => by have := Expr.size_result_lt hf hb; omega
  generalize e.bare.callable? = f, e'.bare.callable? = f' at hrel hbody
  cases hrel with
  | none => rfl
  | @some f f' hff =>
    obtain ⟨params, result⟩ := f
    obtain ⟨params', result'⟩ := f'
    obtain ⟨hparams, hresult⟩ := hff
    cases hresult with
    | none => rfl
    | some hb =>
      show (env.bind t params).typeOf _ = (env.bind t params').typeOf _
      rw [Env.bind_eq_of_alike hparams]
      exact ih _ _ hb (hbody _ _ rfl rfl) _

theorem argumentType_eq (L : Likeness R) {args args' : List (Expr Nat)}
    (h : List.Forall₂ R args args') (hn : sizeAll args ≤ n) (env : Env) :
    env.argumentType args = env.argumentType args' := by
  funext t
  cases h with
  | nil => rfl
  | cons harg hrest =>
    cases hrest with
    | nil => exact callbackType_eq ih L harg hn env t
    | cons _ _ => rfl

theorem fieldTypes_eq {ps ps' : List (Property Nat)} (h : List.Forall₂ (Property.Alike R) ps ps')
    (hn : sizeProperties ps < n) (env : Env) : env.fieldTypes ps = env.fieldTypes ps' := by
  induction h with
  | nil => rfl
  | cons hp _ ihps =>
    cases hp with
    | field hx | shorthand hx =>
      rw [sizeProperties] at hn
      simp only [Env.fieldTypes, ih _ _ hx (by omega) env, ihps (by omega)]
    | computed _ _ =>
      rw [sizeProperties] at hn
      simp only [Env.fieldTypes, ihps (by omega)]

/-- The types of like nodes are the same, if those of their parts are. -/
theorem typeOf_layer (L : Likeness R) (h : Layer R e e') (hn : e.size ≤ n) (env : Env) :
    env.typeOf e = env.typeOf e' := by
  cases h with
  | name => rfl
  | literal => rfl
  | property ho =>
    rw [Expr.size] at hn
    simp only [Env.typeOf, ih _ _ ho (by omega) env]
  | element ho hi hk =>
    rw [Expr.size] at hn
    simp only [Env.typeOf, ih _ _ ho (by omega) env, hk]
  | binary hl hr =>
    rw [Expr.size] at hn
    simp only [Env.typeOf, ih _ _ hl (by omega) env, ih _ _ hr (by omega) env]
  | unary hx =>
    rw [Expr.size] at hn
    simp only [Env.typeOf, ih _ _ hx (by omega) env]
  | conditional hc hy hn' =>
    rw [Expr.size] at hn
    simp only [Env.typeOf, ih _ _ hy (by omega) env, ih _ _ hn' (by omega) env]
  | @method m m' callee callee' p p' o o' name args args' hc hc' hgroup harray ho hargs =>
    have hcallee := callee.size_bare_le
    rw [hc, Expr.size] at hcallee
    rw [Expr.size] at hn
    cases hg : callee.isGroup with
    | true =>
      rw [env.typeOf_call_of_ne_property (ne_property_of_isGroup hg),
        env.typeOf_call_of_ne_property (ne_property_of_isGroup (hgroup ▸ hg))]
    | false =>
      rw [Expr.bare_of_not_isGroup hg] at hc
      rw [Expr.bare_of_not_isGroup (hgroup ▸ hg)] at hc'
      have htest : env.isArrayTest o name = env.isArrayTest o' name := by
        rw [Env.isArrayTest_eq, Env.isArrayTest_eq, harray]
      rw [hc, hc', Env.typeOf, Env.typeOf, htest, ih _ _ ho (by omega) env, hargs.length_eq,
        argumentType_eq ih L hargs (by omega) env]
  | call hne hne' _ =>
    rw [env.typeOf_call_of_ne_property (ne_property_of_bare hne),
      env.typeOf_call_of_ne_property (ne_property_of_bare hne')]
  | function hf hf' _ =>
    obtain ⟨m, ps, b, rfl⟩ | ⟨m, st, ps, b, rfl⟩ := Layer.cases_of_callable hf <;>
      obtain ⟨m', ps', b', rfl⟩ | ⟨m', st', ps', b', rfl⟩ := Layer.cases_of_callable hf' <;> rfl
  | object hps =>
    rw [Expr.size] at hn
    simp only [Env.typeOf, fieldTypes_eq ih hps (by omega) env]

end Layer

/-- The types of like expressions are the same under all bindings. -/
theorem typeOf_eq (L : Likeness R) {e e' : Expr Nat} (h : R e e') (env : Env) :
    env.typeOf e = env.typeOf e' := by
  rw [← env.typeOf_bare e, ← env.typeOf_bare e']
  exact typeOf_layer (fun x x' hx hlt env => L.typeOf_eq hx env) L (L.layer h) e.size_bare_le env
termination_by e.size
decreasing_by exact hlt

theorem classOf_eq (L : Likeness R) (h : R e e') (env : Env) :
    Rule.classOf env.oracle e = Rule.classOf env.oracle e' := by
  show (env.typeOf e.bare).toClass = (env.typeOf e'.bare).toClass
  rw [L.typeOf_eq (L.bare h)]

/-! ### Compiling -/

theorem elementOf_of_ne_property {env : Env} {callee : Expr Nat}
    (h : ∀ p o name, callee ≠ .property p o name) : env.elementOf callee = .unknown := by
  cases callee with
  | property p o name => exact absurd rfl (h p o name)
  | _ => rfl

theorem elementOf_eq (L : Likeness R) {p p' : Mark Nat} {callee callee' o o' : Expr Nat}
    {name : String} (hc : callee.bare = .property p o name)
    (hc' : callee'.bare = .property p' o' name) (hgroup : callee.isGroup = callee'.isGroup)
    (ho : R o o') (env : Env) : env.elementOf callee = env.elementOf callee' := by
  cases hg : callee.isGroup with
  | true =>
    rw [elementOf_of_ne_property (ne_property_of_isGroup hg),
      elementOf_of_ne_property (ne_property_of_isGroup (hgroup ▸ hg))]
  | false =>
    rw [Expr.bare_of_not_isGroup hg] at hc
    rw [Expr.bare_of_not_isGroup (hgroup ▸ hg)] at hc'
    simp only [hc, hc', Env.elementOf, L.typeOf_eq ho env]

/-- The functions that like calls give to a method bind the same. -/
theorem inner_call_eq (L : Likeness R) {m m' : Mark Nat} {callee callee' : Expr Nat}
    {args args' : List (Expr Nat)} (hargs : List.Forall₂ R args args') {env : Env}
    (helement : env.elementOf callee = env.elementOf callee') :
    env.inner (.call m callee args) = env.inner (.call m' callee' args') := by
  cases hargs with
  | nil => rfl
  | @cons arg arg' _ _ harg hrest =>
    cases hrest with
    | cons _ _ => rfl
    | nil =>
      have hrel := (L.layer harg).callable?
      simp only [Env.inner, helement]
      generalize arg.bare.callable? = f, arg'.bare.callable? = f' at hrel ⊢
      cases hrel with
      | none => rfl
      | some hf => exact Env.bind_eq_of_alike hf.params env _

theorem inner_eq (L : Likeness R) (h : Layer R e e') (env : Env) :
    env.inner e = env.inner e' := by
  cases h with
  | method hc hc' hgroup _ ho hargs =>
    exact L.inner_call_eq hargs (L.elementOf_eq hc hc' hgroup ho env)
  | call hn hn' hargs =>
    refine L.inner_call_eq hargs ?_
    rw [elementOf_of_ne_property (ne_property_of_bare hn),
      elementOf_of_ne_property (ne_property_of_bare hn')]
  | function hf hf' _ =>
    obtain ⟨m, ps, b, rfl⟩ | ⟨m, st, ps, b, rfl⟩ := Layer.cases_of_callable hf <;>
      obtain ⟨m', ps', b', rfl⟩ | ⟨m', st', ps', b', rfl⟩ := Layer.cases_of_callable hf' <;> rfl
  | _ => rfl

/-- Related expressions compile alike under the same bindings. -/
theorem agree_compile (L : Likeness R) (env : Env) {e e' : Expr Nat} (h : R e e') :
    Agree R (· = ·) (env.compile e) (env.compile e') := by
  rw [← env.compile_bare e, ← env.compile_bare e', Env.compile_eq_build, Env.compile_eq_build]
  refine (Rule.alike_of L.resemblance h fun x x' hx _ => L.classOf_eq hx env).keep.bind ?_
  rintro r r' ⟨hr, hof⟩
  refine Rule.agree_build hr (fun x x' hx hmem => L.agree_compile env hx) fun p b b' hb hbody => ?_
  rw [L.inner_eq (L.layer h) env]
  exact L.agree_compile _ hb
termination_by e.size
decreasing_by
  · exact Nat.lt_of_lt_of_le (Rule.size_operand hof (Rule.plain_subset_operands r hmem))
      e.size_bare_le
  · exact Nat.lt_of_lt_of_le (Rule.size_operand hof (Rule.body_mem_operands hbody)) e.size_bare_le

theorem agree_assemble (L : Likeness R) (env : Env) (h : R e e') :
    Agree R (· = ·) (env.assemble e) (env.assemble e') :=
  Pipeline.agree_compileWith L.resemblance env.scope h fun _ _ hx _ => L.agree_compile env hx

/-- Related expressions compile alike, each by the types recorded for it. -/
theorem agree_infer (L : Likeness R) (h : R e e') (hn : e.labels.Nodup) (hn' : e'.labels.Nodup)
    (placeholder : String) (context : Option TypeExpr) :
    Agree R (· = ·)
        (compile (DeclaredTypes.infer e placeholder context).oracle (.root placeholder) e)
        (compile (DeclaredTypes.infer e' placeholder context).oracle (.root placeholder) e') ∧
      Agree R (· = ·)
        (Pipeline.compile (DeclaredTypes.infer e placeholder context).oracle (.root placeholder) e)
        (Pipeline.compile (DeclaredTypes.infer e' placeholder context).oracle (.root placeholder)
          e') := by
  let env := Env.root placeholder context
  constructor
  · have hagree := L.agree_compile env h
    rwa [← compile_infer_eq hn, ← compile_infer_eq hn'] at hagree
  · have hagree := L.agree_assemble env h
    rwa [← pipeline_infer_eq hn, ← pipeline_infer_eq hn'] at hagree

end Likeness

end Aggregation
