import Aggregation.Proofs.Building
import Aggregation.Proofs.Records

/-! Compiling in one pass.

The compiler asks an oracle for the class of an operand, and the oracle looks it up in the types that
were recorded, by number, for a whole tree. `Env.compile` has no such table: it goes by the same rules,
carries the types of the names in scope with it and computes the type of an operand where it needs it.
The two always give the same result, value or fault, and so do they for a pipeline
(`compile_infer_eq_onePass`). -/
namespace Aggregation

/-! ### What a rule looks at -/

namespace Rule

/-- A call that gives a function with parameter `param` and result `body` to a method of an array. -/
inductive Iteration (oracle : Oracle) (param : String) (body : Expr Nat) : Expr Nat → Prop
  | call {m p callee object name arg} {f : Callable Nat} {q : Param} :
      callee.bare = .property p object name → Env.iterates name →
      classOf oracle object = .array → arg.bare.callable? = some f → f.params = [q] →
      q.name = param → f.result? = some body → Iteration oracle param body (.call m callee [arg])

/-- A rule that compiles nothing but parts of the node in its scope, and inside a function only the
body of one that is given to a method of an array. -/
structure Sees (oracle : Oracle) (scope : Scope) (e : Expr Nat) (r : Rule) : Prop where
  plain : ∀ x ∈ r.plain, x ∈ parts scope e
  body : ∀ param body, r.body? = some (param, body) → Iteration oracle param body e

section Sees

variable {o : Oracle} {s : Scope} {e : Expr Nat} {r : Rule}

theorem Sees.of_subset (hb : r.body? = none) (h : r.plain ⊆ parts s e) : Sees o s e r where
  plain := fun _ hx => h hx
  body := by
    intro param body h
    rw [hb] at h
    cases h

theorem sees_ofField {name : String} {x : Expr Nat} (h : ofField x name = .ok r) : Sees o s e r := by
  unfold ofField at h
  split at h
  · cases h
  · obtain rfl := Except.ok.inj h
    exact .of_subset rfl (List.nil_subset _)

theorem sees_ofName {name : String} (h : ofName s e name = .ok r) : Sees o s e r := by
  unfold ofName at h
  split at h
  · obtain rfl := Except.ok.inj h
    exact .of_subset rfl (List.nil_subset _)
  · cases h
  · cases h

theorem sees_ofProperty {m : Mark Nat} {object : Expr Nat} {name : String}
    (h : ofProperty o s (.property m object name) object name = .ok r) :
    Sees o s (.property m object name) r := by
  unfold ofProperty at h
  split at h
  · exact sees_ofField h
  · split at h
    · cases h
    · obtain rfl := eq_of_onArray h
      exact .of_subset rfl (List.Subset.refl _)

theorem sees_ofElement {m : Mark Nat} {object index : Expr Nat}
    (h : ofElement o s (.element m object index) object index = .ok r) :
    Sees o s (.element m object index) r := by
  rw [ofElement_eq] at h
  split at h
  · split at h
    · exact sees_ofField h
    · cases h
  · obtain rfl := eq_of_onArray h
    exact .of_subset rfl (List.Subset.refl _)

theorem sees_ofBinary {m : Mark Nat} {op : BinaryOp} {left right : Expr Nat}
    (h : ofBinary o (.binary m op left right) op left right = .ok r) :
    Sees o s (.binary m op left right) r := by
  unfold ofBinary at h
  split at h
  · simp only at h
    split at h
    · obtain rfl := Except.ok.inj h
      exact .of_subset rfl (List.Subset.refl _)
    · cases h
  · obtain rfl := Except.ok.inj h
    exact .of_subset rfl (List.Subset.refl _)
  · cases h
  · cases h

theorem sees_ofUnary {m : Mark Nat} {op : UnaryOp} {operand : Expr Nat}
    (h : ofUnary o (.unary m op operand) op operand = .ok r) :
    Sees o s (.unary m op operand) r := by
  unfold ofUnary at h
  split at h
  · simp only at h
    split at h
    · obtain rfl := Except.ok.inj h
      exact .of_subset rfl (List.Subset.refl _)
    · cases h
  · cases h

section Call

variable {m p : Mark Nat} {callee object : Expr Nat} {name : String} {args : List (Expr Nat)}

theorem sees_ofArrayFunction (hc : callee.bare = .property p object name)
    (harray : (object.isArrayName && s.isFree "Array") = true)
    (h : ofArrayFunction o e name args = .ok r) : Sees o s (.call m callee args) r := by
  unfold ofArrayFunction at h
  split at h
  · cases h
  · obtain ⟨arg, ha, hr⟩ := bind_eq_ok.1 h
    obtain rfl := eq_of_onlyArgument ha
    simp only at hr
    split at hr
    · obtain rfl := Except.ok.inj hr
      refine .of_subset rfl ?_
      simp only [parts, hc, if_pos harray]
      exact List.Subset.refl _
    · cases hr

/-- A method of an array may compile the array, and its arguments if it is not given a function. -/
theorem Sees.of_method (hc : callee.bare = .property p object name)
    (harray : (object.isArrayName && s.isFree "Array") = false) (hname : Env.iterates name = false)
    (hb : r.body? = none) (h : ∀ x ∈ r.plain, x ∈ object :: args) :
    Sees o s (.call m callee args) r := by
  refine .of_subset hb fun x hx => ?_
  simp only [parts, hc, harray, hname]
  exact h x hx

theorem sees_ofIteration {method key : String} (hc : callee.bare = .property p object name)
    (harray : (object.isArrayName && s.isFree "Array") = false) (hname : Env.iterates name = true)
    (hclass : classOf o object = .array) (h : ofIteration e method key object args = .ok r) :
    Sees o s (.call m callee args) r := by
  unfold ofIteration at h
  obtain ⟨arg, ha, hr⟩ := bind_eq_ok.1 h
  obtain rfl := eq_of_onlyArgument ha
  split at hr
  · cases hr
  · rename_i f hf
    split at hr
    · rename_i param hparams
      split at hr
      · rename_i body hbody
        obtain rfl := Except.ok.inj hr
        refine ⟨fun x hx => ?_, ?_⟩
        · simp only [parts, hc, harray, hname]
          exact hx
        · rintro _ _ ⟨⟩
          exact .call hc hname hclass hf hparams rfl hbody
      · cases hr
    · cases hr

theorem sees_ofMethod (hc : callee.bare = .property p object name)
    (harray : (object.isArrayName && s.isFree "Array") = false)
    (hclass : classOf o object = .array) (h : ofMethod o e object name args = .ok r) :
    Sees o s (.call m callee args) r := by
  unfold ofMethod at h
  split at h
  · obtain ⟨arg, ha, hr⟩ := bind_eq_ok.1 h
    obtain rfl := eq_of_onlyArgument ha
    simp only at hr
    split at hr
    · obtain rfl := Except.ok.inj hr
      exact .of_method hc harray rfl rfl fun x hx => hx
    · cases hr
  · exact sees_ofIteration hc harray rfl hclass h
  · exact sees_ofIteration hc harray rfl hclass h
  · obtain ⟨arg, ha, hr⟩ := bind_eq_ok.1 h
    obtain rfl := eq_of_onlyArgument ha
    obtain rfl := Except.ok.inj hr
    exact .of_method hc harray rfl rfl fun x hx => hx
  · obtain ⟨arg, ha, hr⟩ := bind_eq_ok.1 h
    obtain rfl := eq_of_onlyArgument ha
    obtain rfl := Except.ok.inj hr
    exact .of_method hc harray rfl rfl fun x hx => hx
  · split at h
    · obtain rfl := Except.ok.inj h
      exact .of_method hc harray rfl rfl fun x hx =>
        List.mem_cons.2 (.inl (List.mem_singleton.1 hx))
    · cases h
  · cases h

theorem sees_ofCall (h : ofCall o s (.call m callee args) callee args = .ok r) :
    Sees o s (.call m callee args) r := by
  unfold ofCall at h
  split at h
  · rename_i p object name hc
    split at h
    · rename_i harray
      exact sees_ofArrayFunction hc (by simpa [Expr.isArrayName] using harray) h
    · rename_i harray
      split at h
      · cases h
      · simp only at h
        split at h
        · rename_i hclass
          refine sees_ofMethod hc ?_ hclass h
          simpa [Expr.isArrayName] using harray
        · cases h
  · cases h

end Call

/-- What the rule of a node compiles. -/
theorem sees_of (h : of o s e = .ok r) : Sees o s e r := by
  cases e with
  | name m x => exact sees_ofName h
  | literal m c =>
    obtain rfl := Except.ok.inj h
    exact .of_subset rfl (List.nil_subset _)
  | paren m inner =>
    obtain rfl := Except.ok.inj h
    exact .of_subset rfl (List.Subset.refl _)
  | property m object name => exact sees_ofProperty h
  | element m object index => exact sees_ofElement h
  | binary m op left right => exact sees_ofBinary h
  | unary m op operand => exact sees_ofUnary h
  | conditional m condition yes no =>
    obtain rfl := Except.ok.inj h
    exact .of_subset rfl (List.Subset.refl _)
  | call m callee args => exact sees_ofCall h
  | lambda m params body => cases h
  | function m style params body => cases h
  | object m properties => cases h

end Sees

/-! What a rule looks at are nodes of the expression. -/

theorem part_mem_nodes {s : Scope} {e x : Expr Nat} (h : x ∈ parts s e) : x ∈ e.nodes := by
  have hx := x.mem_nodes_self
  cases e with
  | paren m inner | unary m op operand | property m object name | element m object index
  | binary m op left right | conditional m c y n =>
    simp only [parts, List.mem_cons, List.not_mem_nil, or_false] at h
    simp only [Expr.nodes, List.mem_append]
    grind
  | call m callee args =>
    apply List.mem_append_left
    unfold parts at h
    cases hc : callee.bare with
    | property p object name =>
      have hobject := Expr.object_mem_nodes hc
      have hargs (hx : x ∈ args) : x ∈ callee.nodes ++ nodesAll args :=
        List.mem_append_right _ (mem_nodesAll hx)
      simp only [hc] at h
      split at h
      · exact hargs h
      · split at h
        · obtain rfl := List.mem_singleton.1 h
          exact List.mem_append_left _ hobject
        · rcases List.mem_cons.1 h with rfl | h
          · exact List.mem_append_left _ hobject
          · exact hargs h
    | _ => simp [hc] at h
  | name | literal | lambda | function | object => cases h

theorem Iteration.body_mem_nodes {o : Oracle} {param : String} {e body : Expr Nat}
    (h : Iteration o param body e) : body ∈ e.nodes := by
  cases h with
  | @call m p callee object name arg f q _ _ _ hf _ _ hbody =>
    have harg : body ∈ arg.nodes := Expr.result_mem_nodes hf hbody
    have hsub := closed_nodesAll [arg] arg (mem_nodesAll List.mem_cons_self)
    exact List.mem_append_left _ (List.mem_append_right _ (hsub.subset harg))

end Rule

/-! ### The compiler that carries types -/

namespace Env

/-- The oracle that computes the type of a node from the bindings around it. -/
def oracle (env : Env) : Oracle :=
  fun e => (env.typeOf e).toClass

/-- The value of an expression, by the rules of compilation and of typing alone. -/
def compile (env : Env) (e : Expr Nat) : Except CompileFault Value :=
  match _h : Rule.of env.oracle env.scope e with
  | .error f => .error f
  | .ok (.done v) => .ok v
  | .ok (.same inner) => env.compile inner
  | .ok (.single op x) => do
    let v ← env.compile x
    return .single op v
  | .ok (.one op x) => do
    let v ← env.compile x
    return .list op [v]
  | .ok (.two op x y) => do
    let v ← env.compile x
    let w ← env.compile y
    return .list op [v, w]
  | .ok (.swapped op x y) => do
    let v ← env.compile x
    let w ← env.compile y
    return .list op [w, v]
  | .ok (.choice c y n) => do
    let c ← env.compile c
    let y ← env.compile y
    let n ← env.compile n
    return .named "$cond" [("if", c), ("then", y), ("else", n)]
  | .ok (.each op key param input body) => do
    let i ← env.compile input
    let b ← (env.inner e).compile body
    return .named op [("input", i), ("as", .name param), (key, b)]
termination_by e.size
decreasing_by all_goals exact Rule.size_operand ‹_› (by simp [Rule.operands])

theorem compile_eq_build (env : Env) (e : Expr Nat) :
    env.compile e = Rule.of env.oracle env.scope e >>=
      Rule.build env.compile (fun _ => (env.inner e).compile) := by
  rw [compile]
  split <;> rename_i h <;> rw [h] <;> rfl

/-- Parentheses compile to what stands in them. -/
theorem compile_bare (env : Env) (e : Expr Nat) : env.compile e.bare = env.compile e := by
  match e with
  | .paren m e =>
    rw [compile_eq_build env (.paren m e)]
    exact compile_bare env e
  | .name _ _ | .literal _ _ | .property _ _ _ | .element _ _ _ | .binary _ _ _ _ | .unary _ _ _
  | .conditional _ _ _ _ | .call _ _ _ | .lambda _ _ _ | .function _ _ _ _ | .object _ _ => rfl

end Env

/-! ### Looking types up -/

namespace DeclaredTypes

variable {d : DeclaredTypes} {env : Env} {e : Expr Nat}

/-- The type of a number that is recorded once is what was recorded. -/
theorem type?_of_mem (hd : (d.entries.map (·.1)).Nodup) {n : Nat} {t : Ty}
    (h : (n, t) ∈ d.entries) : d.type? n = some t := by
  obtain ⟨before, after, heq⟩ := List.append_of_mem (List.mem_reverse.2 h)
  refine List.lookup_eq_some_iff.2 ⟨before, after, heq, fun p hp => ?_⟩
  rw [← List.nodup_reverse, ← List.map_reverse, heq, List.map_append, List.nodup_append] at hd
  have hne := hd.2.2 p.1 (List.mem_map_of_mem hp) n List.mem_cons_self
  simpa using hne.symm

/-- A node that is recorded has the type it has under the bindings it was recorded with. -/
theorem type?_of_records (hd : (d.entries.map (·.1)).Nodup) (h : env.records e ⊆ d.entries) :
    d.type? e.bare.mark.label = some (env.typeOf e.bare) :=
  type?_of_mem hd (h (env.records_bare e (env.mem_records_self e.bare)))

/-- The rule of a node whose parts are recorded. -/
theorem rule_eq (hd : (d.entries.map (·.1)).Nodup) (h : env.inside e ⊆ d.entries) :
    Rule.of d.oracle env.scope e = Rule.of env.oracle env.scope e := by
  refine Rule.of_congr fun x hx => ?_
  have htype := type?_of_records hd (List.Subset.trans (env.records_part hx) h)
  rw [Rule.classOf, Rule.classOf, oracle, htype]
  rfl

end DeclaredTypes

/-- Inside a function for the elements of an array the parameter is bound, and the body is recorded
there. -/
theorem Rule.Iteration.inner {env : Env} {param : String} {body e : Expr Nat}
    (h : Iteration env.oracle param body e) :
    (env.inner e).scope = env.scope.bind param ∧ (env.inner e).records body ⊆ env.inside e := by
  cases h with
  | @call m p callee object name arg f q hc hname hclass hf hparams hq hbody =>
    constructor
    · rw [Env.inner_of_callable hf, hparams, Env.scope_bind_single, hq]
    · refine Env.records_body m hc hname ?_ hf hbody
      rwa [← Env.typeOf_bare]

/-! ### The expressions of a pipeline -/

namespace Env

variable {env : Env} {x : Expr Nat}

theorem records_subset_recordProperties {ps : List (Property Nat)}
    (h : x ∈ ps.map Property.value) : env.records x ⊆ env.recordProperties ps := by
  induction ps with
  | nil => cases h
  | cons p ps ih =>
    rcases List.mem_cons.1 h with rfl | h
    · cases p with
      | field | shorthand => exact List.subset_append_left _ _
      | computed => exact List.subset_append_of_subset_left _ (List.subset_append_right _ _)
    · have hps := ih h
      cases p with
      | field | shorthand | computed => exact List.subset_append_of_subset_right _ hps

/-- An argument of a stage is no function, and its entries are recorded with it. -/
theorem records_value {arg : Expr Nat} (h : x ∈ Stage.values arg) :
    arg.bare.callable?.isSome = false ∧ env.records x ⊆ env.records arg := by
  unfold Stage.values at h
  split at h
  · rename_i m ps harg
    constructor
    · rw [harg]
      rfl
    · refine List.Subset.trans ?_ (env.records_bare arg)
      rw [harg]
      exact List.subset_append_of_subset_left _ (records_subset_recordProperties h)
  · cases h

/-- The expressions that the stages of a chain compile are recorded with the types that they have
where the chain stands. -/
theorem records_field (e : Expr Nat) (h : x ∈ Pipeline.fields e) :
    env.records x ⊆ env.inside e := by
  match e with
  | .paren _ e => exact List.subset_append_of_subset_left _ (records_field e h)
  | .property _ object _ => exact List.subset_append_of_subset_left _ (records_field object h)
  | .call m (.property p object name) args =>
    rcases List.mem_append.1 h with h | h
    · have harray : (object.isArrayName && env.isFree "Array") = false := by
        cases object with
        | name => cases h
        | _ => rfl
      exact List.Subset.trans (records_field object h)
        (inside_subset_of_records (records_object m args rfl harray))
    · obtain ⟨arg, harg, h⟩ := List.mem_flatMap.1 h
      obtain ⟨hfun, hrecords⟩ := records_value h
      exact List.Subset.trans hrecords (records_argument m rfl (fun _ _ _ => hfun) harg)
  | .call _ (.name _ _) args | .call _ (.literal _ _) args | .call _ (.element _ _ _) args
  | .call _ (.binary _ _ _ _) args | .call _ (.unary _ _ _) args
  | .call _ (.conditional _ _ _ _) args | .call _ (.call _ _ _) args
  | .call _ (.lambda _ _ _) args | .call _ (.function _ _ _ _) args
  | .call _ (.object _ _) args | .call _ (.paren _ _) args =>
    rcases List.mem_append.1 h with h | h
    · refine List.subset_append_of_subset_left _ ?_
      exact List.subset_append_of_subset_left _ (records_field _ h)
    · obtain ⟨arg, harg, h⟩ := List.mem_flatMap.1 h
      refine List.subset_append_of_subset_right _ ?_
      exact List.Subset.trans (records_value h).2 (records_subset_recordAll harg)
  | .name _ _ | .literal _ _ | .element _ _ _ | .binary _ _ _ _ | .unary _ _ _
  | .conditional _ _ _ _ | .lambda _ _ _ | .function _ _ _ _ | .object _ _ => cases h

/-- The pipeline that a chain makes, by the rules of compilation and of typing alone. -/
def assemble (env : Env) (e : Expr Nat) : Except CompileFault Pipeline :=
  Pipeline.compileWith env.compile env.scope e

/-- The bindings of a whole expression: the placeholder, with the type of its annotation. -/
def root (placeholder : String) (context : Option TypeExpr) : Env :=
  ⟨placeholder, (context.map Ty.ofTypeExpr).getD .unknown, []⟩

end Env

/-! ### The two compilers agree -/

section Agree

variable {d : DeclaredTypes} (hd : (d.entries.map (·.1)).Nodup)
include hd

/-- Compiling by types that are recorded is compiling by types that are computed. -/
theorem compile_eq_of_inside (env : Env) (e : Expr Nat) (h : env.inside e ⊆ d.entries) :
    compile d.oracle env.scope e = env.compile e := by
  rw [compile_eq_build, Env.compile_eq_build, d.rule_eq hd h]
  cases hr : Rule.of env.oracle env.scope e with
  | error f => rfl
  | ok r =>
    have hsees := Rule.sees_of hr
    refine (Rule.agree_build (Rule.Alike.refl r) ?_ ?_).eq
    · rintro x _ rfl hx
      have hpart := List.Subset.trans (env.records_part (hsees.plain x hx)) h
      exact .of_eq (compile_eq_of_inside env x (Env.inside_subset_of_records hpart))
    · rintro param body _ rfl hb
      obtain ⟨hscope, hrecords⟩ := (hsees.body param body hb).inner
      rw [← hscope]
      refine .of_eq (compile_eq_of_inside (env.inner e) body ?_)
      exact Env.inside_subset_of_records (List.Subset.trans hrecords h)
termination_by e.size
decreasing_by
  · exact Rule.size_operand hr (Rule.plain_subset_operands r hx)
  · exact Rule.size_operand hr (Rule.body_mem_operands hb)

theorem pipeline_eq_of_inside (env : Env) (e : Expr Nat) (h : env.inside e ⊆ d.entries) :
    Pipeline.compile d.oracle env.scope e = env.assemble e := by
  rw [Pipeline.compile_eq_with, Env.assemble]
  refine (Pipeline.agree_compileWith Likeness.eq.resemblance env.scope rfl ?_).eq
  rintro x _ rfl hx
  have hrecords := List.Subset.trans (env.records_field e hx) h
  exact .of_eq (compile_eq_of_inside hd env x (Env.inside_subset_of_records hrecords))

end Agree

section Infer

variable {root : Expr Nat} (hn : root.labels.Nodup) (placeholder : String)
  (context : Option TypeExpr)
include hn

/-- No number is recorded twice, if no two nodes share one. -/
theorem nodup_infer : ((DeclaredTypes.infer root placeholder context).entries.map (·.1)).Nodup :=
  (Env.root placeholder context).nodup_records hn

theorem compile_infer_eq :
    compile (DeclaredTypes.infer root placeholder context).oracle (.root placeholder) root =
      (Env.root placeholder context).compile root :=
  compile_eq_of_inside (nodup_infer hn placeholder context) (Env.root placeholder context) root
    (Env.inside_subset_records _ root)

theorem pipeline_infer_eq :
    Pipeline.compile (DeclaredTypes.infer root placeholder context).oracle (.root placeholder) root =
      (Env.root placeholder context).assemble root :=
  pipeline_eq_of_inside (nodup_infer hn placeholder context) (Env.root placeholder context) root
    (Env.inside_subset_records _ root)

end Infer

/-- `Visits oracle env root s env' e`: compiling `root` comes to the node `e` with the scope `s`, and
there the bindings with their types are `env'`. -/
inductive Visits (oracle : Oracle) (env : Env) (root : Expr Nat) : Scope → Env → Expr Nat → Prop
  | root : Visits oracle env root env.scope env root
  | field {e} : e ∈ Pipeline.fields root → Visits oracle env root env.scope env e
  | operand {s env' e r x} : Visits oracle env root s env' e → Rule.of oracle s e = .ok r →
      x ∈ r.plain → Visits oracle env root s env' x
  | body {s env' e r param body} : Visits oracle env root s env' e → Rule.of oracle s e = .ok r →
      r.body? = some (param, body) →
      Visits oracle env root (s.bind param) (env'.inner e) body

/-- Wherever the compiler comes, its scope binds the names of the bindings there, and the node is
recorded with the types that it has under them. -/
theorem Visits.recorded {d : DeclaredTypes} {env env' : Env} {root e : Expr Nat} {s : Scope}
    (hd : (d.entries.map (·.1)).Nodup) (hroot : env.inside root ⊆ d.entries)
    (h : Visits d.oracle env root s env' e) : s = env'.scope ∧ env'.inside e ⊆ d.entries := by
  induction h with
  | root => exact ⟨rfl, hroot⟩
  | @field e he =>
    have hrecords := List.Subset.trans (env.records_field root he) hroot
    exact ⟨rfl, Env.inside_subset_of_records hrecords⟩
  | @operand s env' e r x _ hr hx ih =>
    obtain ⟨rfl, hinside⟩ := ih
    have hpart := env'.records_part ((Rule.sees_of hr).plain x hx)
    exact ⟨rfl, Env.inside_subset_of_records (List.Subset.trans hpart hinside)⟩
  | @body s env' e r param body _ hr hb ih =>
    obtain ⟨rfl, hinside⟩ := ih
    rw [d.rule_eq hd hinside] at hr
    obtain ⟨hscope, hrecords⟩ := ((Rule.sees_of hr).body param body hb).inner
    refine ⟨hscope.symm, ?_⟩
    exact Env.inside_subset_of_records (List.Subset.trans hrecords hinside)

/-- Compiling an expression that was read from a text, or the chain of a pipeline, by the types
recorded for it gives what the compiler that carries types gives, value or fault. No number is recorded
twice, and wherever the compiler comes its scope has the names of the bindings there, and the parts of
the node whose class it may ask for are recorded with the types that they have under these. -/
theorem compile_infer_eq_onePass {root : Expr Nat} (h : Parsed root) (placeholder : String)
    (context : Option TypeExpr) :
    let d := DeclaredTypes.infer root placeholder context
    let env := Env.root placeholder context
    compile d.oracle (.root placeholder) root = env.compile root ∧
      Pipeline.compile d.oracle (.root placeholder) root = env.assemble root ∧
      (d.entries.map (·.1)).Nodup ∧
      ∀ s env' e, Visits d.oracle env root s env' e → s = env'.scope ∧
        ∀ x ∈ Rule.parts s e, d.type? x.bare.mark.label = some (env'.typeOf x.bare) := by
  intro d env
  have hn := h.labels_nodup
  have hd := nodup_infer hn placeholder context
  have hroot : env.inside root ⊆ d.entries := env.inside_subset_records root
  refine ⟨compile_infer_eq hn placeholder context, pipeline_infer_eq hn placeholder context, hd, ?_⟩
  intro s env' e hvisits
  obtain ⟨rfl, hinside⟩ := hvisits.recorded hd hroot
  refine ⟨rfl, fun x hx => ?_⟩
  exact d.type?_of_records hd (List.Subset.trans (env'.records_part hx) hinside)

/-- A function over an array of numbers: its parameter is known to be a number in both compilers. -/
theorem compile_infer_eq_onePass_map :
    ∃ root, parseExpression "this.a.map((x) => x + 1)" = .ok root ∧
      let context := TypeExpr.object [("a", .array .number)]
      compile (DeclaredTypes.infer root "this" (some context)).oracle (.root "this") root =
        (Env.root "this" (some context)).compile root := by
  have hok : (parseExpression "this.a.map((x) => x + 1)").isOk = true := by decide +kernel
  cases h : parseExpression "this.a.map((x) => x + 1)" with
  | error e =>
    rw [h] at hok
    cases hok
  | ok root => exact ⟨root, rfl, (compile_infer_eq_onePass (.expression h) "this" _).1⟩

end Aggregation
