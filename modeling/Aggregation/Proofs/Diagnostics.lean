import Aggregation.Program.Entry
import Aggregation.Proofs.Building
import Aggregation.Proofs.Locating
import Aggregation.Proofs.Relocation

/-! What errors show.

Compiling related expressions gives results that agree, and results that agree fail at related nodes. So
if nodes are related to themselves as long as they are among given nodes, and these include all nodes
inside them, then a fault is at one of them (`Closed.resemblance`). For a text that was read they are
the nodes of the tree, and each of these has a text of its own (`NodeOf.text`). -/
namespace Aggregation

variable {α : Type}

/-! ### Where faults are -/

/-- Equality of nodes among the given ones. -/
def EqAmong (es : List (Expr Nat)) (x x' : Expr Nat) : Prop :=
  x = x' ∧ x ∈ es

theorem EqAmong.forall₂ {es xs : List (Expr Nat)} (h : xs ⊆ es) :
    List.Forall₂ (EqAmong es) xs xs :=
  List.forall₂_same.2 fun _ hx => ⟨rfl, h hx⟩

/-- Results that agree with themselves among nodes have their fault at one of these. -/
theorem Agree.node_mem {es : List (Expr Nat)} {V : α → α → Prop} {x : Except CompileFault α}
    {f : CompileFault} (h : Agree (EqAmong es) V x x) (hf : x = .error f) : f.node ∈ es := by
  subst hf
  cases h with
  | fault he => exact he.2

theorem Closed.child_mem {es : List (Expr Nat)} {e c : Expr Nat} (hes : Closed es) (he : e ∈ es)
    (hc : c ∈ e.children) : c ∈ es :=
  (hes e he).subset (Expr.mem_nodes_of_child hc c.mem_nodes_self)

/-- What a rule looks at in a node is inside the node. -/
theorem Closed.form {es : List (Expr Nat)} (hes : Closed es) {e : Expr Nat} (he : e ∈ es)
    (hgroup : e.isGroup = false) : Form (EqAmong es) e e := by
  have hchild {c : Expr Nat} (hc : c ∈ e.children) : EqAmong es c c := ⟨rfl, hes.child_mem he hc⟩
  cases e with
  | paren m inner => cases hgroup
  | name m x => exact .name
  | literal m c => exact .literal
  | property m o x => exact .property (hchild (.head _))
  | element m o i => exact .element (hchild (.head _)) (hchild (.tail _ (.head _)))
  | binary m op l r => exact .binary (hchild (.head _)) (hchild (.tail _ (.head _)))
  | unary m op x => exact .unary (hchild (.head _))
  | conditional m c y n =>
    exact .conditional (hchild (.head _)) (hchild (.tail _ (.head _)))
      (hchild (.tail _ (.tail _ (.head _))))
  | call m callee args =>
    have hargs : List.Forall₂ (EqAmong es) args args := EqAmong.forall₂ fun x hx =>
      hes.child_mem he (List.mem_cons_of_mem callee hx)
    by_cases hp : ∃ p o x, callee.bare = .property p o x
    · obtain ⟨p, o, x, hp⟩ := hp
      have hcallee := hes.child_mem he List.mem_cons_self
      have ho := (hes callee hcallee).subset (Expr.object_mem_nodes hp)
      exact .method hp hp rfl ⟨rfl, ho⟩ hargs
    · push Not at hp
      exact .call hp hp hargs
  | lambda m ps body =>
    exact .function rfl rfl ⟨List.forall₂_same.2 fun _ _ => ⟨rfl, rfl⟩,
      .some (hchild (.head _))⟩
  | function m style ps ss =>
    refine .function rfl rfl ⟨List.forall₂_same.2 fun _ _ => ⟨rfl, rfl⟩, ?_⟩
    cases hresult : Statement.singleResult? ss with
    | none => exact .none
    | some body =>
      refine .some ⟨rfl, (hes _ he).subset ?_⟩
      exact List.mem_append_left _ (mem_nodes_of_singleResult? hresult)
  | object m ps =>
    refine .object (List.forall₂_same.2 fun p hp => ?_)
    have hpart {c : Expr Nat} (hc : c ∈ p.exprs) : EqAmong es c c :=
      hchild (List.mem_flatMap.2 ⟨p, hp, hc⟩)
    cases p with
    | field s key x => exact .field (hpart (.head _))
    | shorthand s key x => exact .shorthand (hpart (.head _))
    | computed s k x => exact .computed (hpart (.head _)) (hpart (.tail _ (.head _)))

theorem Closed.resemblance {es : List (Expr Nat)} (hes : Closed es) : Resemblance (EqAmong es) where
  bare := by
    rintro e _ ⟨rfl, he⟩
    exact ⟨rfl, (hes e he).subset e.bare_mem_nodes⟩
  form := by
    rintro e _ ⟨rfl, he⟩
    exact hes.form ((hes e he).subset e.bare_mem_nodes) e.isGroup_bare

section Faults

variable {o : Oracle} {s : Scope} {e : Expr Nat} {f : CompileFault}

/-- An expression that does not compile has its fault at one of its nodes. -/
theorem node_mem_of_compile (h : compile o s e = .error f) : f.node ∈ e.nodes :=
  (e.closed_nodes.resemblance.agree_compile (fun _ _ hx => congrArg o hx.1) s
    ⟨rfl, e.mem_nodes_self⟩).node_mem h

theorem node_mem_of_assemble (h : Pipeline.compile o s e = .error f) : f.node ∈ e.nodes :=
  (e.closed_nodes.resemblance.agree_assemble (fun _ _ hx => congrArg o hx.1) s
    ⟨rfl, e.mem_nodes_self⟩).node_mem h

/-- A stage that is made of nodes of a call has its fault at one of these. -/
theorem node_mem_of_stage {name : String} {args : List (Expr Nat)} (hargs : args ⊆ e.nodes)
    (h : Stage.compile o s name e args = .error f) : f.node ∈ e.nodes :=
  (e.closed_nodes.resemblance.agree_stage (fun _ _ hx => congrArg o hx.1) s
    ⟨rfl, e.mem_nodes_self⟩ (EqAmong.forall₂ hargs) name).node_mem h

theorem node_mem_of_compileTyped {kind : BuilderKind} {placeholder : String}
    {context : Option TypeExpr} (h : compileTyped kind placeholder context e = .error f) :
    f.node ∈ e.nodes := by
  cases kind with
  | pipeline => exact node_mem_of_assemble (eq_error_of_map_eq_error h)
  | operator => exact node_mem_of_compile (eq_error_of_map_eq_error h)

end Faults

namespace BuilderCall

variable {config : Config} {b : BuilderCall} {f : CompileFault}

/-- A function that is handed to a builder has the fault at one of its nodes. -/
theorem node_mem_of_function {arg : Expr Nat} {fn : Callable Nat} (hb : b.args = [arg])
    (hf : arg.bare.callable? = some fn) (h : b.compile config = .error f) : f.node ∈ arg.nodes := by
  rw [compile, callable_eq_ok hb hf] at h
  obtain ⟨params, result?⟩ := fn
  cases result? with
  | none =>
    -- Without a result, the fault is at the function, whatever its parameters.
    have hnode : f.node = arg.bare := by
      cases params with
      | nil => exact congrArg CompileFault.node (Except.error.inj h).symm
      | cons p ps => cases ps <;> exact congrArg CompileFault.node (Except.error.inj h).symm
    rw [hnode]
    exact arg.bare_mem_nodes
  | some body =>
    have hsub := (arg.closed_nodes body (Expr.result_mem_nodes hf rfl)).subset
    cases params with
    | nil => exact hsub (node_mem_of_compileTyped h)
    | cons p ps =>
      cases ps with
      | nil => exact hsub (node_mem_of_compileTyped h)
      | cons q ps =>
        cases h
        exact arg.bare_mem_nodes

/-- A builder call that does not compile has its fault at one of its nodes. -/
theorem node_mem_of_compile (hargs : b.args ⊆ b.call.nodes) (h : b.compile config = .error f) :
    f.node ∈ b.call.nodes := by
  by_cases hb : ∃ arg, b.args = [arg]
  · obtain ⟨arg, hb⟩ := hb
    have harg : arg ∈ b.call.nodes := hargs (hb ▸ List.mem_singleton_self arg)
    have hsub := (b.call.closed_nodes arg harg).subset
    cases hf : arg.bare.callable? with
    | none =>
      rw [compile, callable_eq_error hb hf] at h
      cases h
      exact hsub arg.bare_mem_nodes
    | some fn => exact hsub (node_mem_of_function hb hf h)
  · have hcall : b.callable = Rule.misfit b.call (.builderCount b.name) := by
      unfold callable
      split
      · next arg harg => exact absurd ⟨arg, harg⟩ hb
      · rfl
    rw [compile, hcall] at h
    cases h
    exact b.call.mem_nodes_self

end BuilderCall

/-! ### What texts show -/

/-- The snippet is that of the node, and its text is the part of the text where the node stands, which
is not empty. -/
structure Snippet.Quotes (source : String) (n : Expr Nat) (x : Snippet) : Prop where
  of_node : x = .of source.toList n
  text : ∃ before after, source.toList = before ++ (x.text.toList ++ after) ∧
    byteLength before = n.span.start ∧ byteLength before + byteLength x.text.toList = n.span.stop
  ne_empty : x.text ≠ ""

/-- The error shows a node inside the expression, and nothing of what stands around the expression. -/
def CompileError.Shows (source : String) (e : Expr Nat) (error : CompileError) : Prop :=
  ∃ n ∈ e.nodes, error.snippet.Quotes source n ∧ e.span.start ≤ error.snippet.span.start ∧
    error.snippet.span.stop ≤ e.span.stop

theorem NodeOf.quotes {source : String} {n : Expr Nat} (h : NodeOf source n) :
    (Snippet.of source.toList n).Quotes source n := by
  obtain ⟨before, after, hsource, hstart, hstop, hne⟩ := h.text
  refine ⟨rfl, ⟨before, after, ?_⟩, ?_⟩
  · rw [Snippet.of, String.toList_ofList]
    exact ⟨hsource, hstart, hstop⟩
  · intro hempty
    have hnil := congrArg String.toList hempty
    rw [Snippet.of, String.toList_ofList] at hnil
    exact hne hnil

/-- A fault at a node inside an expression of a text shows this node. -/
theorem NodeOf.shows {source : String} {e : Expr Nat} {f : CompileFault} (h : NodeOf source e)
    (hf : f.node ∈ e.nodes) : (CompileError.ofFault source.toList f).Shows source e := by
  have hspan := Expr.span_of_mem_nodes (fun n hn => (h.of_mem hn).nested) hf
  exact ⟨f.node, hf, (h.of_mem hf).quotes, hspan⟩

/-- Every error shows a node of what was to be compiled. If an expression of a text does not compile,
as a value, as a pipeline or as a stage, by any oracle and in any scope, then the error has the kind, the
span, the text and the position of a node inside the expression, and the text is not empty. The error
of a builder call shows a node inside the call. -/
theorem error_shows_node (source : String) :
    (∀ e, NodeOf source e → ∀ (o : Oracle) (s : Scope) (f : CompileFault),
      (compile o s e = .error f ∨ Pipeline.compile o s e = .error f ∨
        ∃ name args, args ⊆ e.nodes ∧ Stage.compile o s name e args = .error f) →
      (CompileError.ofFault source.toList f).Shows source e) ∧
    ∀ ss, parseProgram source = .ok ss → ∀ config, ∀ b ∈ locate config ss, ∀ error,
      (Entry.of config source.toList b).result = .error error → error.Shows source b.call := by
  constructor
  · intro e he o s f hf
    apply he.shows
    rcases hf with hf | hf | ⟨name, args, hargs, hf⟩
    · exact node_mem_of_compile hf
    · exact node_mem_of_assemble hf
    · exact node_mem_of_stage hargs hf
  · intro ss hss config b hb error herror
    obtain ⟨hcall, hgenuine, -⟩ := (mem_locate_iff (nodup_nodes_parseProgram hss)).1 hb
    have hargs : b.args ⊆ b.call.nodes := fun x hx =>
      Expr.mem_nodes_of_child (hgenuine.args_subset hx) x.mem_nodes_self
    cases hc : b.compile config with
    | ok c =>
      rw [Entry.of, hc] at herror
      cases herror
    | error f =>
      rw [Entry.of, hc] at herror
      obtain rfl := Except.error.inj herror
      exact (NodeOf.program hss hcall).shows (BuilderCall.node_mem_of_compile hargs hc)

/-- A sum with a name that stands for nothing, deep in the function of a builder call, and a pipeline
with a stage of an unknown name. -/
theorem error_shows_node_unbound :
    let source := "f(); aggregateOp((d: \x7b a: number[] \x7d) => /* é */ (d.a).map(x => x + g))"
    let chain := "this.$addFields(\x7b b: 1 \x7d).$match()"
    (∃ ss b error, parseProgram source = .ok ss ∧ b ∈ locate .standard ss ∧
      (Entry.of .standard source.toList b).result = .error error ∧
      (error.snippet.text, error.snippet.position) = ("x + g", ⟨1, 65⟩) ∧ error.Shows source b.call) ∧
    ∃ e f, parseExpression chain = .ok e ∧ Pipeline.compile .unknown (.root "this") e = .error f ∧
      (CompileError.ofFault chain.toList f).Shows chain e := by
  intro source chain
  constructor
  · have hfound : ((parseProgram source).toOption.map fun ss => (locate .standard ss).map fun b =>
        match (Entry.of .standard source.toList b).result with
        | .error error => some (error.snippet.text, error.snippet.position)
        | .ok _ => none) = some [some ("x + g", ⟨1, 65⟩)] := by
      decide +kernel
    cases hss : parseProgram source with
    | error e =>
      rw [hss] at hfound
      cases hfound
    | ok ss =>
      rw [hss] at hfound
      obtain ⟨b, hb, hshown⟩ := List.map_eq_singleton_iff.1 (Option.some.inj hfound)
      have hmem : b ∈ locate .standard ss := hb ▸ List.mem_singleton_self b
      cases hresult : (Entry.of .standard source.toList b).result with
      | ok c =>
        rw [hresult] at hshown
        cases hshown
      | error error =>
        rw [hresult] at hshown
        exact ⟨ss, b, error, rfl, hmem, hresult, Option.some.inj hshown,
          (error_shows_node source).2 ss hss .standard b hmem error hresult⟩
  · have hfailed : ((parseExpression chain).toOption.map fun e =>
        (Pipeline.compile .unknown (.root "this") e).isOk) = some false := by
      decide +kernel
    cases he : parseExpression chain with
    | error e =>
      rw [he] at hfailed
      cases hfailed
    | ok e =>
      rw [he] at hfailed
      cases hc : Pipeline.compile .unknown (.root "this") e with
      | ok p =>
        have hok : (Pipeline.compile .unknown (.root "this") e).isOk = false := Option.some.inj hfailed
        rw [hc] at hok
        cases hok
      | error f =>
        exact ⟨e, f, rfl, hc, (error_shows_node chain).1 e (.expression he e.mem_nodes_self)
          .unknown (.root "this") f (.inr (.inl hc))⟩

end Aggregation
