import Mathlib.Data.List.Lattice
import Mathlib.Data.List.Nodup
import Mathlib.Data.List.Pairwise
import Aggregation.Program.Builder
import Aggregation.Proofs.Nesting

/-! The builder calls of a program.

A node is a builder call if it calls a builder by its name (`BuilderCall.Genuine`). Looking for builder
calls goes down from node to node and stops at each that it finds (`BuilderCall.within_of_none`,
`BuilderCall.within_of_some`), so it finds those that are not inside an argument of another
(`BuilderCall.mem_within_iff`). It goes through the expressions inside a node in the order of the text,
so the calls stand in a row (`BuilderCall.inRow_within`). -/
namespace Aggregation

namespace BuilderCall

variable {config : Config} {b : BuilderCall} {e x : Expr Nat} {es : List (Expr Nat)}

/-- The call is one of a builder by its name, and the kind is that of the builder. -/
structure Genuine (config : Config) (b : BuilderCall) : Prop where
  call : ∃ m m', b.call = .call m (.name m' b.name) b.args
  name : b.name = config.pipelineBuilder ∨ b.name = config.operatorBuilder
  kind : b.kind = if b.name = config.pipelineBuilder then .pipeline else .operator

/-- The expression is inside what is handed to a builder by one of the nodes. -/
def Handed (config : Config) (es : List (Expr Nat)) (x : Expr Nat) : Prop :=
  ∃ b : BuilderCall, b.call ∈ es ∧ b.Genuine config ∧ ∃ arg ∈ b.args, x ∈ arg.nodes

/-! ### Looking for builder calls -/

/-- The builder call that a node is, if it is one. -/
def ofNode? (config : Config) : Expr Nat → Option BuilderCall
  | .call m callee args => of? config (.call m callee args) callee args
  | _ => none

theorem builder?_eq_some_iff {name : String} {kind : BuilderKind} :
    config.builder? name = some kind ↔
      (name = config.pipelineBuilder ∨ name = config.operatorBuilder) ∧
        kind = if name = config.pipelineBuilder then .pipeline else .operator := by
  unfold Config.builder?
  split
  · next h => simp [h, eq_comm]
  · next h =>
    split
    · next h' => simp [h', eq_comm]
    · next h' => simp [h, h']

/-- The nodes that are builder calls are those that call a builder by its name. -/
theorem ofNode?_eq_some_iff : ofNode? config e = some b ↔ b.call = e ∧ b.Genuine config := by
  constructor
  · intro h
    cases e with
    | call m callee args =>
      obtain ⟨name, hname, h⟩ := Option.bind_eq_some_iff.1 h
      obtain ⟨kind, hkind, h⟩ := Option.bind_eq_some_iff.1 h
      obtain rfl := Option.some.inj h
      obtain ⟨hbuilder, hkind⟩ := builder?_eq_some_iff.1 hkind
      cases callee with
      | name m' s =>
        obtain rfl := Option.some.inj hname
        exact ⟨rfl, ⟨m, m', rfl⟩, hbuilder, hkind⟩
      | _ => cases hname
    | _ => cases h
  · rintro ⟨rfl, ⟨m, m', hcall⟩, hname, hkind⟩
    have hbuilder := builder?_eq_some_iff.2 ⟨hname, hkind⟩
    rw [hcall, ofNode?, ← hcall, of?, Expr.name?, Option.bind_eq_bind, Option.bind_some, hbuilder]
    rfl

theorem withinAll_eq (es : List (Expr Nat)) :
    withinAll config es = es.flatMap (within config) := by
  induction es with
  | nil => rfl
  | cons e es ih => rw [withinAll, ih, List.flatMap_cons]

theorem withinProperties_eq (ps : List (Property Nat)) :
    withinProperties config ps = (ps.flatMap Property.exprs).flatMap (within config) := by
  induction ps with
  | nil => rfl
  | cons p ps ih =>
    cases p <;> simp [withinProperties, ih, Property.exprs, Property.key?, Property.value]

theorem withinStatements_eq (ss : List (Statement Nat)) :
    withinStatements config ss = (ss.filterMap Statement.value?).flatMap (within config) := by
  induction ss with
  | nil => rfl
  | cons s ss ih =>
    match s with
    | .declaration _ _ none | .declaration _ _ (some _) | .result _ none | .result _ (some _)
    | .expression _ _ => simp [withinStatements, ih, Statement.value?, List.filterMap_cons]

/-- Looking for builder calls stops at each that is found. -/
theorem within_of_some (h : ofNode? config e = some b) : within config e = [b] := by
  cases e with
  | call m callee args =>
    have hof : of? config (.call m callee args) callee args = some b := h
    rw [within, hof]
  | _ => cases h

/-- Where no builder call is, looking for them goes down. -/
theorem within_of_none (h : ofNode? config e = none) :
    within config e = e.children.flatMap (within config) := by
  cases e with
  | call m callee args =>
    have hof : of? config (.call m callee args) callee args = none := h
    rw [within, hof, Expr.children, List.flatMap_cons, withinAll_eq]
  | function m style ps ss => rw [within, Expr.children, withinStatements_eq]
  | object m ps => rw [within, Expr.children, withinProperties_eq]
  | _ => simp [within, Expr.children]

/-! ### What is found -/

/-- An argument of a builder call is right inside it. -/
theorem Genuine.args_subset (h : b.Genuine config) : b.args ⊆ b.call.children := by
  obtain ⟨m, m', hcall⟩ := h.call
  rw [hcall, Expr.children]
  exact List.subset_cons_self _ _

/-- No expression is handed to a builder by a node inside it. -/
theorem not_handed_self (e : Expr Nat) : ¬ Handed config e.nodes e := by
  rintro ⟨b, hb, hgenuine, arg, harg, he⟩
  have hinner := Expr.length_nodes_le he
  have hchild := Expr.length_nodes_lt (hgenuine.args_subset harg)
  have houter := Expr.length_nodes_le hb
  omega

theorem Handed.mono {fs : List (Expr Nat)} (h : Handed config es x) (hsub : es ⊆ fs) :
    Handed config fs x := by
  obtain ⟨b, hb, hrest⟩ := h
  exact ⟨b, hsub hb, hrest⟩

/-- Expressions without common nodes that have a node in common are one. -/
theorem eq_of_mem_nodes {e' : Expr Nat} (hn : (es.flatMap Expr.nodes).Nodup) (he : e ∈ es)
    (he' : e' ∈ es) (hx : x ∈ e.nodes) (hx' : x ∈ e'.nodes) : e = e' := by
  by_contra hne
  have hpairwise := (List.nodup_flatMap.1 hn).2
  have : Std.Symm (Function.onFun List.Disjoint (@Expr.nodes Nat)) :=
    ⟨fun _ _ h => List.Disjoint.symm h⟩
  exact hpairwise.forall he he' hne hx hx'

/-- Only the expression that a node is in can hand it to a builder. -/
theorem handed_flatMap_iff (hn : (es.flatMap Expr.nodes).Nodup) (he : e ∈ es) (hx : x ∈ e.nodes) :
    Handed config (es.flatMap Expr.nodes) x ↔ Handed config e.nodes x := by
  constructor
  · rintro ⟨b, hb, hgenuine, arg, harg, hmem⟩
    obtain ⟨e', he', hb⟩ := List.mem_flatMap.1 hb
    have hinner := Expr.mem_nodes_of_child (hgenuine.args_subset harg) hmem
    have hx' : x ∈ e'.nodes := (e'.closed_nodes b.call hb).subset hinner
    obtain rfl := eq_of_mem_nodes hn he he' hx hx'
    exact ⟨b, hb, hgenuine, arg, harg, hmem⟩
  · intro h
    exact h.mono fun y hy => List.mem_flatMap.2 ⟨e, he, hy⟩

/-- What is found in expressions without common nodes, if it is known what is found in each. -/
theorem mem_flatMap_within_iff (hn : (es.flatMap Expr.nodes).Nodup)
    (h : ∀ e ∈ es, b ∈ within config e ↔
      b.call ∈ e.nodes ∧ b.Genuine config ∧ ¬ Handed config e.nodes b.call) :
    b ∈ es.flatMap (within config) ↔ b.call ∈ es.flatMap Expr.nodes ∧ b.Genuine config ∧
      ¬ Handed config (es.flatMap Expr.nodes) b.call := by
  simp only [List.mem_flatMap (f := within config)]
  constructor
  · rintro ⟨e, he, hb⟩
    obtain ⟨hmem, hgenuine, hnot⟩ := (h e he).1 hb
    refine ⟨List.mem_flatMap.2 ⟨e, he, hmem⟩, hgenuine, ?_⟩
    rwa [handed_flatMap_iff hn he hmem]
  · rintro ⟨hmem, hgenuine, hnot⟩
    obtain ⟨e, he, hmem⟩ := List.mem_flatMap.1 hmem
    rw [handed_flatMap_iff hn he hmem] at hnot
    exact ⟨e, he, (h e he).2 ⟨hmem, hgenuine, hnot⟩⟩

section Node

variable (hof : ofNode? config e = none)
include hof

/-- The builder calls in a node that is none itself are in the expressions inside it. -/
theorem call_mem_nodes_iff (h : b.Genuine config) :
    b.call ∈ e.nodes ↔ b.call ∈ e.children.flatMap Expr.nodes := by
  have hne : b.call ≠ e := by
    intro hcall
    rw [ofNode?_eq_some_iff.2 ⟨hcall, h⟩] at hof
    cases hof
  rw [Expr.nodes_eq, List.mem_append, List.mem_singleton, or_iff_left hne]

theorem handed_nodes_iff :
    Handed config e.nodes x ↔ Handed config (e.children.flatMap Expr.nodes) x := by
  constructor
  · rintro ⟨b, hb, hgenuine, harg⟩
    exact ⟨b, (call_mem_nodes_iff hof hgenuine).1 hb, hgenuine, harg⟩
  · rintro ⟨b, hb, hgenuine, harg⟩
    exact ⟨b, (call_mem_nodes_iff hof hgenuine).2 hb, hgenuine, harg⟩

end Node

/-- Found are the builder calls that are not inside an argument of another. -/
theorem mem_within_iff (hn : e.nodes.Nodup) : b ∈ within config e ↔
    b.call ∈ e.nodes ∧ b.Genuine config ∧ ¬ Handed config e.nodes b.call := by
  induction e using Expr.children_induction with
  | node e ih =>
    cases hof : ofNode? config e with
    | some found =>
      obtain ⟨rfl, hfound⟩ := ofNode?_eq_some_iff.1 hof
      rw [within_of_some hof, List.mem_singleton]
      constructor
      · rintro rfl
        exact ⟨Expr.mem_nodes_self _, hfound, not_handed_self _⟩
      · rintro ⟨hmem, hgenuine, hnot⟩
        rcases Expr.mem_nodes_iff.1 hmem with ⟨c, hc, hmem⟩ | hcall
        · -- Inside a builder call there are the name of the builder and what is handed to it.
          obtain ⟨m, m', hshape⟩ := hfound.call
          obtain ⟨n, n', hb⟩ := hgenuine.call
          rw [hshape, Expr.children] at hc
          rcases List.mem_cons.1 hc with rfl | hc
          · rw [List.mem_singleton.1 hmem] at hb
            cases hb
          · exact absurd ⟨found, Expr.mem_nodes_self _, hfound, c, hc, hmem⟩ hnot
        · have hsame := ofNode?_eq_some_iff.2 ⟨hcall, hgenuine⟩
          exact Option.some.inj (hsame.symm.trans hof)
    | none =>
      have hsplit := hn
      rw [e.nodes_eq] at hsplit
      have hfound : b ∈ e.children.flatMap (within config) ↔ _ :=
        mem_flatMap_within_iff hsplit.of_append_left
          fun c hc => ih c hc ((e.closed_nodes c (Expr.mem_nodes_of_child hc c.mem_nodes_self)).nodup hn)
      rw [within_of_none hof, hfound, handed_nodes_iff hof]
      constructor
      · rintro ⟨hmem, hgenuine, hnot⟩
        exact ⟨(call_mem_nodes_iff hof hgenuine).2 hmem, hgenuine, hnot⟩
      · rintro ⟨hmem, hgenuine, hnot⟩
        exact ⟨(call_mem_nodes_iff hof hgenuine).1 hmem, hgenuine, hnot⟩

/-- The builder calls in an expression stand in its text, in a row. -/
theorem inRow_within (h : ∀ n ∈ e.nodes, n.Nested) :
    InRow (·.call.span) e.span.start e.span.stop (within config e) := by
  induction e using Expr.children_induction with
  | node e ih =>
    have hself := h e e.mem_nodes_self
    cases hof : ofNode? config e with
    | some found =>
      obtain ⟨rfl, -⟩ := ofNode?_eq_some_iff.1 hof
      rw [within_of_some hof]
      exact ⟨Nat.le_refl _, hself.span_lt, Nat.le_refl _⟩
    | none =>
      rw [within_of_none hof]
      exact hself.children.flatMap fun c hc =>
        ih c hc fun n hn => h n (Expr.mem_nodes_of_child hc hn)

end BuilderCall

/-! ### Programs -/

theorem nodup_nodes_parseProgram {source : String} {ss : List (Statement Nat)}
    (h : parseProgram source = .ok ss) : (nodesStatements ss).Nodup :=
  List.Nodup.of_map (fun e : Expr Nat => e.mark.label) (labels_parseProgram_nodup h)

theorem mem_locate_iff {config : Config} {ss : List (Statement Nat)}
    (hn : (nodesStatements ss).Nodup) {b : BuilderCall} : b ∈ locate config ss ↔
      b.call ∈ nodesStatements ss ∧ b.Genuine config ∧
        ¬ BuilderCall.Handed config (nodesStatements ss) b.call := by
  rw [locate, BuilderCall.withinStatements_eq]
  rw [nodesStatements_eq] at hn ⊢
  refine BuilderCall.mem_flatMap_within_iff hn fun e he => BuilderCall.mem_within_iff ?_
  exact (List.nodup_flatMap.1 hn).1 e he

theorem inRow_locate {source : String} {ss : List (Statement Nat)}
    (h : parseProgram source = .ok ss) (config : Config) :
    InRow (·.call.span) 0 (byteLength source.toList) (locate config ss) := by
  rw [locate, BuilderCall.withinStatements_eq]
  refine (inRow_parseProgram h).flatMap fun e he => BuilderCall.inRow_within fun n hn => ?_
  refine (NodeOf.program h ?_).nested
  rw [nodesStatements_eq]
  exact List.mem_flatMap.2 ⟨e, he, hn⟩

/-- In a program the builder calls are found that are nodes, at any depth, in which a builder is called
by its name, and which are not inside an argument of another such call. Each is found once, with the
kind of its builder, and each begins behind the end of the one before it. -/
theorem locate_in_order {source : String} {ss : List (Statement Nat)}
    (h : parseProgram source = .ok ss) (config : Config) :
    (∀ b, b ∈ locate config ss ↔ b.call ∈ nodesStatements ss ∧ b.Genuine config ∧
        ¬ BuilderCall.Handed config (nodesStatements ss) b.call) ∧
      ((locate config ss).map (·.call)).Nodup ∧
      (∀ b ∈ locate config ss, b.call.span.start < b.call.span.stop) ∧
      (locate config ss).Pairwise fun a b =>
        a.call.span.start < b.call.span.start ∧ a.call.span.stop ≤ b.call.span.start := by
  have hrow := inRow_locate h config
  have hne : ∀ b ∈ locate config ss, b.call.span.start < b.call.span.stop :=
    fun b hb => (hrow.bounds hb).2.1
  have hbehind : (locate config ss).Pairwise fun a b =>
      a.call.span.start < b.call.span.start ∧ a.call.span.stop ≤ b.call.span.start := by
    refine hrow.pairwise.imp_of_mem fun {a b} ha _ hab => ⟨?_, hab⟩
    exact Nat.lt_of_lt_of_le (hne a ha) hab
  refine ⟨fun b => mem_locate_iff (nodup_nodes_parseProgram h), ?_, hne, hbehind⟩
  refine List.pairwise_map.2 (hbehind.imp fun {a b} hab hcall => ?_)
  rw [hcall] at hab
  exact Nat.lt_irrefl _ hab.1

/-- Builder calls as a key, as a value, as what is called and as an argument of that call. Those handed to
a builder and the call of a builder in parentheses are passed over. -/
theorem locate_in_order_nested :
    let source := "const d = \x7b [aggregate(x => aggregateOp(x))]: aggregateOp(1) \x7d; " ++
      "(aggregate)(2); aggregate(f)(aggregateOp(aggregate(3)))"
    let found := [(BuilderKind.pipeline, "aggregate(x => aggregateOp(x))"), (.operator, "aggregateOp(1)"),
      (.pipeline, "aggregate(f)"), (.operator, "aggregateOp(aggregate(3))")]
    ∃ ss, parseProgram source = .ok ss ∧
      (locate .standard ss).map (fun b => (b.kind, String.ofList (b.call.span.slice source.toList))) =
        found ∧
      (∀ b, b ∈ locate .standard ss ↔ b.call ∈ nodesStatements ss ∧ b.Genuine .standard ∧
        ¬ BuilderCall.Handed .standard (nodesStatements ss) b.call) ∧
      (locate .standard ss).Pairwise fun a b =>
        a.call.span.start < b.call.span.start ∧ a.call.span.stop ≤ b.call.span.start := by
  intro source found
  have hfound : ((parseProgram source).toOption.map fun ss => (locate .standard ss).map
      fun b => (b.kind, String.ofList (b.call.span.slice source.toList))) = some found := by
    decide +kernel
  cases hss : parseProgram source with
  | error e =>
    rw [hss] at hfound
    cases hfound
  | ok ss =>
    rw [hss] at hfound
    obtain ⟨hmem, -, -, hbehind⟩ := locate_in_order hss .standard
    exact ⟨ss, rfl, Option.some.inj hfound, hmem, hbehind⟩

end Aggregation
