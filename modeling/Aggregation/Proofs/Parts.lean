import Aggregation.Proofs.Relocation

/-! Nodes of trees that were moved or numbered.

Moving a tree moves its nodes one by one (`Expr.nodes_relocate`), and numbering a tree only adds
labels (`Expr.relabels`). So what holds of all nodes of the tree that a rule of the grammar
gives, and does not speak of labels, holds of all nodes of the tree that a text is read as. -/
namespace Aggregation

variable {ν μ κ : Type}

/-! ### Moving twice -/

theorem Span.relocate_relocate (g g' : Nat → Nat) (s : Span) :
    (s.relocate g).relocate g' = s.relocate (g' ∘ g) := rfl

theorem Mark.relocate_relocate (f : ν → μ) (f' : μ → κ) (g g' : Nat → Nat) (m : Mark ν) :
    (m.relocate f g).relocate f' g' = m.relocate (f' ∘ f) (g' ∘ g) := rfl

theorem Param.relocate_relocate (g g' : Nat → Nat) (ps : List Param) :
    (ps.map (relocate g)).map (relocate g') = ps.map (relocate (g' ∘ g)) :=
  List.map_map

section

variable (f : ν → μ) (f' : μ → κ) (g g' : Nat → Nat)

mutual

/-- A tree that is moved twice is moved by both moves at once. -/
theorem Expr.relocate_relocate (e : Expr ν) :
    (e.relocate f g).relocate f' g' = e.relocate (f' ∘ f) (g' ∘ g) := by
  match e with
  | .name m x | .literal m c => rfl
  | .paren m e => simp only [Expr.relocate, e.relocate_relocate, Mark.relocate_relocate]
  | .property m o x => simp only [Expr.relocate, o.relocate_relocate, Mark.relocate_relocate]
  | .element m o i =>
    simp only [Expr.relocate, o.relocate_relocate, i.relocate_relocate, Mark.relocate_relocate]
  | .binary m op l r =>
    simp only [Expr.relocate, l.relocate_relocate, r.relocate_relocate, Mark.relocate_relocate]
  | .unary m op e => simp only [Expr.relocate, e.relocate_relocate, Mark.relocate_relocate]
  | .conditional m c y n =>
    simp only [Expr.relocate, c.relocate_relocate, y.relocate_relocate, n.relocate_relocate,
      Mark.relocate_relocate]
  | .call m e es =>
    simp only [Expr.relocate, e.relocate_relocate, relocateAll_relocateAll es, Mark.relocate_relocate]
  | .lambda m ps e =>
    simp only [Expr.relocate, e.relocate_relocate, Param.relocate_relocate, Mark.relocate_relocate]
  | .function m style ps ss =>
    simp only [Expr.relocate, relocateStatements_relocateStatements ss, Param.relocate_relocate,
      Mark.relocate_relocate]
  | .object m ps =>
    simp only [Expr.relocate, relocateProperties_relocateProperties ps, Mark.relocate_relocate]

theorem relocateAll_relocateAll (es : List (Expr ν)) :
    relocateAll f' g' (relocateAll f g es) = relocateAll (f' ∘ f) (g' ∘ g) es := by
  match es with
  | [] => rfl
  | e :: es => simp only [relocateAll, e.relocate_relocate, relocateAll_relocateAll es]

theorem relocateProperties_relocateProperties (ps : List (Property ν)) :
    relocateProperties f' g' (relocateProperties f g ps) =
      relocateProperties (f' ∘ f) (g' ∘ g) ps := by
  match ps with
  | [] => rfl
  | .field s k e :: ps | .shorthand s k e :: ps =>
    simp only [relocateProperties, e.relocate_relocate, relocateProperties_relocateProperties ps,
      Span.relocate_relocate]
  | .computed s k e :: ps =>
    simp only [relocateProperties, k.relocate_relocate, e.relocate_relocate,
      relocateProperties_relocateProperties ps, Span.relocate_relocate]

theorem relocateStatements_relocateStatements (ss : List (Statement ν)) :
    relocateStatements f' g' (relocateStatements f g ss) =
      relocateStatements (f' ∘ f) (g' ∘ g) ss := by
  match ss with
  | [] => rfl
  | .declaration s x none :: ss | .result s none :: ss =>
    simp only [relocateStatements, relocateStatements_relocateStatements ss,
      Span.relocate_relocate]
  | .declaration s x (some e) :: ss | .result s (some e) :: ss | .expression s e :: ss =>
    simp only [relocateStatements, e.relocate_relocate, relocateStatements_relocateStatements ss,
      Span.relocate_relocate]

end

/-! ### Nodes -/

mutual

/-- The nodes of a tree that was moved are those of the tree, moved. -/
theorem Expr.nodes_relocate (e : Expr ν) :
    (e.relocate f g).nodes = e.nodes.map (Expr.relocate f g) := by
  match e with
  | .name m x | .literal m c => rfl
  | .paren m e | .property m e x | .unary m op e | .lambda m ps e =>
    simp only [Expr.relocate, Expr.nodes, e.nodes_relocate, List.map_append, List.map_cons, List.map_nil]
  | .element m a b | .binary m op a b =>
    simp only [Expr.relocate, Expr.nodes, a.nodes_relocate, b.nodes_relocate, List.map_append,
      List.map_cons, List.map_nil]
  | .conditional m c y n =>
    simp only [Expr.relocate, Expr.nodes, c.nodes_relocate, y.nodes_relocate, n.nodes_relocate,
      List.map_append, List.map_cons, List.map_nil]
  | .call m e es =>
    simp only [Expr.relocate, Expr.nodes, e.nodes_relocate, nodesAll_relocateAll es, List.map_append,
      List.map_cons, List.map_nil]
  | .function m style ps ss =>
    simp only [Expr.relocate, Expr.nodes, nodesStatements_relocateStatements ss, List.map_append,
      List.map_cons, List.map_nil]
  | .object m ps =>
    simp only [Expr.relocate, Expr.nodes, nodesProperties_relocateProperties ps, List.map_append,
      List.map_cons, List.map_nil]

theorem nodesAll_relocateAll (es : List (Expr ν)) :
    nodesAll (relocateAll f g es) = (nodesAll es).map (Expr.relocate f g) := by
  match es with
  | [] => rfl
  | e :: es =>
    simp only [relocateAll, nodesAll, e.nodes_relocate, nodesAll_relocateAll es, List.map_append]

theorem nodesProperties_relocateProperties (ps : List (Property ν)) :
    nodesProperties (relocateProperties f g ps) = (nodesProperties ps).map (Expr.relocate f g) := by
  match ps with
  | [] => rfl
  | .field s k e :: ps | .shorthand s k e :: ps =>
    simp only [relocateProperties, nodesProperties, e.nodes_relocate,
      nodesProperties_relocateProperties ps, List.map_append]
  | .computed s k e :: ps =>
    simp only [relocateProperties, nodesProperties, k.nodes_relocate, e.nodes_relocate,
      nodesProperties_relocateProperties ps, List.map_append]

theorem nodesStatements_relocateStatements (ss : List (Statement ν)) :
    nodesStatements (relocateStatements f g ss) = (nodesStatements ss).map (Expr.relocate f g) := by
  match ss with
  | [] => rfl
  | .declaration s x none :: ss | .result s none :: ss =>
    simp only [relocateStatements, nodesStatements, nodesStatements_relocateStatements ss]
  | .declaration s x (some e) :: ss | .result s (some e) :: ss | .expression s e :: ss =>
    simp only [relocateStatements, nodesStatements, e.nodes_relocate,
      nodesStatements_relocateStatements ss, List.map_append]

end

end

/-! ### Labels -/

/-- The expression without its labels. -/
def Expr.unlabelled (e : Expr ν) : Expr Unit :=
  e.relocate (fun _ => ()) id

/-- What a numbering computation gives, without its labels, is what was to be numbered. -/
def Relabels {α β : Type} (unlabel : β → α) (a : α) (x : StateM Nat β) : Prop :=
  ∀ n, unlabel (x.run n).1 = a

namespace Relabels

variable {α β γ δ : Type} {unlabel : β → α} {unlabel' : δ → γ} {a : α} {c : γ}

theorem pure {b : β} (h : unlabel b = a) : Relabels unlabel a (pure b) :=
  fun _ => h

theorem bind {x : StateM Nat β} {f : β → StateM Nat δ} (hx : Relabels unlabel a x)
    (hf : ∀ b, unlabel b = a → Relabels unlabel' c (f b)) : Relabels unlabel' c (x >>= f) :=
  fun n => hf _ (hx n) _

end Relabels

theorem Mark.relabels (m : Mark Unit) : Relabels (Mark.relocate (fun _ => ()) id) m m.number :=
  fun _ => rfl

mutual

/-- Numbering a tree only adds labels. -/
theorem Expr.relabels (e : Expr Unit) : Relabels Expr.unlabelled e e.number := by
  match e with
  | .name m x => exact m.relabels.bind fun b hb => .pure (by rw [Expr.unlabelled, Expr.relocate, hb])
  | .literal m c => exact m.relabels.bind fun b hb => .pure (by rw [Expr.unlabelled, Expr.relocate, hb])
  | .paren m e =>
    refine e.relabels.bind fun a ha => m.relabels.bind fun b hb => .pure ?_
    rw [Expr.unlabelled, Expr.relocate, hb, ← ha, Expr.unlabelled]
  | .property m o x =>
    refine o.relabels.bind fun a ha => m.relabels.bind fun b hb => .pure ?_
    rw [Expr.unlabelled, Expr.relocate, hb, ← ha, Expr.unlabelled]
  | .element m o i =>
    refine o.relabels.bind fun a ha => i.relabels.bind fun c hc => m.relabels.bind fun b hb => .pure ?_
    rw [Expr.unlabelled, Expr.relocate, hb, ← ha, ← hc, Expr.unlabelled, Expr.unlabelled]
  | .binary m op l r =>
    refine l.relabels.bind fun a ha => r.relabels.bind fun c hc => m.relabels.bind fun b hb => .pure ?_
    rw [Expr.unlabelled, Expr.relocate, hb, ← ha, ← hc, Expr.unlabelled, Expr.unlabelled]
  | .unary m op e =>
    refine e.relabels.bind fun a ha => m.relabels.bind fun b hb => .pure ?_
    rw [Expr.unlabelled, Expr.relocate, hb, ← ha, Expr.unlabelled]
  | .conditional m c y n =>
    refine c.relabels.bind fun a ha => y.relabels.bind fun c hc => n.relabels.bind fun d hd =>
      m.relabels.bind fun b hb => .pure ?_
    rw [Expr.unlabelled, Expr.relocate, hb, ← ha, ← hc, ← hd, Expr.unlabelled, Expr.unlabelled,
      Expr.unlabelled]
  | .call m e es =>
    refine e.relabels.bind fun a ha => (relabels_numberAll es).bind fun c hc =>
      m.relabels.bind fun b hb => .pure ?_
    rw [Expr.unlabelled, Expr.relocate, hb, ← ha, hc, Expr.unlabelled]
  | .lambda m ps e =>
    refine e.relabels.bind fun a ha => m.relabels.bind fun b hb => .pure ?_
    rw [Expr.unlabelled, Expr.relocate, hb, ← ha, Expr.unlabelled]
    exact congrArg (Expr.lambda m · _) (List.map_id ps)
  | .function m style ps ss =>
    refine (relabels_numberStatements ss).bind fun a ha => m.relabels.bind fun b hb => .pure ?_
    rw [Expr.unlabelled, Expr.relocate, hb, ha]
    exact congrArg (Expr.function m style · ss) (List.map_id ps)
  | .object m ps =>
    refine (relabels_numberProperties ps).bind fun a ha => m.relabels.bind fun b hb => .pure ?_
    rw [Expr.unlabelled, Expr.relocate, hb, ha]

theorem relabels_numberAll (es : List (Expr Unit)) :
    Relabels (relocateAll (fun _ => ()) id) es (numberAll es) := by
  match es with
  | [] => exact .pure rfl
  | e :: es =>
    refine e.relabels.bind fun a ha => (relabels_numberAll es).bind fun b hb => .pure ?_
    rw [relocateAll, hb, ← ha, Expr.unlabelled]

theorem relabels_numberProperties (ps : List (Property Unit)) :
    Relabels (relocateProperties (fun _ => ()) id) ps (numberProperties ps) := by
  match ps with
  | [] => exact .pure rfl
  | .field s k e :: ps | .shorthand s k e :: ps =>
    refine e.relabels.bind fun a ha => (relabels_numberProperties ps).bind fun b hb => .pure ?_
    rw [relocateProperties, hb, ← ha, Expr.unlabelled]
    rfl
  | .computed s k e :: ps =>
    refine k.relabels.bind fun c hc => e.relabels.bind fun a ha =>
      (relabels_numberProperties ps).bind fun b hb => .pure ?_
    rw [relocateProperties, hb, ← ha, ← hc, Expr.unlabelled, Expr.unlabelled]
    rfl

theorem relabels_numberStatements (ss : List (Statement Unit)) :
    Relabels (relocateStatements (fun _ => ()) id) ss (numberStatements ss) := by
  match ss with
  | [] => exact .pure rfl
  | .declaration s x none :: ss | .result s none :: ss =>
    refine (relabels_numberStatements ss).bind fun b hb => .pure ?_
    rw [relocateStatements, hb]
    rfl
  | .declaration s x (some e) :: ss | .result s (some e) :: ss | .expression s e :: ss =>
    refine e.relabels.bind fun a ha => (relabels_numberStatements ss).bind fun b hb => .pure ?_
    rw [relocateStatements, hb, ← ha, Expr.unlabelled]
    rfl

end

/-- A tree that is moved once it is numbered, without its labels, is the tree moved. -/
theorem Expr.relocate_number (e : Expr Unit) (n : Nat) (g : Nat → Nat) :
    (e.number.run n).1.relocate (fun _ => ()) g = e.relocate id g := by
  have hmoved := relocate_relocate (fun _ => ()) id id g (e.number.run n).1
  rw [← unlabelled, e.relabels n] at hmoved
  exact hmoved.symm

/-- The nodes of an expression, once numbered, are its nodes with labels. -/
theorem Expr.unlabelled_mem_nodes {e : Expr Unit} {n : Nat} {x : Expr Nat}
    (h : x ∈ (e.number.run n).1.nodes) : x.unlabelled ∈ e.nodes := by
  have hmap := (e.number.run n).1.nodes_relocate (fun _ => ()) id
  rw [← unlabelled, e.relabels n] at hmap
  rw [hmap]
  exact List.mem_map_of_mem h

/-- The nodes of statements, once numbered, are their nodes with labels. -/
theorem unlabelled_mem_nodesStatements {ss : List (Statement Unit)} {n : Nat} {x : Expr Nat}
    (h : x ∈ nodesStatements ((numberStatements ss).run n).1) :
    x.unlabelled ∈ nodesStatements ss := by
  have hmap := nodesStatements_relocateStatements (fun _ => ()) id ((numberStatements ss).run n).1
  rw [relabels_numberStatements ss n] at hmap
  rw [hmap]
  exact List.mem_map_of_mem h

end Aggregation
