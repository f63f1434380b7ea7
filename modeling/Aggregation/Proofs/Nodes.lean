import Aggregation.Script.Parse
import Aggregation.Script.Size

/-! The nodes of a tree and their numbers.

`Expr.nodes` lists the nodes of an expression in the order in which they are numbered: those of the
parts from left to right, and the node itself behind them. Numbering from `n` on gives them the numbers
`n`, `n + 1` and so on along this list (`Expr.labels_number`), so no two nodes of a tree that was read
from a text share a number, in the whole tree or in any part of it (`Parsed.labels_nodup`). -/
namespace Aggregation

variable {ν : Type}

/-- The expression of a statement. -/
def Statement.value? : Statement ν → Option (Expr ν)
  | .declaration _ _ init => init
  | .result _ value => value
  | .expression _ value => some value

/-- The expression for the key of an entry. -/
def Property.key? : Property ν → Option (Expr ν)
  | .computed _ key _ => some key
  | _ => none

def Property.value : Property ν → Expr ν
  | .field _ _ e => e
  | .shorthand _ _ e => e
  | .computed _ _ e => e

mutual

/-- The nodes of an expression, each behind the nodes inside it. -/
def Expr.nodes : Expr ν → List (Expr ν)
  | .name m x => [.name m x]
  | .literal m c => [.literal m c]
  | .paren m e => e.nodes ++ [.paren m e]
  | .property m object name => object.nodes ++ [.property m object name]
  | .element m object index => object.nodes ++ index.nodes ++ [.element m object index]
  | .binary m op left right => left.nodes ++ right.nodes ++ [.binary m op left right]
  | .unary m op operand => operand.nodes ++ [.unary m op operand]
  | .conditional m condition yes no =>
    condition.nodes ++ yes.nodes ++ no.nodes ++ [.conditional m condition yes no]
  | .call m callee args => callee.nodes ++ nodesAll args ++ [.call m callee args]
  | .lambda m params body => body.nodes ++ [.lambda m params body]
  | .function m style params body => nodesStatements body ++ [.function m style params body]
  | .object m properties => nodesProperties properties ++ [.object m properties]

def nodesAll : List (Expr ν) → List (Expr ν)
  | [] => []
  | e :: es => e.nodes ++ nodesAll es

def nodesProperties : List (Property ν) → List (Expr ν)
  | [] => []
  | .field _ _ value :: ps => value.nodes ++ nodesProperties ps
  | .shorthand _ _ value :: ps => value.nodes ++ nodesProperties ps
  | .computed _ key value :: ps => key.nodes ++ value.nodes ++ nodesProperties ps

def nodesStatements : List (Statement ν) → List (Expr ν)
  | [] => []
  | .declaration _ _ none :: ss => nodesStatements ss
  | .declaration _ _ (some e) :: ss => e.nodes ++ nodesStatements ss
  | .result _ none :: ss => nodesStatements ss
  | .result _ (some e) :: ss => e.nodes ++ nodesStatements ss
  | .expression _ e :: ss => e.nodes ++ nodesStatements ss

end

def labelsOf (es : List (Expr ν)) : List ν :=
  es.map (·.mark.label)

@[simp] theorem labelsOf_append (es fs : List (Expr ν)) :
    labelsOf (es ++ fs) = labelsOf es ++ labelsOf fs :=
  List.map_append

@[simp] theorem labelsOf_singleton (e : Expr ν) : labelsOf [e] = [e.mark.label] := rfl

def Expr.labels (e : Expr ν) : List ν :=
  labelsOf e.nodes

theorem Expr.mem_nodes_self (e : Expr ν) : e ∈ e.nodes := by
  cases e <;> simp [nodes]

/-! ### Numbers -/

/-- Nodes numbered from `n` up to `n'`, in order. -/
def Numbered (n n' : Nat) (es : List (Expr Nat)) (count : Nat) : Prop :=
  labelsOf es = List.range' n count ∧ n' = n + count

namespace Numbered

variable {n n' n'' k j : Nat} {es fs : List (Expr Nat)}

theorem append (he : Numbered n n' es k) (hf : Numbered n' n'' fs j) :
    Numbered n n'' (es ++ fs) (k + j) := by
  obtain ⟨he, rfl⟩ := he
  obtain ⟨hf, rfl⟩ := hf
  refine ⟨?_, Nat.add_assoc ..⟩
  rw [labelsOf_append, he, hf, List.range'_append_1]

/-- A node numbered behind the nodes inside it. -/
theorem push {e : Expr Nat} (he : Numbered n n' es k) (hm : e.mark.label = n') :
    Numbered n (n' + 1) (es ++ [e]) (k + 1) := by
  refine he.append ⟨?_, rfl⟩
  rw [labelsOf_singleton, hm]
  rfl

theorem nil : Numbered n n [] 0 := ⟨rfl, rfl⟩

end Numbered

mutual

/-- Numbering an expression from `n` on numbers its nodes in order. -/
theorem Expr.labels_number (e : Expr Unit) (n : Nat) :
    Numbered n (e.number.run n).2 (e.number.run n).1.nodes e.size := by
  match e with
  | .name m x => exact Numbered.nil.push rfl
  | .literal m c => exact Numbered.nil.push rfl
  | .paren m e => exact (e.labels_number n).push rfl
  | .property m object name => exact (object.labels_number n).push rfl
  | .element m object index =>
    exact ((object.labels_number n).append (index.labels_number _)).push rfl
  | .binary m op left right =>
    exact ((left.labels_number n).append (right.labels_number _)).push rfl
  | .unary m op operand => exact (operand.labels_number n).push rfl
  | .conditional m condition yes no =>
    exact (((condition.labels_number n).append (yes.labels_number _)).append
      (no.labels_number _)).push rfl
  | .call m callee args => exact ((callee.labels_number n).append (labels_numberAll args _)).push rfl
  | .lambda m params body => exact (body.labels_number n).push rfl
  | .function m style params body => exact (labels_numberStatements body n).push rfl
  | .object m properties => exact (labels_numberProperties properties n).push rfl

theorem labels_numberAll (es : List (Expr Unit)) (n : Nat) :
    Numbered n ((numberAll es).run n).2 (nodesAll ((numberAll es).run n).1) (sizeAll es) := by
  match es with
  | [] => exact .nil
  | e :: es => exact (e.labels_number n).append (labels_numberAll es _)

theorem labels_numberProperties (ps : List (Property Unit)) (n : Nat) :
    Numbered n ((numberProperties ps).run n).2 (nodesProperties ((numberProperties ps).run n).1)
      (sizeProperties ps) := by
  match ps with
  | [] => exact .nil
  | .field _ _ value :: ps => exact (value.labels_number n).append (labels_numberProperties ps _)
  | .shorthand _ _ value :: ps =>
    exact (value.labels_number n).append (labels_numberProperties ps _)
  | .computed _ key value :: ps =>
    exact ((key.labels_number n).append (value.labels_number _)).append
      (labels_numberProperties ps _)

theorem labels_numberStatements (ss : List (Statement Unit)) (n : Nat) :
    Numbered n ((numberStatements ss).run n).2 (nodesStatements ((numberStatements ss).run n).1)
      (sizeStatements ss) := by
  match ss with
  | [] => exact .nil
  | .declaration _ _ none :: ss => exact labels_numberStatements ss n
  | .declaration _ _ (some e) :: ss =>
    exact (e.labels_number n).append (labels_numberStatements ss _)
  | .result _ none :: ss => exact labels_numberStatements ss n
  | .result _ (some e) :: ss => exact (e.labels_number n).append (labels_numberStatements ss _)
  | .expression _ e :: ss => exact (e.labels_number n).append (labels_numberStatements ss _)

end

/-! ### Parts of a tree -/

/-- Nodes together with all nodes inside them. -/
def Closed (es : List (Expr ν)) : Prop :=
  ∀ x ∈ es, x.nodes.Sublist es

namespace Closed

variable {es fs : List (Expr ν)}

theorem nil : Closed ([] : List (Expr ν)) := by
  intro x hx
  cases hx

theorem append (he : Closed es) (hf : Closed fs) : Closed (es ++ fs) := by
  intro x hx
  rcases List.mem_append.1 hx with hx | hx
  · exact (he x hx).trans (List.sublist_append_left es fs)
  · exact (hf x hx).trans (List.sublist_append_right es fs)

/-- A node behind all nodes inside it. -/
theorem push {e : Expr ν} (he : Closed es) (h : e.nodes = es ++ [e]) : Closed e.nodes := by
  intro x hx
  rw [h] at hx ⊢
  rcases List.mem_append.1 hx with hx | hx
  · exact (he x hx).trans (List.sublist_append_left es [e])
  · have hself : x.nodes = es ++ [e] := by rw [List.mem_singleton.1 hx, h]
    exact hself ▸ List.Sublist.refl _

end Closed

mutual

/-- The nodes of an expression include all nodes inside them. -/
theorem Expr.closed_nodes (e : Expr ν) : Closed e.nodes := by
  match e with
  | .name m x => exact Closed.nil.push rfl
  | .literal m c => exact Closed.nil.push rfl
  | .paren m e => exact e.closed_nodes.push rfl
  | .property m object name => exact object.closed_nodes.push rfl
  | .element m object index => exact (object.closed_nodes.append index.closed_nodes).push rfl
  | .binary m op left right => exact (left.closed_nodes.append right.closed_nodes).push rfl
  | .unary m op operand => exact operand.closed_nodes.push rfl
  | .conditional m condition yes no =>
    exact ((condition.closed_nodes.append yes.closed_nodes).append no.closed_nodes).push rfl
  | .call m callee args => exact (callee.closed_nodes.append (closed_nodesAll args)).push rfl
  | .lambda m params body => exact body.closed_nodes.push rfl
  | .function m style params body => exact (closed_nodesStatements body).push rfl
  | .object m properties => exact (closed_nodesProperties properties).push rfl

theorem closed_nodesAll (es : List (Expr ν)) : Closed (nodesAll es) := by
  match es with
  | [] => exact .nil
  | e :: es => exact e.closed_nodes.append (closed_nodesAll es)

theorem closed_nodesProperties (ps : List (Property ν)) : Closed (nodesProperties ps) := by
  match ps with
  | [] => exact .nil
  | .field _ _ value :: ps => exact value.closed_nodes.append (closed_nodesProperties ps)
  | .shorthand _ _ value :: ps => exact value.closed_nodes.append (closed_nodesProperties ps)
  | .computed _ key value :: ps =>
    exact (key.closed_nodes.append value.closed_nodes).append (closed_nodesProperties ps)

theorem closed_nodesStatements (ss : List (Statement ν)) : Closed (nodesStatements ss) := by
  match ss with
  | [] => exact .nil
  | .declaration _ _ none :: ss => exact closed_nodesStatements ss
  | .declaration _ _ (some e) :: ss => exact e.closed_nodes.append (closed_nodesStatements ss)
  | .result _ none :: ss => exact closed_nodesStatements ss
  | .result _ (some e) :: ss => exact e.closed_nodes.append (closed_nodesStatements ss)
  | .expression _ e :: ss => exact e.closed_nodes.append (closed_nodesStatements ss)

end

/-- What stands in parentheses is a node of the whole. -/
theorem Expr.bare_mem_nodes (e : Expr ν) : e.bare ∈ e.nodes := by
  match e with
  | .paren _ e => exact List.mem_append_left _ e.bare_mem_nodes
  | .name _ _ | .literal _ _ | .property _ _ _ | .element _ _ _ | .binary _ _ _ _ | .unary _ _ _
  | .conditional _ _ _ _ | .call _ _ _ | .lambda _ _ _ | .function _ _ _ _ | .object _ _ =>
    exact mem_nodes_self _

/-- What a method is called on is a node of what is called. -/
theorem Expr.object_mem_nodes {callee object : Expr ν} {p : Mark ν} {name : String}
    (h : callee.bare = .property p object name) : object ∈ callee.nodes := by
  have hsub := callee.closed_nodes _ callee.bare_mem_nodes
  rw [h] at hsub
  exact hsub.subset (List.mem_append_left _ object.mem_nodes_self)

theorem mem_nodesAll {e : Expr ν} {es : List (Expr ν)} (h : e ∈ es) : e ∈ nodesAll es := by
  induction es with
  | nil => cases h
  | cons x xs ih =>
    rcases List.mem_cons.1 h with rfl | h
    · exact List.mem_append_left _ (Expr.mem_nodes_self _)
    · exact List.mem_append_right _ (ih h)

theorem mem_nodes_of_singleResult? {ss : List (Statement ν)} {body : Expr ν}
    (h : Statement.singleResult? ss = some body) : body ∈ nodesStatements ss := by
  unfold Statement.singleResult? at h
  split at h
  · subst h
    exact List.mem_append_left _ body.mem_nodes_self
  · cases h

/-- What a function returns is a node of it. -/
theorem Expr.result_mem_nodes {e body : Expr ν} {fn : Callable ν}
    (hf : e.bare.callable? = some fn) (hb : fn.result? = some body) : body ∈ e.nodes := by
  match e with
  | .paren _ e => exact List.mem_append_left _ (result_mem_nodes hf hb)
  | .lambda _ _ x =>
    obtain rfl := Option.some.inj hf
    obtain rfl := Option.some.inj hb
    exact List.mem_append_left _ x.mem_nodes_self
  | .function _ _ _ ss =>
    obtain rfl := Option.some.inj hf
    exact List.mem_append_left _ (mem_nodes_of_singleResult? hb)
  | .name _ _ | .literal _ _ | .property _ _ _ | .element _ _ _ | .binary _ _ _ _ | .unary _ _ _
  | .conditional _ _ _ _ | .call _ _ _ | .object _ _ => cases hf

/-! ### Trees from texts -/

/-- An expression that was read from a text: by itself, or as a node of a program. -/
inductive Parsed : Expr Nat → Prop
  | expression {source e} : parseExpression source = .ok e → Parsed e
  | program {source ss e} : parseProgram source = .ok ss → e ∈ nodesStatements ss → Parsed e

/-- A result is what the function before it gives for some value. -/
theorem exists_of_map_eq_ok {ε α β : Type} {x : Except ε α} {f : α → β} {b : β}
    (h : x.map f = .ok b) : ∃ a, x = .ok a ∧ f a = b := by
  cases x with
  | error e => cases h
  | ok a => exact ⟨a, rfl, Except.ok.inj h⟩

theorem eq_error_of_map_eq_error {ε α β : Type} {x : Except ε α} {f : α → β} {e : ε}
    (h : x.map f = .error e) : x = .error e := by
  cases x with
  | error e' => exact congrArg Except.error (Except.error.inj h)
  | ok a => cases h

theorem labels_numberStatements_nodup (ss : List (Statement Unit)) (n : Nat) :
    (labelsOf (nodesStatements ((numberStatements ss).run n).1)).Nodup := by
  rw [(labels_numberStatements ss n).1]
  exact List.nodup_range'

theorem labels_parseProgram_nodup {s : String} {ss : List (Statement Nat)}
    (h : parseProgram s = .ok ss) : (labelsOf (nodesStatements ss)).Nodup := by
  obtain ⟨ps, -, rfl⟩ := exists_of_map_eq_ok h
  exact labels_numberStatements_nodup ps 0

/-- No two nodes of an expression that was read from a text have the same number. -/
theorem Parsed.labels_nodup {e : Expr Nat} (h : Parsed e) : e.labels.Nodup := by
  cases h with
  | expression he =>
    obtain ⟨t, _, rfl⟩ := exists_of_map_eq_ok he
    have hlabels := (t.labels_number 0).1
    rw [Expr.labels, hlabels]
    exact List.nodup_range'
  | @program source ss e hss he =>
    have hsub := (closed_nodesStatements _ e he).map (·.mark.label)
    exact hsub.nodup (labels_parseProgram_nodup hss)

end Aggregation
