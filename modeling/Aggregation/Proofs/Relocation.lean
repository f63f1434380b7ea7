import Aggregation.Program.Entry
import Aggregation.Proofs.Simulation

/-! Trees that stand elsewhere.

`Expr.relocate f g` moves a tree: the labels of its nodes go through `f`, and the places of its spans
through `g`. Numbering does not depend on where a tree stands, and starts to count where it is told to
(`Expr.number_relocate`). A tree and the tree that it is moved to compile alike, whatever `f` and `g`
are (`Moved.likeness`), so the builder calls of a program that was moved compile as those of the
program itself (`BuilderCall.agree_compile`). -/
namespace Aggregation

variable {ν μ : Type}

def Span.relocate (g : Nat → Nat) (s : Span) : Span :=
  ⟨g s.start, g s.stop⟩

def Mark.relocate (f : ν → μ) (g : Nat → Nat) (m : Mark ν) : Mark μ :=
  ⟨f m.label, m.span.relocate g⟩

def Param.relocate (g : Nat → Nat) (p : Param) : Param :=
  { p with span := p.span.relocate g }

mutual

/-- The expression with its labels renamed and its spans moved. -/
def Expr.relocate (f : ν → μ) (g : Nat → Nat) : Expr ν → Expr μ
  | .name m x => .name (m.relocate f g) x
  | .literal m c => .literal (m.relocate f g) c
  | .paren m e => .paren (m.relocate f g) (e.relocate f g)
  | .property m o x => .property (m.relocate f g) (o.relocate f g) x
  | .element m o i => .element (m.relocate f g) (o.relocate f g) (i.relocate f g)
  | .binary m op l r => .binary (m.relocate f g) op (l.relocate f g) (r.relocate f g)
  | .unary m op e => .unary (m.relocate f g) op (e.relocate f g)
  | .conditional m c y n =>
    .conditional (m.relocate f g) (c.relocate f g) (y.relocate f g) (n.relocate f g)
  | .call m e es => .call (m.relocate f g) (e.relocate f g) (relocateAll f g es)
  | .lambda m ps e => .lambda (m.relocate f g) (ps.map (Param.relocate g)) (e.relocate f g)
  | .function m style ps ss =>
    .function (m.relocate f g) style (ps.map (Param.relocate g)) (relocateStatements f g ss)
  | .object m ps => .object (m.relocate f g) (relocateProperties f g ps)

def relocateAll (f : ν → μ) (g : Nat → Nat) : List (Expr ν) → List (Expr μ)
  | [] => []
  | e :: es => e.relocate f g :: relocateAll f g es

def relocateProperties (f : ν → μ) (g : Nat → Nat) : List (Property ν) → List (Property μ)
  | [] => []
  | .field s k e :: ps => .field (s.relocate g) k (e.relocate f g) :: relocateProperties f g ps
  | .shorthand s k e :: ps =>
    .shorthand (s.relocate g) k (e.relocate f g) :: relocateProperties f g ps
  | .computed s k e :: ps =>
    .computed (s.relocate g) (k.relocate f g) (e.relocate f g) :: relocateProperties f g ps

def relocateStatements (f : ν → μ) (g : Nat → Nat) : List (Statement ν) → List (Statement μ)
  | [] => []
  | .declaration s x none :: ss =>
    .declaration (s.relocate g) x none :: relocateStatements f g ss
  | .declaration s x (some e) :: ss =>
    .declaration (s.relocate g) x (some (e.relocate f g)) :: relocateStatements f g ss
  | .result s none :: ss => .result (s.relocate g) none :: relocateStatements f g ss
  | .result s (some e) :: ss =>
    .result (s.relocate g) (some (e.relocate f g)) :: relocateStatements f g ss
  | .expression s e :: ss => .expression (s.relocate g) (e.relocate f g) :: relocateStatements f g ss

end

def Property.relocate (f : ν → μ) (g : Nat → Nat) : Property ν → Property μ
  | .field s k e => .field (s.relocate g) k (e.relocate f g)
  | .shorthand s k e => .shorthand (s.relocate g) k (e.relocate f g)
  | .computed s k e => .computed (s.relocate g) (k.relocate f g) (e.relocate f g)

def Statement.relocate (f : ν → μ) (g : Nat → Nat) : Statement ν → Statement μ
  | .declaration s x e => .declaration (s.relocate g) x (e.map (Expr.relocate f g))
  | .result s e => .result (s.relocate g) (e.map (Expr.relocate f g))
  | .expression s e => .expression (s.relocate g) (e.relocate f g)

section

variable (f : ν → μ) (g : Nat → Nat)

theorem relocateAll_eq_map (es : List (Expr ν)) :
    relocateAll f g es = es.map (Expr.relocate f g) := by
  induction es with
  | nil => rfl
  | cons e es ih => rw [relocateAll, ih, List.map_cons]

theorem relocateProperties_eq_map (ps : List (Property ν)) :
    relocateProperties f g ps = ps.map (Property.relocate f g) := by
  induction ps with
  | nil => rfl
  | cons p ps ih => cases p <;> rw [relocateProperties, ih, List.map_cons, Property.relocate]

theorem relocateStatements_eq_map (ss : List (Statement ν)) :
    relocateStatements f g ss = ss.map (Statement.relocate f g) := by
  induction ss with
  | nil => rfl
  | cons s ss ih =>
    match s with
    | .declaration _ _ none | .declaration _ _ (some _) | .result _ none | .result _ (some _)
    | .expression _ _ => rw [relocateStatements, ih, List.map_cons]; rfl

end

/-! ### Numbers -/

/-- The second computation numbers what the first does, moved and from `k` numbers later on. -/
def Shifted {α β : Type} (move : α → β) (k : Nat) (x : StateM Nat α) (y : StateM Nat β) : Prop :=
  ∀ n, y.run (n + k) = (move (x.run n).1, (x.run n).2 + k)

namespace Shifted

variable {α β γ δ : Type} {move : α → β} {move' : γ → δ} {k : Nat}

theorem pure {a : α} {b : β} (h : b = move a) : Shifted move k (pure a) (pure b) := by
  subst h
  exact fun _ => rfl

theorem bind {x : StateM Nat α} {y : StateM Nat β} {f : α → StateM Nat γ} {f' : β → StateM Nat δ}
    (h : Shifted move k x y) (hf : ∀ a, Shifted move' k (f a) (f' (move a))) :
    Shifted move' k (x >>= f) (y >>= f') := by
  intro n
  show (f' (y.run (n + k)).1).run (y.run (n + k)).2 = _
  rw [h n]
  exact hf _ _

end Shifted

theorem Mark.number_relocate (m : Mark Unit) (g : Nat → Nat) (k : Nat) :
    Shifted (Mark.relocate (· + k) g) k m.number (m.relocate id g).number := by
  intro n
  show (Mark.mk (n + k) _, n + k + 1) = (Mark.mk (n + k) _, n + 1 + k)
  rw [Nat.add_right_comm]
  rfl

mutual

/-- A tree that was moved is numbered like the tree. -/
theorem Expr.number_relocate (e : Expr Unit) (g : Nat → Nat) (k : Nat) :
    Shifted (Expr.relocate (· + k) g) k e.number (e.relocate id g).number := by
  match e with
  | .name m x => exact (m.number_relocate g k).bind fun _ => .pure rfl
  | .literal m c => exact (m.number_relocate g k).bind fun _ => .pure rfl
  | .paren m e =>
    exact (e.number_relocate g k).bind fun _ => (m.number_relocate g k).bind fun _ => .pure rfl
  | .property m o x =>
    exact (o.number_relocate g k).bind fun _ => (m.number_relocate g k).bind fun _ => .pure rfl
  | .element m o i =>
    exact (o.number_relocate g k).bind fun _ => (i.number_relocate g k).bind fun _ =>
      (m.number_relocate g k).bind fun _ => .pure rfl
  | .binary m op l r =>
    exact (l.number_relocate g k).bind fun _ => (r.number_relocate g k).bind fun _ =>
      (m.number_relocate g k).bind fun _ => .pure rfl
  | .unary m op e =>
    exact (e.number_relocate g k).bind fun _ => (m.number_relocate g k).bind fun _ => .pure rfl
  | .conditional m c y n =>
    exact (c.number_relocate g k).bind fun _ => (y.number_relocate g k).bind fun _ =>
      (n.number_relocate g k).bind fun _ => (m.number_relocate g k).bind fun _ => .pure rfl
  | .call m e es =>
    exact (e.number_relocate g k).bind fun _ => (numberAll_relocate es g k).bind fun _ =>
      (m.number_relocate g k).bind fun _ => .pure rfl
  | .lambda m ps e =>
    exact (e.number_relocate g k).bind fun _ => (m.number_relocate g k).bind fun _ => .pure rfl
  | .function m style ps ss =>
    exact (numberStatements_relocate ss g k).bind fun _ =>
      (m.number_relocate g k).bind fun _ => .pure rfl
  | .object m ps =>
    exact (numberProperties_relocate ps g k).bind fun _ =>
      (m.number_relocate g k).bind fun _ => .pure rfl

theorem numberAll_relocate (es : List (Expr Unit)) (g : Nat → Nat) (k : Nat) :
    Shifted (relocateAll (· + k) g) k (numberAll es) (numberAll (relocateAll id g es)) := by
  match es with
  | [] => exact .pure rfl
  | e :: es =>
    exact (e.number_relocate g k).bind fun _ => (numberAll_relocate es g k).bind fun _ => .pure rfl

theorem numberProperties_relocate (ps : List (Property Unit)) (g : Nat → Nat) (k : Nat) :
    Shifted (relocateProperties (· + k) g) k (numberProperties ps)
      (numberProperties (relocateProperties id g ps)) := by
  match ps with
  | [] => exact .pure rfl
  | .field _ _ e :: ps =>
    exact (e.number_relocate g k).bind fun _ =>
      (numberProperties_relocate ps g k).bind fun _ => .pure rfl
  | .shorthand _ _ e :: ps =>
    exact (e.number_relocate g k).bind fun _ =>
      (numberProperties_relocate ps g k).bind fun _ => .pure rfl
  | .computed _ x e :: ps =>
    exact (x.number_relocate g k).bind fun _ => (e.number_relocate g k).bind fun _ =>
      (numberProperties_relocate ps g k).bind fun _ => .pure rfl

theorem numberStatements_relocate (ss : List (Statement Unit)) (g : Nat → Nat) (k : Nat) :
    Shifted (relocateStatements (· + k) g) k (numberStatements ss)
      (numberStatements (relocateStatements id g ss)) := by
  match ss with
  | [] => exact .pure rfl
  | .declaration _ _ none :: ss =>
    exact (numberStatements_relocate ss g k).bind fun _ => .pure rfl
  | .declaration _ _ (some e) :: ss =>
    exact (e.number_relocate g k).bind fun _ =>
      (numberStatements_relocate ss g k).bind fun _ => .pure rfl
  | .result _ none :: ss => exact (numberStatements_relocate ss g k).bind fun _ => .pure rfl
  | .result _ (some e) :: ss =>
    exact (e.number_relocate g k).bind fun _ =>
      (numberStatements_relocate ss g k).bind fun _ => .pure rfl
  | .expression _ e :: ss =>
    exact (e.number_relocate g k).bind fun _ =>
      (numberStatements_relocate ss g k).bind fun _ => .pure rfl

end

/-! ### What moving leaves as it is -/

namespace Expr

variable {f : ν → μ} {g : Nat → Nat}

@[simp] theorem mark_relocate (e : Expr ν) : (e.relocate f g).mark = e.mark.relocate f g := by
  cases e <;> rfl

@[simp] theorem span_relocate (e : Expr ν) : (e.relocate f g).span = e.span.relocate g := by
  rw [span, mark_relocate]
  rfl

theorem bare_relocate (e : Expr ν) : (e.relocate f g).bare = e.bare.relocate f g := by
  match e with
  | paren _ e => exact e.bare_relocate
  | name _ _ | literal _ _ | property _ _ _ | element _ _ _ | binary _ _ _ _ | unary _ _ _
  | conditional _ _ _ _ | call _ _ _ | lambda _ _ _ | function _ _ _ _ | object _ _ => rfl

theorem isGroup_relocate (e : Expr ν) : (e.relocate f g).isGroup = e.isGroup := by
  cases e <;> rfl

theorem name?_relocate (e : Expr ν) : (e.relocate f g).name? = e.name? := by
  cases e <;> rfl

theorem kind_relocate (e : Expr ν) : (e.relocate f g).kind = e.kind := by
  cases e with
  | literal m c => cases c with
    | boolean b => cases b <;> rfl
    | _ => rfl
  | function m style ps ss => cases style <;> rfl
  | _ => rfl

theorem stringKey_relocate {f : Nat → Nat} (e : Expr Nat) :
    Env.stringKey (e.relocate f g) = Env.stringKey e := by
  cases e with
  | literal m c => cases c <;> rfl
  | _ => rfl

end Expr

theorem singleResult?_relocate {f : ν → μ} {g : Nat → Nat} (ss : List (Statement ν)) :
    Statement.singleResult? (relocateStatements f g ss) =
      (Statement.singleResult? ss).map (Expr.relocate f g) := by
  rw [relocateStatements_eq_map]
  match ss with
  | [] => rfl
  | [.result _ e] => rfl
  | [.declaration _ _ _] | [.expression _ _] => rfl
  | .result _ _ :: _ :: _ | .declaration _ _ _ :: _ :: _ | .expression _ _ :: _ :: _ => rfl

/-! ### Compiling what was moved -/

/-- The second expression is the first, moved, and the places of the first are fixed by `c`. -/
def Moved (f g c : Nat → Nat) (e e' : Expr Nat) : Prop :=
  e' = e.relocate f g ∧ e.relocate id c = e

namespace Moved

variable {f g c : Nat → Nat}

theorem forall₂ {es : List (Expr Nat)} (h : relocateAll id c es = es) :
    List.Forall₂ (Moved f g c) es (relocateAll f g es) := by
  induction es with
  | nil => exact .nil
  | cons e es ih =>
    obtain ⟨he, hes⟩ := List.cons.inj h
    exact .cons ⟨rfl, he⟩ (ih hes)

theorem forall₂_properties {ps : List (Property Nat)} (h : relocateProperties id c ps = ps) :
    List.Forall₂ (Property.Alike (Moved f g c)) ps (relocateProperties f g ps) := by
  induction ps with
  | nil => exact .nil
  | cons p ps ih =>
    cases p with
    | field s k e =>
      obtain ⟨hp, hps⟩ := List.cons.inj h
      injection hp with _ _ he
      exact .cons (.field ⟨rfl, he⟩) (ih hps)
    | shorthand s k e =>
      obtain ⟨hp, hps⟩ := List.cons.inj h
      injection hp with _ _ he
      exact .cons (.shorthand ⟨rfl, he⟩) (ih hps)
    | computed s k e =>
      obtain ⟨hp, hps⟩ := List.cons.inj h
      injection hp with _ hk he
      exact .cons (.computed ⟨rfl, hk⟩ ⟨rfl, he⟩) (ih hps)

theorem forall₂_params (ps : List Param) :
    List.Forall₂ Param.Alike ps (ps.map (Param.relocate g)) :=
  List.forall₂_map_right_iff.2 (List.forall₂_same.2 fun _ _ => ⟨rfl, rfl⟩)

theorem result {ss : List (Statement Nat)} (h : relocateStatements id c ss = ss) :
    Option.Rel (Moved f g c) (Statement.singleResult? ss)
      (Statement.singleResult? (relocateStatements f g ss)) := by
  rw [singleResult?_relocate]
  have hfix := congrArg Statement.singleResult? h
  rw [singleResult?_relocate] at hfix
  cases hr : Statement.singleResult? ss with
  | none => exact .none
  | some e =>
    rw [hr] at hfix
    exact .some ⟨rfl, Option.some.inj hfix⟩

theorem layer_call {m : Mark Nat} {e : Expr Nat} {es : List (Expr Nat)}
    (he : e.relocate id c = e) (hes : relocateAll id c es = es) :
    Layer (Moved f g c) (.call m e es) ((Expr.call m e es).relocate f g) := by
  by_cases hb : ∃ p o x, e.bare = .property p o x
  · obtain ⟨p, o, x, hb⟩ := hb
    have hb' : (e.relocate f g).bare = .property (p.relocate f g) (o.relocate f g) x := by
      rw [Expr.bare_relocate, hb, Expr.relocate]
    have ho : (Expr.property p o x).relocate id c = .property p o x := by
      rw [← hb, ← Expr.bare_relocate, he]
    injection ho with _ ho
    have hname : o.isArrayName = (o.relocate f g).isArrayName := by
      rw [Expr.isArrayName, Expr.isArrayName, Expr.name?_relocate]
    exact .method hb hb' e.isGroup_relocate.symm hname ⟨rfl, ho⟩ (forall₂ hes)
  · push Not at hb
    refine .call hb ?_ (forall₂ hes)
    intro p o x h
    rw [Expr.bare_relocate] at h
    cases hx : e.bare with
    | property p o x => exact hb p o x hx
    | _ =>
      rw [hx] at h
      simp [Expr.relocate] at h

theorem layer {e : Expr Nat} (hg : e.isGroup = false) (h : e.relocate id c = e) :
    Layer (Moved f g c) e (e.relocate f g) := by
  cases e with
  | paren m e => cases hg
  | name m x => exact .name
  | literal m v => exact .literal
  | property m o x =>
    injection h with _ ho
    exact .property ⟨rfl, ho⟩
  | element m o i =>
    injection h with _ ho hi
    exact .element ⟨rfl, ho⟩ ⟨rfl, hi⟩ (i.stringKey_relocate).symm
  | binary m op l r =>
    injection h with _ _ hl hr
    exact .binary ⟨rfl, hl⟩ ⟨rfl, hr⟩
  | unary m op e =>
    injection h with _ _ he
    exact .unary ⟨rfl, he⟩
  | conditional m x y n =>
    injection h with _ hx hy hn
    exact .conditional ⟨rfl, hx⟩ ⟨rfl, hy⟩ ⟨rfl, hn⟩
  | call m e es =>
    injection h with _ he hes
    exact layer_call he hes
  | lambda m ps e =>
    injection h with _ _ he
    exact .function rfl rfl ⟨forall₂_params ps, .some ⟨rfl, he⟩⟩
  | function m style ps ss =>
    injection h with _ _ _ hss
    exact .function rfl rfl ⟨forall₂_params ps, result hss⟩
  | object m ps =>
    injection h with _ hps
    exact .object (forall₂_properties hps)

/-- An expression and the one that it is moved to are alike. -/
theorem likeness : Likeness (Moved f g c) where
  bare := by
    rintro e _ ⟨rfl, h⟩
    exact ⟨e.bare_relocate, by rw [← Expr.bare_relocate, h]⟩
  layer := by
    rintro e _ ⟨rfl, h⟩
    rw [Expr.bare_relocate]
    exact layer e.isGroup_bare (by rw [← Expr.bare_relocate, h])

end Moved

/-- A typed expression compiles as the one that it is moved to. -/
theorem Moved.agree_compileTyped {f g c : Nat → Nat} {e e' : Expr Nat} (h : Moved f g c e e')
    (hn : e.labels.Nodup) (hn' : e'.labels.Nodup) (kind : BuilderKind) (placeholder : String)
    (context : Option TypeExpr) :
    Agree (Moved f g c) (· = ·) (compileTyped kind placeholder context e)
      (compileTyped kind placeholder context e') := by
  have hagree := Moved.likeness.agree_infer h hn hn' placeholder context
  cases kind with
  | pipeline => exact hagree.2.map fun _ _ => congrArg _
  | operator => exact hagree.1.map fun _ _ => congrArg _

/-! ### Builder calls -/

namespace BuilderCall

variable (config : Config) (f g : Nat → Nat)

def relocate (b : BuilderCall) : BuilderCall :=
  { b with call := b.call.relocate f g, args := relocateAll f g b.args }

theorem of?_relocate (call callee : Expr Nat) (args : List (Expr Nat)) :
    of? config (call.relocate f g) (callee.relocate f g) (relocateAll f g args) =
      (of? config call callee args).map (relocate f g) := by
  unfold of?
  rw [Expr.name?_relocate]
  cases callee.name? with
  | none => rfl
  | some name =>
    show (config.builder? name).bind _ = ((config.builder? name).bind _).map _
    cases config.builder? name with
    | none => rfl
    | some kind => rfl

mutual

/-- What was moved has the same builder calls, moved. -/
theorem within_relocate (e : Expr Nat) :
    within config (e.relocate f g) = (within config e).map (relocate f g) := by
  match e with
  | .name _ _ | .literal _ _ => rfl
  | .paren _ e => exact within_relocate e
  | .property _ o _ => exact within_relocate o
  | .element _ o i =>
    simp only [Expr.relocate, within, List.map_append, within_relocate o, within_relocate i]
  | .binary _ _ l r =>
    simp only [Expr.relocate, within, List.map_append, within_relocate l, within_relocate r]
  | .unary _ _ e => exact within_relocate e
  | .conditional _ c y n =>
    simp only [Expr.relocate, within, List.map_append, within_relocate c, within_relocate y,
      within_relocate n]
  | .call m e es =>
    have hof := of?_relocate config f g (.call m e es) e es
    simp only [Expr.relocate, within] at hof ⊢
    rw [hof]
    cases of? config (.call m e es) e es with
    | some b => rfl
    | none =>
      simp only [Option.map_none, List.map_append, within_relocate e, withinAll_relocate es]
  | .lambda _ _ e => exact within_relocate e
  | .function _ _ _ ss => exact withinStatements_relocate ss
  | .object _ ps => exact withinProperties_relocate ps

theorem withinAll_relocate (es : List (Expr Nat)) :
    withinAll config (relocateAll f g es) = (withinAll config es).map (relocate f g) := by
  match es with
  | [] => rfl
  | e :: es =>
    simp only [relocateAll, withinAll, List.map_append, within_relocate e, withinAll_relocate es]

theorem withinProperties_relocate (ps : List (Property Nat)) :
    withinProperties config (relocateProperties f g ps) =
      (withinProperties config ps).map (relocate f g) := by
  match ps with
  | [] => rfl
  | .field _ _ e :: ps | .shorthand _ _ e :: ps =>
    simp only [relocateProperties, withinProperties, List.map_append, within_relocate e,
      withinProperties_relocate ps]
  | .computed _ k e :: ps =>
    simp only [relocateProperties, withinProperties, List.map_append, within_relocate k,
      within_relocate e, withinProperties_relocate ps]

theorem withinStatements_relocate (ss : List (Statement Nat)) :
    withinStatements config (relocateStatements f g ss) =
      (withinStatements config ss).map (relocate f g) := by
  match ss with
  | [] => rfl
  | .declaration _ _ none :: ss | .result _ none :: ss => exact withinStatements_relocate ss
  | .declaration _ _ (some e) :: ss | .result _ (some e) :: ss | .expression _ e :: ss =>
    simp only [relocateStatements, withinStatements, List.map_append, within_relocate e,
      withinStatements_relocate ss]

end

/-- Builder calls that are among the given nodes. -/
def Among (bs : List BuilderCall) (es : List (Expr Nat)) : Prop :=
  ∀ b ∈ bs, b.call ∈ es ∧ ∃ m callee, b.call = .call m callee b.args

namespace Among

variable {bs cs : List BuilderCall} {es fs : List (Expr Nat)}

theorem nil : Among [] es := by
  intro b hb
  cases hb

theorem append (h : Among bs es) (h' : Among cs fs) : Among (bs ++ cs) (es ++ fs) := by
  intro b hb
  rcases List.mem_append.1 hb with hb | hb
  · exact ⟨List.mem_append_left fs (h b hb).1, (h b hb).2⟩
  · exact ⟨List.mem_append_right es (h' b hb).1, (h' b hb).2⟩

theorem push (h : Among bs es) (e : Expr Nat) : Among bs (es ++ [e]) := by
  intro b hb
  exact ⟨List.mem_append_left _ (h b hb).1, (h b hb).2⟩

end Among

variable {config f g}

theorem among_of? {m : Mark Nat} {callee : Expr Nat} {args : List (Expr Nat)} {b : BuilderCall}
    (h : of? config (.call m callee args) callee args = some b) (es : List (Expr Nat)) :
    Among [b] (es ++ [.call m callee args]) := by
  unfold of? at h
  obtain ⟨name, -, h⟩ := Option.bind_eq_some_iff.1 h
  obtain ⟨kind, -, h⟩ := Option.bind_eq_some_iff.1 h
  obtain rfl := Option.some.inj h
  intro b hb
  obtain rfl := List.mem_singleton.1 hb
  exact ⟨List.mem_append_right _ (List.mem_singleton_self _), m, callee, rfl⟩

mutual

/-- The builder calls in an expression are nodes of it. -/
theorem among_within (e : Expr Nat) : Among (within config e) e.nodes := by
  match e with
  | .name _ _ | .literal _ _ => exact .nil
  | .paren _ e => exact (among_within e).push _
  | .property _ o _ => exact (among_within o).push _
  | .element _ o i => exact ((among_within o).append (among_within i)).push _
  | .binary _ _ l r => exact ((among_within l).append (among_within r)).push _
  | .unary _ _ e => exact (among_within e).push _
  | .conditional _ c y n =>
    exact (((among_within c).append (among_within y)).append (among_within n)).push _
  | .call m e es =>
    simp only [within, Expr.nodes]
    cases h : of? config (.call m e es) e es with
    | some b => exact among_of? h _
    | none => exact ((among_within e).append (among_withinAll es)).push _
  | .lambda _ _ e => exact (among_within e).push _
  | .function _ _ _ ss => exact (among_withinStatements ss).push _
  | .object _ ps => exact (among_withinProperties ps).push _

theorem among_withinAll (es : List (Expr Nat)) : Among (withinAll config es) (nodesAll es) := by
  match es with
  | [] => exact .nil
  | e :: es => exact (among_within e).append (among_withinAll es)

theorem among_withinProperties (ps : List (Property Nat)) :
    Among (withinProperties config ps) (nodesProperties ps) := by
  match ps with
  | [] => exact .nil
  | .field _ _ e :: ps | .shorthand _ _ e :: ps =>
    exact (among_within e).append (among_withinProperties ps)
  | .computed _ k e :: ps =>
    exact ((among_within k).append (among_within e)).append (among_withinProperties ps)

theorem among_withinStatements (ss : List (Statement Nat)) :
    Among (withinStatements config ss) (nodesStatements ss) := by
  match ss with
  | [] => exact .nil
  | .declaration _ _ none :: ss | .result _ none :: ss => exact among_withinStatements ss
  | .declaration _ _ (some e) :: ss | .result _ (some e) :: ss | .expression _ e :: ss =>
    exact (among_within e).append (among_withinStatements ss)

end

/-- The nodes handed to the builder calls of a program are nodes of it. -/
theorem nodesAll_args_sublist {ss : List (Statement Nat)} {b : BuilderCall}
    (hb : b ∈ locate config ss) : (nodesAll b.args).Sublist (nodesStatements ss) := by
  obtain ⟨hmem, m, callee, hcall⟩ := among_withinStatements ss b hb
  refine .trans ?_ (closed_nodesStatements ss b.call hmem)
  rw [hcall, Expr.nodes]
  exact .trans (List.sublist_append_right ..) (List.sublist_append_left ..)

end BuilderCall

/-- What a function returns carries labels of the function. -/
theorem Expr.labels_result_nodup {e body : Expr Nat} {fn : Callable Nat} (hn : e.labels.Nodup)
    (hf : e.bare.callable? = some fn) (hb : fn.result? = some body) : body.labels.Nodup :=
  hn.sublist ((e.closed_nodes body (result_mem_nodes hf hb)).map _)

namespace BuilderCall

variable {f g c : Nat → Nat}

theorem callable_eq_ok {b : BuilderCall} {arg : Expr Nat} {fn : Callable Nat} (hb : b.args = [arg])
    (h : arg.bare.callable? = some fn) : b.callable = .ok (arg.bare, fn) := by
  simp only [callable, hb, h]

theorem callable_eq_error {b : BuilderCall} {arg : Expr Nat} (hb : b.args = [arg])
    (h : arg.bare.callable? = none) :
    b.callable = Rule.misfit arg.bare (.builder b.name) := by
  simp only [callable, hb, h]

/-- The result of a function compiles as that of the function that it is moved to. -/
theorem agree_result {arg arg' : Expr Nat} {fn fn' : Callable Nat} (h : Moved f g c arg arg')
    (hn : arg.labels.Nodup) (hn' : arg'.labels.Nodup) (hf : arg.bare.callable? = some fn)
    (hf' : arg'.bare.callable? = some fn') (hr : Option.Rel (Moved f g c) fn.result? fn'.result?)
    (kind : BuilderKind) (placeholder : String) (context : Option TypeExpr) :
    Agree (Moved f g c) (· = ·)
      (match fn.result? with
      | some body => compileTyped kind placeholder context body
      | none => Rule.misfit arg.bare .builderBody)
      (match fn'.result? with
      | some body => compileTyped kind placeholder context body
      | none => Rule.misfit arg'.bare .builderBody) := by
  match hb : fn.result?, hb' : fn'.result?, hr with
  | none, none, _ => exact .fault (Moved.likeness.bare h)
  | some body, some body', .some hbody =>
    exact hbody.agree_compileTyped (Expr.labels_result_nodup hn hf hb)
      (Expr.labels_result_nodup hn' hf' hb') kind placeholder context

/-- A builder call compiles as the one that it is moved to. -/
theorem agree_compile (config : Config) {b : BuilderCall} (hfix : b.relocate id c = b)
    (hn : (labelsOf (nodesAll b.args)).Nodup)
    (hn' : (labelsOf (nodesAll (b.relocate f g).args)).Nodup) :
    Agree (Moved f g c) (· = ·) (b.compile config) ((b.relocate f g).compile config) := by
  obtain ⟨kind, name, call, args⟩ := b
  injection hfix with _ _ hcall hargs
  have hmisfit : Moved f g c call (call.relocate f g) := ⟨rfl, hcall⟩
  match args with
  | [] => exact .fault hmisfit
  | _ :: _ :: _ => exact .fault hmisfit
  | [arg] =>
    have harg : Moved f g c arg (arg.relocate f g) := ⟨rfl, (List.cons.inj hargs).1⟩
    -- Both arguments are functions or neither is, with parameters and results alike.
    have hfn := (Moved.likeness.layer harg).callable?
    have hbare := Moved.likeness.bare harg
    simp only [relocate, relocateAll, nodesAll, List.append_nil] at hn hn' ⊢
    cases h : arg.bare.callable? with
    | none =>
      cases h' : (arg.relocate f g).bare.callable? with
      | some fn' =>
        rw [h, h'] at hfn
        cases hfn
      | none =>
        rw [compile, compile, callable_eq_error rfl h, callable_eq_error rfl h']
        exact .fault hbare
    | some fn =>
      cases h' : (arg.relocate f g).bare.callable? with
      | none =>
        rw [h, h'] at hfn
        cases hfn
      | some fn' =>
        rw [h, h'] at hfn
        obtain ⟨hparams, hresult⟩ : Callable.Alike (Moved f g c) fn fn' := by
          cases hfn with
          | some hfn => exact hfn
        rw [compile, compile, callable_eq_ok rfl h, callable_eq_ok rfl h']
        have hbody := agree_result harg hn hn' h h' hresult kind
        obtain ⟨ps, result?⟩ := fn
        obtain ⟨ps', result?'⟩ := fn'
        match ps, ps', hparams with
        | [], [], _ => exact hbody config.placeholder none
        | [p], [p'], .cons ⟨hname, htype⟩ _ =>
          show Agree _ _ (match result? with | some _ => _ | none => _)
            (match result?' with | some _ => compileTyped kind p'.name p'.type? _ | none => _)
          rw [← hname, ← htype]
          exact hbody p.name p.type?
        | _ :: _ :: _, _ :: _ :: _, _ => exact .fault hbare

end BuilderCall

end Aggregation
