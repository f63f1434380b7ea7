import Aggregation.Proofs.Grouping
import Aggregation.Proofs.Nodes

/-! Parentheses under oracles that see through them.

Which parentheses make a difference is, but for one place, a matter of the types that are recorded. The
rules themselves look through parentheses everywhere except around `Array`, where one of its functions
is called. So if the class of a node depends on nothing but what is written, expressions with one
erasure compile alike, as long as neither has `Array` in parentheses (`agree_of_erase_eq`). -/
namespace Aggregation

variable {ν : Type}

/-- Classes that depend on what is written, and not on numbers, spans and parentheses. -/
def Oracle.Structural (o : Oracle) : Prop :=
  ∀ e e' : Expr Nat, e.erase = e'.erase → o e = o e'

/-- None of the nodes is `Array` in parentheses. -/
def BareArrays (es : List (Expr ν)) : Prop :=
  ∀ m m', .paren m (.name m' "Array") ∉ es

namespace BareArrays

variable {es fs : List (Expr ν)} {e x : Expr ν}

theorem left (h : BareArrays (es ++ fs)) : BareArrays es :=
  fun m m' hm => h m m' (List.mem_append_left fs hm)

theorem right (h : BareArrays (es ++ fs)) : BareArrays fs :=
  fun m m' hm => h m m' (List.mem_append_right es hm)

theorem of_mem (h : BareArrays es) (hes : Closed es) (hx : x ∈ es) : BareArrays x.nodes :=
  fun m m' hm => h m m' ((hes x hx).subset hm)

/-- Inside parentheses there is no `Array`, so looking through them finds none. -/
theorem isArrayName_bare {e : Expr ν} (h : BareArrays e.nodes) :
    e.bare.isArrayName = e.isArrayName := by
  induction e using Expr.bare.induct with
  | case1 m inner ih =>
    show inner.bare.isArrayName = false
    rw [ih h.left]
    cases inner with
    | name m' x =>
      refine beq_eq_false_iff_ne.2 fun hx => h m m' ?_
      obtain rfl := Option.some.inj hx
      exact Expr.mem_nodes_self _
    | _ => rfl
  | case2 e hne => rw [Expr.bare.eq_2 e hne]

end BareArrays

/-- Expressions with one erasure, and no `Array` in parentheses. -/
structure SameErasure (e e' : Expr Nat) : Prop where
  erase : e.erase = e'.erase
  left : BareArrays e.nodes
  right : BareArrays e'.nodes

namespace SameErasure

variable {e e' x x' : Expr Nat}

theorem of_mem (h : SameErasure e e') (hx : x ∈ e.nodes) (hx' : x' ∈ e'.nodes)
    (herase : x.erase = x'.erase) : SameErasure x x' where
  erase := herase
  left := h.left.of_mem e.closed_nodes hx
  right := h.right.of_mem e'.closed_nodes hx'

theorem of_eraseAll {es es' : List (Expr Nat)} (h : eraseAll es = eraseAll es')
    (hb : BareArrays (nodesAll es)) (hb' : BareArrays (nodesAll es')) :
    List.Forall₂ SameErasure es es' := by
  induction es generalizing es' with
  | nil =>
    cases es' with
    | nil => exact .nil
    | cons => cases h
  | cons e es ih =>
    cases es' with
    | nil => cases h
    | cons e' es' =>
      obtain ⟨he, hes⟩ := List.cons.inj h
      exact .cons ⟨he, hb.left, hb'.left⟩ (ih hes hb.right hb'.right)

theorem of_eraseProperties {ps ps' : List (Property Nat)}
    (h : eraseProperties ps = eraseProperties ps') (hb : BareArrays (nodesProperties ps))
    (hb' : BareArrays (nodesProperties ps')) :
    List.Forall₂ (Property.Alike SameErasure) ps ps' := by
  induction ps generalizing ps' with
  | nil =>
    match ps' with
    | [] => exact .nil
    | .field _ _ _ :: _ | .shorthand _ _ _ :: _ | .computed _ _ _ :: _ => cases h
  | cons p ps ih =>
    cases p with
    | field s key x =>
      match ps' with
      | [] | .shorthand _ _ _ :: _ | .computed _ _ _ :: _ => cases h
      | .field s' key' x' :: ps' =>
        obtain ⟨hp, hps⟩ := List.cons.inj h
        obtain ⟨-, rfl, hx⟩ := Property.field.inj hp
        exact .cons (.field ⟨hx, hb.left, hb'.left⟩) (ih hps hb.right hb'.right)
    | shorthand s key x =>
      match ps' with
      | [] | .field _ _ _ :: _ | .computed _ _ _ :: _ => cases h
      | .shorthand s' key' x' :: ps' =>
        obtain ⟨hp, hps⟩ := List.cons.inj h
        obtain ⟨-, rfl, hx⟩ := Property.shorthand.inj hp
        exact .cons (.shorthand ⟨hx, hb.left, hb'.left⟩) (ih hps hb.right hb'.right)
    | computed s k x =>
      match ps' with
      | [] | .field _ _ _ :: _ | .shorthand _ _ _ :: _ => cases h
      | .computed s' k' x' :: ps' =>
        obtain ⟨hp, hps⟩ := List.cons.inj h
        obtain ⟨-, hk, hx⟩ := Property.computed.inj hp
        exact .cons (.computed ⟨hk, hb.left.left, hb'.left.left⟩
          ⟨hx, hb.left.right, hb'.left.right⟩) (ih hps hb.right hb'.right)

theorem singleResult?_erase (ss : List (Statement Nat)) :
    Statement.singleResult? (eraseStatements ss) = (Statement.singleResult? ss).map Expr.erase := by
  match ss with
  | [] | [.result _ none] | [.result _ (some _)] | .declaration _ _ none :: _
  | .declaration _ _ (some _) :: _ | .expression _ _ :: _ => rfl
  | .result _ none :: s :: ss | .result _ (some _) :: s :: ss =>
    match s with
    | .declaration _ _ none | .declaration _ _ (some _) | .result _ none | .result _ (some _)
    | .expression _ _ => rfl

theorem of_eraseStatements {ss ss' : List (Statement Nat)}
    (h : eraseStatements ss = eraseStatements ss') (hb : BareArrays (nodesStatements ss))
    (hb' : BareArrays (nodesStatements ss')) :
    Option.Rel SameErasure (Statement.singleResult? ss) (Statement.singleResult? ss') := by
  have hmap := congrArg Statement.singleResult? h
  rw [singleResult?_erase, singleResult?_erase] at hmap
  cases hx : Statement.singleResult? ss with
  | none =>
    cases hx' : Statement.singleResult? ss' with
    | none => exact .none
    | some x' =>
      rw [hx, hx'] at hmap
      cases hmap
  | some x =>
    cases hx' : Statement.singleResult? ss' with
    | none =>
      rw [hx, hx'] at hmap
      cases hmap
    | some x' =>
      rw [hx, hx'] at hmap
      exact .some ⟨Option.some.inj hmap,
        hb.of_mem (closed_nodesStatements ss) (mem_nodes_of_singleResult? hx),
        hb'.of_mem (closed_nodesStatements ss') (mem_nodes_of_singleResult? hx')⟩

/-- What is left of a call tells whether a property is called, and which. -/
theorem erase_eq_property_iff {callee : Expr Nat} {o : Expr Unit} {x : String} :
    callee.erase = .property .erased o x ↔
      ∃ p object, callee.bare = .property p object x ∧ object.erase = o := by
  rw [← callee.erase_bare]
  have hgroup := callee.isGroup_bare
  generalize callee.bare = c at hgroup
  constructor
  · intro h
    cases c with
    | property p object y =>
      obtain ⟨-, ho, rfl⟩ := Expr.property.inj h
      exact ⟨p, object, rfl, ho⟩
    | paren m inner => cases hgroup
    | _ => cases h
  · rintro ⟨p, object, rfl, rfl⟩
    rfl

/-- Calls with one erasure are of the same method, if of any. -/
theorem form_call {m m' : Mark Nat} {callee callee' : Expr Nat} {args args' : List (Expr Nat)}
    (h : SameErasure callee callee') (hargs : List.Forall₂ SameErasure args args') :
    Form SameErasure (.call m callee args) (.call m' callee' args') := by
  by_cases hproperty : ∃ o x, callee.erase = .property .erased o x
  · obtain ⟨u, x, hu⟩ := hproperty
    obtain ⟨p, o, hp, ho⟩ := erase_eq_property_iff.1 hu
    obtain ⟨p', o', hp', ho'⟩ := erase_eq_property_iff.1 (h.erase.symm.trans hu)
    have hobject := h.of_mem (Expr.object_mem_nodes hp) (Expr.object_mem_nodes hp')
      (ho.trans ho'.symm)
    -- The method is one of `Array` itself in both calls or in none.
    have harray : o.isArrayName = o'.isArrayName := by
      rw [← hobject.left.isArrayName_bare, ← hobject.right.isArrayName_bare, Expr.isArrayName,
        Expr.isArrayName, ← o.name?_erase, ← o'.name?_erase, hobject.erase]
    exact .method hp hp' harray hobject hargs
  · refine .call (fun p o x hp => ?_) (fun p o x hp => ?_) hargs
    · exact hproperty ⟨o.erase, x, erase_eq_property_iff.2 ⟨p, o, hp, rfl⟩⟩
    · exact hproperty ⟨o.erase, x, h.erase.trans (erase_eq_property_iff.2 ⟨p, o, hp, rfl⟩)⟩

theorem form_of_not_isGroup (he : e.isGroup = false) (he' : e'.isGroup = false)
    (h : SameErasure e e') : Form SameErasure e e' := by
  obtain ⟨herase, hb, hb'⟩ := h
  cases e with
  | paren m x => cases he
  | name m x =>
    cases e' with
    | name m' x' =>
      obtain ⟨-, rfl⟩ := Expr.name.inj herase
      exact .name
    | paren => cases he'
    | _ => cases herase
  | literal m c =>
    cases e' with
    | literal m' c' =>
      obtain ⟨-, rfl⟩ := Expr.literal.inj herase
      exact .literal
    | paren => cases he'
    | _ => cases herase
  | property m o x =>
    cases e' with
    | property m' o' x' =>
      obtain ⟨-, ho, rfl⟩ := Expr.property.inj herase
      exact .property ⟨ho, hb.left, hb'.left⟩
    | paren => cases he'
    | _ => cases herase
  | element m o i =>
    cases e' with
    | element m' o' i' =>
      obtain ⟨-, ho, hi⟩ := Expr.element.inj herase
      exact .element ⟨ho, hb.left.left, hb'.left.left⟩ ⟨hi, hb.left.right, hb'.left.right⟩
    | paren => cases he'
    | _ => cases herase
  | binary m op l r =>
    cases e' with
    | binary m' op' l' r' =>
      obtain ⟨-, rfl, hl, hr⟩ := Expr.binary.inj herase
      exact .binary ⟨hl, hb.left.left, hb'.left.left⟩ ⟨hr, hb.left.right, hb'.left.right⟩
    | paren => cases he'
    | _ => cases herase
  | unary m op x =>
    cases e' with
    | unary m' op' x' =>
      obtain ⟨-, rfl, hx⟩ := Expr.unary.inj herase
      exact .unary ⟨hx, hb.left, hb'.left⟩
    | paren => cases he'
    | _ => cases herase
  | conditional m c y n =>
    cases e' with
    | conditional m' c' y' n' =>
      obtain ⟨-, hc, hy, hn⟩ := Expr.conditional.inj herase
      exact .conditional ⟨hc, hb.left.left.left, hb'.left.left.left⟩
        ⟨hy, hb.left.left.right, hb'.left.left.right⟩ ⟨hn, hb.left.right, hb'.left.right⟩
    | paren => cases he'
    | _ => cases herase
  | call m callee args =>
    cases e' with
    | call m' callee' args' =>
      obtain ⟨-, hcallee, hargs⟩ := Expr.call.inj herase
      exact form_call ⟨hcallee, hb.left.left, hb'.left.left⟩
        (of_eraseAll hargs hb.left.right hb'.left.right)
    | paren => cases he'
    | _ => cases herase
  | lambda m params body =>
    cases e' with
    | lambda m' params' body' =>
      obtain ⟨-, hparams, hbody⟩ := Expr.lambda.inj herase
      exact .function rfl rfl ⟨SameGrouping.of_params hparams, .some ⟨hbody, hb.left, hb'.left⟩⟩
    | paren => cases he'
    | _ => cases herase
  | function m style params body =>
    cases e' with
    | function m' style' params' body' =>
      obtain ⟨-, -, hparams, hbody⟩ := Expr.function.inj herase
      exact .function rfl rfl ⟨SameGrouping.of_params hparams,
        of_eraseStatements hbody hb.left hb'.left⟩
    | paren => cases he'
    | _ => cases herase
  | object m ps =>
    cases e' with
    | object m' ps' =>
      obtain ⟨-, hps⟩ := Expr.object.inj herase
      exact .object (of_eraseProperties hps hb.left hb'.left)
    | paren => cases he'
    | _ => cases herase

theorem bare (h : SameErasure e e') : SameErasure e.bare e'.bare := by
  refine h.of_mem e.bare_mem_nodes e'.bare_mem_nodes ?_
  rw [e.erase_bare, e'.erase_bare]
  exact h.erase

theorem resemblance : Resemblance SameErasure where
  bare := bare
  form := by
    intro e e' h
    exact form_of_not_isGroup e.isGroup_bare e'.isGroup_bare h.bare

end SameErasure

/-- If classes depend on what is written alone, then two expressions that differ in nothing but marks and
parentheses, and have no `Array` in parentheses, compile to the same value in every scope, or fail for
the same cause at nodes that differ in no more. The same holds of pipelines. -/
theorem agree_of_erase_eq {o : Oracle} (ho : o.Structural) (s : Scope) {e e' : Expr Nat}
    (h : e.erase = e'.erase) (hb : BareArrays e.nodes) (hb' : BareArrays e'.nodes) :
    Agree SameErasure (· = ·) (compile o s e) (compile o s e') ∧
      Agree SameErasure (· = ·) (Pipeline.compile o s e) (Pipeline.compile o s e') := by
  have hclass (x x' : Expr Nat) (hx : SameErasure x x') : o x = o x' := ho x x' hx.erase
  have hsame : SameErasure e e' := ⟨h, hb, hb'⟩
  exact ⟨SameErasure.resemblance.agree_compile hclass s hsame,
    SameErasure.resemblance.agree_assemble hclass s hsame⟩

/-- The oracle to which elements are arrays and all else is numbers. -/
def Oracle.elements : Oracle :=
  fun e => match e.erase with
    | .element _ _ _ => .array
    | _ => .numeric

/-- `this.$addFields({ b: e })`, for an expression. -/
def addedBy (e : Expr Nat) : Expr Nat :=
  .call (.numbered 12) (.property (.numbered 11) (.name (.numbered 10) "this") "$addFields")
    [.object (.numbered 13) [.field ⟨0, 0⟩ (.bare "b") e]]

/-- With parentheses around its receiver, its key and its method, `this["a"].map(x => x + 1)` compiles as
it does without them, by itself and as a new field. -/
theorem agree_of_erase_eq_groupedMethod :
    let key := .literal (.numbered 1) (.string "a")
    let items := .element (.numbered 2) (.name (.numbered 0) "this") key
    let items' := .element (.numbered 2) (.paren (.numbered 14) (.name (.numbered 0) "this"))
      (.paren (.numbered 15) key)
    let mapped := mappedBy (.property (.numbered 3) items "map")
    let grouped := mappedBy (.paren (.numbered 16) (.paren (.numbered 17)
      (.property (.numbered 3) items' "map")))
    Oracle.elements.Structural ∧ (compile .elements (.root "this") mapped).isOk ∧
      (Pipeline.compile .elements (.root "this") (addedBy mapped)).isOk ∧
      Agree SameErasure (· = ·) (compile .elements (.root "this") mapped)
        (compile .elements (.root "this") grouped) ∧
      Agree SameErasure (· = ·) (Pipeline.compile .elements (.root "this") (addedBy mapped))
        (Pipeline.compile .elements (.root "this") (addedBy (.paren (.numbered 18) grouped))) := by
  intro key items items' mapped grouped
  have ho : Oracle.elements.Structural := by
    intro e e' h
    rw [Oracle.elements, Oracle.elements, h]
  have hbare (es : List (Expr Nat)) (h : es.all (fun e => !e.isGroupedArray)) : BareArrays es := by
    intro m m' hm
    cases List.all_eq_true.1 h _ hm
  have h : mapped.erase = grouped.erase := rfl
  have hadded : (addedBy mapped).erase = (addedBy (.paren (.numbered 18) grouped)).erase := rfl
  refine ⟨ho, by decide +kernel, by decide +kernel, ?_, ?_⟩
  · exact (agree_of_erase_eq ho (.root "this") h (hbare _ (by decide +kernel))
      (hbare _ (by decide +kernel))).1
  · exact (agree_of_erase_eq ho (.root "this") hadded (hbare _ (by decide +kernel))
      (hbare _ (by decide +kernel))).2

end Aggregation
