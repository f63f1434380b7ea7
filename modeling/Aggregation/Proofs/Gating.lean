import Aggregation.Proofs.Decompile
import Aggregation.Proofs.OnePass

/-! What the types of operands decide.

A rule asks for classes in one way only: it wants an operand to be numeric, boolean or an array, and
refuses the node if it is not. So an oracle that knows more, and contradicts nothing that was known,
lets every rule apply that applied before, and the rule is the same (`Rule.kept_of`). What a rule goes
on to write is the same for all oracles. Both carry over from nodes to expressions, and from the
expressions of a pipeline to the pipeline (`Pipeline.kept_compileWith`). -/
namespace Aggregation

variable {α β : Type}

/-! ### Results that are kept -/

/-- The second result is the first, if the first came out well. -/
def Kept (x y : Except CompileFault α) : Prop :=
  ∀ a, x = .ok a → y = .ok a

namespace Kept

theorem refl (x : Except CompileFault α) : Kept x x := fun _ h => h

theorem error (f : CompileFault) (y : Except CompileFault α) : Kept (.error f) y := by
  intro a h
  cases h

theorem bind {x y : Except CompileFault α} {f g : α → Except CompileFault β} (h : Kept x y)
    (hf : ∀ a, x = .ok a → Kept (f a) (g a)) : Kept (x >>= f) (y >>= g) := by
  intro b hb
  obtain ⟨a, ha, hb⟩ := bind_eq_ok.1 hb
  exact bind_eq_ok.2 ⟨a, h a ha, hf a ha b hb⟩

theorem map {x y : Except CompileFault α} (h : Kept x y) (f : α → β) :
    Kept (x.map f) (y.map f) := by
  intro b hb
  cases x with
  | error e => cases hb
  | ok a =>
    rw [h a rfl]
    exact hb

/-- Two results that a third keeps are the same. -/
theorem unique {x y z : Except CompileFault α} {a b : α} (hx : Kept x z) (hy : Kept y z)
    (ha : x = .ok a) (hb : y = .ok b) : a = b :=
  Except.ok.inj ((hx a ha).symm.trans (hy b hb))

end Kept

/-! ### Rules -/

/-- Of the nodes given, the second oracle classifies as the first does all that the first
classifies. -/
def Oracle.Informs (o o' : Oracle) (es : List (Expr Nat)) : Prop :=
  ∀ e ∈ es, o e ≠ .unknown → o' e = o e

theorem Oracle.Informs.mono {o o' : Oracle} {es fs : List (Expr Nat)} (h : o.Informs o' fs)
    (hsub : es ⊆ fs) : o.Informs o' es :=
  fun e he => h e (hsub he)

namespace Rule

/-- No operator wants operands of which nothing is known. -/
theorem required_ne_unknown {op : BinaryOp} {required : TypeClass} {name : String}
    (h : target op = .typed required name) : required ≠ .unknown := by
  cases op <;> simp only [target, reduceCtorEq, Target.typed.injEq] at h <;>
    exact h.1 ▸ TypeClass.noConfusion

section Kept

variable {o o' : Oracle} {s : Scope} {e : Expr Nat}

/-- What is known of an operand is known to the second oracle too. -/
def Informed (o o' : Oracle) (x : Expr Nat) : Prop :=
  classOf o x ≠ .unknown → classOf o' x = classOf o x

/-- An operand of the class that a rule wants is of this class to the second oracle too. -/
theorem Informed.eq {x : Expr Nat} {c : TypeClass} (h : Informed o o' x) (hc : c ≠ .unknown)
    (hx : classOf o x = c) : classOf o' x = c := by
  subst hx
  exact h hc

theorem kept_ofBinary {left right : Expr Nat} (hl : Informed o o' left)
    (hr : Informed o o' right) (op : BinaryOp) :
    Kept (ofBinary o e op left right) (ofBinary o' e op left right) := by
  unfold ofBinary
  cases htarget : target op with
  | typed required name =>
    have hne := required_ne_unknown htarget
    by_cases h : classOf o left = required ∧ classOf o right = required
    · have h' := And.intro (hl.eq hne h.1) (hr.eq hne h.2)
      simp only [if_pos h, if_pos h']
      exact .refl _
    · simp only [if_neg h]
      exact .error _ _
  | untyped name => exact .refl _
  | loose => exact .refl _
  | missing => exact .refl _

theorem kept_ofUnary {x : Expr Nat} (hx : Informed o o' x) (op : UnaryOp) :
    Kept (ofUnary o e op x) (ofUnary o' e op x) := by
  cases op with
  | not =>
    unfold ofUnary
    by_cases h : classOf o x = .boolean
    · have h' := hx.eq TypeClass.noConfusion h
      simp only [if_pos h, if_pos h']
      exact .refl _
    · simp only [if_neg h]
      exact .error _ _
  | negate => exact .refl _

theorem kept_onArray {x : Expr Nat} (hx : Informed o o' x) (use : ArrayUse) (r : Rule) :
    Kept (onArray o e x use r) (onArray o' e x use r) := by
  unfold onArray
  by_cases h : classOf o x = .array
  · have h' := hx.eq TypeClass.noConfusion h
    simp only [if_pos h, if_pos h']
    exact .refl _
  · simp only [if_neg h]
    exact .error _ _

theorem kept_ofProperty {x : Expr Nat} (hx : Informed o o' x) (name : String) :
    Kept (ofProperty o s e x name) (ofProperty o' s e x name) := by
  unfold ofProperty
  split
  · exact .refl _
  · split
    · exact .refl _
    · exact kept_onArray hx _ _

theorem kept_ofElement {x index : Expr Nat} (hx : Informed o o' x) :
    Kept (ofElement o s e x index) (ofElement o' s e x index) := by
  rw [ofElement_eq, ofElement_eq]
  split
  · exact .refl _
  · exact kept_onArray hx _ _

theorem kept_ofArrayFunction {args : List (Expr Nat)} (hargs : ∀ x ∈ args, Informed o o' x)
    (name : String) : Kept (ofArrayFunction o e name args) (ofArrayFunction o' e name args) := by
  unfold ofArrayFunction
  split
  · exact .refl _
  · refine (Kept.refl _).bind fun arg harg => ?_
    obtain rfl := eq_of_onlyArgument harg
    by_cases h : classOf o arg = .array
    · have h' := (hargs arg (List.mem_singleton.2 rfl)).eq TypeClass.noConfusion h
      simp only [if_pos h, if_pos h']
      exact .refl _
    · simp only [if_neg h]
      exact .error _ _

theorem kept_ofMethod {x : Expr Nat} {args : List (Expr Nat)} {name : String}
    (hargs : Env.iterates name = false → ∀ x ∈ args, Informed o o' x) :
    Kept (ofMethod o e x name args) (ofMethod o' e x name args) := by
  unfold ofMethod
  split
  · refine (Kept.refl _).bind fun arg harg => ?_
    obtain rfl := eq_of_onlyArgument harg
    by_cases h : classOf o arg = .array
    · have h' := (hargs rfl arg (List.mem_singleton.2 rfl)).eq TypeClass.noConfusion h
      simp only [if_pos h, if_pos h']
      exact .refl _
    · simp only [if_neg h]
      exact .error _ _
  all_goals exact .refl _

theorem kept_ofCall {m : Mark Nat} {callee : Expr Nat} {args : List (Expr Nat)}
    (h : ∀ x ∈ parts s (.call m callee args), Informed o o' x) :
    Kept (ofCall o s e callee args) (ofCall o' s e callee args) := by
  unfold ofCall
  unfold parts at h
  cases hc : callee.bare with
  | property p x name =>
    simp only [hc] at h ⊢
    by_cases harray : x.name? = some "Array" ∧ s.isFree "Array"
    · have harray' : (x.isArrayName && s.isFree "Array") = true := by
        simpa [Expr.isArrayName] using harray
      rw [if_pos harray'] at h
      simp only [if_pos harray]
      exact kept_ofArrayFunction h name
    · have harray' : ¬ (x.isArrayName && s.isFree "Array") = true := by
        simpa [Expr.isArrayName] using harray
      rw [if_neg harray'] at h
      have hx : Informed o o' x := by
        apply h
        split <;> exact List.mem_cons_self
      simp only [if_neg harray]
      split
      · exact .refl _
      · by_cases hclass : classOf o x = .array
        · have hclass' := hx.eq TypeClass.noConfusion hclass
          simp only [if_pos hclass, if_pos hclass']
          refine kept_ofMethod fun hname y hy => h y ?_
          rw [hname]
          exact List.mem_cons_of_mem x hy
        · simp only [if_neg hclass]
          exact .error _ _
  | _ => exact .refl _

/-- The rule of a node stays the same when more is known of the parts of the node. -/
theorem kept_of (h : ∀ x ∈ parts s e, Informed o o' x) : Kept (of o s e) (of o' s e) := by
  cases e with
  | property m x name => exact kept_ofProperty (h x (by simp [parts])) name
  | element m x index => exact kept_ofElement (h x (by simp [parts]))
  | binary m op left right =>
    exact kept_ofBinary (h left (by simp [parts])) (h right (by simp [parts])) op
  | unary m op x => exact kept_ofUnary (h x (by simp [parts])) op
  | call m callee args => exact kept_ofCall h
  | _ => exact .refl _

end Kept

/-- A rule gives the same value, if its operands do. -/
theorem kept_build {r : Rule} {f f' : Expr Nat → Except CompileFault Value}
    {g g' : String → Expr Nat → Except CompileFault Value}
    (hf : ∀ x ∈ r.plain, Kept (f x) (f' x))
    (hg : ∀ p b, r.body? = some (p, b) → Kept (g p b) (g' p b)) :
    Kept (r.build f g) (r.build f' g') := by
  cases r with
  | done v => exact .refl _
  | same x => exact hf x (by simp [plain])
  | single op x | one op x =>
    exact (hf x (by simp [plain])).bind fun v _ => .refl _
  | two op x y | swapped op x y =>
    refine (hf x (by simp [plain])).bind fun v _ => ?_
    exact (hf y (by simp [plain])).bind fun w _ => .refl _
  | choice c y n =>
    refine (hf c (by simp [plain])).bind fun u _ => ?_
    refine (hf y (by simp [plain])).bind fun v _ => ?_
    exact (hf n (by simp [plain])).bind fun w _ => .refl _
  | each op key param input body =>
    refine (hf input (by simp [plain])).bind fun v _ => ?_
    exact (hg param body rfl).bind fun w _ => .refl _

end Rule

/-! ### Fields are nodes -/

theorem Stage.value_mem_nodes {arg x : Expr Nat} (h : x ∈ values arg) : x ∈ arg.nodes := by
  unfold values at h
  split at h
  · rename_i m ps harg
    have hsub := arg.closed_nodes _ arg.bare_mem_nodes
    rw [harg] at hsub
    refine hsub.subset (List.mem_append_left _ ?_)
    clear harg hsub
    induction ps with
    | nil => cases h
    | cons p ps ih =>
      rcases List.mem_cons.1 h with rfl | h
      · cases p <;> simp [nodesProperties, Property.value, Expr.mem_nodes_self]
      · have hps := ih h
        cases p <;> simp [nodesProperties, hps]
  · cases h

theorem Pipeline.field_mem_nodes (e : Expr Nat) {x : Expr Nat} (h : x ∈ fields e) :
    x ∈ e.nodes := by
  match e with
  | .paren _ e => exact List.mem_append_left _ (field_mem_nodes e h)
  | .property _ object _ => exact List.mem_append_left _ (field_mem_nodes object h)
  | .call _ callee args =>
    apply List.mem_append_left
    rcases List.mem_append.1 h with h | h
    · exact List.mem_append_left _ (field_mem_nodes callee h)
    · obtain ⟨arg, harg, hx⟩ := List.mem_flatMap.1 h
      have hsub := closed_nodesAll args arg (mem_nodesAll harg)
      exact List.mem_append_right _ (hsub.subset (Stage.value_mem_nodes hx))
  | .name _ _ | .literal _ _ | .element _ _ _ | .binary _ _ _ _ | .unary _ _ _
  | .conditional _ _ _ _ | .lambda _ _ _ | .function _ _ _ _ | .object _ _ => cases h

/-! ### Expressions and pipelines -/

/-- What compiles, compiles to the same value when more is known of its nodes. -/
theorem kept_compile {o o' : Oracle} (s : Scope) (e : Expr Nat) (h : o.Informs o' e.nodes) :
    Kept (compile o s e) (compile o' s e) := by
  have hinside {x : Expr Nat} (hx : x ∈ e.nodes) : o.Informs o' x.nodes :=
    h.mono (e.closed_nodes x hx).subset
  rw [compile_eq_build, compile_eq_build]
  refine (Rule.kept_of fun x hx => ?_).bind fun r hr => ?_
  · exact hinside (Rule.part_mem_nodes hx) x.bare x.bare_mem_nodes
  · have hsees := Rule.sees_of hr
    refine Rule.kept_build (fun x hx => ?_) fun p b hb => ?_
    · exact kept_compile s x (hinside (Rule.part_mem_nodes (hsees.plain x hx)))
    · exact kept_compile (s.bind p) b (hinside (hsees.body p b hb).body_mem_nodes)
termination_by e.size
decreasing_by
  · exact Rule.size_operand hr (Rule.plain_subset_operands r hx)
  · exact Rule.size_operand hr (Rule.body_mem_operands hb)

/-- The value that an expression can compile to, whatever is known of its nodes. -/
theorem kept_written (o : Oracle) (s : Scope) (e : Expr Nat) :
    Kept (compile o s e) (.ok ((e.erase.normal s).written s)) := by
  intro v hv
  rw [(translates_of_compile hv).written_normal]

section Kept

variable {f f' : Expr Nat → Except CompileFault Value}

theorem Stage.kept_entriesWith {ps : List (Property Nat)}
    (h : ∀ x ∈ ps.map Property.value, Kept (f x) (f' x)) (done : List (String × Value)) :
    Kept (entriesWith f done ps) (entriesWith f' done ps) := by
  induction ps generalizing done with
  | nil => exact .refl _
  | cons p ps ih =>
    refine (Kept.refl _).bind fun ke hentry => ?_
    have hvalue : ke.2 = p.value := by
      cases p with
      | field span key e =>
        simp only [entry] at hentry
        split at hentry
        · cases hentry
        · split at hentry
          · cases hentry
          · cases hentry
            rfl
      | shorthand | computed => cases hentry
    refine (hvalue ▸ h p.value List.mem_cons_self : Kept (f ke.2) (f' ke.2)).bind fun v _ => ?_
    exact ih (fun x hx => h x (List.mem_cons_of_mem _ hx)) _

theorem Stage.kept_addFieldsWith {arg : Expr Nat} (h : ∀ x ∈ values arg, Kept (f x) (f' x)) :
    Kept (addFieldsWith f arg) (addFieldsWith f' arg) := by
  unfold values at h
  unfold addFieldsWith
  split
  · rename_i m ps harg
    rw [harg] at h
    exact (kept_entriesWith h []).bind fun body _ => .refl _
  · exact .refl _

theorem Stage.kept_compileWith {args : List (Expr Nat)}
    (h : ∀ x ∈ args.flatMap values, Kept (f x) (f' x)) (name : String) (call : Expr Nat) :
    Kept (compileWith f name call args) (compileWith f' name call args) := by
  unfold compileWith
  split
  · exact .refl _
  · split
    · exact kept_addFieldsWith fun x hx => h x (by simpa using hx)
    · exact .refl _

theorem Pipeline.kept_unwindWith (s : Scope) (e : Expr Nat)
    (h : ∀ x ∈ fields e, Kept (f x) (f' x)) : Kept (unwindWith f s e) (unwindWith f' s e) := by
  rw [unwindWith_eq, unwindWith_eq]
  refine (Kept.refl _).bind fun l hl => ?_
  rw [fields_of_link hl] at h
  have ih := kept_unwindWith s l.receiver fun x hx => h x (List.mem_append_left _ hx)
  have hbefore : Kept (before s l.receiver (unwindWith f s l.receiver))
      (before s l.receiver (unwindWith f' s l.receiver)) := by
    unfold before
    split
    · exact .refl _
    · split
      · exact ih
      · exact .refl _
  refine hbefore.bind fun stages _ => ?_
  have hstage := Stage.kept_compileWith (fun x hx => h x (List.mem_append_right _ hx)) l.name l.call
  exact hstage.bind fun stage _ => .refl _
termination_by e.size
decreasing_by exact size_receiver hl

/-- A pipeline stays the same, if the values of its fields do. -/
theorem Pipeline.kept_compileWith {s : Scope} {e : Expr Nat}
    (h : ∀ x ∈ fields e, Kept (f x) (f' x)) : Kept (compileWith f s e) (compileWith f' s e) := by
  unfold compileWith
  split
  · exact .refl _
  · exact (kept_unwindWith s e h).map Pipeline.mk

end Kept

/-- Types decide whether an expression or a pipeline compiles, and never what it compiles to. With any
two oracles that both let it compile, the result is the same. If of the nodes of the expression the
second oracle classifies as the first does all those that the first classifies, then everything that
compiles with the first compiles with the second, to the same result. -/
theorem compile_gated_by_types (o₁ o₂ : Oracle) (s : Scope) (e : Expr Nat) :
    (∀ v₁ v₂, compile o₁ s e = .ok v₁ → compile o₂ s e = .ok v₂ → v₁ = v₂) ∧
      (∀ p₁ p₂, Pipeline.compile o₁ s e = .ok p₁ → Pipeline.compile o₂ s e = .ok p₂ → p₁ = p₂) ∧
      ((∀ n ∈ e.nodes, o₁ n ≠ .unknown → o₂ n = o₁ n) →
        (∀ v, compile o₁ s e = .ok v → compile o₂ s e = .ok v) ∧
          ∀ p, Pipeline.compile o₁ s e = .ok p → Pipeline.compile o₂ s e = .ok p) := by
  simp only [Pipeline.compile_eq_with]
  refine ⟨?_, ?_, ?_⟩
  · intro v₁ v₂ h₁ h₂
    exact (kept_written o₁ s e).unique (kept_written o₂ s e) h₁ h₂
  · intro p₁ p₂ h₁ h₂
    have hkept (o : Oracle) := Pipeline.kept_compileWith (s := s) (e := e)
      fun x _ => kept_written o s x
    exact (hkept o₁).unique (hkept o₂) h₁ h₂
  · intro h
    have hinforms : o₁.Informs o₂ e.nodes := h
    refine ⟨kept_compile s e hinforms, Pipeline.kept_compileWith fun x hx => ?_⟩
    exact kept_compile s x (hinforms.mono (e.closed_nodes x (Pipeline.field_mem_nodes e hx)).subset)

/-- The length of `this.a` needs only that `this.a` is an array; what else is known changes nothing. -/
theorem compile_gated_by_types_length :
    let e : Expr Nat := .property ⟨2, ⟨0, 13⟩⟩
      (.property ⟨1, ⟨0, 6⟩⟩ (.name ⟨0, ⟨0, 4⟩⟩ "this") "a") "length"
    let less : Oracle := fun n => if n.mark.label = 1 then .array else .unknown
    let more : Oracle := fun n => if n.mark.label = 1 then .array else .numeric
    compile less (.root "this") e = .ok (.single "$size" (.ofField "a")) ∧
      compile more (.root "this") e = .ok (.single "$size" (.ofField "a")) := by
  intro e less more
  have hless : compile less (.root "this") e = .ok (.single "$size" (.ofField "a")) := by
    cbv
  have hmore : ∀ n ∈ e.nodes, less n ≠ .unknown → more n = less n := by
    intro n _ hn
    simp only [less, more] at hn ⊢
    split
    · rfl
    · rename_i hlabel
      simp [hlabel] at hn
  exact ⟨hless, ((compile_gated_by_types less more (.root "this") e).2.2 hmore).1 _ hless⟩

end Aggregation
