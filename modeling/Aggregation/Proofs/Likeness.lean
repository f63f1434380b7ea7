import Mathlib.Data.List.Forall2
import Aggregation.Compile.Pipeline

/-! Expressions that compile alike.

Let a relation `R` between expressions be given. Two nodes have one `Form` if, parentheses aside, they
are nodes of one kind and their parts are related. The rules of two such nodes are alike as soon as the
classes of related operands are the same (`Rule.alike_of`): they write the same operators over related
operands, or fail for the same cause at related nodes. Nothing is asked of the numbers and the spans of
the nodes, so what `R` is decides what a statement says: with equality it speaks of one expression and
two oracles, with a renumbering of expressions that were moved, with grouping of parentheses.

Typing sees some parentheses that the rules look through: those around a called method and around the
string that is a key. A `Layer` of `R` is a form of which these are the same. -/
namespace Aggregation

variable {α β γ δ : Type}

/-! ### Results -/

/-- Results that agree: values related by `V`, or faults with one cause at nodes related by `R`. -/
inductive Agree (R : Expr Nat → Expr Nat → Prop) (V : α → β → Prop) :
    Except CompileFault α → Except CompileFault β → Prop
  | ok {a b} : V a b → Agree R V (.ok a) (.ok b)
  | fault {cause e e'} : R e e' → Agree R V (.error ⟨cause, e⟩) (.error ⟨cause, e'⟩)

namespace Agree

variable {R : Expr Nat → Expr Nat → Prop} {V : α → β → Prop} {W : γ → δ → Prop}

/-- Steps that agree make computations that agree. -/
theorem bind {x : Except CompileFault α} {y : Except CompileFault β}
    {f : α → Except CompileFault γ} {g : β → Except CompileFault δ} (h : Agree R V x y)
    (hf : ∀ a b, V a b → Agree R W (f a) (g b)) : Agree R W (x >>= f) (y >>= g) := by
  cases h with
  | ok hab => exact hf _ _ hab
  | fault he => exact .fault he

theorem map {x : Except CompileFault α} {y : Except CompileFault β} {f : α → γ} {g : β → δ}
    (h : Agree R V x y) (hf : ∀ a b, V a b → W (f a) (g b)) : Agree R W (x.map f) (y.map g) := by
  cases h with
  | ok hab => exact .ok (hf _ _ hab)
  | fault he => exact .fault he

theorem mono {V' : α → β → Prop} {x : Except CompileFault α} {y : Except CompileFault β}
    (h : Agree R V x y) (hv : ∀ a b, V a b → V' a b) : Agree R V' x y := by
  cases h with
  | ok hab => exact .ok (hv _ _ hab)
  | fault he => exact .fault he

/-- Values that agree are what came out. -/
theorem keep {x : Except CompileFault α} {y : Except CompileFault β} (h : Agree R V x y) :
    Agree R (fun a b => V a b ∧ x = .ok a) x y := by
  cases h with
  | ok hab => exact .ok ⟨hab, rfl⟩
  | fault he => exact .fault he

theorem of_eq {x y : Except CompileFault α} (h : x = y) : Agree (· = ·) (· = ·) x y := by
  subst h
  cases x with
  | ok a => exact .ok rfl
  | error f => exact .fault rfl

/-- Results that agree by equality are equal. -/
theorem eq {x y : Except CompileFault α} (h : Agree (· = ·) (· = ·) x y) : x = y := by
  cases h with
  | ok hab => rw [hab]
  | fault he => rw [he]

end Agree

/-! ### Nodes -/

/-- Parameters with the same name and annotation. -/
def Param.Alike (p p' : Param) : Prop :=
  p.name = p'.name ∧ p.type? = p'.type?

/-- Functions that do the same: like parameters, and related results. -/
structure Callable.Alike (R : Expr Nat → Expr Nat → Prop) (f f' : Callable Nat) : Prop where
  params : List.Forall₂ Param.Alike f.params f'.params
  result : Option.Rel R f.result? f'.result?

/-- Entries of objects with the same key and related values. -/
inductive Property.Alike (R : Expr Nat → Expr Nat → Prop) : Property Nat → Property Nat → Prop
  | field {s s' key e e'} : R e e' → Alike R (.field s key e) (.field s' key e')
  | shorthand {s s' key e e'} : R e e' → Alike R (.shorthand s key e) (.shorthand s' key e')
  | computed {s s' k k' e e'} : R k k' → R e e' → Alike R (.computed s k e) (.computed s' k' e')

def Expr.isGroup {ν : Type} : Expr ν → Bool
  | .paren _ _ => true
  | _ => false

/-- Looking through parentheses finds none. -/
theorem Expr.isGroup_bare {ν : Type} (e : Expr ν) : e.bare.isGroup = false := by
  match e with
  | paren _ e => exact e.isGroup_bare
  | name _ _ | literal _ _ | property _ _ _ | element _ _ _ | binary _ _ _ _ | unary _ _ _
  | conditional _ _ _ _ | call _ _ _ | lambda _ _ _ | function _ _ _ _ | object _ _ => rfl

theorem Expr.bare_of_not_isGroup {ν : Type} {e : Expr ν} (h : e.isGroup = false) : e.bare = e := by
  cases e with
  | paren m inner => cases h
  | _ => rfl

def Expr.isArrayName {ν : Type} (e : Expr ν) : Bool :=
  e.name? == some "Array"

/-- Nodes of one form with related parts. Of a call, what counts is the property that is called, and
whether it stands in parentheses. -/
inductive Layer (R : Expr Nat → Expr Nat → Prop) : Expr Nat → Expr Nat → Prop
  | name {m m' x} : Layer R (.name m x) (.name m' x)
  | literal {m m' c} : Layer R (.literal m c) (.literal m' c)
  | property {m m' o o' name} : R o o' → Layer R (.property m o name) (.property m' o' name)
  | element {m m' o o' i i'} : R o o' → R i i' → Env.stringKey i = Env.stringKey i' →
      Layer R (.element m o i) (.element m' o' i')
  | binary {m m' op l l' r r'} : R l l' → R r r' →
      Layer R (.binary m op l r) (.binary m' op l' r')
  | unary {m m' op e e'} : R e e' → Layer R (.unary m op e) (.unary m' op e')
  | conditional {m m' c c' y y' n n'} : R c c' → R y y' → R n n' →
      Layer R (.conditional m c y n) (.conditional m' c' y' n')
  | method {m m' callee callee' p p' o o' name args args'} :
      callee.bare = .property p o name → callee'.bare = .property p' o' name →
      callee.isGroup = callee'.isGroup → o.isArrayName = o'.isArrayName → R o o' →
      List.Forall₂ R args args' → Layer R (.call m callee args) (.call m' callee' args')
  | call {m m' callee callee' args args'} : (∀ p o name, callee.bare ≠ .property p o name) →
      (∀ p o name, callee'.bare ≠ .property p o name) → List.Forall₂ R args args' →
      Layer R (.call m callee args) (.call m' callee' args')
  | function {e e' f f'} : e.callable? = some f → e'.callable? = some f' → f.Alike R f' →
      Layer R e e'
  | object {m m' ps ps'} : List.Forall₂ (Property.Alike R) ps ps' →
      Layer R (.object m ps) (.object m' ps')

/-- Nodes of one form with related parts, as the rules see them. Of a call, what counts is the property
that is called. -/
inductive Form (R : Expr Nat → Expr Nat → Prop) : Expr Nat → Expr Nat → Prop
  | name {m m' x} : Form R (.name m x) (.name m' x)
  | literal {m m' c} : Form R (.literal m c) (.literal m' c)
  | property {m m' o o' name} : R o o' → Form R (.property m o name) (.property m' o' name)
  | element {m m' o o' i i'} : R o o' → R i i' → Form R (.element m o i) (.element m' o' i')
  | binary {m m' op l l' r r'} : R l l' → R r r' → Form R (.binary m op l r) (.binary m' op l' r')
  | unary {m m' op e e'} : R e e' → Form R (.unary m op e) (.unary m' op e')
  | conditional {m m' c c' y y' n n'} : R c c' → R y y' → R n n' →
      Form R (.conditional m c y n) (.conditional m' c' y' n')
  | method {m m' callee callee' p p' o o' name args args'} :
      callee.bare = .property p o name → callee'.bare = .property p' o' name →
      o.isArrayName = o'.isArrayName → R o o' → List.Forall₂ R args args' →
      Form R (.call m callee args) (.call m' callee' args')
  | call {m m' callee callee' args args'} : (∀ p o name, callee.bare ≠ .property p o name) →
      (∀ p o name, callee'.bare ≠ .property p o name) → List.Forall₂ R args args' →
      Form R (.call m callee args) (.call m' callee' args')
  | function {e e' f f'} : e.callable? = some f → e'.callable? = some f' → f.Alike R f' → Form R e e'
  | object {m m' ps ps'} : List.Forall₂ (Property.Alike R) ps ps' →
      Form R (.object m ps) (.object m' ps')

/-- A function is written with an arrow over an expression, or as a block. -/
theorem Layer.cases_of_callable {e : Expr Nat} {f : Callable Nat} (h : e.callable? = some f) :
    (∃ m params body, e = .lambda m params body) ∨
      ∃ m style params body, e = .function m style params body := by
  cases e with
  | lambda m params body => exact .inl ⟨m, params, body, rfl⟩
  | function m style params body => exact .inr ⟨m, style, params, body, rfl⟩
  | _ => simp [Expr.callable?] at h

namespace Form

variable {R : Expr Nat → Expr Nat → Prop} {e e' : Expr Nat}

theorem name?_eq (h : Form R e e') : e.name? = e'.name? := by
  cases h with
  | function hf hf' _ =>
    obtain ⟨m, ps, b, rfl⟩ | ⟨m, st, ps, b, rfl⟩ := Layer.cases_of_callable hf <;>
      obtain ⟨m', ps', b', rfl⟩ | ⟨m', st', ps', b', rfl⟩ := Layer.cases_of_callable hf' <;> rfl
  | _ => rfl

theorem stringKey_eq (h : Form R e e') : Env.stringKey e = Env.stringKey e' := by
  cases h with
  | @literal m m' c => cases c <;> rfl
  | function hf hf' _ =>
    obtain ⟨m, ps, b, rfl⟩ | ⟨m, st, ps, b, rfl⟩ := Layer.cases_of_callable hf <;>
      obtain ⟨m', ps', b', rfl⟩ | ⟨m', st', ps', b', rfl⟩ := Layer.cases_of_callable hf' <;> rfl
  | _ => rfl

/-- A function is like a function only. -/
theorem callable? (h : Form R e e') :
    Option.Rel (Callable.Alike R) e.callable? e'.callable? := by
  cases h with
  | function hf hf' hff =>
    rw [hf, hf']
    exact .some hff
  | _ => exact .none

end Form

namespace Layer

variable {R : Expr Nat → Expr Nat → Prop} {e e' : Expr Nat}

theorem form (h : Layer R e e') : Form R e e' := by
  cases h with
  | name => exact .name
  | literal => exact .literal
  | property ho => exact .property ho
  | element ho hi _ => exact .element ho hi
  | binary hl hr => exact .binary hl hr
  | unary he => exact .unary he
  | conditional hc hy hn => exact .conditional hc hy hn
  | method hp hp' _ harray ho hargs => exact .method hp hp' harray ho hargs
  | call hn hn' hargs => exact .call hn hn' hargs
  | function hf hf' hff => exact .function hf hf' hff
  | object hps => exact .object hps

theorem callable? (h : Layer R e e') :
    Option.Rel (Callable.Alike R) e.callable? e'.callable? :=
  h.form.callable?

end Layer

/-- A relation that holds of nodes only together with the parts that rules look at, whatever parentheses
stand around them. -/
structure Resemblance (R : Expr Nat → Expr Nat → Prop) : Prop where
  bare {e e'} : R e e' → R e.bare e'.bare
  form {e e'} : R e e' → Form R e.bare e'.bare

theorem Resemblance.isContext_eq {R : Expr Nat → Expr Nat → Prop} {e e' : Expr Nat}
    (L : Resemblance R) (h : R e e') (s : Scope) : s.isContext e = s.isContext e' := by
  rw [Scope.isContext, Scope.isContext, (L.form h).name?_eq]

/-- A relation that holds of nodes only together with their parts, whatever parentheses stand around
them. -/
structure Likeness (R : Expr Nat → Expr Nat → Prop) : Prop where
  bare {e e'} : R e e' → R e.bare e'.bare
  layer {e e'} : R e e' → Layer R e.bare e'.bare

namespace Likeness

variable {R : Expr Nat → Expr Nat → Prop} {e e' : Expr Nat}

theorem resemblance (L : Likeness R) : Resemblance R where
  bare := L.bare
  form := fun h => (L.layer h).form

/-- Every expression is like itself. -/
theorem eq : Likeness (· = ·) where
  bare := by
    rintro e _ rfl
    rfl
  layer := by
    rintro e _ rfl
    have hgroup := e.isGroup_bare
    cases h : e.bare with
    | name m x => exact .name
    | literal m c => exact .literal
    | paren m inner =>
      rw [h] at hgroup
      cases hgroup
    | property m object name => exact .property rfl
    | element m object index => exact .element rfl rfl rfl
    | binary m op left right => exact .binary rfl rfl
    | unary m op operand => exact .unary rfl
    | conditional m condition yes no => exact .conditional rfl rfl rfl
    | call m callee args =>
      by_cases hc : ∃ p o name, callee.bare = .property p o name
      · obtain ⟨p, o, name, hc⟩ := hc
        exact .method hc hc rfl rfl rfl (List.forall₂_refl args)
      · push Not at hc
        exact .call hc hc (List.forall₂_refl args)
    | lambda m params body =>
      exact .function rfl rfl ⟨List.forall₂_same.2 fun p _ => ⟨rfl, rfl⟩, .some rfl⟩
    | function m style params body =>
      refine .function rfl rfl ⟨List.forall₂_same.2 fun p _ => ⟨rfl, rfl⟩, ?_⟩
      cases Statement.singleResult? body with
      | none => exact .none
      | some e => exact .some rfl
    | object m ps =>
      refine .object (List.forall₂_same.2 fun p _ => ?_)
      cases p with
      | field => exact .field rfl
      | shorthand => exact .shorthand rfl
      | computed => exact .computed rfl rfl

end Likeness

/-! ### Rules -/

namespace Rule

/-- Rules that write the same over related operands. -/
inductive Alike (R : Expr Nat → Expr Nat → Prop) : Rule → Rule → Prop
  | done {v} : Alike R (.done v) (.done v)
  | same {e e'} : R e e' → Alike R (.same e) (.same e')
  | single {op e e'} : R e e' → Alike R (.single op e) (.single op e')
  | one {op e e'} : R e e' → Alike R (.one op e) (.one op e')
  | two {op x x' y y'} : R x x' → R y y' → Alike R (.two op x y) (.two op x' y')
  | swapped {op x x' y y'} : R x x' → R y y' → Alike R (.swapped op x y) (.swapped op x' y')
  | choice {c c' y y' n n'} : R c c' → R y y' → R n n' →
      Alike R (.choice c y n) (.choice c' y' n')
  | each {op key param i i' b b'} : R i i' → R b b' →
      Alike R (.each op key param i b) (.each op key param i' b')

theorem Alike.eq {r r' : Rule} (h : Alike (· = ·) r r') : r = r' := by
  cases h <;> simp_all

theorem Alike.refl (r : Rule) : Alike (· = ·) r r := by
  cases r <;> constructor <;> rfl

/-- The parts of a node that its rule looks at or compiles in the scope of the node itself. They are
the only ones whose class it asks for (`alike_of`). -/
def parts (scope : Scope) : Expr Nat → List (Expr Nat)
  | .paren _ inner => [inner]
  | .property _ object _ => [object]
  | .element _ object index => [object, index]
  | .binary _ _ left right => [left, right]
  | .unary _ _ operand => [operand]
  | .conditional _ condition yes no => [condition, yes, no]
  | .call _ callee args =>
    match callee.bare with
    | .property _ object name =>
      if object.isArrayName && scope.isFree "Array" then args
      else if Env.iterates name then [object]
      else object :: args
    | _ => []
  | _ => []

section Alike

variable {R : Expr Nat → Expr Nat → Prop} {o o' : Oracle} {s : Scope} {e e' : Expr Nat}

theorem ofElement_eq (oracle : Oracle) (scope : Scope) (e object index : Expr Nat) :
    ofElement oracle scope e object index =
      if scope.isContext object then
        match Env.stringKey index.bare with
        | some key => ofField e key
        | none => refuse e .computedField
      else onArray oracle e object .element (two "$arrayElemAt" object index) := by
  unfold ofElement
  congr 1
  split
  · rename_i h
    rw [h, Env.stringKey]
  · rename_i h
    cases hk : Env.stringKey index.bare with
    | none => rfl
    | some key =>
      unfold Env.stringKey at hk
      split at hk
      · rename_i m s' hs
        exact absurd hs (h m s')
      · cases hk

theorem agree_refuse {V : α → β → Prop} (h : R e e') (reason : Unsupported) :
    Agree R V (refuse e reason) (refuse e' reason) :=
  .fault h

theorem agree_misfit {V : α → β → Prop} (h : R e e') (reason : Misshapen) :
    Agree R V (misfit e reason) (misfit e' reason) :=
  .fault h

theorem alike_ofField (h : R e e') (name : String) :
    Agree R (Alike R) (ofField e name) (ofField e' name) := by
  unfold ofField
  split
  · exact agree_refuse h _
  · exact .ok .done

theorem alike_ofName (h : R e e') (name : String) :
    Agree R (Alike R) (ofName s e name) (ofName s e' name) := by
  unfold ofName
  split
  · exact .ok .done
  · exact agree_refuse h _
  · exact agree_refuse h _

theorem alike_onArray {x x' : Expr Nat} {r r' : Rule} (h : R e e')
    (hc : classOf o x = classOf o' x') (hr : Alike R r r') (use : ArrayUse) :
    Agree R (Alike R) (onArray o e x use r) (onArray o' e' x' use r') := by
  unfold onArray
  rw [hc]
  by_cases ha : classOf o' x' = .array
  · simp only [if_pos ha]
    exact .ok hr
  · simp only [if_neg ha]
    exact agree_refuse h _

theorem alike_ofBinary {l l' r r' : Expr Nat} (h : R e e') (hl : R l l') (hr : R r r')
    (cl : classOf o l = classOf o' l') (cr : classOf o r = classOf o' r') (op : BinaryOp) :
    Agree R (Alike R) (ofBinary o e op l r) (ofBinary o' e' op l' r') := by
  unfold ofBinary
  cases target op with
  | typed required name =>
    simp only [cl, cr]
    split
    · exact .ok (.two hl hr)
    · exact agree_refuse h _
  | untyped name => exact .ok (.two hl hr)
  | loose => exact agree_refuse h _
  | missing => exact agree_refuse h _

theorem alike_ofUnary {x x' : Expr Nat} (h : R e e') (hx : R x x')
    (cx : classOf o x = classOf o' x') (op : UnaryOp) :
    Agree R (Alike R) (ofUnary o e op x) (ofUnary o' e' op x') := by
  cases op with
  | not =>
    simp only [ofUnary, cx]
    split
    · exact .ok (.one hx)
    · exact agree_refuse h _
  | negate => exact agree_refuse h _

theorem alike_ofProperty {x x' : Expr Nat} (h : R e e') (hx : R x x')
    (hctx : s.isContext x = s.isContext x') (cx : classOf o x = classOf o' x') (name : String) :
    Agree R (Alike R) (ofProperty o s e x name) (ofProperty o' s e' x' name) := by
  unfold ofProperty
  rw [← hctx]
  by_cases hc : s.isContext x
  · simp only [if_pos hc]
    exact alike_ofField h name
  · simp only [if_neg hc]
    split
    · exact agree_refuse h _
    · exact alike_onArray h cx (.single hx) _

theorem alike_ofElement {x x' i i' : Expr Nat} (h : R e e') (hx : R x x') (hi : R i i')
    (hctx : s.isContext x = s.isContext x') (cx : classOf o x = classOf o' x')
    (hk : Env.stringKey i.bare = Env.stringKey i'.bare) :
    Agree R (Alike R) (ofElement o s e x i) (ofElement o' s e' x' i') := by
  rw [ofElement_eq, ofElement_eq, ← hctx, ← hk]
  by_cases hc : s.isContext x
  · simp only [if_pos hc]
    split
    · exact alike_ofField h _
    · exact agree_refuse h _
  · simp only [if_neg hc]
    exact alike_onArray h cx (.two hx hi) _

theorem alike_onlyArgument {args args' : List (Expr Nat)} (h : R e e')
    (hargs : List.Forall₂ R args args') (method : String) :
    Agree R (fun x x' => R x x' ∧ args = [x]) (onlyArgument e method args)
      (onlyArgument e' method args') := by
  cases hargs with
  | nil => exact agree_misfit h _
  | cons hx hrest =>
    cases hrest with
    | nil => exact .ok ⟨hx, rfl⟩
    | cons hy hrest =>
      simp only [onlyArgument, List.length_cons, hrest.length_eq]
      exact agree_misfit h _

theorem alike_ofArrayFunction {args args' : List (Expr Nat)} (h : R e e')
    (hargs : List.Forall₂ R args args') (name : String)
    (hc : ∀ x x', R x x' → x ∈ args → classOf o x = classOf o' x') :
    Agree R (Alike R) (ofArrayFunction o e name args) (ofArrayFunction o' e' name args') := by
  unfold ofArrayFunction
  split
  · exact agree_refuse h _
  · refine (alike_onlyArgument h hargs _).bind ?_
    rintro x x' ⟨hx, rfl⟩
    simp only [← hc x x' hx (List.mem_singleton.2 rfl)]
    split
    · exact .ok (.one hx)
    · exact agree_refuse h _

theorem alike_ofIteration (L : Resemblance R) {input input' : Expr Nat}
    {args args' : List (Expr Nat)} (h : R e e') (hin : R input input')
    (hargs : List.Forall₂ R args args') (method key : String) :
    Agree R (Alike R) (ofIteration e method key input args)
      (ofIteration e' method key input' args') := by
  unfold ofIteration
  refine (alike_onlyArgument h hargs _).bind ?_
  rintro arg arg' ⟨harg, -⟩
  have hbare := L.bare harg
  have hrel := (L.form harg).callable?
  generalize arg.bare.callable? = f, arg'.bare.callable? = f' at hrel ⊢
  cases hrel with
  | none => exact agree_misfit hbare _
  | @some f f' hff =>
    obtain ⟨params, result⟩ := f
    obtain ⟨params', result'⟩ := f'
    obtain ⟨hps, hres⟩ := hff
    cases hps with
    | nil => exact agree_misfit hbare _
    | cons hp hps =>
      cases hps with
      | nil =>
        cases hres with
        | none => exact agree_misfit hbare _
        | some hb =>
          simp only [hp.1]
          exact .ok (.each hin hb)
      | cons hq hps =>
        simp only [List.length_cons, hps.length_eq]
        exact agree_misfit hbare _

theorem alike_ofMethod (L : Resemblance R) {x x' : Expr Nat} {args args' : List (Expr Nat)}
    (h : R e e') (hx : R x x') (hargs : List.Forall₂ R args args') (name : String)
    (hc : name = "concat" → ∀ y y', R y y' → y ∈ args → classOf o y = classOf o' y') :
    Agree R (Alike R) (ofMethod o e x name args) (ofMethod o' e' x' name args') := by
  unfold ofMethod
  split
  · refine (alike_onlyArgument h hargs _).bind ?_
    rintro y y' ⟨hy, rfl⟩
    simp only [← hc rfl y y' hy (List.mem_singleton.2 rfl)]
    split
    · exact .ok (.two hx hy)
    · exact agree_refuse h _
  · exact alike_ofIteration L h hx hargs _ _
  · exact alike_ofIteration L h hx hargs _ _
  · exact (alike_onlyArgument h hargs _).bind fun y y' hy => .ok (.swapped hx hy.1)
  · exact (alike_onlyArgument h hargs _).bind fun y y' hy => .ok (.two hx hy.1)
  · cases hargs with
    | nil => exact .ok (.single hx)
    | cons hy hrest =>
      simp only [List.isEmpty_cons, Bool.false_eq_true, if_false, List.length_cons,
        hrest.length_eq]
      exact agree_misfit h _
  · exact agree_refuse h _

theorem alike_ofCall (L : Resemblance R) {m p p' : Mark Nat} {callee callee' x x' : Expr Nat}
    {name : String} {args args' : List (Expr Nat)} (h : R e e')
    (hp : callee.bare = .property p x name) (hp' : callee'.bare = .property p' x' name)
    (harray : x.isArrayName = x'.isArrayName) (hx : R x x') (hargs : List.Forall₂ R args args')
    (hc : ∀ y y', R y y' → y ∈ parts s (.call m callee args) → classOf o y = classOf o' y') :
    Agree R (Alike R) (ofCall o s e callee args) (ofCall o' s e' callee' args') := by
  have hctx := L.isContext_eq hx s
  have harray' : x.name? = some "Array" ↔ x'.name? = some "Array" := by
    simpa [Expr.isArrayName] using harray
  simp only [parts, hp] at hc
  simp only [ofCall, hp, hp', ← harray', ← hctx]
  by_cases ha : x.name? = some "Array" ∧ s.isFree "Array"
  · have ha' : (x.isArrayName && s.isFree "Array") = true := by simpa [Expr.isArrayName] using ha
    simp only [if_pos ha]
    rw [if_pos ha'] at hc
    exact alike_ofArrayFunction h hargs name hc
  · have ha' : ¬ (x.isArrayName && s.isFree "Array") = true := by simpa [Expr.isArrayName] using ha
    have hclass : classOf o x = classOf o' x' := by
      refine hc x x' hx ?_
      rw [if_neg ha']
      split <;> exact List.mem_cons_self
    simp only [if_neg ha, hclass]
    split
    · exact agree_refuse h _
    · split
      · refine alike_ofMethod L h hx hargs name fun hn y y' hy hmem => hc y y' hy ?_
        subst hn
        rw [if_neg ha']
        exact List.mem_cons_of_mem x hmem
      · exact agree_refuse h _

theorem ofCall_of_ne_property {callee : Expr Nat} (h : ∀ p x name, callee.bare ≠ .property p x name)
    (args : List (Expr Nat)) : ofCall o s e callee args = refuse e .callee := by
  unfold ofCall
  split
  · rename_i p x name hp
    exact absurd hp (h p x name)
  · rfl

/-- The rules of like nodes are alike, if the classes that they ask for are the same. -/
theorem alike_of (L : Resemblance R) (h : R e e')
    (hc : ∀ x x', R x x' → x ∈ parts s e.bare → classOf o x = classOf o' x') :
    Agree R (Alike R) (of o s e.bare) (of o' s e'.bare) := by
  have hb := L.bare h
  have hl := L.form h
  generalize e.bare = e, e'.bare = e' at hb hl hc
  cases hl with
  | name => exact alike_ofName hb _
  | literal => exact .ok .done
  | property hx =>
    exact alike_ofProperty hb hx (L.isContext_eq hx s) (hc _ _ hx (by simp [parts])) _
  | element hx hi =>
    exact alike_ofElement hb hx hi (L.isContext_eq hx s) (hc _ _ hx (by simp [parts]))
      (L.form hi).stringKey_eq
  | binary hx hy =>
    exact alike_ofBinary hb hx hy (hc _ _ hx (by simp [parts])) (hc _ _ hy (by simp [parts])) _
  | unary hx => exact alike_ofUnary hb hx (hc _ _ hx (by simp [parts])) _
  | conditional hx hy hz => exact .ok (.choice hx hy hz)
  | method hp hp' harray hx hargs =>
    exact alike_ofCall L hb hp hp' harray hx hargs hc
  | call hn hn' _ =>
    rw [of, of, ofCall_of_ne_property hn, ofCall_of_ne_property hn']
    exact agree_refuse hb _
  | function hf hf' hff =>
    obtain ⟨m, ps, b, rfl⟩ | ⟨m, st, ps, b, rfl⟩ := Layer.cases_of_callable hf <;>
      obtain ⟨m', ps', b', rfl⟩ | ⟨m', st', ps', b', rfl⟩ := Layer.cases_of_callable hf' <;>
      exact agree_refuse hb _
  | object hps => exact agree_refuse hb _

/-- A rule asks for the classes of parts of its node only. -/
theorem of_congr (hc : ∀ x ∈ parts s e, classOf o x = classOf o' x) : of o s e = of o' s e := by
  have hb (h : e.bare = e) : of o s e = of o' s e := by
    have hparts : ∀ x x', x = x' → x ∈ parts s e.bare → classOf o x = classOf o' x' := by
      rintro x _ rfl hx
      rw [h] at hx
      exact hc x hx
    have halike := alike_of Likeness.eq.resemblance rfl hparts
    rw [h] at halike
    exact (halike.mono fun _ _ => Alike.eq).eq
  cases e with
  | paren m inner => rfl
  | _ => exact hb rfl

end Alike

end Rule

end Aggregation
