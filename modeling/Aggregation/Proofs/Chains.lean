import Mathlib.Data.List.Forall2
import Aggregation.Proofs.Building

/-! Chains of stage calls.

`Pipeline.Chain scope e calls` says that `e` is the placeholder with the given stages called on it one
after the other. Parentheses may stand around each call, around each method that is called and around
each expression that it is called on.

The pipeline of a chain is made of what its calls give, one by one from the placeholder outwards
(`Chain.unwind_eq_mapM`). An expression that is no chain is broken somewhere, and that is found before
any stage is compiled (`chain_or_broken`). So a pipeline compiles just if it is a chain of stages that
all compile, and of several stages that do not the one nearest to the placeholder is reported
(`compile_iff_chain`). -/
namespace Aggregation

/-! ### Steps one after the other -/

section Steps

variable {ε α β : Type} {f : α → Except ε β} {x : α} {xs : List α} {e : ε}

theorem mapM_cons_of_ok {b : β} (h : f x = .ok b) :
    (x :: xs).mapM f = (xs.mapM f).map (b :: ·) := by
  rw [List.mapM_cons, h]
  cases hxs : xs.mapM f <;> rfl

theorem mapM_cons_of_error (h : f x = .error e) : (x :: xs).mapM f = .error e := by
  rw [List.mapM_cons, h]
  rfl

/-- Steps come out well if each of them does. -/
theorem mapM_eq_ok_iff {bs : List β} :
    xs.mapM f = .ok bs ↔ List.Forall₂ (fun a b => f a = .ok b) xs bs := by
  induction xs generalizing bs with
  | nil => cases bs <;> simp [pure, Except.pure]
  | cons a xs ih =>
    rw [List.forall₂_cons_left_iff]
    cases ha : f a with
    | error e =>
      rw [mapM_cons_of_error ha]
      simp
    | ok b =>
      rw [mapM_cons_of_ok ha]
      cases hxs : xs.mapM f with
      | error e =>
        rw [hxs] at ih
        simp [Except.map, ← ih]
      | ok cs =>
        rw [hxs] at ih
        simp [Except.map, ← ih, eq_comm]

/-- Steps fail as the first of them that fails. -/
theorem mapM_eq_error_iff :
    xs.mapM f = .error e ↔ ∃ before a after bs, xs = before ++ a :: after ∧
      List.Forall₂ (fun a b => f a = .ok b) before bs ∧ f a = .error e := by
  constructor
  · intro h
    induction xs with
    | nil => cases h
    | cons a xs ih =>
      cases ha : f a with
      | error e' =>
        rw [mapM_cons_of_error ha] at h
        obtain rfl := Except.error.inj h
        exact ⟨[], a, xs, [], rfl, .nil, ha⟩
      | ok b =>
        rw [mapM_cons_of_ok ha] at h
        cases hxs : xs.mapM f with
        | ok cs =>
          rw [hxs] at h
          cases h
        | error e' =>
          rw [hxs] at h
          obtain rfl := Except.error.inj h
          obtain ⟨before, a', after, bs, rfl, hbefore, ha'⟩ := ih hxs
          exact ⟨a :: before, a', after, b :: bs, rfl, .cons ha hbefore, ha'⟩
  · rintro ⟨before, a, after, bs, rfl, hbefore, ha⟩
    induction hbefore with
    | nil => exact mapM_cons_of_error ha
    | cons hb _ ih =>
      rw [List.cons_append, mapM_cons_of_ok hb, ih]
      rfl

end Steps

/-! ### Chains -/

/-- A call of a stage: the call itself, the name of the stage, and the arguments. -/
structure StageCall where
  call : Expr Nat
  name : String
  args : List (Expr Nat)

def StageCall.compile (oracle : Oracle) (scope : Scope) (c : StageCall) : Except CompileFault Stage :=
  Stage.compile oracle scope c.name c.call c.args

namespace Pipeline

/-- The expression is the placeholder, which no parameter hides, with the calls made on it from the
first to the last, parentheses aside. -/
inductive Chain (scope : Scope) : Expr Nat → List StageCall → Prop
  | placeholder {e m} (he : e.bare = .name m scope.placeholder)
      (hfree : scope.placeholder ∉ scope.locals) : Chain scope e []
  | call {e m callee args p object name calls} (he : e.bare = .call m callee args)
      (hcallee : callee.bare = .property p object name) (hobject : Chain scope object calls) :
      Chain scope e (calls ++ [⟨.call m callee args, name, args⟩])

variable {scope : Scope} {e : Expr Nat} {calls : List StageCall}

theorem isContext_iff :
    scope.isContext e = true ↔
      (∃ m, e.bare = .name m scope.placeholder) ∧ scope.placeholder ∉ scope.locals := by
  unfold Scope.isContext
  cases h : e.bare with
  | name m x =>
    simp only [Expr.name?, Option.any_some, beq_iff_eq, Scope.resolve_eq_context, Expr.name.injEq]
    constructor
    · rintro ⟨hx, rfl⟩
      exact ⟨⟨m, rfl, rfl⟩, hx⟩
    · rintro ⟨⟨_, -, rfl⟩, hx⟩
      exact ⟨hx, rfl⟩
  | _ => simp [Expr.name?]

theorem isContext_bare (scope : Scope) (e : Expr Nat) : scope.isContext e.bare = scope.isContext e := by
  rw [Scope.isContext, Scope.isContext, Expr.bare_bare]

/-- The placeholder alone is a chain without calls. -/
theorem Chain.of_isContext (h : scope.isContext e = true) : Chain scope e [] := by
  obtain ⟨⟨m, he⟩, hfree⟩ := isContext_iff.1 h
  exact .placeholder he hfree

/-- Parentheses around a chain make a chain of the same calls. -/
theorem Chain.of_bare (h : Chain scope e.bare calls) : Chain scope e calls := by
  cases h with
  | placeholder he hfree => exact .placeholder (by rw [← he, Expr.bare_bare]) hfree
  | call he hcallee hobject => exact .call (by rw [← he, Expr.bare_bare]) hcallee hobject

/-- A chain is the placeholder, or a call. -/
theorem Chain.cases_root (h : Chain scope e calls) :
    (scope.isContext e = true ∧ calls = []) ∨ (e.bare.isCall = true ∧ calls ≠ []) := by
  cases h with
  | placeholder he hfree => exact .inl ⟨isContext_iff.2 ⟨⟨_, he⟩, hfree⟩, rfl⟩
  | call he _ _ => exact .inr ⟨by rw [he]; rfl, by simp⟩

theorem not_isContext_of_isCall (h : e.bare.isCall = true) : scope.isContext e = false := by
  unfold Scope.isContext
  cases he : e.bare with
  | call m callee args => rfl
  | _ =>
    rw [he] at h
    cases h

theorem link_of_call {m p : Mark Nat} {callee object : Expr Nat} {name : String}
    {args : List (Expr Nat)} (he : e.bare = .call m callee args)
    (hcallee : callee.bare = .property p object name) :
    link e = .ok ⟨.call m callee args, object.bare, name, args⟩ := by
  simp only [link, he, hcallee]

/-- What is no call of a method breaks a chain, and all else is such a call. -/
theorem link_cases (e : Expr Nat) :
    (∃ reason, link e = broken e.bare reason) ∨
      ∃ m callee args p object name, e.bare = .call m callee args ∧
        callee.bare = .property p object name := by
  cases he : e.bare with
  | call m callee args =>
    cases hcallee : callee.bare with
    | property p object name => exact .inr ⟨_, _, _, _, _, _, rfl, hcallee⟩
    | _ => exact .inl ⟨.notMethod, by simp only [link, he, hcallee]⟩
  | _ => exact .inl ⟨.notCall, by simp only [link, he]⟩

/-! ### Stages of a chain -/

variable {oracle : Oracle}

theorem unwind_bare (oracle : Oracle) (scope : Scope) (e : Expr Nat) :
    unwind oracle scope e.bare = unwind oracle scope e := by
  rw [unwind_eq, unwind_eq, link, link, Expr.bare_bare]

/-- The stages of a chain are those of its calls, in their order. -/
theorem Chain.unwind_eq_mapM (h : Chain scope e calls) (hne : calls ≠ []) :
    unwind oracle scope e = calls.mapM (StageCall.compile oracle scope) := by
  induction h with
  | placeholder => exact absurd rfl hne
  | @call e m callee args p object name calls he hcallee hobject ih =>
    have hbefore : before scope object.bare (unwind oracle scope object.bare) =
        calls.mapM (StageCall.compile oracle scope) := by
      rcases hobject.cases_root with ⟨hcontext, rfl⟩ | ⟨hcall, hcalls⟩
      · rw [before, isContext_bare, if_pos hcontext]
        rfl
      · have hcontext : ¬ scope.isContext object = true := by
          rw [not_isContext_of_isCall hcall]
          exact Bool.false_ne_true
        rw [before, isContext_bare, if_neg hcontext, if_pos hcall, unwind_bare, ih hcalls]
    rw [unwind_eq, link_of_call he hcallee]
    show before scope object.bare (unwind oracle scope object.bare) >>= _ = _
    rw [hbefore, List.mapM_append, List.mapM_cons, List.mapM_nil]
    simp only [bind_assoc, pure_bind]
    rfl

/-- An expression is a chain with calls, or it is broken somewhere. -/
theorem chain_or_broken (oracle : Oracle) (scope : Scope) (e : Expr Nat) :
    (∃ calls, calls ≠ [] ∧ Chain scope e calls) ∨
      ∃ reason node, unwind oracle scope e = broken node reason := by
  rcases link_cases e with ⟨reason, hlink⟩ | ⟨m, callee, args, p, object, name, he, hcallee⟩
  · right
    refine ⟨reason, e.bare, ?_⟩
    rw [unwind_eq, hlink]
    rfl
  · have hlink := link_of_call he hcallee
    have hunwind : unwind oracle scope e =
        before scope object.bare (unwind oracle scope object.bare) >>= fun stages =>
          Stage.compile oracle scope name (.call m callee args) args >>= fun stage =>
            pure (stages ++ [stage]) := by
      rw [unwind_eq, hlink]
      rfl
    by_cases hcontext : scope.isContext object.bare = true
    · left
      have hobject : Chain scope object [] := .of_isContext (isContext_bare scope object ▸ hcontext)
      exact ⟨_, List.cons_ne_nil _ _, .call he hcallee hobject⟩
    · rw [hunwind, before, if_neg hcontext]
      by_cases hcall : object.bare.isCall = true
      · rw [if_pos hcall]
        -- What is called on is smaller, so it is a chain or broken itself.
        have hsize := size_receiver hlink
        rcases chain_or_broken oracle scope object.bare with ⟨calls, -, hchain⟩ | ⟨reason, node, hb⟩
        · left
          exact ⟨_, List.append_ne_nil_of_right_ne_nil _ (List.cons_ne_nil _ _),
            .call he hcallee hchain.of_bare⟩
        · right
          refine ⟨reason, node, ?_⟩
          rw [hb]
          rfl
      · right
        rw [if_neg hcall]
        exact ⟨.notRooted scope.placeholder, object.bare, rfl⟩
termination_by e.size
decreasing_by exact hsize

/-- A chain with calls makes the pipeline of their stages. -/
theorem Chain.compile_eq_mapM (h : Chain scope e calls) (hne : calls ≠ []) :
    compile oracle scope e = (calls.mapM (StageCall.compile oracle scope)).map Pipeline.mk := by
  rcases h.cases_root with ⟨-, hnil⟩ | ⟨hcall, -⟩
  · exact absurd hnil hne
  · rw [compile, not_isContext_of_isCall hcall, h.unwind_eq_mapM hne]
    rfl

theorem Chain.compile_eq_ok_iff (h : Chain scope e calls) (hne : calls ≠ []) {stages : List Stage} :
    compile oracle scope e = .ok ⟨stages⟩ ↔
      List.Forall₂ (fun c s => c.compile oracle scope = .ok s) calls stages := by
  rw [h.compile_eq_mapM hne, ← mapM_eq_ok_iff]
  cases calls.mapM (StageCall.compile oracle scope) <;> simp [Except.map]

theorem Chain.compile_eq_error_iff (h : Chain scope e calls) (hne : calls ≠ [])
    {fault : CompileFault} :
    compile oracle scope e = .error fault ↔
      ∃ before c after stages, calls = before ++ c :: after ∧
        List.Forall₂ (fun c s => c.compile oracle scope = .ok s) before stages ∧
        c.compile oracle scope = .error fault := by
  rw [h.compile_eq_mapM hne, ← mapM_eq_error_iff]
  cases calls.mapM (StageCall.compile oracle scope) <;> simp [Except.map]

/-- What is no chain with calls makes no pipeline, because it is broken somewhere. -/
theorem compile_of_not_chain (oracle : Oracle) (h : ∀ calls, Chain scope e calls → calls = []) :
    ∃ reason node, compile oracle scope e = broken node reason := by
  unfold compile
  split
  · exact ⟨_, _, rfl⟩
  · rcases chain_or_broken oracle scope e with ⟨calls, hne, hchain⟩ | ⟨reason, node, hb⟩
    · exact absurd (h calls hchain) hne
    · refine ⟨reason, node, ?_⟩
      rw [hb]
      rfl

/-- A pipeline compiles just if it is a chain of at least one call on the placeholder, and the stages are
then those of the calls, in their order. An expression that is no such chain is reported as a broken
chain, whatever its stages are. A chain of which a stage does not compile fails as the first such stage
does, counted from the placeholder. -/
theorem compile_iff_chain (oracle : Oracle) (scope : Scope) (e : Expr Nat) :
    (∀ stages, compile oracle scope e = .ok ⟨stages⟩ ↔
        ∃ calls, calls ≠ [] ∧ Chain scope e calls ∧
          List.Forall₂ (fun c s => c.compile oracle scope = .ok s) calls stages) ∧
      ((∀ calls, Chain scope e calls → calls = []) →
        ∃ reason node, compile oracle scope e = .error ⟨.brokenChain reason, node⟩) ∧
      ∀ calls, calls ≠ [] → Chain scope e calls →
        ∀ fault, compile oracle scope e = .error fault ↔
          ∃ before c after stages, calls = before ++ c :: after ∧
            List.Forall₂ (fun c s => c.compile oracle scope = .ok s) before stages ∧
            c.compile oracle scope = .error fault := by
  refine ⟨fun stages => ⟨fun h => ?_, ?_⟩, compile_of_not_chain oracle, ?_⟩
  · by_contra hnone
    -- The pipeline is no chain, or it is one whose stages are others; it compiled in neither case.
    have hchain : ∀ calls, Chain scope e calls → calls = [] := by
      intro calls hchain
      by_contra hne
      exact hnone ⟨calls, hne, hchain, (hchain.compile_eq_ok_iff hne).1 h⟩
    obtain ⟨reason, node, hb⟩ := compile_of_not_chain oracle hchain
    rw [hb] at h
    cases h
  · rintro ⟨calls, hne, hchain, hstages⟩
    exact (hchain.compile_eq_ok_iff hne).2 hstages
  · intro calls hne hchain fault
    exact hchain.compile_eq_error_iff hne

/-- `((this).$match().$addFields)()`, in parentheses itself: both stages fail, and the one that is
reported is nearer to the placeholder. If the placeholder has another name the chain is broken, and no
stage is reported. -/
theorem compile_iff_chain_match :
    let m : Mark Nat := ⟨0, ⟨0, 0⟩⟩
    let first := .call m (.property m (.paren m (.name m "this")) "$match") []
    let second := .call m (.paren m (.property m first "$addFields")) []
    compile .unknown (.root "this") (.paren m second) = .error ⟨.unknownStage "$match", first⟩ ∧
      ∃ reason node,
        compile .unknown (.root "that") (.paren m second) = .error ⟨.brokenChain reason, node⟩ := by
  intro m first second
  constructor
  · have hmatch : Chain (.root "this") first [⟨first, "$match", []⟩] :=
      .call rfl rfl (.placeholder rfl List.not_mem_nil)
    have hchain : Chain (.root "this") (.paren m second)
        [⟨first, "$match", []⟩, ⟨second, "$addFields", []⟩] :=
      .call rfl rfl hmatch
    have hfailed : (StageCall.mk first "$match" []).compile .unknown (.root "this") =
        .error ⟨.unknownStage "$match", first⟩ := rfl
    exact ((compile_iff_chain .unknown (.root "this") (.paren m second)).2.2 _
      (List.cons_ne_nil _ _) hchain _).2 ⟨[], _, _, [], rfl, .nil, hfailed⟩
  · refine (compile_iff_chain .unknown (.root "that") (.paren m second)).2.1 ?_
    intro calls hchain
    cases hchain with
    | placeholder => rfl
    | call he hcallee hobject =>
      cases he
      cases hcallee
      cases hobject with
      | placeholder he => cases he
      | call he hcallee hobject =>
        cases he
        cases hcallee
        cases hobject with
        | placeholder he => exact absurd (Expr.name.inj he).2 (by decide)
        | call he => cases he

end Pipeline

end Aggregation
