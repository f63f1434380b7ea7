import Aggregation.Proofs.Building
import Aggregation.Proofs.Renaming
import Aggregation.Proofs.WellFormed

/-! Functions given to methods, and the operators that they become.

`Expr.callback?` follows a path to a function that is given to `filter` or `map`, and `Expr.site` says
where in the value of the whole the operator stands that the call becomes, and which parameters are bound
around it. `Aim.Spread` says how the aim to rename the parameter comes to the operands of a node: one of
them has the function in it, and nothing is to be renamed in the others. `Value.Renames` says of two
values that they differ in the variable of the `$filter` or `$map` at one place and in the references
that are bound by it, and operators over operands related in this way are so related themselves. -/
namespace Aggregation

variable {ν : Type}

/-! ### Functions given to methods -/

/-- The part of a node with the given index, as `Expr.rename` counts them. -/
def Expr.part? : Expr ν → Nat → Option (Expr ν)
  | .property _ e _, i => [e][i]?
  | .element _ e index, i => [e, index][i]?
  | .binary _ _ left right, i => [left, right][i]?
  | .unary _ _ operand, i => [operand][i]?
  | .conditional _ condition yes no, i => [condition, yes, no][i]?
  | .call _ callee args, i => (callee :: args)[i]?
  | .lambda _ _ body, i => [body][i]?
  | .function _ _ _ body, i => body[i]?.bind Statement.value?
  | .object _ ps, i => ps[i / 2]?.bind fun p => if i % 2 = 0 then some p.value else p.key?
  | _, _ => none

/-- The parameter of a function that is the part with the given index, if the node is a call of
`filter` or `map` with this function. -/
def Expr.callbackName? : Expr ν → Nat → Option String
  | .call _ callee [arg], 1 =>
    match callee.bare, arg.bare.callable? with
    | .property _ _ method, some ⟨[p], _⟩ => if Env.iterates method then some p.name else none
    | _, _ => none
  | _, _ => none

/-- A call of `filter` or `map` with a function, and the only parameter of the function. -/
structure Callback (ν : Type) where
  call : Expr ν
  param : String

/-- The call and the parameter of the function that a path leads to, if it is given to `filter` or `map`
and has one parameter. Parentheses do not count. -/
def Expr.callback? : Expr ν → List Nat → Option (Callback ν)
  | _, [] => none
  | e, [i] => (e.bare.callbackName? i).map (⟨e.bare, ·⟩)
  | e, i :: j :: path => (e.bare.part? i).bind fun x => x.callback? (j :: path)

/-! ### Where calls stand in values -/

/-- Where something stands in a value: the indices of the operands on the way to it, and the parameters
that are bound on the way, the outermost first. -/
structure Site where
  place : List Nat
  params : List String

namespace Site

def here : Site := ⟨[], []⟩

/-- A site in the operand with the given index. -/
def operand (i : Nat) (s : Site) : Site := ⟨i :: s.place, s.params⟩

/-- A site in what is computed for each element, which is the operand behind the array and the name of
the variable. -/
def element (param : String) (s : Site) : Site := ⟨2 :: s.place, param :: s.params⟩

/-- The scope at a site. -/
def scope (s : Site) (outer : Scope) : Scope := s.params.foldl Scope.bind outer

end Site

/-- The index of the object of a method among the operands of the call. -/
def objectIndex (method : String) : Nat :=
  if method = "includes" then 1 else 0

/-- The index of the argument of a method among the operands of the call. -/
def argumentIndex (method : String) : Nat :=
  if Env.iterates method then 2 else if method = "includes" ∨ method = "isArray" then 0 else 1

/-- The site in the value of a node of what stands at a site in the part with the given index. The object
of a method is an operand of the call, and the body of a function is one of the call that the function
is given to. -/
def Expr.locate : Expr ν → Nat → Site → Site
  | .call _ callee _, i, s =>
    match callee.bare with
    | .property _ _ method =>
      if i = 0 then ⟨objectIndex method :: s.place.tail, s.params⟩ else s.operand (argumentIndex method)
    | _ => s
  | .lambda _ ps _, _, s => ⟨s.place, ps.map (·.name) ++ s.params⟩
  | .function _ _ ps _, _, s => ⟨s.place, ps.map (·.name) ++ s.params⟩
  | _, i, s => s.operand i

/-- The site of the call that a path leads to, in the value of the expression. -/
def Expr.site : Expr ν → List Nat → Site
  | e, i :: j :: path =>
    match e.bare.part? i with
    | some x => e.bare.locate i (x.site (j :: path))
    | none => .here
  | _, _ => .here

/-- A path to a function leads to one of the parts first, unless the node is given the function. -/
theorem Expr.exists_part {e : Expr ν} {path : List Nat} {k : Callback ν}
    (hname : ∀ i, path = [i] → e.bare.callbackName? i = none) (h : e.callback? path = some k) :
    ∃ i path' x, path = i :: path' ∧ e.bare.part? i = some x ∧ x.callback? path' = some k ∧
      e.site path = e.bare.locate i (x.site path') := by
  match path with
  | [] => cases h
  | [i] =>
    obtain ⟨x, hx, -⟩ := Option.map_eq_some_iff.1 h
    rw [hname i rfl] at hx
    cases hx
  | i :: j :: path =>
    obtain ⟨x, hx, hk⟩ := Option.bind_eq_some_iff.1 h
    refine ⟨i, j :: path, x, rfl, hx, hk, ?_⟩
    rw [site, hx]

theorem Expr.site_of_bare {e e' : Expr ν} (h : e.bare = e'.bare) (path : List Nat) :
    e.site path = e'.site path := by
  match path with
  | [] | [_] => rfl
  | i :: j :: path => rw [site, site, h]

/-! ### Values -/

namespace Value

mutual

/-- The value with `y` for the variable `x`, where `x` is not bound anew. -/
def renameVar (x y : String) : Value → Value
  | fieldRef path => fieldRef path
  | localRef path => if path = "$$" ++ x then ofLocal y else localRef path
  | literal c => literal c
  | name s => name s
  | single op v => single op (renameVar x y v)
  | list op vs => list op (renameVars x y vs)
  | named op [("input", input), ("as", .name z), (key, body)] =>
    named op [("input", renameVar x y input), ("as", .name z),
      (key, if z = x then body else renameVar x y body)]
  | named op entries => named op (renameEntries x y entries)

def renameVars (x y : String) : List Value → List Value
  | [] => []
  | v :: vs => renameVar x y v :: renameVars x y vs

def renameEntries (x y : String) : List (String × Value) → List (String × Value)
  | [] => []
  | (key, v) :: entries => (key, renameVar x y v) :: renameEntries x y entries

end

/-- Values that differ in one operator over an array, at the place given by the indices of the operands on
the way to it. In the first it is `w`, whose variable is `x`, and in the second it has the variable `y`,
as have the references that are bound by it. -/
inductive Renames (x y : String) (w : Value) : List Nat → Value → Value → Prop
  | iteration {name key input body} : (name, key) ∈ iterationMethods →
      w = .named ("$" ++ name) [("input", input), ("as", .name x), (key, body)] →
      Renames x y w [] w
        (.named ("$" ++ name) [("input", input), ("as", .name y), (key, body.renameVar x y)])
  | single {place op v v'} : Renames x y w place v v' →
      Renames x y w (0 :: place) (.single op v) (.single op v')
  | list {place op vs i v v'} : vs[i]? = some v → Renames x y w place v v' →
      Renames x y w (i :: place) (.list op vs) (.list op (vs.set i v'))
  | named {place op entries i key v v'} : entries[i]? = some (key, v) → Renames x y w place v v' →
      Renames x y w (i :: place) (.named op entries) (.named op (entries.set i (key, v')))

/-- Lists of values that differ in this way in the value with the given index. -/
inductive RenamesOne (x y : String) (w : Value) (place : List Nat) :
    Nat → List Value → List Value → Prop
  | head {v v' vs} : Renames x y w place v v' → RenamesOne x y w place 0 (v :: vs) (v' :: vs)
  | tail {i v vs vs'} : RenamesOne x y w place i vs vs' →
      RenamesOne x y w place (i + 1) (v :: vs) (v :: vs')

theorem RenamesOne.list {x y op : String} {w : Value} {place : List Nat} {i : Nat}
    {vs vs' : List Value} (h : RenamesOne x y w place i vs vs') :
    Renames x y w (i :: place) (.list op vs) (.list op vs') := by
  obtain ⟨v, v', hi, rfl, hv⟩ : ∃ v v', vs[i]? = some v ∧ vs' = vs.set i v' ∧
      Renames x y w place v v' := by
    induction h with
    | @head v v' vs hv => exact ⟨v, v', rfl, rfl, hv⟩
    | @tail i u vs vs' _ ih =>
      obtain ⟨v, v', hi, rfl, hv⟩ := ih
      exact ⟨v, v', hi, rfl, hv⟩
  exact .list hi hv

end Value

/-! ### Where an aim goes -/

namespace Aim

theorem hide_child (b : Aim) (names : List String) (i : Nat) :
    (b.hide names).child i = (b.child i).hide names := by
  match b with
  | .nothing => rfl
  | .uses x =>
    show ((if x ∈ names then Aim.nothing else .uses x) : Aim).child i = _
    split <;> rename_i hx <;> simp [Aim.child, Aim.hide, hx]
  | .callback [] => rfl
  | .callback (j :: path) =>
    show (if i = j then Aim.callback path else Aim.nothing) =
      (if i = j then Aim.callback path else Aim.nothing).hide names
    split <;> rfl

theorem eq_of_child_eq {a : Aim} {i : Nat} (h : a.child i = .callback []) : a = .callback [i] := by
  match a with
  | .nothing => cases h
  | .uses x => cases h
  | .callback [] => cases h
  | .callback (j :: path) =>
    have hchild : (if i = j then Aim.callback path else Aim.nothing) = .callback [] := h
    split at hchild
    · rename_i hij
      rw [hij, Aim.callback.inj hchild]
    · cases hchild

/-- What the aim leads to in the expression, if anything, is the function of the given call. -/
def Leads (k : Callback ν) (e : Expr ν) : Aim → Prop
  | callback path => e.callback? path = some k
  | _ => True

/-- An operand with the aim for it. What stands at a site in its value stands at `site` of that in the
value of the node. -/
structure Operand (ν : Type) where
  aim : Aim
  expr : Expr ν
  site : Site → Site

/-- Operands one after the other, the first with the given index. -/
def operands (i : Nat) : List (Aim × Expr ν) → List (Operand ν)
  | [] => []
  | q :: l => ⟨q.1, q.2, .operand i⟩ :: operands (i + 1) l

/-- One of the operands has the function in it, and its call stands at the given site of the node. Nothing
is to be renamed in the others. -/
inductive One (k : Callback ν) : List (Operand ν) → Site → Prop
  | here {path e f l} : e.callback? path = some k → (∀ q ∈ l, q.aim = nothing) →
      One k (⟨callback path, e, f⟩ :: l) (f (e.site path))
  | there {e f l s} : One k l s → One k (⟨nothing, e, f⟩ :: l) s

/-- The aim for an expression comes to the given ones for its operands. -/
def Spread (k : Callback ν) (e : Expr ν) (l : List (Operand ν)) : Aim → Prop
  | nothing => ∀ q ∈ l, q.aim = nothing
  | uses z => ∀ q ∈ l, q.aim = uses z
  | callback path => One k l (e.site path)

variable {x y : String} {k : Callback ν} {a b : Aim} {e : Expr ν} {l : List (Operand ν)}
  {q : Operand ν} {s : Site}

theorem One.cases (h : One k l s) (hq : q ∈ l) :
    q.aim = nothing ∨ ∃ path, q.aim = callback path ∧ q.expr.callback? path = some k := by
  induction h with
  | here he hl =>
    rcases List.mem_cons.1 hq with rfl | hq
    · exact .inr ⟨_, rfl, he⟩
    · exact .inl (hl q hq)
  | there _ ih =>
    rcases List.mem_cons.1 hq with rfl | hq
    · exact .inl rfl
    · exact ih hq

/-- The aims for operands lead where the aim for the whole does. -/
theorem Spread.leads (h : a.Spread k e l) (hq : q ∈ l) : q.aim.Leads k q.expr := by
  cases a with
  | nothing => rw [h q hq]; trivial
  | uses z => rw [h q hq]; trivial
  | callback path =>
    obtain hq | ⟨path, hq, hx⟩ := One.cases h hq
    · rw [hq]; trivial
    · rw [hq]; exact hx

/-- The aims for operands treat names as the aim for the whole does. -/
theorem Spread.apply_eq (h : a.Spread k e l) (hq : q ∈ l) : q.aim.apply y = a.apply y := by
  cases a with
  | nothing => rw [h q hq]
  | uses z => rw [h q hq]
  | callback path =>
    obtain hq | ⟨path, hq, _⟩ := One.cases h hq <;> rw [hq] <;> rfl

/-- Parts with their aims, the first of them the part with index `i`. -/
def aimed (a : Aim) (f : Nat → Site → Site) (i : Nat) : List (Expr ν) → List (Operand ν)
  | [] => []
  | e :: es => ⟨a.child i, e, f i⟩ :: aimed a f (i + 1) es

theorem eq_nothing_of_aimed {f : Nat → Site → Site} {i j : Nat} {path : List Nat}
    {es : List (Expr ν)} (hij : i < j) (hq : q ∈ aimed (callback (i :: path)) f j es) :
    q.aim = nothing := by
  induction es generalizing j with
  | nil => cases hq
  | cons e es ih =>
    rcases List.mem_cons.1 hq with rfl | hq
    · exact if_neg (by omega)
    · exact ih (by omega) hq

theorem one_aimed {f : Nat → Site → Site} {i j : Nat} {path : List Nat} {es : List (Expr ν)}
    (hi : es[i]? = some e) (he : e.callback? path = some k) :
    One k (aimed (callback ((j + i) :: path)) f j es) (f (j + i) (e.site path)) := by
  induction es generalizing i j with
  | nil => cases hi
  | cons e' es ih =>
    cases i with
    | zero =>
      obtain rfl : e' = e := by simpa using hi
      have hself : (callback ((j + 0) :: path)).child j = callback path := if_pos rfl
      rw [aimed, hself]
      exact .here he fun q hq => eq_nothing_of_aimed (by omega) hq
    | succ i =>
      have hother : (callback ((j + (i + 1)) :: path)).child j = nothing := if_neg (by omega)
      rw [aimed, hother]
      have hrest := ih (j := j + 1) (by simpa using hi)
      rw [show j + 1 + i = j + (i + 1) by omega] at hrest
      exact .there hrest

theorem spread_aimed_of_child {f : Nat → Site → Site} {es : List (Expr ν)} (j : Nat)
    (h : ∀ i, a.child i = a) (ha : ∀ path, a ≠ callback path) : a.Spread k e (aimed a f j es) := by
  have hall (q : Operand ν) (hq : q ∈ aimed a f j es) : q.aim = a := by
    induction es generalizing j with
    | nil => cases hq
    | cons e es ih =>
      rcases List.mem_cons.1 hq with rfl | hq
      · exact h j
      · exact ih (j + 1) hq
  cases a with
  | nothing => exact hall
  | uses z => exact hall
  | callback path => exact absurd rfl (ha path)

/-- The aim for a node comes to those for its parts, if it does not end in a function that the node is
given. -/
theorem spread_parts (es : List (Expr ν)) (hparts : ∀ i, e.bare.part? i = es[i]?)
    (hname : ∀ i, a = callback [i] → e.bare.callbackName? i = none) (h : a.Leads k e) :
    a.Spread k e (aimed a e.bare.locate 0 es) := by
  match a with
  | nothing => exact spread_aimed_of_child 0 (fun _ => rfl) (by simp)
  | uses z => exact spread_aimed_of_child 0 (fun _ => rfl) (by simp)
  | callback path =>
    obtain ⟨i, path', x, rfl, hx, hk, hsite⟩ :=
      Expr.exists_part (fun i hi => hname i (congrArg callback hi)) h
    rw [hparts] at hx
    have hone := one_aimed (f := e.bare.locate) (j := 0) hx hk
    rw [Nat.zero_add] at hone
    show One k _ (e.site (i :: path'))
    rwa [hsite]

/-- The second operand has all in it that the aim for the first leads to, and its aim leads there. -/
structure Narrows (k : Callback ν) (q q' : Operand ν) : Prop where
  nothing : q.aim = nothing → q'.aim = nothing
  uses : ∀ z, q.aim = uses z → q'.aim = uses z
  callback : ∀ path, q.aim = callback path → q.expr.callback? path = some k →
    ∃ path', q'.aim = callback path' ∧ q'.expr.callback? path' = some k ∧
      q'.site (q'.expr.site path') = q.site (q.expr.site path)

/-- An operand with one part, which is not given a function, narrows to the part. -/
theorem narrows_part {e' : Expr ν} {f f' : Site → Site} (hparts : ∀ i, e.bare.part? i = [e'][i]?)
    (hname : ∀ i, e.bare.callbackName? i = none) (hf : ∀ s, f' s = f (e.bare.locate 0 s)) (b : Aim) :
    Narrows k ⟨b, e, f⟩ ⟨b.child 0, e', f'⟩ where
  nothing := by rintro rfl; rfl
  uses := by rintro z rfl; rfl
  callback := by
    rintro path rfl hx
    obtain ⟨i, path', x, rfl, hpart, hk, hsite⟩ := Expr.exists_part (fun i _ => hname i) hx
    rw [hparts] at hpart
    obtain ⟨rfl, rfl⟩ : i = 0 ∧ e' = x := by simpa [List.getElem?_singleton] using hpart
    exact ⟨path', rfl, hk, (hf _).trans (congrArg f hsite.symm)⟩

theorem Narrows.refl (q : Operand ν) : Narrows k q q :=
  ⟨id, fun _ => id, fun path h hx => ⟨path, h, hx, rfl⟩⟩

theorem narrows_aimed {f f' : Nat → Site → Site} {i : Nat} (h : ∀ j, i ≤ j → f' j = f j)
    (es : List (Expr ν)) : List.Forall₂ (Narrows k) (a.aimed f i es) (a.aimed f' i es) := by
  induction es generalizing i with
  | nil => exact .nil
  | cons e es ih =>
    rw [aimed, aimed, h i (Nat.le_refl i)]
    exact .cons (.refl _) (ih fun j hj => h j (Nat.le_of_lt hj))

theorem eq_of_narrows {l' : List (Operand ν)} (hl : List.Forall₂ (Narrows k) l l')
    (hb : ∀ q q' : Operand ν, Narrows k q q' → q.aim = b → q'.aim = b) (h : ∀ q ∈ l, q.aim = b) :
    ∀ q ∈ l', q.aim = b := by
  induction hl with
  | nil => exact h
  | cons hqq' _ ih =>
    rw [List.forall_mem_cons] at h ⊢
    exact ⟨hb _ _ hqq' h.1, ih h.2⟩

theorem One.narrow {l' : List (Operand ν)} (h : One k l s)
    (hl : List.Forall₂ (Narrows k) l l') : One k l' s := by
  induction h generalizing l' with
  | @here path e f l he hnothing =>
    cases hl with
    | @cons _ q' _ l' hqq' hl =>
      obtain ⟨b, e', f'⟩ := q'
      obtain ⟨path', rfl, hx, hsite⟩ := hqq'.callback path rfl he
      rw [show f (e.site path) = f' (e'.site path') from hsite.symm]
      exact .here hx (eq_of_narrows hl (fun _ _ hn => hn.nothing) hnothing)
  | there _ ih =>
    cases hl with
    | @cons _ q' _ l' hqq' hl =>
      obtain ⟨b, e', f'⟩ := q'
      obtain rfl : b = Aim.nothing := hqq'.nothing rfl
      exact .there (ih hl)

theorem Spread.narrow {l' : List (Operand ν)} (h : a.Spread k e l)
    (hl : List.Forall₂ (Narrows k) l l') : a.Spread k e l' := by
  cases a with
  | nothing => exact eq_of_narrows hl (fun _ _ hn => hn.nothing) h
  | uses z => exact eq_of_narrows hl (fun _ _ hn => hn.uses z) h
  | callback path => exact One.narrow h hl

/-- An operand without functions that are given to methods can be left out. -/
theorem One.tail (h : One k (q :: l) s) (hq : ∀ path, q.expr.callback? path = none) : One k l s := by
  cases h with
  | here hx =>
    rw [hq] at hx
    cases hx
  | there h => exact h

theorem Spread.tail (h : a.Spread k e (q :: l)) (hq : ∀ path, q.expr.callback? path = none) :
    a.Spread k e l := by
  cases a with
  | nothing => exact (List.forall_mem_cons.1 h).2
  | uses z => exact (List.forall_mem_cons.1 h).2
  | callback path => exact One.tail h hq

theorem One.swap {q q' : Operand ν} (h : One k [q, q'] s) : One k [q', q] s := by
  cases h with
  | here hx hq' =>
    obtain ⟨b, e', f⟩ := q'
    obtain rfl : b = nothing := hq' _ List.mem_cons_self
    exact .there (.here hx fun _ h => nomatch h)
  | there h =>
    cases h with
    | here hx => exact .here hx (by simp)
    | there h => cases h

theorem Spread.swap {q q' : Operand ν} (h : a.Spread k e [q, q']) : a.Spread k e [q', q] := by
  cases a with
  | nothing => exact fun p hp => h p (by simpa [or_comm] using hp)
  | uses z => exact fun p hp => h p (by simpa [or_comm] using hp)
  | callback path => exact One.swap h

theorem Leads.of_paren {m : Mark ν} (h : a.Leads k (.paren m e)) : a.Leads k e := by
  match a with
  | nothing => trivial
  | uses z => trivial
  | callback [] => exact h
  | callback [i] => exact h
  | callback (i :: j :: path) => exact h

theorem Leads.hide {names : List String} (h : a.Leads k e) : (a.hide names).Leads k e := by
  cases a with
  | nothing => trivial
  | uses z =>
    show (if z ∈ names then nothing else uses z : Aim).Leads k e
    by_cases hz : z ∈ names
    · rw [if_pos hz]
      trivial
    · rw [if_neg hz]
      trivial
  | callback path => exact h

/-! What becomes of values. -/

/-- The values of an expression and of the renamed expression; `P` says of an operator, with the parameters
bound around it, whether its variable is the one that is renamed. -/
def Relates (P : List String → Value → Prop) (x y : String) (e : Expr ν) (v v' : Value) : Aim → Prop
  | nothing => v' = v
  | uses z => v' = v.renameVar z y
  | callback path => ∃ w, P (e.site path).params w ∧ w.Renames x y (e.site path).place v v'

/-- The values of the operands of an expression and of the renamed operands. -/
def RelatesAll (P : List String → Value → Prop) (x y : String) (e : Expr ν) (vs vs' : List Value) :
    Aim → Prop
  | nothing => vs' = vs
  | uses z => vs' = Value.renameVars z y vs
  | callback path => ∃ w place i, P (e.site path).params w ∧ (e.site path).place = i :: place ∧
      w.RenamesOne x y place i vs vs'

variable {P : List String → Value → Prop} {l : List (Aim × Expr ν)}

theorem Relates.of_bare {e' : Expr ν} {v v' : Value} (he : e.bare = e'.bare)
    (h : a.Relates P x y e' v v') : a.Relates P x y e v v' := by
  cases a with
  | nothing => exact h
  | uses z => exact h
  | callback path =>
    rw [Relates, Expr.site_of_bare he]
    exact h

theorem eq_of_relates_nothing {i : Nat} {vs : List (Value × Value)}
    (hl : ∀ q ∈ operands i l, q.aim = nothing)
    (hv : List.Forall₂ (fun q v => q.1.Relates P x y q.2 v.1 v.2) l vs) :
    vs.map (·.2) = vs.map (·.1) := by
  induction hv generalizing i with
  | nil => rfl
  | @cons q v l vs hqv _ ih =>
    obtain ⟨hq, hl⟩ := List.forall_mem_cons.1 hl
    rw [show q.1 = nothing from hq] at hqv
    exact congrArg₂ List.cons hqv (ih hl)

/-- Operands of which one has the function in it. -/
theorem One.relatesAll {i : Nat} {vs : List (Value × Value)} (h : One k (operands i l) s)
    (hv : List.Forall₂ (fun q v => q.1.Relates P x y q.2 v.1 v.2) l vs) :
    ∃ w place j, P s.params w ∧ s.place = (i + j) :: place ∧
      w.RenamesOne x y place j (vs.map (·.1)) (vs.map (·.2)) := by
  induction hv generalizing i with
  | nil => cases h
  | @cons q v l vs hqv hvs ih =>
    obtain ⟨b, e⟩ := q
    cases h with
    | @here path _ _ _ he hl =>
      obtain ⟨w, hw, hv⟩ := hqv
      refine ⟨w, (e.site path).place, 0, hw, rfl, ?_⟩
      rw [List.map_cons, List.map_cons, eq_of_relates_nothing hl hvs]
      exact .head hv
    | there h =>
      obtain ⟨w, place, j, hw, hplace, hvs⟩ := ih h
      refine ⟨w, place, j + 1, hw, ?_, ?_⟩
      · rw [hplace, Nat.add_right_comm, Nat.add_assoc]
      · rw [List.map_cons, List.map_cons, show v.2 = v.1 from hqv]
        exact .tail hvs

theorem Spread.relatesAll (h : a.Spread k e (operands 0 l)) (vs : List (Value × Value))
    (hv : List.Forall₂ (fun q v => q.1.Relates P x y q.2 v.1 v.2) l vs) :
    a.RelatesAll P x y e (vs.map (·.1)) (vs.map (·.2)) := by
  cases a with
  | nothing => exact eq_of_relates_nothing h hv
  | uses z =>
    have hall : ∀ q ∈ operands 0 l, q.aim = uses z := h
    clear h
    generalize 0 = i at hall
    induction hv generalizing i with
    | nil => rfl
    | @cons q v l vs hqv _ ih =>
      obtain ⟨hq, hl⟩ := List.forall_mem_cons.1 hall
      rw [show q.1 = uses z from hq] at hqv
      exact congrArg₂ List.cons hqv (ih (i + 1) hl)
  | callback path =>
    obtain ⟨w, place, j, hw, hplace, hvs⟩ := One.relatesAll h hv
    rw [Nat.zero_add] at hplace
    exact ⟨w, place, j, hw, hplace, hvs⟩

/-! Operators over related operands. -/

theorem RelatesAll.single {v v' : Value} (h : a.RelatesAll P x y e [v] [v']) (op : String) :
    a.Relates P x y e (.single op v) (.single op v') := by
  cases a with
  | nothing =>
    obtain rfl := List.singleton_inj.1 h
    rfl
  | uses z =>
    obtain rfl := List.singleton_inj.1 h
    rfl
  | callback path =>
    obtain ⟨w, place, i, hw, hplace, h⟩ := h
    refine ⟨w, hw, ?_⟩
    rw [hplace]
    cases h with
    | head h => exact .single h
    | tail h => cases h

theorem RelatesAll.list {vs vs' : List Value} (h : a.RelatesAll P x y e vs vs') (op : String) :
    a.Relates P x y e (.list op vs) (.list op vs') := by
  cases a with
  | nothing => exact congrArg (Value.list op) h
  | uses z => exact congrArg (Value.list op) h
  | callback path =>
    obtain ⟨w, place, i, hw, hplace, h⟩ := h
    refine ⟨w, hw, ?_⟩
    rw [hplace]
    exact h.list

theorem RelatesAll.choice {u v w u' v' w' : Value}
    (h : a.RelatesAll P x y e [u, v, w] [u', v', w']) :
    a.Relates P x y e (.named "$cond" [("if", u), ("then", v), ("else", w)])
      (.named "$cond" [("if", u'), ("then", v'), ("else", w')]) := by
  cases a with
  | nothing =>
    obtain ⟨rfl, rfl, rfl⟩ : u' = u ∧ v' = v ∧ w' = w := by simpa [RelatesAll] using h
    rfl
  | uses z =>
    obtain ⟨rfl, rfl, rfl⟩ : u' = u.renameVar z y ∧ v' = v.renameVar z y ∧ w' = w.renameVar z y := by
      simpa [RelatesAll, Value.renameVars] using h
    rfl
  | callback path =>
    obtain ⟨t, place, i, ht, hplace, h⟩ := h
    refine ⟨t, ht, ?_⟩
    rw [hplace]
    cases h with
    | head h => exact .named (i := 0) rfl h
    | tail h =>
      cases h with
      | head h => exact .named (i := 1) rfl h
      | tail h =>
        cases h with
        | head h => exact .named (i := 2) rfl h
        | tail h => cases h

theorem Spread.iteration {name key p : String} {v v' w w' : Value} {c : Aim} {z z' : Expr ν}
    (h : a.Spread k e [⟨b, z, .operand 0⟩, ⟨c, z', .element p⟩]) (hv : b.Relates P x y z v v')
    (hw : (c.hide [p]).Relates (fun ps => P (p :: ps)) x y z' w w') :
    a.Relates P x y e (.named ("$" ++ name) [("input", v), ("as", .name p), (key, w)])
      (.named ("$" ++ name) [("input", v'), ("as", .name p), (key, w')]) := by
  cases a with
  | nothing =>
    obtain ⟨rfl, rfl⟩ : b = nothing ∧ c = nothing := by simpa [Spread] using h
    obtain rfl : v' = v := hv
    obtain rfl : w' = w := hw
    rfl
  | uses z =>
    obtain ⟨rfl, rfl⟩ : b = uses z ∧ c = uses z := by simpa [Spread] using h
    obtain rfl : v' = v.renameVar z y := hv
    show Value.named _ [_, _, (key, w')] = .named _ [_, _, (key, if p = z then w else w.renameVar z y)]
    by_cases hp : p = z
    · rw [hide, if_pos (by simp [hp])] at hw
      rw [if_pos hp, show w' = w from hw]
    · rw [hide, if_neg (by simpa using Ne.symm hp)] at hw
      rw [if_neg hp, show w' = w.renameVar z y from hw]
  | callback path =>
    have hone : One k [⟨b, z, .operand 0⟩, ⟨c, z', .element p⟩] (e.site path) := h
    show ∃ t, P (e.site path).params t ∧ t.Renames x y (e.site path).place _ _
    generalize e.site path = s at hone
    cases hone with
    | here hx hc =>
      obtain rfl : c = nothing := hc _ List.mem_cons_self
      obtain rfl : w' = w := hw
      obtain ⟨t, ht, hv⟩ := hv
      exact ⟨t, ht, .named (i := 0) rfl hv⟩
    | there h =>
      obtain rfl : v' = v := hv
      cases h with
      | here hx hc =>
        obtain ⟨t, ht, hw⟩ := hw
        exact ⟨t, ht, .named (i := 2) rfl hw⟩
      | there h => cases h

end Aim

end Aggregation
