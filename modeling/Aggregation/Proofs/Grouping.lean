import Aggregation.Proofs.Erasure
import Aggregation.Proofs.Simulation

/-! Parentheses.

Parentheses change neither the value of an expression nor the cause of a fault, except in three places:
around a method that is called, around the string that names a field in brackets, and around `Array`
where one of its functions is called. `Expr.ungroup` leaves out all other parentheses, and expressions
that it makes equal compile alike (`compile_infer_of_ungroup_eq`). In each of the three places a pair of
parentheses turns an expression that compiles into one that does not (`regrouped_differ`). -/
namespace Aggregation

variable {ν : Type}

/-- The expression in parentheses, if they are to be kept. -/
def Expr.keep (kept : Bool) (e : Expr Unit) : Expr Unit :=
  if kept then .paren .erased e else e

/-- Whether the expression is a string in parentheses. -/
def Expr.isGroupedString (e : Expr ν) : Bool :=
  e.isGroup && (Env.stringKey e.bare).isSome

/-- Whether the expression is `Array` in parentheses. -/
def Expr.isGroupedArray (e : Expr ν) : Bool :=
  e.isGroup && e.bare.isArrayName

/-- Whether a function of `Array` in parentheses is called. -/
def Expr.callsGroupedArray (callee : Expr ν) : Bool :=
  match callee.bare with
  | .property _ o _ => o.isGroupedArray
  | _ => false

/-- What is called, with the parentheses that `callee` has around it and around `Array`. -/
def Expr.regroup (callee : Expr ν) : Expr Unit → Expr Unit
  | .property m o x => .keep callee.isGroup (.property m (.keep callee.callsGroupedArray o) x)
  | e => e

mutual

/-- The expression without numbers and spans, and without parentheses where they change nothing. -/
def Expr.ungroup : Expr ν → Expr Unit
  | .name _ x => .name .erased x
  | .literal _ c => .literal .erased c
  | .paren _ e => e.ungroup
  | .property _ object name => .property .erased object.ungroup name
  | .element _ object index =>
    .element .erased object.ungroup (.keep index.isGroupedString index.ungroup)
  | .binary _ op left right => .binary .erased op left.ungroup right.ungroup
  | .unary _ op operand => .unary .erased op operand.ungroup
  | .conditional _ condition yes no =>
    .conditional .erased condition.ungroup yes.ungroup no.ungroup
  | .call _ callee args => .call .erased (callee.regroup callee.ungroup) (ungroupAll args)
  | .lambda _ params body => .lambda .erased (params.map Param.erase) body.ungroup
  | .function _ style params body =>
    .function .erased style (params.map Param.erase) (ungroupStatements body)
  | .object _ properties => .object .erased (ungroupProperties properties)

def ungroupAll : List (Expr ν) → List (Expr Unit)
  | [] => []
  | e :: es => e.ungroup :: ungroupAll es

def ungroupProperties : List (Property ν) → List (Property Unit)
  | [] => []
  | .field _ key value :: ps => .field ⟨0, 0⟩ key value.ungroup :: ungroupProperties ps
  | .shorthand _ key value :: ps => .shorthand ⟨0, 0⟩ key value.ungroup :: ungroupProperties ps
  | .computed _ key value :: ps =>
    .computed ⟨0, 0⟩ key.ungroup value.ungroup :: ungroupProperties ps

def ungroupStatements : List (Statement ν) → List (Statement Unit)
  | [] => []
  | .declaration _ name none :: ss => .declaration ⟨0, 0⟩ name none :: ungroupStatements ss
  | .declaration _ name (some e) :: ss =>
    .declaration ⟨0, 0⟩ name (some e.ungroup) :: ungroupStatements ss
  | .result _ none :: ss => .result ⟨0, 0⟩ none :: ungroupStatements ss
  | .result _ (some e) :: ss => .result ⟨0, 0⟩ (some e.ungroup) :: ungroupStatements ss
  | .expression _ e :: ss => .expression ⟨0, 0⟩ e.ungroup :: ungroupStatements ss

end

namespace Expr

theorem ungroup_bare (e : Expr ν) : e.bare.ungroup = e.ungroup := by
  match e with
  | paren _ inner => exact ungroup_bare inner
  | name _ _ | literal _ _ | property _ _ _ | element _ _ _ | binary _ _ _ _ | unary _ _ _
  | conditional _ _ _ _ | call _ _ _ | lambda _ _ _ | function _ _ _ _ | object _ _ => rfl

/-- No parentheses are left around an expression. -/
theorem isGroup_ungroup (e : Expr ν) : e.ungroup.isGroup = false := by
  match e with
  | paren _ inner => exact isGroup_ungroup inner
  | name _ _ | literal _ _ | property _ _ _ | element _ _ _ | binary _ _ _ _ | unary _ _ _
  | conditional _ _ _ _ | call _ _ _ | lambda _ _ _ | function _ _ _ _ | object _ _ => rfl

theorem name?_ungroup (e : Expr ν) : e.ungroup.name? = e.bare.name? := by
  match e with
  | paren _ inner => exact name?_ungroup inner
  | name _ _ | literal _ _ | property _ _ _ | element _ _ _ | binary _ _ _ _ | unary _ _ _
  | conditional _ _ _ _ | call _ _ _ | lambda _ _ _ | function _ _ _ _ | object _ _ => rfl

theorem stringKey_ungroup (e : Expr ν) : Env.stringKey e.ungroup = Env.stringKey e.bare := by
  match e with
  | paren _ inner => exact stringKey_ungroup inner
  | literal _ c => cases c <;> rfl
  | name _ _ | property _ _ _ | element _ _ _ | binary _ _ _ _ | unary _ _ _
  | conditional _ _ _ _ | call _ _ _ | lambda _ _ _ | function _ _ _ _ | object _ _ => rfl

/-- Kept parentheses can be told from none. -/
theorem keep_inj {kept kept' : Bool} {e e' : Expr Unit} (he : e.isGroup = false)
    (he' : e'.isGroup = false) (h : keep kept e = keep kept' e') : kept = kept' ∧ e = e' := by
  cases kept <;> cases kept'
  · exact ⟨rfl, h⟩
  · subst h
    cases he
  · subst h
    cases he'
  · exact ⟨rfl, (Expr.paren.inj h).2⟩

/-- A string is the key of an element if it is not in parentheses. -/
theorem stringKey_keep (e : Expr ν) :
    Env.stringKey (keep e.isGroupedString e.ungroup) = Env.stringKey e := by
  cases hg : e.isGroup with
  | false =>
    rw [isGroupedString, hg, ← bare_of_not_isGroup hg, bare_bare]
    exact (stringKey_ungroup e.bare).trans (by rw [bare_bare])
  | true =>
    have hkey : Env.stringKey e = none := by
      cases e with
      | paren m inner => rfl
      | _ => cases hg
    rw [hkey, isGroupedString, hg, Bool.true_and]
    cases hs : Env.stringKey e.bare with
    | some key => rfl
    | none => exact (stringKey_ungroup e).trans hs

/-- `Array` in parentheses is not the name `Array`. -/
theorem isArrayName_keep (e : Expr ν) :
    (keep e.isGroupedArray e.ungroup).isArrayName = e.isArrayName := by
  have hname : e.ungroup.isArrayName = e.bare.isArrayName := by
    rw [isArrayName, isArrayName, name?_ungroup]
  cases hg : e.isGroup with
  | false =>
    rw [isGroupedArray, hg]
    exact hname.trans (by rw [bare_of_not_isGroup hg])
  | true =>
    have hkey : e.isArrayName = false := by
      cases e with
      | paren m inner => rfl
      | _ => cases hg
    rw [hkey, isGroupedArray, hg, Bool.true_and]
    cases ha : e.bare.isArrayName with
    | true => rfl
    | false => exact hname.trans ha

theorem regroup_of_property {callee : Expr ν} {p : Mark ν} {o : Expr ν} {x : String}
    (h : callee.bare = .property p o x) :
    callee.regroup callee.ungroup =
      keep callee.isGroup (.property .erased (keep o.isGroupedArray o.ungroup) x) := by
  rw [← ungroup_bare, h, ungroup, regroup, callsGroupedArray, h]

/-- What is called is left a property just if it is one, whatever parentheses it stands in. -/
theorem regroup_of_ne_property {callee : Expr ν} (h : ∀ p o x, callee.bare ≠ .property p o x) :
    ∀ kept o x, callee.regroup callee.ungroup ≠ keep kept (.property .erased o x) := by
  have hu : ∀ p o x, callee.ungroup ≠ .property p o x := by
    intro p o x hp
    have hbare := callee.isGroup_bare
    rw [← ungroup_bare] at hp
    generalize callee.bare = c at h hbare hp
    cases c with
    | property p' o' x' => exact h p' o' x' rfl
    | paren m inner => cases hbare
    | _ => cases hp
  have hgroup := isGroup_ungroup callee
  intro kept o x hk
  generalize callee.ungroup = u at hu hgroup hk
  cases u with
  | property p' o' x' => exact hu p' o' x' rfl
  | paren m e => cases hgroup
  | _ => cases kept <;> cases hk

end Expr

/-- Equality up to parentheses that change nothing. -/
def SameGrouping (e e' : Expr Nat) : Prop :=
  e.ungroup = e'.ungroup

namespace SameGrouping

theorem of_ungroupAll {es es' : List (Expr Nat)} (h : ungroupAll es = ungroupAll es') :
    List.Forall₂ SameGrouping es es' := by
  induction es generalizing es' with
  | nil =>
    cases es' with
    | nil => exact .nil
    | cons => cases h
  | cons e es ih =>
    cases es' with
    | nil => cases h
    | cons e' es' =>
      obtain ⟨he, hes⟩ := List.cons.inj h
      exact .cons he (ih hes)

theorem of_ungroupProperties {ps ps' : List (Property Nat)}
    (h : ungroupProperties ps = ungroupProperties ps') :
    List.Forall₂ (Property.Alike SameGrouping) ps ps' := by
  induction ps generalizing ps' with
  | nil =>
    match ps' with
    | [] => exact .nil
    | .field _ _ _ :: _ | .shorthand _ _ _ :: _ | .computed _ _ _ :: _ => cases h
  | cons p ps ih =>
    cases p with
    | field s key x =>
      match ps' with
      | [] | .shorthand _ _ _ :: _ | .computed _ _ _ :: _ => cases h
      | .field s' key' x' :: ps' =>
        obtain ⟨hp, hps⟩ := List.cons.inj h
        obtain ⟨-, rfl, hx⟩ := Property.field.inj hp
        exact .cons (.field hx) (ih hps)
    | shorthand s key x =>
      match ps' with
      | [] | .field _ _ _ :: _ | .computed _ _ _ :: _ => cases h
      | .shorthand s' key' x' :: ps' =>
        obtain ⟨hp, hps⟩ := List.cons.inj h
        obtain ⟨-, rfl, hx⟩ := Property.shorthand.inj hp
        exact .cons (.shorthand hx) (ih hps)
    | computed s k x =>
      match ps' with
      | [] | .field _ _ _ :: _ | .shorthand _ _ _ :: _ => cases h
      | .computed s' k' x' :: ps' =>
        obtain ⟨hp, hps⟩ := List.cons.inj h
        obtain ⟨-, hk, hx⟩ := Property.computed.inj hp
        exact .cons (.computed hk hx) (ih hps)

theorem singleResult?_ungroup (ss : List (Statement Nat)) :
    Statement.singleResult? (ungroupStatements ss) =
      (Statement.singleResult? ss).map Expr.ungroup := by
  match ss with
  | [] | [.result _ none] | [.result _ (some _)] | .declaration _ _ none :: _
  | .declaration _ _ (some _) :: _ | .expression _ _ :: _ => rfl
  | .result _ none :: s :: ss | .result _ (some _) :: s :: ss =>
    match s with
    | .declaration _ _ none | .declaration _ _ (some _) | .result _ none | .result _ (some _)
    | .expression _ _ => rfl

theorem of_map {e? e'? : Option (Expr Nat)} (h : e?.map Expr.ungroup = e'?.map Expr.ungroup) :
    Option.Rel SameGrouping e? e'? := by
  cases e? with
  | none =>
    cases e'? with
    | none => exact .none
    | some e' => cases h
  | some e =>
    cases e'? with
    | none => cases h
    | some e' => exact .some (Option.some.inj h)

theorem of_params {params params' : List Param}
    (h : params.map Param.erase = params'.map Param.erase) :
    List.Forall₂ Param.Alike params params' := by
  have hparams : List.Forall₂ (· = ·) (params.map Param.erase) (params'.map Param.erase) := by
    rw [List.forall₂_eq_eq_eq]
    exact h
  rw [List.forall₂_map_left_iff, List.forall₂_map_right_iff] at hparams
  refine hparams.imp fun p p' hp => ?_
  obtain ⟨hname, -, htype⟩ := Param.mk.inj hp
  exact ⟨hname, htype⟩

/-- Calls with one grouping are of the same method, if of any. -/
theorem layer_call {m m' : Mark Nat} {callee callee' : Expr Nat} {args args' : List (Expr Nat)}
    (hcallee : callee.regroup callee.ungroup = callee'.regroup callee'.ungroup)
    (hargs : List.Forall₂ SameGrouping args args') :
    Layer SameGrouping (.call m callee args) (.call m' callee' args') := by
  by_cases hp : ∃ p o x, callee.bare = .property p o x
  · obtain ⟨p, o, x, hp⟩ := hp
    by_cases hp' : ∃ p o x, callee'.bare = .property p o x
    · obtain ⟨p', o', x', hp'⟩ := hp'
      rw [Expr.regroup_of_property hp, Expr.regroup_of_property hp'] at hcallee
      obtain ⟨hgroup, hprop⟩ := Expr.keep_inj rfl rfl hcallee
      obtain ⟨-, ho, rfl⟩ := Expr.property.inj hprop
      have harray := congrArg Expr.isArrayName ho
      rw [Expr.isArrayName_keep, Expr.isArrayName_keep] at harray
      obtain ⟨-, ho⟩ := Expr.keep_inj o.isGroup_ungroup o'.isGroup_ungroup ho
      exact .method hp hp' hgroup harray ho hargs
    · push Not at hp'
      rw [Expr.regroup_of_property hp] at hcallee
      exact absurd hcallee.symm (Expr.regroup_of_ne_property hp' _ _ _)
  · push Not at hp
    by_cases hp' : ∃ p o x, callee'.bare = .property p o x
    · obtain ⟨p', o', x', hp'⟩ := hp'
      rw [Expr.regroup_of_property hp'] at hcallee
      exact absurd hcallee (Expr.regroup_of_ne_property hp _ _ _)
    · push Not at hp'
      exact .call hp hp' hargs

theorem layer_of_not_isGroup {e e' : Expr Nat} (he : e.isGroup = false) (he' : e'.isGroup = false)
    (h : e.ungroup = e'.ungroup) : Layer SameGrouping e e' := by
  cases e with
  | paren m x => cases he
  | name m x =>
    cases e' with
    | name m' x' =>
      obtain ⟨-, rfl⟩ := Expr.name.inj h
      exact .name
    | paren => cases he'
    | _ => cases h
  | literal m c =>
    cases e' with
    | literal m' c' =>
      obtain ⟨-, rfl⟩ := Expr.literal.inj h
      exact .literal
    | paren => cases he'
    | _ => cases h
  | property m o x =>
    cases e' with
    | property m' o' x' =>
      obtain ⟨-, ho, rfl⟩ := Expr.property.inj h
      exact .property ho
    | paren => cases he'
    | _ => cases h
  | element m o i =>
    cases e' with
    | element m' o' i' =>
      obtain ⟨-, ho, hi⟩ := Expr.element.inj h
      have hkey := congrArg Env.stringKey hi
      rw [Expr.stringKey_keep, Expr.stringKey_keep] at hkey
      obtain ⟨-, hi⟩ := Expr.keep_inj i.isGroup_ungroup i'.isGroup_ungroup hi
      exact .element ho hi hkey
    | paren => cases he'
    | _ => cases h
  | binary m op l r =>
    cases e' with
    | binary m' op' l' r' =>
      obtain ⟨-, rfl, hl, hr⟩ := Expr.binary.inj h
      exact .binary hl hr
    | paren => cases he'
    | _ => cases h
  | unary m op x =>
    cases e' with
    | unary m' op' x' =>
      obtain ⟨-, rfl, hx⟩ := Expr.unary.inj h
      exact .unary hx
    | paren => cases he'
    | _ => cases h
  | conditional m c y n =>
    cases e' with
    | conditional m' c' y' n' =>
      obtain ⟨-, hc, hy, hn⟩ := Expr.conditional.inj h
      exact .conditional hc hy hn
    | paren => cases he'
    | _ => cases h
  | call m callee args =>
    cases e' with
    | call m' callee' args' =>
      obtain ⟨-, hcallee, hargs⟩ := Expr.call.inj h
      exact layer_call hcallee (of_ungroupAll hargs)
    | paren => cases he'
    | _ => cases h
  | lambda m params body =>
    cases e' with
    | lambda m' params' body' =>
      obtain ⟨-, hparams, hbody⟩ := Expr.lambda.inj h
      exact .function rfl rfl ⟨of_params hparams, .some hbody⟩
    | paren => cases he'
    | _ => cases h
  | function m style params body =>
    cases e' with
    | function m' style' params' body' =>
      obtain ⟨-, -, hparams, hbody⟩ := Expr.function.inj h
      have hresult := congrArg Statement.singleResult? hbody
      rw [singleResult?_ungroup, singleResult?_ungroup] at hresult
      exact .function rfl rfl ⟨of_params hparams, of_map hresult⟩
    | paren => cases he'
    | _ => cases h
  | object m ps =>
    cases e' with
    | object m' ps' =>
      obtain ⟨-, hps⟩ := Expr.object.inj h
      exact .object (of_ungroupProperties hps)
    | paren => cases he'
    | _ => cases h

theorem likeness : Likeness SameGrouping where
  bare := by
    intro e e' h
    rw [SameGrouping, Expr.ungroup_bare, Expr.ungroup_bare]
    exact h
  layer := by
    intro e e' h
    refine layer_of_not_isGroup e.isGroup_bare e'.isGroup_bare ?_
    rw [Expr.ungroup_bare, Expr.ungroup_bare]
    exact h

end SameGrouping

/-! ### Compiling -/

/-- A mark with a number and no place. -/
def Mark.numbered (n : Nat) : Mark Nat := ⟨n, ⟨0, 0⟩⟩

/-- The annotation of a document with a number `n` and an array of numbers `a`. -/
def numbersContext : TypeExpr := .object [("n", .number), ("a", .array .number)]

/-- `this[key] + 1`, for a key. -/
def sumOfKey (key : Expr Nat) : Expr Nat :=
  .binary (.numbered 9) .add (.element (.numbered 8) (.name (.numbered 7) "this") key)
    (.literal (.numbered 6) (.integer 1))

/-- `callee(x => x + 1)`, for what is called. -/
def mappedBy (callee : Expr Nat) : Expr Nat :=
  .call (.numbered 9) callee [.lambda (.numbered 8) [⟨"x", ⟨0, 0⟩, none⟩]
    (.binary (.numbered 7) .add (.name (.numbered 6) "x") (.literal (.numbered 5) (.integer 1)))]

/-- `array.isArray(this.a)`, for what stands for `Array`. -/
def testedBy (array : Expr Nat) : Expr Nat :=
  .call (.numbered 9) (.property (.numbered 8) array "isArray")
    [.property (.numbered 7) (.name (.numbered 6) "this") "a"]

/-- Two expressions whose nodes have numbers of their own, and which differ in nothing but marks and
parentheses that are not around a called method, the string of a key or `Array` in a call, compile to
the same value, or fail for the same cause at nodes that differ in no more. The same holds of pipelines. -/
theorem compile_infer_of_ungroup_eq {e e' : Expr Nat} (h : e.ungroup = e'.ungroup)
    (hn : e.labels.Nodup) (hn' : e'.labels.Nodup) (placeholder : String)
    (context : Option TypeExpr) :
    Agree SameGrouping (· = ·)
        (compile (DeclaredTypes.infer e placeholder context).oracle (.root placeholder) e)
        (compile (DeclaredTypes.infer e' placeholder context).oracle (.root placeholder) e') ∧
      Agree SameGrouping (· = ·)
        (Pipeline.compile (DeclaredTypes.infer e placeholder context).oracle (.root placeholder) e)
        (Pipeline.compile (DeclaredTypes.infer e' placeholder context).oracle (.root placeholder)
          e') :=
  SameGrouping.likeness.agree_infer h hn hn' placeholder context

/-- `(this.a).map(x => x + 1)`, in parentheses itself, compiles as `this.a.map(x => x + 1)` does. -/
theorem compile_infer_groupedMap :
    let items := .property (.numbered 1) (.name (.numbered 0) "this") "a"
    let mapped := mappedBy (.property (.numbered 2) items "map")
    let grouped :=
      .paren (.numbered 10) (mappedBy (.property (.numbered 2) (.paren (.numbered 3) items) "map"))
    Agree SameGrouping (· = ·)
      (compile (DeclaredTypes.infer mapped "this" (some numbersContext)).oracle (.root "this")
        mapped)
      (compile (DeclaredTypes.infer grouped "this" (some numbersContext)).oracle (.root "this")
        grouped) := by
  intro items mapped grouped
  have h : mapped.ungroup = grouped.ungroup := rfl
  have hn : mapped.labels.Nodup := by decide
  have hn' : grouped.labels.Nodup := by decide
  exact (compile_infer_of_ungroup_eq h hn hn' "this" (some numbersContext)).1

/-! ### The three places -/

/-- Expressions with nodes numbered apart that differ in marks and parentheses only, of which the first
compiles and the second does not. -/
def BrokenByGrouping (e e' : Expr Nat) : Prop :=
  e.erase = e'.erase ∧ e.labels.Nodup ∧ e'.labels.Nodup ∧
    (compile (DeclaredTypes.infer e "this" (some numbersContext)).oracle (.root "this") e).isOk ∧
    ¬ (compile (DeclaredTypes.infer e' "this" (some numbersContext)).oracle (.root "this") e').isOk

/-- In the three places parentheses do change what is compiled: around the key of `this["n"] + 1`, the
method of `this.a.map(x => x + 1)` and the `Array` of `Array.isArray(this.a)`. -/
theorem regrouped_differ :
    let key := .literal (.numbered 0) (.string "n")
    let method := .property (.numbered 2)
      (.property (.numbered 1) (.name (.numbered 0) "this") "a") "map"
    let array := .name (.numbered 0) "Array"
    BrokenByGrouping (sumOfKey key) (sumOfKey (.paren (.numbered 3) key)) ∧
      BrokenByGrouping (mappedBy method) (mappedBy (.paren (.numbered 3) method)) ∧
      BrokenByGrouping (testedBy array) (testedBy (.paren (.numbered 3) array)) := by
  refine ⟨⟨rfl, ?_⟩, ⟨rfl, ?_⟩, ⟨rfl, ?_⟩⟩ <;> decide +kernel

end Aggregation
