import Aggregation.Proofs.Normal

/-! Compilation conflates nothing.

`Value.decompile` reads a value back as the normal expression that it was compiled from. It needs the
name of the placeholder and no types. Every compiled value is read back as the normal form of its
expression (`Translates.decompile`), so expressions of two normal forms never become one value, and
since what is written depends on the normal form alone, expressions of one normal form never become
two. -/
namespace Aggregation

/-- The binary operator that becomes the operator of the given name. -/
def BinaryOp.ofOperator? (name : String) : Option BinaryOp :=
  [add, subtract, multiply, divide, and, or, strictEq, strictNe, gt, ge, lt, le].find?
    (·.operator? == some name)

/-! ### Reading values back -/

namespace Value

/-- What an operator on one operand is read back as. -/
def fromSingle (op : String) (e : Expr Unit) : Expr Unit :=
  if op = "$size" then .property .erased e "length" else .methodCall e "reverse" []

/-- What an operator on a list is read back as. -/
def fromList (op : String) : List (Expr Unit) → Expr Unit
  | [e] =>
    if op = "$not" then .unary .erased .not e
    else .methodCall (.name .erased "Array") "isArray" [e]
  | [a, b] =>
    if op = "$arrayElemAt" then .element .erased a b
    else if op = "$in" then .methodCall b "includes" [a]
    else
      match pairMethods.find? (·.2 == op) with
      | some (method, _) => .methodCall a method [b]
      | none => .binary .erased ((BinaryOp.ofOperator? op).getD .modulo) a b
  | _ => .object .erased []

/-- What an operator on named operands is read back as. -/
def fromNamed (op : String) : List (Expr Unit) → Expr Unit
  | [a, b, c] =>
    if op = "$cond" then .conditional .erased a b c
    else .methodCall a (String.ofList (op.toList.drop 1))
      [.lambda .erased [⟨b.name?.getD "", ⟨0, 0⟩, none⟩] c]
  | _ => .object .erased []

mutual

/-- The normal expression that a value was compiled from. -/
def decompile (placeholder : String) : Value → Expr Unit
  | .fieldRef path =>
    .property .erased (.name .erased placeholder) (String.ofList (path.toList.drop 1))
  | .localRef path => .name .erased (String.ofList (path.toList.drop 2))
  | .literal c => .literal .erased c
  | .name x => .name .erased x
  | .single op v => fromSingle op (v.decompile placeholder)
  | .list op vs => fromList op (decompileAll placeholder vs)
  | .named op entries => fromNamed op (decompileEntries placeholder entries)

def decompileAll (placeholder : String) : List Value → List (Expr Unit)
  | [] => []
  | v :: vs => v.decompile placeholder :: decompileAll placeholder vs

def decompileEntries (placeholder : String) : List (String × Value) → List (Expr Unit)
  | [] => []
  | (_, v) :: rest => v.decompile placeholder :: decompileEntries placeholder rest

end

theorem decompile_ofField (placeholder name : String) : (ofField name).decompile placeholder =
    .property .erased (.name .erased placeholder) name := by
  simp [ofField, decompile]

theorem decompile_ofLocal (placeholder name : String) : (ofLocal name).decompile placeholder =
    .name .erased name := by
  simp [ofLocal, decompile]

theorem fromList_operator {op : BinaryOp} {name : String} (h : op.operator? = some name)
    (a b : Expr Unit) : fromList name [a, b] = .binary .erased op a b := by
  cases op <;> simp only [BinaryOp.operator?, Rule.target, reduceCtorEq] at h <;>
    obtain rfl := Option.some.inj h <;> rfl

theorem fromList_pair {name op : String} (h : (name, op) ∈ pairMethods) (a b : Expr Unit) :
    fromList op [a, b] = .methodCall a name [b] := by
  obtain ⟨rfl, rfl⟩ | ⟨rfl, rfl⟩ := eq_of_mem_pairMethods h <;> rfl

theorem fromNamed_iteration {name key : String} (h : (name, key) ∈ iterationMethods)
    (a c : Expr Unit) (x : String) : fromNamed ("$" ++ name) [a, .name .erased x, c] =
      .methodCall a name [.lambda .erased [⟨x, ⟨0, 0⟩, none⟩] c] := by
  obtain ⟨rfl, rfl⟩ | ⟨rfl, rfl⟩ := eq_of_mem_iterationMethods h <;> rfl

end Value

/-! ### Compiled values -/

/-- An expression that is the placeholder is erased to its name. -/
theorem Scope.erase_of_isContext {ν : Type} {s : Scope} {e : Expr ν} (h : s.isContext e = true) :
    e.erase = .name .erased s.placeholder := by
  rw [← Expr.erase_bare]
  obtain ⟨x, hx, hr⟩ := (Option.any_eq_true _ _).1 h
  have hp := (resolve_eq_context.1 (eq_of_beq hr)).2
  cases he : e.bare with
  | name m y =>
    rw [he] at hx
    rw [Expr.erase, Option.some.inj hx, hp]
  | _ =>
    rw [he] at hx
    cases hx

theorem Translates.decompile {s : Scope} {e : Expr Nat} {v : Value} (h : Translates s e v) :
    v.decompile s.placeholder = e.erase.normal s := by
  induction h with
  | group _ ih => exact ih
  | parameter _ => exact Value.decompile_ofLocal _ _
  | literal => rfl
  | field ho _ =>
    rw [Value.decompile_ofField, Expr.erase, Expr.normal, Scope.erase_of_isContext ho]
    rfl
  | fieldByKey ho hi _ =>
    rw [Value.decompile_ofField, Expr.erase, Expr.normal]
    simp only [Scope.isContext_erase, ho, if_true, Expr.key?_erase hi]
    rw [Scope.erase_of_isContext ho]
    rfl
  | length _ _ ih =>
    rw [Expr.erase, Expr.normal, ← ih]
    rfl
  | element ho _ _ ihv ihw =>
    rw [Expr.erase, Expr.normal]
    simp only [Scope.isContext_erase, ho, Bool.false_eq_true, if_false]
    rw [← ihv, ← ihw]
    rfl
  | binary hop _ _ ihv ihw =>
    rw [Expr.erase, Expr.normal, ← ihv, ← ihw]
    exact Value.fromList_operator hop _ _
  | not _ ih =>
    rw [Expr.erase, Expr.normal, ← ih]
    rfl
  | choice _ _ _ ihc ihy ihn =>
    rw [Expr.erase, Expr.normal, ← ihc, ← ihy, ← ihn]
    rfl
  | isArray hc _ _ ih =>
    rw [Expr.normal_call _ hc, eraseAll, eraseAll, normalAll, normalAll, ← ih]
    rfl
  | pair hop hc _ _ _ ihv ihw =>
    rw [Expr.normal_call _ hc, eraseAll, eraseAll, normalAll, normalAll, ← ihv, ← ihw]
    exact Value.fromList_pair hop _ _
  | includes hc _ _ _ ihv ihw =>
    rw [Expr.normal_call _ hc, eraseAll, eraseAll, normalAll, normalAll, ← ihv, ← ihw]
    rfl
  | reverse hc _ _ ih =>
    rw [Expr.normal_call _ hc, ← ih]
    rfl
  | iteration hk hc _ hf _ _ ihv ihw =>
    rw [Expr.normal_call _ hc, eraseAll, eraseAll, normalAll, normalAll, Expr.normal_callback hf,
      ← ihv, ← ihw]
    exact Value.fromNamed_iteration hk _ _ _

/-- Compilation conflates nothing. In one scope, whatever the oracles, a compiled value is read
back as the normal form of its expression, and two expressions become one value exactly when they
have one normal form: when they differ in places and grouping, in how a field of the document is
read, and in how a function that only returns is written. -/
theorem compile_eq_iff_normal_eq (s : Scope) (o₁ o₂ : Oracle) (e₁ e₂ : Expr Nat) (v₁ v₂ : Value)
    (h₁ : compile o₁ s e₁ = .ok v₁) (h₂ : compile o₂ s e₂ = .ok v₂) :
    v₁.decompile s.placeholder = e₁.erase.normal s ∧
      (v₁ = v₂ ↔ e₁.erase.normal s = e₂.erase.normal s) := by
  have t₁ := translates_of_compile h₁
  have t₂ := translates_of_compile h₂
  refine ⟨t₁.decompile, fun hv => ?_, fun hn => ?_⟩
  · rw [← t₁.decompile, ← t₂.decompile, hv]
  · rw [← t₁.written_normal, ← t₂.written_normal, hn]

/-- The expression `this.a.map(v => v)`. -/
def mapArrow : Expr Nat :=
  .call ⟨5, ⟨0, 18⟩⟩
    (.property ⟨2, ⟨0, 10⟩⟩ (.property ⟨1, ⟨0, 6⟩⟩ (.name ⟨0, ⟨0, 4⟩⟩ "this") "a") "map")
    [.lambda ⟨4, ⟨11, 17⟩⟩ [⟨"v", ⟨11, 12⟩, none⟩] (.name ⟨3, ⟨16, 17⟩⟩ "v")]

/-- The expression `(this["a"]).map(function (v: any) { return v })`. -/
def mapFunction : Expr Nat :=
  .call ⟨7, ⟨0, 47⟩⟩
    (.property ⟨4, ⟨0, 15⟩⟩ (.paren ⟨3, ⟨0, 11⟩⟩
      (.element ⟨2, ⟨1, 10⟩⟩ (.name ⟨0, ⟨1, 5⟩⟩ "this") (.literal ⟨1, ⟨6, 9⟩⟩ (.string "a")))) "map")
    [.function ⟨6, ⟨16, 46⟩⟩ .word [⟨"v", ⟨26, 27⟩, some .any⟩]
      [.result ⟨36, 44⟩ (some (.name ⟨5, ⟨43, 44⟩⟩ "v"))]]

/-- The two spellings become one value, so they have one normal form. -/
theorem normal_mapArrow_eq_mapFunction :
    compile (fun _ => .array) (.root "this") mapArrow =
        .ok (.named "$map" [("input", .ofField "a"), ("as", .name "v"), ("in", .ofLocal "v")]) ∧
      compile (fun _ => .array) (.root "this") mapFunction =
        .ok (.named "$map" [("input", .ofField "a"), ("as", .name "v"), ("in", .ofLocal "v")]) ∧
      mapArrow.erase.normal (.root "this") = mapFunction.erase.normal (.root "this") := by
  refine ⟨by cbv, by cbv, ?_⟩
  exact (compile_eq_iff_normal_eq (.root "this") (fun _ => .array) (fun _ => .array) mapArrow
    mapFunction _ _ (by cbv) (by cbv)).2.1 rfl

end Aggregation
