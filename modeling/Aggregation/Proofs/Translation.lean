import Aggregation.Compile.Expression

/-! What an expression is translated to, types aside.

The classes of operands decide whether a rule applies, but never what it writes. `Translates` lists
what the rules write, one constructor for each form of expression, without asking for any class. A
compilation that comes out well is a derivation of it (`translates_of_compile`), so whatever holds of
every derivation holds of every compiled value. -/
namespace Aggregation

/-- The name of the operator that a binary operator becomes, if there is one. -/
def BinaryOp.operator? (op : BinaryOp) : Option String :=
  match Rule.target op with
  | .typed _ name => some name
  | .untyped name => some name
  | .loose => none
  | .missing => none

/-- The methods that take one more operand and write it behind the array, with their operators. -/
def pairMethods : List (String × String) :=
  [("concat", "$concatArrays"), ("indexOf", "$indexOfArray")]

/-- The methods that call a function for each element, with the keys of what the function returns. -/
def iterationMethods : List (String × String) :=
  [("filter", "cond"), ("map", "in")]

theorem eq_of_mem_pairMethods {name op : String} (h : (name, op) ∈ pairMethods) :
    name = "concat" ∧ op = "$concatArrays" ∨ name = "indexOf" ∧ op = "$indexOfArray" := by
  simpa [pairMethods] using h

theorem eq_of_mem_iterationMethods {name key : String} (h : (name, key) ∈ iterationMethods) :
    name = "filter" ∧ key = "cond" ∨ name = "map" ∧ key = "in" := by
  simpa [iterationMethods] using h

/-- An expression becomes a value in a scope. -/
inductive Translates : Scope → Expr Nat → Value → Prop
  | group {s m e v} : Translates s e v → Translates s (.paren m e) v
  | parameter {s m x} : x ∈ s.locals → Translates s (.name m x) (.ofLocal x)
  | literal {s m c} : Translates s (.literal m c) (.literal c)
  | field {s m object name} : s.isContext object = true → name ≠ "" →
      Translates s (.property m object name) (.ofField name)
  | fieldByKey {s m object index m' key} : s.isContext object = true →
      index.bare = .literal m' (.string key) → key ≠ "" →
      Translates s (.element m object index) (.ofField key)
  | length {s m object v} : s.isContext object = false → Translates s object v →
      Translates s (.property m object "length") (.single "$size" v)
  | element {s m object index v w} : s.isContext object = false → Translates s object v →
      Translates s index w → Translates s (.element m object index) (.list "$arrayElemAt" [v, w])
  | binary {s m op name left right v w} : op.operator? = some name → Translates s left v →
      Translates s right w → Translates s (.binary m op left right) (.list name [v, w])
  | not {s m operand v} : Translates s operand v →
      Translates s (.unary m .not operand) (.list "$not" [v])
  | choice {s m condition yes no c y n} : Translates s condition c → Translates s yes y →
      Translates s no n → Translates s (.conditional m condition yes no)
        (.named "$cond" [("if", c), ("then", y), ("else", n)])
  | isArray {s m callee m' m'' arg v} :
      callee.bare = .property m' (.name m'' "Array") "isArray" → s.isFree "Array" = true →
      Translates s arg v → Translates s (.call m callee [arg]) (.list "$isArray" [v])
  | pair {s m callee m' object name op arg v w} : (name, op) ∈ pairMethods →
      callee.bare = .property m' object name → s.isContext object = false →
      Translates s object v → Translates s arg w →
      Translates s (.call m callee [arg]) (.list op [v, w])
  | includes {s m callee m' object arg v w} : callee.bare = .property m' object "includes" →
      s.isContext object = false → Translates s object v → Translates s arg w →
      Translates s (.call m callee [arg]) (.list "$in" [w, v])
  | reverse {s m callee m' object v} : callee.bare = .property m' object "reverse" →
      s.isContext object = false → Translates s object v →
      Translates s (.call m callee []) (.single "$reverseArray" v)
  | iteration {s m callee m' object name key arg param body v w} :
      (name, key) ∈ iterationMethods → callee.bare = .property m' object name →
      s.isContext object = false → arg.bare.callable? = some ⟨[param], some body⟩ →
      Translates s object v → Translates (s.bind param.name) body w →
      Translates s (.call m callee [arg])
        (.named ("$" ++ name) [("input", v), ("as", .name param.name), (key, w)])

/-- A function of one parameter that only returns is an arrow over what it returns, or a block of
one statement. -/
theorem Expr.eq_of_callable {ν : Type} {e body : Expr ν} {param : Param}
    (h : e.callable? = some ⟨[param], some body⟩) : (∃ m, e = .lambda m [param] body) ∨
      ∃ m style span, e = .function m style [param] [.result span (some body)] := by
  cases e with
  | lambda m params b =>
    obtain ⟨rfl, rfl⟩ : params = [param] ∧ b = body := by simpa [callable?] using h
    exact .inl ⟨m, rfl⟩
  | function m style params ss =>
    obtain ⟨rfl, hs⟩ : params = [param] ∧ Statement.singleResult? ss = some body := by
      simpa [callable?] using h
    unfold Statement.singleResult? at hs
    split at hs
    · subst hs
      exact .inr ⟨m, style, _, rfl⟩
    · simp at hs
  | _ => simp [callable?] at h

/-! ### One node -/

/-- A value is what a rule writes over the translations of its operands. -/
def Rule.Writes (s : Scope) : Rule → Value → Prop
  | .done v, u => u = v
  | .same e, u => Translates s e u
  | .single op e, u => ∃ v, Translates s e v ∧ u = .single op v
  | .one op e, u => ∃ v, Translates s e v ∧ u = .list op [v]
  | .two op x y, u => ∃ v w, Translates s x v ∧ Translates s y w ∧ u = .list op [v, w]
  | .swapped op x y, u => ∃ v w, Translates s x v ∧ Translates s y w ∧ u = .list op [w, v]
  | .choice c y n, u => ∃ v w z, Translates s c v ∧ Translates s y w ∧ Translates s n z ∧
      u = .named "$cond" [("if", v), ("then", w), ("else", z)]
  | .each op key param input body, u => ∃ v w, Translates s input v ∧
      Translates (s.bind param) body w ∧
      u = .named op [("input", v), ("as", .name param), (key, w)]

namespace Rule

variable {oracle : Oracle} {s : Scope} {m : Mark Nat} {r : Rule} {u : Value}

theorem translates_ofName {x : String} (h : ofName s (.name m x) x = .ok r) (hr : r.Writes s u) :
    Translates s (.name m x) u := by
  unfold ofName at h
  split at h
  · rename_i hx
    obtain rfl := Except.ok.inj h
    obtain rfl := hr
    exact .parameter (Scope.resolve_eq_parameter.1 hx)
  · simp [refuse] at h
  · simp [refuse] at h

theorem eq_of_ofField {e : Expr Nat} {name : String} (h : ofField e name = .ok r)
    (hr : r.Writes s u) : name ≠ "" ∧ u = .ofField name := by
  unfold ofField at h
  split at h
  · simp [refuse] at h
  · obtain rfl := Except.ok.inj h
    exact ⟨‹_›, hr⟩

theorem translates_ofProperty {object : Expr Nat} {name : String}
    (h : ofProperty oracle s (.property m object name) object name = .ok r)
    (hr : r.Writes s u) : Translates s (.property m object name) u := by
  unfold ofProperty at h
  split at h
  · obtain ⟨hn, rfl⟩ := eq_of_ofField h hr
    exact .field ‹_› hn
  · rename_i ho
    split at h
    · simp [refuse] at h
    · rename_i hn
      obtain rfl := eq_of_onArray h
      obtain ⟨v, hv, rfl⟩ := hr
      obtain rfl := Decidable.not_not.1 hn
      exact .length (by simpa using ho) hv

theorem translates_ofElement {object index : Expr Nat}
    (h : ofElement oracle s (.element m object index) object index = .ok r)
    (hr : r.Writes s u) : Translates s (.element m object index) u := by
  unfold ofElement at h
  split at h
  · rename_i ho
    split at h
    · rename_i hi
      obtain ⟨hk, rfl⟩ := eq_of_ofField h hr
      exact .fieldByKey ho hi hk
    · simp [refuse] at h
  · rename_i ho
    obtain rfl := eq_of_onArray h
    obtain ⟨v, w, hv, hw, rfl⟩ := hr
    exact .element (by simpa using ho) hv hw

theorem translates_ofBinary {op : BinaryOp} {left right : Expr Nat}
    (h : ofBinary oracle (.binary m op left right) op left right = .ok r)
    (hr : r.Writes s u) : Translates s (.binary m op left right) u := by
  suffices ∃ name, op.operator? = some name ∧ r = two name left right by
    obtain ⟨name, hop, rfl⟩ := this
    obtain ⟨v, w, hv, hw, rfl⟩ := hr
    exact .binary hop hv hw
  unfold ofBinary at h
  split at h
  · rename_i hop
    simp only at h
    split at h
    · exact ⟨_, by rw [BinaryOp.operator?, hop], (Except.ok.inj h).symm⟩
    · simp [refuse] at h
  · rename_i hop
    exact ⟨_, by rw [BinaryOp.operator?, hop], (Except.ok.inj h).symm⟩
  · simp [refuse] at h
  · simp [refuse] at h

theorem translates_ofUnary {op : UnaryOp} {operand : Expr Nat}
    (h : ofUnary oracle (.unary m op operand) op operand = .ok r)
    (hr : r.Writes s u) : Translates s (.unary m op operand) u := by
  unfold ofUnary at h
  split at h
  · simp only at h
    split at h
    · obtain rfl := Except.ok.inj h
      obtain ⟨v, hv, rfl⟩ := hr
      exact .not hv
    · simp [refuse] at h
  · simp [refuse] at h

/-! ### Calls -/

variable {callee object : Expr Nat} {m' : Mark Nat} {name : String} {args : List (Expr Nat)}

theorem translates_ofArrayFunction {m'' : Mark Nat} {e : Expr Nat}
    (hc : callee.bare = .property m' (.name m'' "Array") name) (hfree : s.isFree "Array" = true)
    (h : ofArrayFunction oracle e name args = .ok r) (hr : r.Writes s u) :
    Translates s (.call m callee args) u := by
  unfold ofArrayFunction at h
  split at h
  · simp [refuse] at h
  · rename_i hn
    obtain ⟨arg, ha, ht⟩ := bind_eq_ok.1 h
    obtain rfl := eq_of_onlyArgument ha
    obtain rfl := Decidable.not_not.1 hn
    simp only at ht
    split at ht
    · obtain rfl := Except.ok.inj ht
      obtain ⟨v, hv, rfl⟩ := hr
      exact .isArray hc hfree hv
    · simp [refuse] at ht

theorem translates_ofIteration {e : Expr Nat} {key : String} (hk : (name, key) ∈ iterationMethods)
    (hc : callee.bare = .property m' object name) (ho : s.isContext object = false)
    (h : ofIteration e name key object args = .ok r) (hr : r.Writes s u) :
    Translates s (.call m callee args) u := by
  unfold ofIteration at h
  obtain ⟨arg, ha, ht⟩ := bind_eq_ok.1 h
  obtain rfl := eq_of_onlyArgument ha
  split at ht
  · simp [misfit] at ht
  · rename_i f hf
    obtain ⟨params, result?⟩ := f
    split at ht
    · rename_i param hp
      obtain rfl : params = [param] := hp
      split at ht
      · rename_i body hbody
        obtain rfl : result? = some body := hbody
        obtain rfl := Except.ok.inj ht
        obtain ⟨v, w, hv, hw, rfl⟩ := hr
        exact .iteration hk hc ho hf hv hw
      · simp [misfit] at ht
    · simp [misfit] at ht

theorem translates_ofMethod {e : Expr Nat} (hc : callee.bare = .property m' object name)
    (ho : s.isContext object = false) (h : ofMethod oracle e object name args = .ok r)
    (hr : r.Writes s u) : Translates s (.call m callee args) u := by
  unfold ofMethod at h
  split at h
  · obtain ⟨arg, ha, ht⟩ := bind_eq_ok.1 h
    obtain rfl := eq_of_onlyArgument ha
    simp only at ht
    split at ht
    · obtain rfl := Except.ok.inj ht
      obtain ⟨v, w, hv, hw, rfl⟩ := hr
      exact .pair (by decide) hc ho hv hw
    · simp [refuse] at ht
  · exact translates_ofIteration (by decide) hc ho h hr
  · exact translates_ofIteration (by decide) hc ho h hr
  · obtain ⟨arg, ha, ht⟩ := bind_eq_ok.1 h
    obtain rfl := eq_of_onlyArgument ha
    obtain rfl := Except.ok.inj ht
    obtain ⟨v, w, hv, hw, rfl⟩ := hr
    exact .includes hc ho hv hw
  · obtain ⟨arg, ha, ht⟩ := bind_eq_ok.1 h
    obtain rfl := eq_of_onlyArgument ha
    obtain rfl := Except.ok.inj ht
    obtain ⟨v, w, hv, hw, rfl⟩ := hr
    exact .pair (by decide) hc ho hv hw
  · split at h
    · rename_i ha
      obtain rfl := List.isEmpty_iff.1 ha
      obtain rfl := Except.ok.inj h
      obtain ⟨v, hv, rfl⟩ := hr
      exact .reverse hc ho hv
    · simp [misfit] at h
  · simp [refuse] at h

theorem translates_ofCall (h : ofCall oracle s (.call m callee args) callee args = .ok r)
    (hr : r.Writes s u) : Translates s (.call m callee args) u := by
  unfold ofCall at h
  split at h
  · rename_i m' object name hc
    split at h
    · rename_i harray
      obtain ⟨hname, hfree⟩ := harray
      cases object with
      | name m'' x =>
        obtain rfl : x = "Array" := Option.some.inj hname
        exact translates_ofArrayFunction hc hfree h hr
      | _ => simp [Expr.name?] at hname
    · split at h
      · simp [refuse] at h
      · rename_i ho
        simp only at h
        split at h
        · exact translates_ofMethod hc (by simpa using ho) h hr
        · simp [refuse] at h
  · simp [refuse] at h

/-- What the rule of a node writes is a translation of the node. -/
theorem translates_of {e : Expr Nat} (h : of oracle s e = .ok r) (hr : r.Writes s u) :
    Translates s e u := by
  cases e with
  | paren m inner =>
    obtain rfl := Except.ok.inj h
    exact .group hr
  | name m x => exact translates_ofName h hr
  | literal m c =>
    obtain rfl := Except.ok.inj h
    obtain rfl := hr
    exact .literal
  | property m object name => exact translates_ofProperty h hr
  | element m object index => exact translates_ofElement h hr
  | binary m op left right => exact translates_ofBinary h hr
  | unary m op operand => exact translates_ofUnary h hr
  | conditional m condition yes no =>
    obtain rfl := Except.ok.inj h
    obtain ⟨c, y, n, hc, hy, hn, rfl⟩ := hr
    exact .choice hc hy hn
  | call m callee args => exact translates_ofCall h hr
  | lambda m params body => simp [of, refuse] at h
  | function m style params body => simp [of, refuse] at h
  | object m properties => simp [of, refuse] at h

end Rule

/-! ### Whole expressions -/

/-- A compiled value is a translation of its expression, whatever the oracle answers. -/
theorem translates_of_compile {oracle : Oracle} {s : Scope} {e : Expr Nat} {v : Value}
    (h : compile oracle s e = .ok v) : Translates s e v := by
  fun_induction compile oracle s e generalizing v with
  | case1 => simp at h
  | case2 s e v' hr =>
    obtain rfl := Except.ok.inj h
    exact Rule.translates_of hr rfl
  | case3 s e inner hr ih => exact Rule.translates_of hr (ih h)
  | case4 s e op x hr ih =>
    obtain ⟨w, hw, h⟩ := bind_eq_ok.1 h
    obtain rfl := Except.ok.inj h
    exact Rule.translates_of hr ⟨w, ih hw, rfl⟩
  | case5 s e op x hr ih =>
    obtain ⟨w, hw, h⟩ := bind_eq_ok.1 h
    obtain rfl := Except.ok.inj h
    exact Rule.translates_of hr ⟨w, ih hw, rfl⟩
  | case6 s e op x y hr ihx ihy =>
    obtain ⟨w, hw, h⟩ := bind_eq_ok.1 h
    obtain ⟨z, hz, h⟩ := bind_eq_ok.1 h
    obtain rfl := Except.ok.inj h
    exact Rule.translates_of hr ⟨w, z, ihx hw, ihy hz, rfl⟩
  | case7 s e op x y hr ihx ihy =>
    obtain ⟨w, hw, h⟩ := bind_eq_ok.1 h
    obtain ⟨z, hz, h⟩ := bind_eq_ok.1 h
    obtain rfl := Except.ok.inj h
    exact Rule.translates_of hr ⟨w, z, ihx hw, ihy hz, rfl⟩
  | case8 s e c y n hr ihc ihy ihn =>
    obtain ⟨c', hc, h⟩ := bind_eq_ok.1 h
    obtain ⟨y', hy, h⟩ := bind_eq_ok.1 h
    obtain ⟨n', hn, h⟩ := bind_eq_ok.1 h
    obtain rfl := Except.ok.inj h
    exact Rule.translates_of hr ⟨c', y', n', ihc hc, ihy hy, ihn hn, rfl⟩
  | case9 s e op key param input body hr ihi ihb =>
    obtain ⟨i, hi, h⟩ := bind_eq_ok.1 h
    obtain ⟨b, hb, h⟩ := bind_eq_ok.1 h
    obtain rfl := Except.ok.inj h
    exact Rule.translates_of hr ⟨i, b, ihi hi, ihb hb, rfl⟩

end Aggregation
