import Aggregation.Compile.Pipeline
import Aggregation.Proofs.Translation

/-! Compiled values are well formed and well scoped.

Each operator has one shape (`shapes`): one operand, a list of so many, or operands under given keys.
A value is well formed when every operator in it has its shape, every reference has a name behind its
sigil, and a bare name stands under `as` and nowhere else. `Value.free` lists the references that
nothing around them binds: `$filter` and `$map` bind the variable that they give under `as`, inside
the operand that is computed for each element and not inside the array that they go through.

Whatever compiles is well formed, and what it leaves free are parameters of the scope that it was
compiled in; in the scope of a whole expression that is nothing. Both are read off derivations of
`Translates`. The last part carries the first over to the stages of a pipeline, whose keys are
distinct besides. -/
namespace Aggregation

/-! ### Shapes -/

/-- How an operator takes its operands. -/
inductive Shape
  | single
  | list (count : Nat)
  | named (keys : List String)
deriving DecidableEq, Repr

def shapes : List (String × Shape) :=
  [("$add", .list 2), ("$subtract", .list 2), ("$multiply", .list 2), ("$divide", .list 2),
    ("$and", .list 2), ("$or", .list 2), ("$eq", .list 2), ("$ne", .list 2), ("$gt", .list 2),
    ("$gte", .list 2), ("$lt", .list 2), ("$lte", .list 2), ("$arrayElemAt", .list 2),
    ("$concatArrays", .list 2), ("$in", .list 2), ("$indexOfArray", .list 2), ("$not", .list 1),
    ("$isArray", .list 1), ("$size", .single), ("$reverseArray", .single),
    ("$cond", .named ["if", "then", "else"]), ("$filter", .named ["input", "as", "cond"]),
    ("$map", .named ["input", "as", "in"])]

/-- The shape of an operator, if there is such an operator. -/
def shape? (op : String) : Option Shape :=
  shapes.lookup op

/-- The operator of a binary operator takes a list of two. -/
theorem shape_operator {op : BinaryOp} {name : String} (h : op.operator? = some name) :
    shape? name = some (.list 2) := by
  cases op <;> simp only [BinaryOp.operator?, Rule.target, reduceCtorEq] at h <;>
    obtain rfl := Option.some.inj h <;> rfl

theorem shape_pair {name op : String} (h : (name, op) ∈ pairMethods) :
    shape? op = some (.list 2) := by
  obtain ⟨rfl, rfl⟩ | ⟨rfl, rfl⟩ := eq_of_mem_pairMethods h <;> rfl

theorem shape_iteration {name key : String} (h : (name, key) ∈ iterationMethods) :
    shape? ("$" ++ name) = some (.named ["input", "as", key]) := by
  obtain ⟨rfl, rfl⟩ | ⟨rfl, rfl⟩ := eq_of_mem_iterationMethods h <;> rfl

/-- Every operator in the value has its shape, every reference names something, and a bare name
stands only under `as`. -/
inductive Value.WellFormed : Value → Prop
  | field {name} : name ≠ "" → WellFormed (.ofField name)
  | parameter {name} : WellFormed (.ofLocal name)
  | literal {c} : WellFormed (.literal c)
  | single {op v} : shape? op = some .single → WellFormed v → WellFormed (.single op v)
  | list {op vs} : shape? op = some (.list vs.length) → (∀ v ∈ vs, WellFormed v) →
      WellFormed (.list op vs)
  | named {op entries} : shape? op = some (.named (entries.map (·.1))) →
      (∀ key v, (key, v) ∈ entries → key ≠ "as" → WellFormed v) →
      (∀ v, ("as", v) ∈ entries → ∃ x, v = .name x) → WellFormed (.named op entries)

/-! ### Free references -/

namespace Value

/-- The key of the operand inside which an operator binds a variable. -/
def bodyKey? : String → Option String
  | "$filter" => some "cond"
  | "$map" => some "in"
  | _ => none

/-- The reference to the variable that is given under `as`. -/
def bound? (entries : List (String × Value)) : Option String :=
  match entries.lookup "as" with
  | some (.name x) => some ("$$" ++ x)
  | _ => none

mutual

/-- The references to variables that nothing around them binds. -/
def free : Value → List String
  | .fieldRef _ => []
  | .localRef path => [path]
  | .literal _ => []
  | .name _ => []
  | .single _ v => free v
  | .list _ vs => freeAll vs
  | .named op entries => freeEntries (bodyKey? op) (bound? entries) entries

def freeAll : List Value → List String
  | [] => []
  | v :: vs => free v ++ freeAll vs

/-- The free references of named operands, of which the one with the key `body` is inside the
binding of the reference `bound`. -/
def freeEntries (body bound : Option String) : List (String × Value) → List String
  | [] => []
  | (key, v) :: rest =>
    (if body = some key then (free v).filter (bound ≠ some ·) else free v) ++
      freeEntries body bound rest

end

theorem mem_freeAll {path : String} {vs : List Value} :
    path ∈ freeAll vs ↔ ∃ v ∈ vs, path ∈ v.free := by
  induction vs with
  | nil => simp [freeAll]
  | cons v vs ih => simp [freeAll, ih]

theorem free_choice (c y n : Value) :
    free (.named "$cond" [("if", c), ("then", y), ("else", n)]) = c.free ++ y.free ++ n.free := by
  simp [free, freeEntries, bodyKey?]

/-- A variable is bound in what is computed for each element, and only there. -/
theorem free_iteration {name key : String} (h : (name, key) ∈ iterationMethods) (x : String)
    (v w : Value) : free (.named ("$" ++ name) [("input", v), ("as", .name x), (key, w)]) =
      v.free ++ w.free.filter (· ≠ "$$" ++ x) := by
  have hbound : bound? [("input", v), ("as", .name x), (key, w)] = some ("$$" ++ x) := rfl
  obtain ⟨rfl, rfl⟩ | ⟨rfl, rfl⟩ := eq_of_mem_iterationMethods h <;>
    simp [free, freeEntries, bodyKey?, hbound, eq_comm]

/-- What is free in the value stands for parameters of the scope. -/
def Scoped (s : Scope) (v : Value) : Prop :=
  ∀ path ∈ v.free, ∃ x, path = "$$" ++ x ∧ s.resolve x = some .parameter

theorem scoped_list {s : Scope} {op : String} {vs : List Value} (h : ∀ v ∈ vs, v.Scoped s) :
    (list op vs).Scoped s := by
  intro path hp
  obtain ⟨v, hv, hp⟩ := mem_freeAll.1 hp
  exact h v hv path hp

theorem scoped_choice {s : Scope} {c y n : Value} (hc : c.Scoped s) (hy : y.Scoped s)
    (hn : n.Scoped s) : (named "$cond" [("if", c), ("then", y), ("else", n)]).Scoped s := by
  intro path hp
  rw [free_choice, List.mem_append, List.mem_append] at hp
  rcases hp with (hp | hp) | hp
  · exact hc path hp
  · exact hy path hp
  · exact hn path hp

/-- The input of an iteration is scoped as the whole is, and its body may use the variable too. -/
theorem scoped_iteration {s : Scope} {name key x : String} {v w : Value}
    (hk : (name, key) ∈ iterationMethods) (hv : v.Scoped s) (hw : w.Scoped (s.bind x)) :
    (named ("$" ++ name) [("input", v), ("as", .name x), (key, w)]).Scoped s := by
  intro path hp
  rw [free_iteration hk, List.mem_append, List.mem_filter] at hp
  rcases hp with hp | ⟨hp, hne⟩
  · exact hv path hp
  · obtain ⟨y, rfl, hy⟩ := hw path hp
    have hyx : y ≠ x := by
      rintro rfl
      simp at hne
    refine ⟨y, rfl, Scope.resolve_eq_parameter.2 ?_⟩
    exact List.mem_of_ne_of_mem hyx (Scope.resolve_eq_parameter.1 hy)

end Value

/-! ### Compiled values -/

theorem Translates.wellFormed {s : Scope} {e : Expr Nat} {v : Value} (h : Translates s e v) :
    v.WellFormed := by
  induction h with
  | group _ ih => exact ih
  | parameter _ => exact .parameter
  | literal => exact .literal
  | field _ hn => exact .field hn
  | fieldByKey _ _ hk => exact .field hk
  | length _ _ ih => exact .single rfl ih
  | element _ _ _ ihv ihw => exact .list rfl (by simp [ihv, ihw])
  | binary hop _ _ ihv ihw => exact .list (shape_operator hop) (by simp [ihv, ihw])
  | not _ ih => exact .list rfl (by simp [ih])
  | choice _ _ _ ihc ihy ihn =>
    refine .named rfl ?_ ?_
    · grind
    · simp
  | isArray _ _ _ ih => exact .list rfl (by simp [ih])
  | pair hop _ _ _ _ ihv ihw => exact .list (shape_pair hop) (by simp [ihv, ihw])
  | includes _ _ _ _ ihv ihw => exact .list rfl (by simp [ihv, ihw])
  | reverse _ _ _ ih => exact .single rfl ih
  | iteration hk _ _ _ _ _ ihv ihw =>
    refine .named (shape_iteration hk) ?_ ?_
    · grind
    · grind [iterationMethods]

theorem Translates.scoped {s : Scope} {e : Expr Nat} {v : Value} (h : Translates s e v) :
    v.Scoped s := by
  induction h with
  | group _ ih => exact ih
  | @parameter s m x hx =>
    intro path hp
    exact ⟨x, List.mem_singleton.1 hp, Scope.resolve_eq_parameter.2 hx⟩
  | literal | field | fieldByKey =>
    intro path hp
    cases hp
  | length _ _ ih | reverse _ _ _ ih => exact ih
  | element _ _ _ ihv ihw | binary _ _ _ ihv ihw | pair _ _ _ _ _ ihv ihw
  | includes _ _ _ _ ihv ihw => exact Value.scoped_list (by simp [ihv, ihw])
  | not _ ih | isArray _ _ _ ih => exact Value.scoped_list (by simp [ih])
  | choice _ _ _ ihc ihy ihn => exact Value.scoped_choice ihc ihy ihn
  | iteration hk _ _ _ _ _ ihv ihw => exact Value.scoped_iteration hk ihv ihw

/-- A compiled value is well formed and well scoped. Every operator in it has its own shape, and
every reference to a variable is bound around it or stands for a parameter of the scope, so that
nothing is free in what a whole expression becomes. -/
theorem compile_wellFormed (oracle : Oracle) (s : Scope) (e : Expr Nat) (v : Value)
    (h : compile oracle s e = .ok v) :
    v.WellFormed ∧ v.Scoped s ∧ (s.locals = [] → v.free = []) := by
  have ht := translates_of_compile h
  refine ⟨ht.wellFormed, ht.scoped, fun hl => ?_⟩
  apply List.eq_nil_iff_forall_not_mem.2
  intro path hp
  obtain ⟨x, _, hx⟩ := ht.scoped path hp
  rw [Scope.resolve_eq_parameter, hl] at hx
  cases hx

/-- The expression `this.m.map(x => x.filter(x => x === this.b))`, where one parameter hides the
other. -/
def nestedIteration : Expr Nat :=
  .call ⟨12, ⟨0, 44⟩⟩
    (.property ⟨2, ⟨0, 10⟩⟩ (.property ⟨1, ⟨0, 6⟩⟩ (.name ⟨0, ⟨0, 4⟩⟩ "this") "m") "map")
    [.lambda ⟨11, ⟨11, 43⟩⟩ [⟨"x", ⟨11, 12⟩, none⟩]
      (.call ⟨10, ⟨16, 43⟩⟩ (.property ⟨4, ⟨16, 24⟩⟩ (.name ⟨3, ⟨16, 17⟩⟩ "x") "filter")
        [.lambda ⟨9, ⟨25, 42⟩⟩ [⟨"x", ⟨25, 26⟩, none⟩]
          (.binary ⟨8, ⟨30, 42⟩⟩ .strictEq (.name ⟨5, ⟨30, 31⟩⟩ "x")
            (.property ⟨7, ⟨36, 42⟩⟩ (.name ⟨6, ⟨36, 40⟩⟩ "this") "b"))])]

theorem nestedIteration_wellFormed : ∃ v,
    compile (fun _ => .array) (.root "this") nestedIteration = .ok v ∧ v.WellFormed ∧
      v.Scoped (.root "this") ∧ v.free = [] := by
  have h : compile (fun _ => .array) (.root "this") nestedIteration =
      .ok (.named "$map" [("input", .ofField "m"), ("as", .name "x"),
        ("in", .named "$filter" [("input", .ofLocal "x"), ("as", .name "x"),
          ("cond", .list "$eq" [.ofLocal "x", .ofField "b"])])]) := by
    cbv
  obtain ⟨hw, hs, hf⟩ := compile_wellFormed _ _ _ _ h
  exact ⟨_, h, hw, hs, hf rfl⟩

/-! ### Compiled pipelines -/

namespace Stage

/-- The fields of a stage have distinct keys and well-formed values. -/
structure WellFormed (st : Stage) : Prop where
  keys : (st.body.map (·.1)).Nodup
  values : ∀ key v, (key, v) ∈ st.body → v.WellFormed

theorem not_mem_of_entry {used : List String} {p : Property Nat} {key : String} {e : Expr Nat}
    (h : entry used p = .ok (key, e)) : key ∉ used := by
  cases p with
  | shorthand span k value => simp [entry, Rule.misfit] at h
  | computed span k value => simp [entry, Rule.misfit] at h
  | field span k value =>
    simp only [entry] at h
    split at h
    · simp [Rule.misfit] at h
    · split at h
      · simp [Rule.misfit] at h
      · rename_i hk
        obtain ⟨rfl, _⟩ := Prod.mk.inj (Except.ok.inj h)
        exact hk

/-- One more field with a new key and a well-formed value. -/
theorem WellFormed.push {name key : String} {done : List (String × Value)} {v : Value}
    (h : WellFormed ⟨name, done⟩) (hk : key ∉ done.map (·.1)) (hv : v.WellFormed) :
    WellFormed ⟨name, done ++ [(key, v)]⟩ := by
  constructor
  · rw [List.map_append, List.nodup_append]
    refine ⟨h.keys, by simp, fun k hdone k' hnew heq => ?_⟩
    obtain rfl : k' = key := List.mem_singleton.1 hnew
    exact hk (heq ▸ hdone)
  · intro k u hu
    rcases List.mem_append.1 hu with hu | hu
    · exact h.values k u hu
    · obtain ⟨_, rfl⟩ := Prod.mk.inj (List.mem_singleton.1 hu)
      exact hv

theorem wellFormed_entries {oracle : Oracle} {s : Scope} {name : String}
    {done body : List (String × Value)} {ps : List (Property Nat)}
    (h : entries oracle s done ps = .ok body) (hd : WellFormed ⟨name, done⟩) :
    WellFormed ⟨name, body⟩ := by
  induction ps generalizing done with
  | nil =>
    obtain rfl := Except.ok.inj h
    exact hd
  | cons p ps ih =>
    obtain ⟨⟨key, e⟩, hp, h⟩ := bind_eq_ok.1 h
    obtain ⟨v, hv, h⟩ := bind_eq_ok.1 h
    exact ih h (hd.push (not_mem_of_entry hp) (translates_of_compile hv).wellFormed)

theorem wellFormed_compile {oracle : Oracle} {s : Scope} {name : String} {call : Expr Nat}
    {args : List (Expr Nat)} {st : Stage} (h : compile oracle s name call args = .ok st) :
    st.WellFormed := by
  unfold compile at h
  split at h
  · cases h
  · split at h
    · unfold addFields at h
      split at h
      · obtain ⟨body, hb, h⟩ := bind_eq_ok.1 h
        obtain rfl := Except.ok.inj h
        exact wellFormed_entries hb ⟨List.nodup_nil, by simp⟩
      · simp [Rule.misfit] at h
    · cases h

end Stage

namespace Pipeline

theorem wellFormed_link {oracle : Oracle} {s : Scope} {l : Link} {before stages : List Stage}
    (hb : ∀ st ∈ before, st.WellFormed)
    (h : (do
      let stage ← Stage.compile oracle s l.name l.call l.args
      return before ++ [stage]) = .ok stages) : ∀ st ∈ stages, st.WellFormed := by
  obtain ⟨stage, hs, h⟩ := bind_eq_ok.1 h
  obtain rfl := Except.ok.inj h
  intro st hst
  rcases List.mem_append.1 hst with hst | hst
  · exact hb st hst
  · rw [List.mem_singleton.1 hst]
    exact Stage.wellFormed_compile hs

theorem wellFormed_unwind {oracle : Oracle} {s : Scope} {e : Expr Nat} {stages : List Stage}
    (h : unwind oracle s e = .ok stages) : ∀ st ∈ stages, st.WellFormed := by
  fun_induction unwind oracle s e generalizing stages with
  | case1 => cases h
  | case2 => exact wellFormed_link (by simp) h
  | case3 =>
    rename_i ih
    obtain ⟨before, hb, h⟩ := bind_eq_ok.1 h
    exact wellFormed_link (ih hb) h
  | case4 => simp [broken, bind, Except.bind] at h

/-- Every stage of a compiled pipeline is well formed. -/
theorem wellFormed_compile {oracle : Oracle} {s : Scope} {e : Expr Nat} {p : Pipeline}
    (h : compile oracle s e = .ok p) : ∀ st ∈ p.stages, st.WellFormed := by
  unfold compile at h
  split at h
  · simp [broken] at h
  · cases hu : unwind oracle s e with
    | error f =>
      rw [hu] at h
      cases h
    | ok stages =>
      rw [hu] at h
      obtain rfl := Except.ok.inj h
      exact wellFormed_unwind hu

end Pipeline

end Aggregation
