import Aggregation.Proofs.Normal
import Aggregation.Proofs.Rendering

/-! References in expressions and in documents.

In a document a reference is a string, and only its sigils say what it refers to. `Expr.references`
lists what an expression refers to, fields of the document and parameters, in the order in which the
query writes them; `Document.valueStrings` lists the strings of a document that stand for values. One
by one the strings are the references (`Translates.valueStrings`): a parameter is written with two
sigils more than its name has, and a field with one more.

So the sigils of a document tell parameters from fields exactly when no field that is read has a name
that begins with a sigil itself. -/
namespace Aggregation

variable {ν : Type}

/-! ### References of an expression -/

/-- What a place of an expression refers to. -/
inductive Reference
  | field (name : String)
  | parameter (name : String)
deriving DecidableEq, Repr

/-- How a query writes a reference. -/
def Reference.text : Reference → String
  | .field name => "$" ++ name
  | .parameter name => "$$" ++ name

/-- The name of the method that an expression selects. -/
def Expr.method? (e : Expr ν) : Option String :=
  match e.bare with
  | .property _ _ method => some method
  | _ => none

mutual

/-- What an expression refers to, in the order of the query: `includes` writes its argument before
the array. -/
def Expr.references (s : Scope) : Expr ν → List Reference
  | .name _ x => if s.resolve x = some .parameter then [.parameter x] else []
  | .literal _ _ => []
  | .paren _ e => e.references s
  | .property _ object name =>
    if s.isContext object then [.field name] else object.references s
  | .element _ object index =>
    if s.isContext object then (index.bare.key?.map Reference.field).toList
    else object.references s ++ index.references s
  | .binary _ _ left right => left.references s ++ right.references s
  | .unary _ _ operand => operand.references s
  | .conditional _ condition yes no =>
    condition.references s ++ yes.references s ++ no.references s
  | .call _ callee args =>
    if callee.method? = some "includes" then referencesAll s args ++ callee.references s
    else callee.references s ++ referencesAll s args
  | .lambda _ params body => body.references (s.bindAll params)
  | .function _ _ params body => referencesStatements (s.bindAll params) body
  | .object _ properties => referencesProperties s properties

def referencesAll (s : Scope) : List (Expr ν) → List Reference
  | [] => []
  | e :: es => e.references s ++ referencesAll s es

def referencesProperties (s : Scope) : List (Property ν) → List Reference
  | [] => []
  | .field _ _ value :: ps => value.references s ++ referencesProperties s ps
  | .shorthand _ _ value :: ps => value.references s ++ referencesProperties s ps
  | .computed _ key value :: ps =>
    key.references s ++ value.references s ++ referencesProperties s ps

def referencesStatements (s : Scope) : List (Statement ν) → List Reference
  | [] => []
  | .declaration _ _ none :: ss => referencesStatements s ss
  | .declaration _ _ (some e) :: ss => e.references s ++ referencesStatements s ss
  | .result _ none :: ss => referencesStatements s ss
  | .result _ (some e) :: ss => e.references s ++ referencesStatements s ss
  | .expression _ e :: ss => e.references s ++ referencesStatements s ss

end

namespace Expr

theorem references_bare (s : Scope) (e : Expr ν) : e.bare.references s = e.references s := by
  match e with
  | paren _ inner => exact references_bare s inner
  | name _ _ | literal _ _ | property _ _ _ | element _ _ _ | binary _ _ _ _ | unary _ _ _
  | conditional _ _ _ _ | call _ _ _ | lambda _ _ _ | function _ _ _ _ | object _ _ => rfl

/-- A function that only returns refers to what it returns. -/
theorem references_callback {s : Scope} {e body : Expr ν} {param : Param}
    (h : e.bare.callable? = some ⟨[param], some body⟩) :
    e.references s = body.references (s.bind param.name) := by
  rw [← references_bare]
  obtain ⟨m, he⟩ | ⟨m, style, span, he⟩ := eq_of_callable h
  · rw [he]
    rfl
  · rw [he]
    exact List.append_nil _

/-- A name that stands for nothing is not the document, and refers to nothing. -/
theorem references_free {s : Scope} {x : String} (m : Mark ν) (h : s.isFree x = true) :
    s.isContext (.name m x) = false ∧ (Expr.name m x).references s = [] := by
  have hr : s.resolve x = none := Option.isNone_iff_eq_none.1 h
  simp [Scope.isContext, bare, name?, references, hr]

/-- A call refers to what its array and its arguments refer to. -/
theorem references_call {s : Scope} {m : Mark ν} {callee object : Expr ν} {m' : Mark ν}
    {name : String} (args : List (Expr ν)) (hc : callee.bare = .property m' object name)
    (ho : s.isContext object = false) : (Expr.call m callee args).references s =
      if name = "includes" then referencesAll s args ++ object.references s
      else object.references s ++ referencesAll s args := by
  have hcallee : callee.references s = object.references s := by
    rw [← references_bare, hc, references, ho]
    rfl
  have hm : callee.method? = some name := by rw [method?, hc]
  simp only [references, hcallee, hm, Option.some.injEq]

end Expr

/-! ### Strings of a document -/

namespace Document

mutual

/-- The strings of a document that stand for values: not constants, which are under `$literal`, and
not the names that variables are given, which are under `as`. -/
def valueStrings : Document → List String
  | .null => []
  | .boolean _ => []
  | .integer _ => []
  | .float _ => []
  | .string t => [t]
  | .list items => valueStringsAll items
  | .object fields => valueStringsFields fields

def valueStringsAll : List Document → List String
  | [] => []
  | d :: ds => valueStrings d ++ valueStringsAll ds

def valueStringsFields : List (String × Document) → List String
  | [] => []
  | (key, d) :: rest =>
    if key = "$literal" ∨ key = "as" then valueStringsFields rest
    else valueStrings d ++ valueStringsFields rest

end

theorem valueStrings_operator {op : String} {shape : Shape} (h : shape? op = some shape)
    (d : Document) : valueStrings (.object [(op, d)]) = valueStrings d := by
  obtain ⟨hl, ha⟩ := ne_of_shape h
  simp [valueStrings, valueStringsFields, hl, ha]

theorem valueStrings_list {op : String} {n : Nat} (h : shape? op = some (.list n))
    (vs : List Value) :
    valueStrings (ofValue (.list op vs)) = vs.flatMap fun v => valueStrings (ofValue v) := by
  rw [ofValue, ofField, valueStrings_operator h, valueStrings]
  induction vs with
  | nil => rfl
  | cons v vs ih => rw [ofValues, valueStringsAll, ih, List.flatMap_cons]

theorem valueStrings_single {op : String} (h : shape? op = some .single) (v : Value) :
    valueStrings (ofValue (.single op v)) = valueStrings (ofValue v) := by
  rw [ofValue, ofField, valueStrings_operator h]

theorem valueStrings_choice (c y n : Value) :
    valueStrings (ofValue (.named "$cond" [("if", c), ("then", y), ("else", n)])) =
      valueStrings (ofValue c) ++ valueStrings (ofValue y) ++ valueStrings (ofValue n) := by
  have hs : shape? "$cond" = some (.named ["if", "then", "else"]) := rfl
  rw [ofValue_named hs, valueStrings_operator hs]
  simp [ofEntries, valueStrings, valueStringsFields]

theorem valueStrings_iteration {name key : String} (h : (name, key) ∈ iterationMethods)
    (x : String) (v w : Value) :
    valueStrings (ofValue (.named ("$" ++ name) [("input", v), ("as", .name x), (key, w)])) =
      valueStrings (ofValue v) ++ valueStrings (ofValue w) := by
  have hk : key ≠ "$literal" ∧ key ≠ "as" := by
    obtain ⟨_, rfl⟩ | ⟨_, rfl⟩ := eq_of_mem_iterationMethods h <;> decide
  rw [ofValue_named (shape_iteration h), valueStrings_operator (shape_iteration h)]
  simp [ofEntries, valueStrings, valueStringsFields, hk]

end Document

/-! ### Compiled values -/

theorem ne_includes_of_pair {name op : String} (h : (name, op) ∈ pairMethods) :
    name ≠ "includes" := by
  obtain ⟨rfl, _⟩ | ⟨rfl, _⟩ := eq_of_mem_pairMethods h <;> decide

theorem ne_includes_of_iteration {name key : String} (h : (name, key) ∈ iterationMethods) :
    name ≠ "includes" := by
  obtain ⟨rfl, _⟩ | ⟨rfl, _⟩ := eq_of_mem_iterationMethods h <;> decide

/-- The strings of a compiled value are the references of its expression, one by one. -/
theorem Translates.valueStrings {s : Scope} {e : Expr Nat} {v : Value} (h : Translates s e v) :
    (Document.ofValue v).valueStrings = (e.references s).map Reference.text := by
  induction h with
  | group _ ih => exact ih
  | parameter hx =>
    rw [Expr.references, if_pos (Scope.resolve_eq_parameter.2 hx)]
    rfl
  | literal => rfl
  | field ho _ =>
    rw [Expr.references, if_pos ho]
    rfl
  | fieldByKey ho hi _ =>
    rw [Expr.references, if_pos ho, hi]
    rfl
  | length ho _ ih =>
    rw [Document.valueStrings_single rfl, Expr.references, ho, ih]
    rfl
  | element ho _ _ ihv ihw =>
    rw [Document.valueStrings_list rfl, Expr.references, ho]
    simp [ihv, ihw]
  | binary hop _ _ ihv ihw =>
    rw [Document.valueStrings_list (shape_operator hop), Expr.references]
    simp [ihv, ihw]
  | not _ ih =>
    rw [Document.valueStrings_list rfl, Expr.references]
    simp [ih]
  | choice _ _ _ ihc ihy ihn =>
    rw [Document.valueStrings_choice, Expr.references, ihc, ihy, ihn, List.map_append,
      List.map_append]
  | isArray hc hfree _ ih =>
    obtain ⟨ho, hr⟩ := Expr.references_free _ hfree
    rw [Document.valueStrings_list rfl, Expr.references_call _ hc ho, if_neg (by decide), hr]
    simp [referencesAll, ih]
  | pair hop hc ho _ _ ihv ihw =>
    have hne : _ ≠ "includes" := ne_includes_of_pair hop
    rw [Document.valueStrings_list (shape_pair hop), Expr.references_call _ hc ho, if_neg hne]
    simp [referencesAll, ihv, ihw]
  | includes hc ho _ _ ihv ihw =>
    rw [Document.valueStrings_list rfl, Expr.references_call _ hc ho, if_pos rfl]
    simp [referencesAll, ihv, ihw]
  | reverse hc ho _ ih =>
    rw [Document.valueStrings_single rfl, Expr.references_call _ hc ho, if_neg (by decide), ih]
    simp [referencesAll]
  | iteration hk hc ho hf _ _ ihv ihw =>
    rw [Document.valueStrings_iteration hk, Expr.references_call _ hc ho,
      if_neg (ne_includes_of_iteration hk), ihv, ihw, referencesAll, Expr.references_callback hf]
    simp [referencesAll]

/-- A reference is written with two sigils if it is a parameter, or a field whose name has one. -/
theorem Reference.two_le_sigils (r : Reference) : 2 ≤ sigils r.text ↔
    (∃ x, r = .parameter x) ∨ ∃ name, r = .field name ∧ sigils name ≠ 0 := by
  cases r with
  | field name =>
    have h : 2 ≤ sigils name + 1 ↔ sigils name ≠ 0 := by omega
    simpa [text] using h
  | parameter x => simp [text]

/-- What the sigils of a document tell. The strings that stand for values in the document of a
compiled expression are its references, one by one. Those with two sigils are parameters, and fields
are written with one, exactly if no field that is read has a name that begins with a sigil. -/
theorem valueStrings_compile (oracle : Oracle) (s : Scope) (e : Expr Nat) (v : Value)
    (h : compile oracle s e = .ok v) :
    (Document.ofValue v).valueStrings = (e.references s).map Reference.text ∧
      (((∀ r ∈ e.references s, 2 ≤ sigils r.text → ∃ x, r = .parameter x) ∧
          ∀ name, .field name ∈ e.references s → sigils (Reference.field name).text = 1) ↔
        ∀ name, .field name ∈ e.references s → sigils name = 0) := by
  refine ⟨(translates_of_compile h).valueStrings, ⟨fun ⟨_, h1⟩ name hname => ?_, fun h0 => ⟨?_, ?_⟩⟩⟩
  · simpa [Reference.text] using h1 name hname
  · intro r hr h2
    rcases r.two_le_sigils.1 h2 with hx | ⟨name, rfl, hne⟩
    · exact hx
    · exact absurd (h0 name hr) hne
  · intro name hname
    rw [Reference.text, sigils_field, h0 name hname]

/-- The expression `this.a.filter(p => this.b.includes(p))`. -/
def filterIncluded : Expr Nat :=
  .call ⟨9, ⟨0, 38⟩⟩
    (.property ⟨2, ⟨0, 13⟩⟩ (.property ⟨1, ⟨0, 6⟩⟩ (.name ⟨0, ⟨0, 4⟩⟩ "this") "a") "filter")
    [.lambda ⟨8, ⟨14, 37⟩⟩ [⟨"p", ⟨14, 15⟩, none⟩]
      (.call ⟨7, ⟨19, 37⟩⟩
        (.property ⟨5, ⟨19, 34⟩⟩ (.property ⟨4, ⟨19, 25⟩⟩ (.name ⟨3, ⟨19, 23⟩⟩ "this") "b")
          "includes")
        [.name ⟨6, ⟨35, 36⟩⟩ "p"])]

theorem valueStrings_filterIncluded :
    ∃ v, compile (fun _ => .array) (.root "this") filterIncluded = .ok v ∧
      (Document.ofValue v).valueStrings = ["$a", "$$p", "$b"] ∧
      ∀ r ∈ filterIncluded.references (.root "this"), 2 ≤ sigils r.text → ∃ x, r = .parameter x := by
  have h : compile (fun _ => .array) (.root "this") filterIncluded =
      .ok (.named "$filter" [("input", .ofField "a"), ("as", .name "p"),
        ("cond", .list "$in" [.ofLocal "p", .ofField "b"])]) := by
    cbv
  have hr : filterIncluded.references (.root "this") =
      [.field "a", .parameter "p", .field "b"] := by
    cbv
  obtain ⟨hs, hsigils⟩ := valueStrings_compile _ _ _ _ h
  refine ⟨_, h, ?_, (hsigils.2 ?_).1⟩
  · rw [hs, hr]
    rfl
  · rw [hr]
    intro name hname
    obtain rfl | rfl : name = "a" ∨ name = "b" := by simpa using hname
    · rfl
    · rfl

/-- The expression `this.$p`. -/
def sigilField : Expr Nat :=
  .property ⟨1, ⟨0, 7⟩⟩ (.name ⟨0, ⟨0, 4⟩⟩ "this") "$p"

/-- A field is written with two sigils if its name begins with one. -/
theorem valueStrings_sigilField :
    ∃ v, compile Oracle.unknown (.root "this") sigilField = .ok v ∧
      sigilField.references (.root "this") = [.field "$p"] ∧
      (Document.ofValue v).valueStrings = ["$$p"] ∧ sigils "$$p" = 2 := by
  refine ⟨.ofField "$p", ?_, ?_, ?_, ?_⟩ <;> cbv

end Aggregation
