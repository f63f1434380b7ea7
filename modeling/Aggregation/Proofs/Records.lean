import Mathlib.Data.List.Nodup
import Aggregation.Proofs.Likeness
import Aggregation.Proofs.Nodes

/-! What is recorded about the nodes of an expression.

Typing an expression records a type for each node at most once (`Env.count_records`), so if no two
nodes share a number then each number has one type (`Env.nodup_records`). The parts of a node that its
rule looks at are recorded with the types that they have under the bindings of the node
(`Env.records_part`), and the body of a function for the elements of an array with those that it has
inside the function (`Env.records_body`). The names bound there are those of the compiler's scope. -/
namespace Aggregation

namespace Env

variable {ν : Type} {env : Env}

/-! ### Names -/

/-- The names bound around an expression. -/
def scope (env : Env) : Scope :=
  ⟨env.placeholder, env.locals.map (·.1)⟩

theorem isNone_lookup (locals : List (String × Ty)) (x : String) :
    (locals.lookup x).isNone ↔ x ∉ locals.map (·.1) := by
  rw [Option.isNone_iff_eq_none, List.lookup_eq_none_iff]
  simp only [bne_iff_ne, List.mem_map, not_exists, not_and]
  exact forall₂_congr fun p _ => ne_comm

/-- A name is free for the types just if it is free in the scope. -/
theorem isFree_scope (env : Env) (x : String) : env.scope.isFree x = env.isFree x := by
  rw [Bool.eq_iff_iff, isFree, Bool.and_eq_true, isNone_lookup, Scope.isFree, Scope.resolve]
  show _ ↔ (x != env.scope.placeholder) = true ∧ x ∉ env.scope.locals
  by_cases hx : x ∈ env.scope.locals
  · simp [hx]
  · rw [if_neg hx]
    by_cases hp : x = env.scope.placeholder <;> simp [hx, hp]

/-- Nothing is known about a free name. -/
theorem lookup_of_isFree {x : String} (h : env.isFree x) : env.lookup x = .unknown := by
  obtain ⟨hp, hl⟩ : x ≠ env.placeholder ∧ (env.locals.lookup x).isNone := by
    simpa [isFree] using h
  rw [lookup, Option.isNone_iff_eq_none.1 hl]
  exact if_neg hp

theorem typeOf_of_isArrayName {e : Expr ν} (h : e.isArrayName) (hfree : env.isFree "Array") :
    env.typeOf e = .unknown := by
  cases e with
  | name m x =>
    obtain rfl : x = "Array" := by simpa [Expr.isArrayName, Expr.name?] using h
    exact lookup_of_isFree hfree
  | _ => cases h

theorem scope_bind_single (env : Env) (t : Ty) (p : Param) :
    (env.bind t [p]).scope = env.scope.bind p.name := rfl

/-! ### Each node once -/

/-- Records of nodes, of each node at most one. -/
def Within (rs : List (Nat × Ty)) (es : List (Expr Nat)) : Prop :=
  ∀ n, (rs.map (·.1)).count n ≤ (labelsOf es).count n

namespace Within

variable {rs qs : List (Nat × Ty)} {es fs : List (Expr Nat)}

theorem nil : Within [] [] := fun _ => Nat.le_refl _

/-- Nodes need not be recorded. -/
theorem none : Within [] es := fun _ => Nat.zero_le _

theorem self (e : Expr Nat) (t : Ty) : Within [(e.mark.label, t)] e.nodes := by
  intro n
  have h : [e.mark.label].Sublist (labelsOf e.nodes) :=
    List.singleton_sublist.2 (List.mem_map.2 ⟨e, e.mem_nodes_self, rfl⟩)
  exact h.count_le n

theorem append (hr : Within rs es) (hq : Within qs fs) : Within (rs ++ qs) (es ++ fs) := by
  intro n
  rw [List.map_append, labelsOf_append, List.count_append, List.count_append]
  exact Nat.add_le_add (hr n) (hq n)

/-- The record of a node behind those of the nodes inside it. -/
theorem push {e : Expr Nat} {t : Ty} (hr : Within rs es) :
    Within (rs ++ [(e.mark.label, t)]) (es ++ [e]) :=
  hr.append fun _ => Nat.le_refl _

/-- The record of a node before those of the nodes inside it. -/
theorem pull (e : Expr Nat) (t : Ty) (hr : Within rs es) :
    Within ((e.mark.label, t) :: rs) (es ++ [e]) := by
  intro n
  have h := hr.push (e := e) (t := t) n
  rw [List.map_append, List.count_append] at h
  rw [List.map_cons, List.count_cons]
  simpa [List.count_singleton] using h

theorem widen (hr : Within rs es) (fs : List (Expr Nat)) : Within rs (es ++ fs) := by
  have h := hr.append (none : Within [] fs)
  rwa [List.append_nil] at h

end Within

mutual

/-- Of an expression and the nodes inside it, each is recorded at most once. -/
theorem within_records (env : Env) (e : Expr Nat) : Within (env.records e) e.nodes := by
  match e with
  | .name m x => exact Within.nil.push
  | .literal m c => exact Within.nil.push
  | .paren m e => exact (within_records env e).push
  | .property m object name => exact (within_records env object).push
  | .element m object index =>
    exact ((within_records env object).append (within_records env index)).push
  | .binary m op left right =>
    exact ((within_records env left).append (within_records env right)).push
  | .unary m op operand => exact (within_records env operand).push
  | .conditional m condition yes no =>
    exact (((within_records env condition).append (within_records env yes)).append
      (within_records env no)).push
  | .call m (.property p object name) args =>
    have hobject := within_records env object
    have hargs := within_recordAll env args
    have hcallback := within_callback env args
    refine Within.push (?_ : Within _ (_ ++ _))
    unfold inside
    split
    · exact ((Within.self object .unknown).pull (.property p object name) .unknown).append hargs
    · refine (hobject.pull (.property p object name) .unknown).append ?_
      split
      · rename_i element callback _ _
        split
        · exact hcallback element callback rfl ‹_›
        · have h : env.recordAll [callback] = env.records callback := List.append_nil _
          rwa [h] at hargs
      · exact hargs
  | .call m (.name _ _) args | .call m (.literal _ _) args | .call m (.element _ _ _) args
  | .call m (.binary _ _ _ _) args | .call m (.unary _ _ _) args
  | .call m (.conditional _ _ _ _) args | .call m (.call _ _ _) args
  | .call m (.lambda _ _ _) args | .call m (.function _ _ _ _) args
  | .call m (.object _ _) args | .call m (.paren _ _) args =>
    exact ((within_records env _).append (within_recordAll env args)).push
  | .lambda m params body => exact (within_records _ body).push
  | .function m style params body => exact (within_recordResult _ body).push
  | .object m properties => exact (within_recordProperties env properties).push

/-- A function for the elements of an array is recorded itself, and what it returns. -/
theorem within_recordBody (env : Env) (element : Ty) (e : Expr Nat) (h : e.bare.callable?.isSome) :
    Within ((e.bare.mark.label, .unknown) :: env.recordBody element e) e.nodes := by
  match e with
  | .paren m e => exact (within_recordBody env element e h).widen _
  | .lambda m params body => exact (within_records _ body).pull (.lambda m params body) _
  | .function m style params body =>
    exact (within_recordResult _ body).pull (.function m style params body) _
  | .name _ _ | .literal _ _ | .property _ _ _ | .element _ _ _ | .binary _ _ _ _ | .unary _ _ _
  | .conditional _ _ _ _ | .call _ _ _ | .object _ _ => cases h

/-- The outermost parentheses around such a function are recorded too. -/
theorem within_callback (env : Env) (args : List (Expr Nat)) (element : Ty) (callback : Expr Nat)
    (hargs : args = [callback]) (h : callback.bare.callable?.isSome) :
    Within (unknownLabels callback ++ env.recordBody element callback) (nodesAll args) := by
  match args with
  | [] => cases hargs
  | .paren m e :: es =>
    obtain ⟨rfl, rfl⟩ := List.cons.inj hargs
    exact ((within_recordBody env element e h).pull (.paren m e) .unknown).widen _
  | .lambda m params body :: es =>
    obtain ⟨rfl, rfl⟩ := List.cons.inj hargs
    exact (within_recordBody env element (.lambda m params body) h).widen _
  | .function m style params body :: es =>
    obtain ⟨rfl, rfl⟩ := List.cons.inj hargs
    exact (within_recordBody env element (.function m style params body) h).widen _
  | .name _ _ :: es | .literal _ _ :: es | .property _ _ _ :: es | .element _ _ _ :: es
  | .binary _ _ _ _ :: es | .unary _ _ _ :: es | .conditional _ _ _ _ :: es | .call _ _ _ :: es
  | .object _ _ :: es =>
    obtain ⟨rfl, rfl⟩ := List.cons.inj hargs
    cases h

theorem within_recordAll (env : Env) (es : List (Expr Nat)) :
    Within (env.recordAll es) (nodesAll es) := by
  match es with
  | [] => exact .nil
  | e :: es => exact (within_records env e).append (within_recordAll env es)

theorem within_recordProperties (env : Env) (ps : List (Property Nat)) :
    Within (env.recordProperties ps) (nodesProperties ps) := by
  match ps with
  | [] => exact .nil
  | .field _ _ value :: ps =>
    exact (within_records env value).append (within_recordProperties env ps)
  | .shorthand _ _ value :: ps =>
    exact (within_records env value).append (within_recordProperties env ps)
  | .computed _ key value :: ps =>
    exact ((within_records env key).append (within_records env value)).append
      (within_recordProperties env ps)

theorem within_recordResult (env : Env) (ss : List (Statement Nat)) :
    Within (env.recordResult ss) (nodesStatements ss) := by
  match ss with
  | [.result _ (some e)] => exact (within_records env e).widen _
  | [] | .result _ none :: _ | .result _ (some _) :: _ :: _ | .declaration _ _ _ :: _
  | .expression _ _ :: _ => exact .none

end

/-- If no two nodes share a number, no number has two types. -/
theorem nodup_records (env : Env) {e : Expr Nat} (h : e.labels.Nodup) :
    ((env.records e).map (·.1)).Nodup := by
  rw [List.nodup_iff_count_le_one] at h ⊢
  exact fun n => Nat.le_trans (within_records env e n) (h n)

/-! ### Parts -/

/-- Parentheses do not change the type of what stands in them. -/
theorem typeOf_bare (env : Env) (e : Expr ν) : env.typeOf e.bare = env.typeOf e := by
  match e with
  | .paren _ e => exact typeOf_bare env e
  | .name _ _ | .literal _ _ | .property _ _ _ | .element _ _ _ | .binary _ _ _ _ | .unary _ _ _
  | .conditional _ _ _ _ | .call _ _ _ | .lambda _ _ _ | .function _ _ _ _ | .object _ _ => rfl

theorem mem_records_self (env : Env) (e : Expr Nat) :
    (e.mark.label, env.typeOf e) ∈ env.records e :=
  List.mem_append_right _ (List.mem_singleton.2 rfl)

theorem inside_subset_records (env : Env) (e : Expr Nat) : env.inside e ⊆ env.records e :=
  List.subset_append_left _ _

theorem inside_subset_of_records {e : Expr Nat} {rs : List (Nat × Ty)} (h : env.records e ⊆ rs) :
    env.inside e ⊆ rs :=
  List.Subset.trans (env.inside_subset_records e) h

/-- What stands in parentheses is recorded with them. -/
theorem records_bare (env : Env) (e : Expr Nat) : env.records e.bare ⊆ env.records e := by
  match e with
  | .paren _ e => exact List.subset_append_of_subset_left _ (records_bare env e)
  | .name _ _ | .literal _ _ | .property _ _ _ | .element _ _ _ | .binary _ _ _ _ | .unary _ _ _
  | .conditional _ _ _ _ | .call _ _ _ | .lambda _ _ _ | .function _ _ _ _ | .object _ _ =>
    exact List.Subset.refl _

theorem records_subset_recordAll {es : List (Expr Nat)} {e : Expr Nat} (h : e ∈ es) :
    env.records e ⊆ env.recordAll es := by
  induction es with
  | nil => cases h
  | cons x xs ih =>
    rcases List.mem_cons.1 h with rfl | h
    · exact List.subset_append_left _ _
    · exact List.subset_append_of_subset_right _ (ih h)

/-- The object of a method is recorded with its call, unless it is `Array` itself. -/
theorem records_object (m : Mark Nat) {p : Mark Nat} {callee object : Expr Nat} {name : String}
    (args : List (Expr Nat)) (hc : callee.bare = .property p object name)
    (harray : (object.isArrayName && env.isFree "Array") = false) :
    env.records object ⊆ env.inside (.call m callee args) := by
  cases callee with
  | property p' object' name' =>
    obtain ⟨-, rfl, rfl⟩ := Expr.property.inj hc
    have htest : ¬ env.isArrayTest object' name' = true := by
      rw [isArrayTest, ← Expr.isArrayName, harray, Bool.false_and]
      exact Bool.false_ne_true
    unfold inside
    rw [if_neg htest]
    exact List.subset_cons_of_subset _ (List.subset_append_left _ _)
  | paren p' inner =>
    have hinner : env.records object ⊆ env.records (Expr.paren p' inner).bare := by
      rw [hc]
      exact inside_subset_records env (.property p object name)
    exact List.subset_append_of_subset_left _ (List.Subset.trans hinner (records_bare env _))
  | _ => cases hc

/-- The arguments of a method are recorded with its call, unless they are a function for the
elements of an array. -/
theorem records_argument (m : Mark Nat) {p : Mark Nat} {callee object x : Expr Nat} {name : String}
    {args : List (Expr Nat)} (hc : callee.bare = .property p object name)
    (h : ∀ t, env.typeOf object = .array t → iterates name → x.bare.callable?.isSome = false)
    (hx : x ∈ args) : env.records x ⊆ env.inside (.call m callee args) := by
  have hargs : env.records x ⊆ env.recordAll args := records_subset_recordAll hx
  cases callee with
  | property p' object' name' =>
    obtain ⟨-, rfl, rfl⟩ := Expr.property.inj hc
    unfold inside
    refine List.subset_cons_of_subset _ ?_
    split
    · exact List.subset_cons_of_subset _ hargs
    · refine List.subset_append_of_subset_right _ ?_
      split
      · rename_i t callback ht hname
        obtain rfl := List.mem_singleton.1 hx
        rw [h t ht hname]
        exact List.Subset.refl _
      · exact hargs
  | paren p' inner => exact List.subset_append_of_subset_right _ hargs
  | _ => cases hc

/-- The parts of a node that its rule looks at are recorded with the types that they have where the
node stands. -/
theorem records_part {e x : Expr Nat} (h : x ∈ Rule.parts env.scope e) :
    env.records x ⊆ env.inside e := by
  cases e with
  | name | literal | lambda | function | object => cases h
  | paren m inner =>
    obtain rfl := List.mem_singleton.1 h
    exact List.Subset.refl _
  | property m object name =>
    obtain rfl := List.mem_singleton.1 h
    exact List.Subset.refl _
  | unary m op operand =>
    obtain rfl := List.mem_singleton.1 h
    exact List.Subset.refl _
  | element m object index | binary m op left right =>
    rcases List.mem_cons.1 h with rfl | h
    · exact List.subset_append_left _ _
    · obtain rfl := List.mem_singleton.1 h
      exact List.subset_append_right _ _
  | conditional m condition yes no =>
    rcases List.mem_cons.1 h with rfl | h
    · exact List.subset_append_of_subset_left _ (List.subset_append_left _ _)
    · rcases List.mem_cons.1 h with rfl | h
      · exact List.subset_append_of_subset_left _ (List.subset_append_right _ _)
      · obtain rfl := List.mem_singleton.1 h
        exact List.subset_append_right _ _
  | call m callee args =>
    simp only [Rule.parts, isFree_scope] at h
    split at h
    · rename_i p object name hc
      split at h
      · -- `Array` has no type, so a function given to one of its methods is like any other argument
        rename_i harray
        obtain ⟨hname, hfree⟩ := Bool.and_eq_true_iff.1 harray
        refine records_argument m hc (fun t ht _ => ?_) h
        rw [typeOf_of_isArrayName hname hfree] at ht
        cases ht
      · rename_i harray
        have hobject := records_object m args hc (by simpa using harray)
        split at h
        · obtain rfl := List.mem_singleton.1 h
          exact hobject
        · rename_i hiter
          rcases List.mem_cons.1 h with rfl | h
          · exact hobject
          · exact records_argument m hc (fun _ _ hi => absurd hi hiter) h
    · cases h

/-! ### Functions for the elements of an array -/

/-- The type of the elements of what a method is called on, as far as the call shows it: a method in
parentheses shows nothing. -/
def elementOf (env : Env) : Expr ν → Ty
  | .property _ object _ =>
    match env.typeOf object with
    | .array element => element
    | _ => .unknown
  | _ => .unknown

/-- The bindings inside the function that a call gives to a method. -/
def inner (env : Env) : Expr ν → Env
  | .call _ callee [arg] =>
    match arg.bare.callable? with
    | some f => env.bind (env.elementOf callee) f.params
    | none => env
  | _ => env

theorem inner_of_callable {m : Mark ν} {callee arg : Expr ν} {f : Callable ν}
    (hf : arg.bare.callable? = some f) :
    env.inner (.call m callee [arg]) = env.bind (env.elementOf callee) f.params := by
  rw [inner, hf]

/-- The type of a block is that of what it returns, if that is all it does. -/
theorem resultType_eq (ss : List (Statement ν)) :
    env.resultType ss = (Statement.singleResult? ss).elim .unknown env.typeOf := by
  match ss with
  | [.result _ (some e)] => rfl
  | [] | .result _ none :: [] | .result _ none :: _ :: _ | .result _ (some _) :: _ :: _
  | .declaration _ _ _ :: _ | .expression _ _ :: _ => rfl

/-- A block is recorded as what it returns, if that is all it does. -/
theorem recordResult_eq (ss : List (Statement Nat)) :
    env.recordResult ss = (Statement.singleResult? ss).elim [] env.records := by
  match ss with
  | [.result _ (some e)] => rfl
  | [] | .result _ none :: [] | .result _ none :: _ :: _ | .result _ (some _) :: _ :: _
  | .declaration _ _ _ :: _ | .expression _ _ :: _ => rfl

/-- What a function for the elements of an array returns is recorded inside the function. -/
theorem records_subset_recordBody (t : Ty) {e body : Expr Nat} {f : Callable Nat}
    (hf : e.bare.callable? = some f) (hb : f.result? = some body) :
    (env.bind t f.params).records body ⊆ env.recordBody t e := by
  match e with
  | .paren m e => exact records_subset_recordBody (e := e) t hf hb
  | .lambda m params b =>
    obtain rfl := Option.some.inj hf
    obtain rfl := Option.some.inj hb
    exact List.Subset.refl _
  | .function m style params ss =>
    obtain rfl := Option.some.inj hf
    rw [recordBody, recordResult_eq, show Statement.singleResult? ss = some body from hb]
    exact List.Subset.refl _
  | .name _ _ | .literal _ _ | .property _ _ _ | .element _ _ _ | .binary _ _ _ _ | .unary _ _ _
  | .conditional _ _ _ _ | .call _ _ _ | .object _ _ => cases hf

/-- What a function returns is recorded inside it also where nothing is known of its parameters. -/
theorem records_result {e body : Expr Nat} {f : Callable Nat} (hf : e.bare.callable? = some f)
    (hb : f.result? = some body) : (env.bind .unknown f.params).records body ⊆ env.records e := by
  match e with
  | .paren m e =>
    exact List.subset_append_of_subset_left _ (records_result (e := e) hf hb)
  | .lambda m params b =>
    obtain rfl := Option.some.inj hf
    obtain rfl := Option.some.inj hb
    exact inside_subset_records env (.lambda m params b)
  | .function m style params ss =>
    obtain rfl := Option.some.inj hf
    refine List.subset_append_of_subset_left _ ?_
    rw [inside, recordResult_eq, show Statement.singleResult? ss = some body from hb]
    exact List.Subset.refl _
  | .name _ _ | .literal _ _ | .property _ _ _ | .element _ _ _ | .binary _ _ _ _ | .unary _ _ _
  | .conditional _ _ _ _ | .call _ _ _ | .object _ _ => cases hf

/-- The body of a function for the elements of an array is recorded with the types that it has inside
the function. -/
theorem records_body (m : Mark Nat) {p : Mark Nat} {callee object arg body : Expr Nat}
    {name : String} {f : Callable Nat} (hc : callee.bare = .property p object name)
    (hname : iterates name) (harray : (env.typeOf object).toClass = .array)
    (hf : arg.bare.callable? = some f) (hb : f.result? = some body) :
    (env.inner (.call m callee [arg])).records body ⊆ env.inside (.call m callee [arg]) := by
  rw [inner_of_callable hf]
  obtain ⟨t, ht⟩ : ∃ t, env.typeOf object = .array t := by
    unfold Ty.toClass at harray
    split at harray <;> simp_all
  cases callee with
  | property p' object' name' =>
    obtain ⟨-, rfl, rfl⟩ := Expr.property.inj hc
    have htest : ¬ env.isArrayTest object' name' = true := by
      intro h
      obtain ⟨h, -⟩ := Bool.and_eq_true_iff.1 h
      obtain ⟨hname, hfree⟩ := Bool.and_eq_true_iff.1 h
      rw [typeOf_of_isArrayName hname hfree] at ht
      cases ht
    have hcallable : arg.bare.callable?.isSome = true := by rw [hf]; rfl
    unfold inside
    rw [if_neg htest, ht, hname, elementOf, ht]
    simp only [if_pos hcallable]
    refine List.subset_cons_of_subset _ (List.subset_append_of_subset_right _ ?_)
    exact List.subset_append_of_subset_right _ (records_subset_recordBody t hf hb)
  | paren p' inner =>
    refine List.Subset.trans (records_result hf hb) (List.subset_append_of_subset_right _ ?_)
    exact records_subset_recordAll (List.mem_singleton.2 rfl)
  | _ => cases hc

end Env

end Aggregation
