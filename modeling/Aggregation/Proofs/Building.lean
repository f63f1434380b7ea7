import Aggregation.Proofs.Likeness
import Aggregation.Proofs.Nodes

/-! What becomes of compiled operands.

A rule, a stage and a pipeline put together values that are compiled elsewhere. Here what compiles
them is left open: `Rule.build`, `Stage.compileWith` and `Pipeline.compileWith` take it as a function,
and the compiler is the case where it is the compiler itself (`compile_eq_build`,
`Pipeline.compile_eq_with`). Of like rules and chains they make the same, if the functions agree on the
operands (`Rule.agree_build`, `Pipeline.agree_compileWith`). -/
namespace Aggregation

/-! ### Rules and their operands -/

namespace Rule

/-- The operands that are compiled in the scope of the node. -/
def plain : Rule → List (Expr Nat)
  | done _ => []
  | same e => [e]
  | single _ e => [e]
  | one _ e => [e]
  | two _ first second => [first, second]
  | swapped _ first second => [first, second]
  | choice condition yes no => [condition, yes, no]
  | each _ _ _ input _ => [input]

/-- The operand that is compiled inside a function, with the parameter of the function. -/
def body? : Rule → Option (String × Expr Nat)
  | each _ _ param _ body => some (param, body)
  | _ => none

theorem plain_subset_operands (r : Rule) : r.plain ⊆ r.operands := by
  cases r <;> simp [plain, operands]

theorem body_mem_operands {r : Rule} {param : String} {body : Expr Nat}
    (h : r.body? = some (param, body)) : body ∈ r.operands := by
  cases r with
  | each op key p input b =>
    obtain ⟨-, rfl⟩ := Prod.mk.inj (Option.some.inj h)
    simp [operands]
  | _ => cases h

/-- The value that a rule gives, where `f` compiles operands in the scope of the node and `g` inside a
function of the given parameter. -/
def build (f : Expr Nat → Except CompileFault Value)
    (g : String → Expr Nat → Except CompileFault Value) : Rule → Except CompileFault Value
  | done v => .ok v
  | same e => f e
  | single op x => do
    let v ← f x
    return .single op v
  | one op x => do
    let v ← f x
    return .list op [v]
  | two op x y => do
    let v ← f x
    let w ← f y
    return .list op [v, w]
  | swapped op x y => do
    let v ← f x
    let w ← f y
    return .list op [w, v]
  | choice c y n => do
    let c ← f c
    let y ← f y
    let n ← f n
    return .named "$cond" [("if", c), ("then", y), ("else", n)]
  | each op key param input body => do
    let i ← f input
    let b ← g param body
    return .named op [("input", i), ("as", .name param), (key, b)]

/-- Like rules give the same value, if their operands do. -/
theorem agree_build {R : Expr Nat → Expr Nat → Prop} {r r' : Rule}
    {f f' : Expr Nat → Except CompileFault Value}
    {g g' : String → Expr Nat → Except CompileFault Value} (h : Alike R r r')
    (hf : ∀ x x', R x x' → x ∈ r.plain → Agree R (· = ·) (f x) (f' x'))
    (hg : ∀ p b b', R b b' → r.body? = some (p, b) → Agree R (· = ·) (g p b) (g' p b')) :
    Agree R (· = ·) (r.build f g) (r'.build f' g') := by
  cases h with
  | done => exact .ok rfl
  | same hx => exact hf _ _ hx (by simp [plain])
  | single hx =>
    refine (hf _ _ hx (by simp [plain])).bind ?_
    rintro v _ rfl
    exact .ok rfl
  | one hx =>
    refine (hf _ _ hx (by simp [plain])).bind ?_
    rintro v _ rfl
    exact .ok rfl
  | two hx hy | swapped hx hy =>
    refine (hf _ _ hx (by simp [plain])).bind ?_
    rintro v _ rfl
    refine (hf _ _ hy (by simp [plain])).bind ?_
    rintro w _ rfl
    exact .ok rfl
  | choice hx hy hz =>
    refine (hf _ _ hx (by simp [plain])).bind ?_
    rintro v _ rfl
    refine (hf _ _ hy (by simp [plain])).bind ?_
    rintro w _ rfl
    refine (hf _ _ hz (by simp [plain])).bind ?_
    rintro u _ rfl
    exact .ok rfl
  | each hx hb =>
    refine (hf _ _ hx (by simp [plain])).bind ?_
    rintro v _ rfl
    refine (hg _ _ _ hb rfl).bind ?_
    rintro w _ rfl
    exact .ok rfl

end Rule

/-- A node is compiled by its rule. -/
theorem compile_eq_build (oracle : Oracle) (scope : Scope) (e : Expr Nat) :
    compile oracle scope e = Rule.of oracle scope e >>=
      Rule.build (compile oracle scope) (fun param => compile oracle (scope.bind param)) := by
  rw [compile]
  split <;> rename_i h <;> rw [h] <;> rfl

/-- Parentheses compile to what stands in them. -/
theorem compile_bare (o : Oracle) (s : Scope) (e : Expr Nat) : compile o s e.bare = compile o s e := by
  match e with
  | .paren m e =>
    rw [compile_eq_build o s (.paren m e)]
    exact compile_bare o s e
  | .name _ _ | .literal _ _ | .property _ _ _ | .element _ _ _ | .binary _ _ _ _ | .unary _ _ _
  | .conditional _ _ _ _ | .call _ _ _ | .lambda _ _ _ | .function _ _ _ _ | .object _ _ => rfl

/-! ### Stages and pipelines -/

namespace Stage

/-- The entries of an object, compiled by `f` behind the entries `done`. -/
def entriesWith (f : Expr Nat → Except CompileFault Value) (done : List (String × Value)) :
    List (Property Nat) → Except CompileFault (List (String × Value))
  | [] => .ok done
  | p :: ps => do
    let (key, e) ← entry (done.map (·.1)) p
    let v ← f e
    entriesWith f (done ++ [(key, v)]) ps

/-- The stage that adds the fields of an object, compiled by `f`. -/
def addFieldsWith (f : Expr Nat → Except CompileFault Value) (arg : Expr Nat) :
    Except CompileFault Stage :=
  match arg.bare with
  | .object _ properties => do
    let body ← entriesWith f [] properties
    return ⟨StageKind.addFields.name, body⟩
  | e => Rule.misfit e (.stageFields StageKind.addFields.name)

/-- The stage that a call makes, its expressions compiled by `f`. -/
def compileWith (f : Expr Nat → Except CompileFault Value) (name : String) (call : Expr Nat)
    (args : List (Expr Nat)) : Except CompileFault Stage :=
  match StageKind.find? name with
  | none => .error ⟨.unknownStage name, call⟩
  | some kind =>
    match kind, args with
    | .addFields, [arg] => addFieldsWith f arg
    | kind, args => .error ⟨.arity kind.name kind.arity args.length, call⟩

variable (oracle : Oracle) (scope : Scope)

theorem entries_eq_with (done : List (String × Value)) (ps : List (Property Nat)) :
    entries oracle scope done ps = entriesWith (Aggregation.compile oracle scope) done ps := by
  induction ps generalizing done with
  | nil => rfl
  | cons p ps ih => simp only [entries, entriesWith, ih]

theorem compile_eq_with (name : String) (call : Expr Nat) (args : List (Expr Nat)) :
    compile oracle scope name call args =
      compileWith (Aggregation.compile oracle scope) name call args := by
  have haddFields (arg : Expr Nat) :
      addFields oracle scope arg = addFieldsWith (Aggregation.compile oracle scope) arg := by
    unfold addFields addFieldsWith
    cases arg.bare with
    | object m ps => simp only [entries_eq_with]
    | _ => rfl
  unfold compile compileWith
  cases StageKind.find? name with
  | none => rfl
  | some kind =>
    cases kind
    match args with
    | [] => rfl
    | [arg] => exact haddFields arg
    | _ :: _ :: _ => rfl

/-! Of like entries and calls the same stage is made. -/

/-- The expressions that a stage with the given argument compiles. -/
def values (arg : Expr Nat) : List (Expr Nat) :=
  match arg.bare with
  | .object _ properties => properties.map Property.value
  | _ => []

section Agree

variable {R : Expr Nat → Expr Nat → Prop} {f f' : Expr Nat → Except CompileFault Value}

theorem agree_entry {p p' : Property Nat} (h : Property.Alike R p p') (used : List String) :
    Agree R (fun a b => a.1 = b.1 ∧ R a.2 b.2 ∧ a.2 = p.value) (entry used p) (entry used p') := by
  cases h with
  | shorthand he => exact Rule.agree_misfit he _
  | computed hk he => exact Rule.agree_misfit hk _
  | field he =>
    simp only [entry]
    split
    · exact Rule.agree_misfit he _
    · split
      · exact Rule.agree_misfit he _
      · exact .ok ⟨rfl, he, rfl⟩

theorem agree_entriesWith {ps ps' : List (Property Nat)}
    (h : List.Forall₂ (Property.Alike R) ps ps')
    (hf : ∀ x x', R x x' → x ∈ ps.map Property.value → Agree R (· = ·) (f x) (f' x'))
    (done : List (String × Value)) :
    Agree R (· = ·) (entriesWith f done ps) (entriesWith f' done ps') := by
  induction h generalizing done with
  | nil => exact .ok rfl
  | @cons p p' ps ps' hp _ ih =>
    refine (agree_entry hp _).bind ?_
    rintro ⟨key, e⟩ ⟨_, e'⟩ ⟨rfl, he, rfl⟩
    refine (hf _ e' he (List.mem_cons_self ..)).bind ?_
    rintro v _ rfl
    exact ih (fun x x' hx hmem => hf x x' hx (List.mem_cons_of_mem _ hmem)) _

theorem agree_addFieldsWith (L : Resemblance R) {arg arg' : Expr Nat} (h : R arg arg')
    (hf : ∀ x x', R x x' → x ∈ values arg → Agree R (· = ·) (f x) (f' x')) :
    Agree R (· = ·) (addFieldsWith f arg) (addFieldsWith f' arg') := by
  have hb := L.bare h
  have hl := L.form h
  simp only [values] at hf
  simp only [addFieldsWith]
  generalize arg.bare = e, arg'.bare = e' at hb hl hf
  cases hl with
  | object hps =>
    refine (agree_entriesWith hps hf []).bind ?_
    rintro body _ rfl
    exact .ok rfl
  | function hg hg' _ =>
    obtain ⟨m, ps, b, rfl⟩ | ⟨m, st, ps, b, rfl⟩ := Layer.cases_of_callable hg <;>
      obtain ⟨m', ps', b', rfl⟩ | ⟨m', st', ps', b', rfl⟩ := Layer.cases_of_callable hg' <;>
      exact Rule.agree_misfit hb _
  | _ => exact Rule.agree_misfit hb _

theorem agree_compileWith (L : Resemblance R) {call call' : Expr Nat} {args args' : List (Expr Nat)}
    (hcall : R call call') (hargs : List.Forall₂ R args args')
    (hf : ∀ x x', R x x' → x ∈ args.flatMap values → Agree R (· = ·) (f x) (f' x'))
    (name : String) :
    Agree R (· = ·) (compileWith f name call args) (compileWith f' name call' args') := by
  unfold compileWith
  cases StageKind.find? name with
  | none => exact .fault hcall
  | some kind =>
    cases kind
    cases hargs with
    | nil => exact .fault hcall
    | cons hx hrest =>
      cases hrest with
      | nil =>
        refine agree_addFieldsWith L hx fun x x' hxx hmem => hf x x' hxx ?_
        simpa using hmem
      | cons hy hrest =>
        simp only [List.length_cons, hrest.length_eq]
        exact .fault hcall

end Agree

end Stage

def Expr.isCall {ν : Type} : Expr ν → Bool
  | .call _ _ _ => true
  | _ => false

namespace Pipeline

/-- The stages before a call, where `stages` are those of what it is called on: none if that is the
placeholder. -/
def before (scope : Scope) (receiver : Expr Nat) (stages : Except CompileFault (List Stage)) :
    Except CompileFault (List Stage) :=
  if scope.isContext receiver then .ok []
  else if receiver.isCall then stages
  else broken receiver (.notRooted scope.placeholder)

/-- The stages of a chain, their expressions compiled by `f`. -/
def unwindWith (f : Expr Nat → Except CompileFault Value) (scope : Scope) (e : Expr Nat) :
    Except CompileFault (List Stage) :=
  match _h : link e with
  | .error fault => .error fault
  | .ok l => do
    let stages ← before scope l.receiver (unwindWith f scope l.receiver)
    let stage ← Stage.compileWith f l.name l.call l.args
    return stages ++ [stage]
termination_by e.size
decreasing_by exact size_receiver ‹_›

/-- The pipeline that a chain makes, its expressions compiled by `f`. -/
def compileWith (f : Expr Nat → Except CompileFault Value) (scope : Scope) (e : Expr Nat) :
    Except CompileFault Pipeline :=
  if scope.isContext e then broken e.bare (.empty scope.placeholder)
  else (unwindWith f scope e).map Pipeline.mk

theorem unwindWith_eq (f : Expr Nat → Except CompileFault Value) (scope : Scope) (e : Expr Nat) :
    unwindWith f scope e = (do
      let l ← link e
      let stages ← before scope l.receiver (unwindWith f scope l.receiver)
      let stage ← Stage.compileWith f l.name l.call l.args
      return stages ++ [stage]) := by
  rw [unwindWith]
  split <;> rename_i h <;> rw [h] <;> rfl

theorem unwind_eq (oracle : Oracle) (scope : Scope) (e : Expr Nat) :
    unwind oracle scope e = (do
      let l ← link e
      let stages ← before scope l.receiver (unwind oracle scope l.receiver)
      let stage ← Stage.compile oracle scope l.name l.call l.args
      return stages ++ [stage]) := by
  rw [unwind]
  split
  · rename_i f h
    rw [h]
    rfl
  · rename_i l h
    rw [h]
    show _ = before scope l.receiver (unwind oracle scope l.receiver) >>= _
    unfold before
    split
    · rfl
    · cases l.receiver <;> rfl

theorem unwind_eq_with (oracle : Oracle) (scope : Scope) (e : Expr Nat) :
    unwind oracle scope e = unwindWith (Aggregation.compile oracle scope) scope e := by
  rw [unwind_eq, unwindWith_eq]
  cases h : link e with
  | error f => rfl
  | ok l =>
    have ih := unwind_eq_with oracle scope l.receiver
    show before scope l.receiver (unwind oracle scope l.receiver) >>= _ = _
    simp only [ih, Stage.compile_eq_with]
    rfl
termination_by e.size
decreasing_by exact size_receiver h

theorem compile_eq_with (oracle : Oracle) (scope : Scope) (e : Expr Nat) :
    compile oracle scope e = compileWith (Aggregation.compile oracle scope) scope e := by
  rw [compile, compileWith, unwind_eq_with]

/-- The expressions that the stages of a chain compile. -/
def fields : Expr Nat → List (Expr Nat)
  | .paren _ e => fields e
  | .property _ object _ => fields object
  | .call _ callee args => fields callee ++ args.flatMap Stage.values
  | _ => []

theorem fields_bare (e : Expr Nat) : fields e.bare = fields e := by
  match e with
  | .paren _ e => exact fields_bare e
  | .name _ _ | .literal _ _ | .property _ _ _ | .element _ _ _ | .binary _ _ _ _ | .unary _ _ _
  | .conditional _ _ _ _ | .call _ _ _ | .lambda _ _ _ | .function _ _ _ _ | .object _ _ => rfl

theorem fields_of_link {e : Expr Nat} {l : Link} (h : link e = .ok l) :
    fields e = fields l.receiver ++ l.args.flatMap Stage.values := by
  unfold link at h
  split at h
  · rename_i m callee args hcall
    split at h
    · rename_i p object name hprop
      obtain rfl := Except.ok.inj h
      rw [← fields_bare e, hcall, fields, ← fields_bare callee, hprop, fields]
      show _ = fields object.bare ++ _
      rw [fields_bare object]
    · cases h
  · cases h

section Agree

variable {R : Expr Nat → Expr Nat → Prop} {f f' : Expr Nat → Except CompileFault Value}
  {e e' : Expr Nat}

/-- Calls of one stage with like arguments, on like expressions. -/
structure Link.Alike (R : Expr Nat → Expr Nat → Prop) (l l' : Link) : Prop where
  call : R l.call l'.call
  receiver : R l.receiver l'.receiver
  form : Form R l.receiver l'.receiver
  name : l.name = l'.name
  args : List.Forall₂ R l.args l'.args

theorem isCall_eq (h : Form R e e') : e.isCall = e'.isCall := by
  cases h with
  | function hf hf' _ =>
    obtain ⟨m, ps, b, rfl⟩ | ⟨m, st, ps, b, rfl⟩ := Layer.cases_of_callable hf <;>
      obtain ⟨m', ps', b', rfl⟩ | ⟨m', st', ps', b', rfl⟩ := Layer.cases_of_callable hf' <;> rfl
  | _ => rfl

theorem agree_link (L : Resemblance R) (h : R e e') : Agree R (Link.Alike R) (link e) (link e') := by
  have hb := L.bare h
  have hl := L.form h
  unfold link
  generalize e.bare = x, e'.bare = x' at hb hl
  cases hl with
  | method hp hp' _ hobject hargs =>
    simp only [hp, hp']
    exact .ok ⟨hb, L.bare hobject, L.form hobject, rfl, hargs⟩
  | call hn hn' _ =>
    simp only
    exact .fault hb
  | function hf hf' _ =>
    obtain ⟨m, ps, b, rfl⟩ | ⟨m, st, ps, b, rfl⟩ := Layer.cases_of_callable hf <;>
      obtain ⟨m', ps', b', rfl⟩ | ⟨m', st', ps', b', rfl⟩ := Layer.cases_of_callable hf' <;>
      exact .fault hb
  | _ => exact .fault hb

theorem agree_before {scope : Scope} {stages stages' : Except CompileFault (List Stage)}
    (L : Resemblance R) (h : R e e') (hl : Form R e e') (hs : Agree R (· = ·) stages stages') :
    Agree R (· = ·) (before scope e stages) (before scope e' stages') := by
  unfold before
  rw [L.isContext_eq h scope, isCall_eq hl]
  split
  · exact .ok rfl
  · split
    · exact hs
    · exact .fault h

theorem agree_unwindWith (L : Resemblance R) (scope : Scope) {e e' : Expr Nat} (h : R e e')
    (hf : ∀ x x', R x x' → x ∈ fields e → Agree R (· = ·) (f x) (f' x')) :
    Agree R (· = ·) (unwindWith f scope e) (unwindWith f' scope e') := by
  rw [unwindWith_eq, unwindWith_eq]
  refine (agree_link L h).keep.bind ?_
  rintro l l' ⟨hl, hlink⟩
  rw [fields_of_link hlink] at hf
  have ih := agree_unwindWith L scope hl.receiver
    fun x x' hx hmem => hf x x' hx (List.mem_append_left _ hmem)
  refine (agree_before L hl.receiver hl.form ih).bind ?_
  rintro stages _ rfl
  rw [← hl.name]
  refine (Stage.agree_compileWith L hl.call hl.args
    (fun x x' hx hmem => hf x x' hx (List.mem_append_right _ hmem)) l.name).bind ?_
  rintro stage _ rfl
  exact .ok rfl
termination_by e.size
decreasing_by exact size_receiver hlink

/-- Of like chains the same pipeline is made, if their expressions are compiled alike. -/
theorem agree_compileWith (L : Resemblance R) (scope : Scope) (h : R e e')
    (hf : ∀ x x', R x x' → x ∈ fields e → Agree R (· = ·) (f x) (f' x')) :
    Agree R (· = ·) (compileWith f scope e) (compileWith f' scope e') := by
  unfold compileWith
  rw [L.isContext_eq h scope]
  split
  · exact .fault (L.bare h)
  · refine (agree_unwindWith L scope h hf).map ?_
    rintro stages _ rfl
    rfl

end Agree

end Pipeline

/-! ### Related expressions -/

namespace Resemblance

variable {R : Expr Nat → Expr Nat → Prop} {o o' : Oracle} {e e' : Expr Nat}

/-- Related expressions compile alike by oracles that give related nodes the same class. -/
theorem agree_compile (L : Resemblance R) (ho : ∀ x x', R x x' → o x = o' x') (s : Scope)
    {e e' : Expr Nat} (h : R e e') : Agree R (· = ·) (compile o s e) (compile o' s e') := by
  rw [← compile_bare o s e, ← compile_bare o' s e', compile_eq_build, compile_eq_build]
  refine (Rule.alike_of L h fun x x' hx _ => ho _ _ (L.bare hx)).keep.bind ?_
  rintro r r' ⟨hr, hof⟩
  apply Rule.agree_build hr
  · intro x x' hx hmem
    exact L.agree_compile ho s hx
  · intro p b b' hb hbody
    exact L.agree_compile ho (s.bind p) hb
termination_by e.size
decreasing_by
  · exact Nat.lt_of_lt_of_le (Rule.size_operand hof (Rule.plain_subset_operands r hmem))
      e.size_bare_le
  · exact Nat.lt_of_lt_of_le (Rule.size_operand hof (Rule.body_mem_operands hbody)) e.size_bare_le

theorem agree_stage (L : Resemblance R) (ho : ∀ x x', R x x' → o x = o' x') (s : Scope)
    {args args' : List (Expr Nat)} (h : R e e') (hargs : List.Forall₂ R args args')
    (name : String) :
    Agree R (· = ·) (Stage.compile o s name e args) (Stage.compile o' s name e' args') := by
  rw [Stage.compile_eq_with, Stage.compile_eq_with]
  exact Stage.agree_compileWith L h hargs (fun x x' hx _ => L.agree_compile ho s hx) name

theorem agree_assemble (L : Resemblance R) (ho : ∀ x x', R x x' → o x = o' x') (s : Scope)
    (h : R e e') : Agree R (· = ·) (Pipeline.compile o s e) (Pipeline.compile o' s e') := by
  rw [Pipeline.compile_eq_with, Pipeline.compile_eq_with]
  exact Pipeline.agree_compileWith L s h fun x x' hx _ => L.agree_compile ho s hx

end Resemblance

end Aggregation
