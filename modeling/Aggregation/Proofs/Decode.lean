import Aggregation.Program.Entry
import Aggregation.Proofs.Rendering

/-! Documents are read back as what was rendered.

`Document.decode` reads a document as an expression or as a pipeline. It knows the shapes of the
operators and nothing of the source: a string is a variable if it has two sigils and else a field, an
object under `$literal` is a constant, and any other object is the operator that its one key names.

It undoes the rendering of whatever compiles, under two provisos that rendering itself needs: no field
that is read has a name that begins with a sigil, and every number is finite. -/
namespace Aggregation

/-! ### Reading documents -/

namespace Document

def decodeLiteral : Document → Option Literal
  | .null => some .null
  | .boolean b => some (.boolean b)
  | .integer n => some (.integer n)
  | .float x => some (.float x)
  | .string t => some (.string t)
  | _ => none

/-- The bare name that a document is. -/
def decodeName : Document → Option Value
  | .string x => some (.name x)
  | _ => none

mutual

/-- The expression that a document is. -/
def decodeValue : Document → Option Value
  | .string t => some (if 2 ≤ sigils t then .localRef t else .fieldRef t)
  | .object [(op, d)] =>
    if op = "$literal" then (decodeLiteral d).map .literal
    else
      match shape? op, d with
      | some .single, d => (decodeValue d).map (.single op)
      | some (.list _), .list items => (decodeItems items).map (.list op)
      | some (.named _), .object fields => (decodeFields fields).map (.named op)
      | _, _ => none
  | _ => none

def decodeItems : List Document → Option (List Value)
  | [] => some []
  | d :: ds => do
    let v ← decodeValue d
    let vs ← decodeItems ds
    return v :: vs

/-- The named operands that an object holds, of which the one under `as` is a bare name. -/
def decodeFields : List (String × Document) → Option (List (String × Value))
  | [] => some []
  | (key, d) :: rest => do
    let v ← if key = "as" then decodeName d else decodeValue d
    let entries ← decodeFields rest
    return (key, v) :: entries

end

/-- The field of a stage that a field of an object is. -/
def decodeField (field : String × Document) : Option (String × Value) :=
  (decodeValue field.2).map (field.1, ·)

/-- The stage that a document is. -/
def decodeStage : Document → Option Stage
  | .object [(name, .object fields)] => (fields.mapM decodeField).map (Stage.mk name)
  | _ => none

/-- What a document was rendered from: a list from a pipeline, and anything else from an
expression. -/
def decode : Document → Option Compiled
  | .list items => (items.mapM decodeStage).map (.pipeline ⟨·⟩)
  | d => (decodeValue d).map .expression

end Document

/-! ### What rendering can keep -/

namespace Value

mutual

/-- The references, constants and names of a value. -/
def leaves : Value → List Value
  | .fieldRef path => [.fieldRef path]
  | .localRef path => [.localRef path]
  | .literal c => [.literal c]
  | .name x => [.name x]
  | .single _ v => leaves v
  | .list _ vs => leavesAll vs
  | .named _ entries => leavesEntries entries

def leavesAll : List Value → List Value
  | [] => []
  | v :: vs => leaves v ++ leavesAll vs

def leavesEntries : List (String × Value) → List Value
  | [] => []
  | (_, v) :: rest => leaves v ++ leavesEntries rest

end

/-- No field that the value reads has a name that begins with a sigil, and every number in it is
finite. -/
structure Plain (v : Value) : Prop where
  fields : ∀ name, ofField name ∈ v.leaves → sigils name = 0
  floats : ∀ x, literal (.float x) ∈ v.leaves → x.isFinite = true

theorem Plain.part {v w : Value} (h : v.Plain) (hw : ∀ u ∈ w.leaves, u ∈ v.leaves) : w.Plain :=
  ⟨fun name hname => h.fields name (hw _ hname), fun x hx => h.floats x (hw _ hx)⟩

theorem leaves_subset_list {v : Value} {vs : List Value} (hv : v ∈ vs) (op : String) :
    ∀ u ∈ v.leaves, u ∈ (list op vs).leaves := by
  intro u hu
  rw [leaves]
  induction vs with
  | nil => cases hv
  | cons w vs ih =>
    rw [leavesAll, List.mem_append]
    rcases List.mem_cons.1 hv with rfl | hv
    · exact .inl hu
    · exact .inr (ih hv)

theorem leaves_subset_named {key : String} {v : Value} {entries : List (String × Value)}
    (hv : (key, v) ∈ entries) (op : String) : ∀ u ∈ v.leaves, u ∈ (named op entries).leaves := by
  intro u hu
  rw [leaves]
  induction entries with
  | nil => cases hv
  | cons entry rest ih =>
    obtain ⟨k, w⟩ := entry
    rw [leavesEntries, List.mem_append]
    rcases List.mem_cons.1 hv with heq | hv
    · obtain ⟨_, rfl⟩ := Prod.mk.inj heq
      exact .inl hu
    · exact .inr (ih hv)

end Value

/-! ### Reading what was rendered -/

namespace Document

theorem decodeValue_literal (d : Document) :
    decodeValue (object [("$literal", d)]) = (decodeLiteral d).map .literal := by
  unfold decodeValue
  rfl

theorem decodeValue_single {op : String} (h : shape? op = some .single) (d : Document) :
    decodeValue (object [(op, d)]) = (decodeValue d).map (.single op) := by
  conv => lhs; unfold decodeValue
  simp only [(ne_of_shape h).1, if_false, h]

theorem decodeValue_list {op : String} {n : Nat} (h : shape? op = some (.list n))
    (items : List Document) :
    decodeValue (object [(op, list items)]) = (decodeItems items).map (.list op) := by
  conv => lhs; unfold decodeValue
  simp only [(ne_of_shape h).1, if_false, h]

theorem decodeValue_named {op : String} {keys : List String} (h : shape? op = some (.named keys))
    (fields : List (String × Document)) :
    decodeValue (object [(op, object fields)]) = (decodeFields fields).map (.named op) := by
  conv => lhs; unfold decodeValue
  simp only [(ne_of_shape h).1, if_false, h]

theorem decodeLiteral_ofLiteral {c : Literal} (h : ∀ x, c = .float x → x.isFinite = true) :
    decodeLiteral (ofLiteral c) = some c := by
  cases c with
  | float x =>
    rw [ofLiteral, if_pos (h x rfl)]
    rfl
  | integer n => rfl
  | string t => rfl
  | boolean b => rfl
  | null => rfl

theorem decodeItems_ofValues {vs : List Value}
    (h : ∀ v ∈ vs, decodeValue (ofValue v) = some v) : decodeItems (ofValues vs) = some vs := by
  induction vs with
  | nil => rfl
  | cons v vs ih =>
    rw [ofValues, decodeItems, h v (List.mem_cons_self ..),
      ih fun w hw => h w (List.mem_cons_of_mem v hw)]
    rfl

theorem decodeFields_ofEntries {entries : List (String × Value)}
    (h : ∀ key v, (key, v) ∈ entries → key ≠ "as" → decodeValue (ofValue v) = some v)
    (has : ∀ v, ("as", v) ∈ entries → ∃ x, v = .name x) :
    decodeFields (ofEntries entries) = some entries := by
  induction entries with
  | nil => rfl
  | cons entry rest ih =>
    obtain ⟨key, v⟩ := entry
    have hrest := ih (fun k w hw => h k w (List.mem_cons_of_mem _ hw))
      fun w hw => has w (List.mem_cons_of_mem _ hw)
    rw [ofEntries, decodeFields, hrest]
    by_cases hkey : key = "as"
    · subst hkey
      obtain ⟨x, rfl⟩ := has v (List.mem_cons_self ..)
      rfl
    · rw [if_neg hkey, h key v (List.mem_cons_self ..) hkey]
      rfl

/-- A well-formed value is read back. The shape of the operator says how its operands are
written. -/
theorem decodeValue_ofValue {v : Value} (hv : v.WellFormed) (hp : v.Plain) :
    decodeValue (ofValue v) = some v := by
  induction hv with
  | @field name _ =>
    have h0 := hp.fields name (List.mem_singleton.2 rfl)
    simp [Value.ofField, ofValue, decodeValue, h0]
  | parameter => simp [Value.ofLocal, ofValue, decodeValue]
  | literal =>
    rw [ofValue, ofField, decodeValue_literal, decodeLiteral_ofLiteral]
    · rfl
    · rintro x rfl
      exact hp.floats x (List.mem_singleton.2 rfl)
  | single hs _ ih =>
    rw [ofValue, ofField, decodeValue_single hs, ih (hp.part fun _ hu => hu)]
    rfl
  | list hs _ ih =>
    have hitems := decodeItems_ofValues fun v hv =>
      ih v hv (hp.part (Value.leaves_subset_list hv _))
    rw [ofValue, ofField, decodeValue_list hs, hitems]
    rfl
  | named hs _ has ih =>
    have hfields := decodeFields_ofEntries (fun key v hv hkey =>
      ih key v hv hkey (hp.part (Value.leaves_subset_named hv _))) has
    rw [ofValue_named hs, decodeValue_named hs, hfields]
    rfl

/-- What is read back one by one is read back as a list. -/
theorem mapM_map_of_inverse {α β : Type} {write : α → β} {read : β → Option α} {xs : List α}
    (h : ∀ x ∈ xs, read (write x) = some x) : (xs.map write).mapM read = some xs := by
  induction xs with
  | nil => rfl
  | cons x xs ih =>
    rw [List.map_cons, List.mapM_cons, h x (List.mem_cons_self ..),
      ih fun y hy => h y (List.mem_cons_of_mem x hy)]
    rfl

theorem decodeStage_ofStage {st : Stage} (hst : st.WellFormed)
    (hp : ∀ key v, (key, v) ∈ st.body → v.Plain) : decodeStage (ofStage st) = some st := by
  rw [ofStage, ofFields_ofEntries hst.keys, ofField, decodeStage, ofEntries_eq_map,
    mapM_map_of_inverse]
  · rfl
  · intro ⟨key, v⟩ hv
    rw [decodeField, decodeValue_ofValue (hst.values key v hv) (hp key v hv)]
    rfl

/-- The document of an expression is no list, which only pipelines are. -/
theorem decode_ofValue {v : Value} (hv : v.WellFormed) (hp : v.Plain) :
    decode (ofValue v) = some (.expression v) := by
  have h : decode (ofValue v) = (decodeValue (ofValue v)).map .expression := by
    cases v <;> rfl
  rw [h, decodeValue_ofValue hv hp]
  rfl

end Document

/-- Rendering loses nothing. Every compiled expression and every compiled pipeline whose fields
have names without a sigil and whose numbers are finite is read back from its document, whatever the
oracle and the scope. -/
theorem decode_document (oracle : Oracle) (s : Scope) (e : Expr Nat) :
    (∀ v, compile oracle s e = .ok v → v.Plain →
      (Document.ofValue v).decode = some (.expression v)) ∧
    ∀ p, Pipeline.compile oracle s e = .ok p →
      (∀ st ∈ p.stages, ∀ key v, (key, v) ∈ st.body → v.Plain) →
      (Document.ofPipeline p).decode = some (.pipeline p) := by
  constructor
  · intro v h hp
    exact Document.decode_ofValue (translates_of_compile h).wellFormed hp
  · intro p h hp
    have hst := Pipeline.wellFormed_compile h
    rw [Document.ofPipeline, Document.decode, Document.mapM_map_of_inverse]
    · rfl
    · intro st hmem
      exact Document.decodeStage_ofStage (hst st hmem) (hp st hmem)

/-- The expression `this.a ? "$x" : 0.5`, where a constant looks like a reference. -/
def choiceOfConstants : Expr Nat :=
  .conditional ⟨4, ⟨0, 19⟩⟩ (.property ⟨1, ⟨0, 6⟩⟩ (.name ⟨0, ⟨0, 4⟩⟩ "this") "a")
    (.literal ⟨2, ⟨9, 13⟩⟩ (.string "$x")) (.literal ⟨3, ⟨16, 19⟩⟩ (.float ⟨0x3FE0000000000000⟩))

/-- The chain `this.$addFields({ as: "$x" })`, where a key looks like that of a bound variable. -/
def addConstant : Expr Nat :=
  .call ⟨4, ⟨0, 29⟩⟩ (.property ⟨1, ⟨0, 15⟩⟩ (.name ⟨0, ⟨0, 4⟩⟩ "this") "$addFields")
    [.object ⟨3, ⟨16, 28⟩⟩ [.field ⟨18, 26⟩ (.bare "as") (.literal ⟨2, ⟨22, 26⟩⟩ (.string "$x"))]]

theorem decode_choiceOfConstants_addConstant :
    (∃ v, compile Oracle.unknown (.root "this") choiceOfConstants = .ok v ∧ v.Plain ∧
      (Document.ofValue v).decode = some (.expression v)) ∧
    ∃ p, Pipeline.compile Oracle.unknown (.root "this") addConstant = .ok p ∧
      (∀ st ∈ p.stages, ∀ key v, (key, v) ∈ st.body → v.Plain) ∧
      (Document.ofPipeline p).decode = some (.pipeline p) := by
  have hv : compile Oracle.unknown (.root "this") choiceOfConstants =
      .ok (.named "$cond" [("if", .ofField "a"), ("then", .literal (.string "$x")),
        ("else", .literal (.float ⟨0x3FE0000000000000⟩))]) := by
    cbv
  have hp : Pipeline.compile Oracle.unknown (.root "this") addConstant =
      .ok ⟨[⟨"$addFields", [("as", .literal (.string "$x"))]⟩]⟩ := by
    cbv
  have hplain : (Value.named "$cond" [("if", .ofField "a"), ("then", .literal (.string "$x")),
      ("else", .literal (.float ⟨0x3FE0000000000000⟩))]).Plain := by
    constructor
    · intro name hname
      have heq : Value.ofField name = .ofField "a" := by
        simpa [Value.ofField, Value.leaves, Value.leavesEntries] using hname
      obtain rfl : name = "a" := (String.append_right_inj "$").1 (Value.fieldRef.inj heq)
      decide
    · intro x hx
      obtain rfl : x = ⟨0x3FE0000000000000⟩ := by
        simpa [Value.ofField, Value.leaves, Value.leavesEntries] using hx
      decide
  have hstages : ∀ st ∈ [(⟨"$addFields", [("as", .literal (.string "$x"))]⟩ : Stage)],
      ∀ key v, (key, v) ∈ st.body → v.Plain := by
    intro st hst key v hv
    rw [List.mem_singleton.1 hst] at hv
    obtain ⟨rfl, rfl⟩ := Prod.mk.inj (List.mem_singleton.1 hv)
    exact ⟨by simp [Value.ofField, Value.leaves], by simp [Value.leaves]⟩
  exact ⟨⟨_, hv, hplain, (decode_document _ _ _).1 _ hv hplain⟩,
    ⟨_, hp, hstages, (decode_document _ _ _).2 _ hp hstages⟩⟩

end Aggregation
