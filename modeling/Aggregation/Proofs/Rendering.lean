import Aggregation.Proofs.WellFormed
import Aggregation.Query.Document

/-! How values look when they are rendered.

An object is built by setting its fields one after the other. The operands of an operator have
distinct keys, so none is lost and their order stays (`ofValue_named`). References are told apart by
their sigils alone once they are strings, and `sigils` counts them. -/
namespace Aggregation

/-! ### Sigils -/

/-- The number of sigils that a text begins with. -/
def sigils (t : String) : Nat :=
  (t.toList.takeWhile (· == '$')).length

@[simp] theorem sigils_field (name : String) : sigils ("$" ++ name) = sigils name + 1 := by
  simp [sigils]

@[simp] theorem sigils_local (name : String) : sigils ("$$" ++ name) = sigils name + 2 := by
  simp [sigils]

/-! ### Operators -/

def Shape.keys : Shape → List String
  | .named keys => keys
  | _ => []

theorem mem_shapes {op : String} {shape : Shape} (h : shape? op = some shape) :
    (op, shape) ∈ shapes := by
  obtain ⟨before, after, heq, _⟩ := List.lookup_eq_some_iff.1 h
  rw [heq]
  exact List.mem_append_right _ (List.mem_cons_self ..)

/-- No two operands are given under one key. -/
theorem nodup_of_shape {op : String} {keys : List String} (h : shape? op = some (.named keys)) :
    keys.Nodup := by
  have hall : ∀ p ∈ shapes, p.2.keys.Nodup := by decide
  exact hall _ (mem_shapes h)

/-- The key of constants is no operator, and neither is the key of bound variables. -/
theorem ne_of_shape {op : String} {shape : Shape} (h : shape? op = some shape) :
    op ≠ "$literal" ∧ op ≠ "as" := by
  constructor <;> rintro rfl <;> cases h

/-! ### Objects -/

namespace Document

theorem set_of_not_mem {fields : List (String × Document)} {key : String} (d : Document)
    (h : key ∉ fields.map (·.1)) : set fields key d = fields ++ [(key, d)] := by
  induction fields with
  | nil => rfl
  | cons field rest ih =>
    obtain ⟨k, v⟩ := field
    rw [List.map_cons, List.mem_cons, not_or] at h
    rw [set, if_neg (Ne.symm h.1), ih h.2]
    rfl

theorem foldl_set (fields done : List (String × Document))
    (h : ((done ++ fields).map (·.1)).Nodup) :
    fields.foldl (fun done (k, d) => set done k d) done = done ++ fields := by
  induction fields generalizing done with
  | nil => simp
  | cons field rest ih =>
    obtain ⟨k, d⟩ := field
    have hk : k ∉ done.map (·.1) := by
      intro hk
      rw [List.map_append, List.nodup_append] at h
      exact h.2.2 k hk k (List.mem_cons_self ..) rfl
    rw [List.foldl_cons]
    show rest.foldl _ (set done k d) = _
    rw [set_of_not_mem d hk, ih]
    · simp
    · simpa using h

/-- Fields with distinct keys all stay, in their order. -/
theorem ofFields_of_nodup {fields : List (String × Document)} (h : (fields.map (·.1)).Nodup) :
    ofFields fields = object fields := by
  rw [ofFields, foldl_set fields [] h]
  rfl

theorem ofEntries_eq_map (entries : List (String × Value)) :
    ofEntries entries = entries.map fun entry => (entry.1, ofValue entry.2) := by
  induction entries with
  | nil => rfl
  | cons entry rest ih => rw [ofEntries, ih, List.map_cons]

theorem keys_ofEntries (entries : List (String × Value)) :
    (ofEntries entries).map (·.1) = entries.map (·.1) := by
  rw [ofEntries_eq_map, List.map_map]
  rfl

theorem ofFields_ofEntries {entries : List (String × Value)} (h : (entries.map (·.1)).Nodup) :
    ofFields (ofEntries entries) = object (ofEntries entries) := by
  apply ofFields_of_nodup
  rw [keys_ofEntries]
  exact h

/-- Named operands are rendered one by one. -/
theorem ofValue_named {op : String} {entries : List (String × Value)}
    (h : shape? op = some (.named (entries.map (·.1)))) :
    ofValue (.named op entries) = object [(op, object (ofEntries entries))] := by
  rw [ofValue, ofFields_ofEntries (nodup_of_shape h)]
  rfl

end Document

end Aggregation
