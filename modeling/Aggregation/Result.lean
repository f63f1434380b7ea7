/-! Results that may be faults.

A computation in `Except` goes on only with what came out well. The lemma here takes such a
computation apart into its steps. -/
namespace Aggregation

variable {ε α β : Type}

/-- Two steps come out well if the first does, and the second does with its value. -/
theorem bind_eq_ok {x : Except ε α} {f : α → Except ε β} {b : β} :
    (x >>= f) = .ok b ↔ ∃ a, x = .ok a ∧ f a = .ok b := by
  cases x with
  | error e => simp [bind, Except.bind]
  | ok a => simp [bind, Except.bind]

end Aggregation
