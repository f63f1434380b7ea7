import Aggregation.Proofs.ReadBack

/-! Integers from their texts to their documents.

The decimal text of an integer is its digits, with a minus sign before them if it is negative. Digits are
read as an integer below `2^63`, so that all integers whose distance from zero is less come through
unchanged (`tokenize_toString`). What a minus sign makes of an integer that was read is above `-2^63`. -/
namespace Aggregation

theorem toList_toString (k : Int) :
    (toString k).toList = (if k < 0 then ['-'] else []) ++ Nat.toDigits 10 k.natAbs := by
  rw [Int.toString_eq_repr, Int.repr_eq_if]
  by_cases hk : 0 ≤ k
  · have habs : k.toNat = k.natAbs := by omega
    rw [if_pos hk, if_neg (Int.not_lt.2 hk), Nat.toList_repr, habs]
    rfl
  · have habs : (-k).toNat = k.natAbs := by omega
    rw [if_neg hk, if_pos (Int.not_le.1 hk), String.toList_append, Nat.toList_repr, habs]
    rfl

/-- A minus sign is read by itself, whatever follows. -/
theorem Lexes.minus {offset : Nat} {cs : List Char} {ts : List Lexeme} (h : Lexes (offset + 1) cs ts) :
    Lexes offset ('-' :: cs) (⟨.symbol .minus, ⟨offset, offset + 1⟩⟩ :: ts) :=
  .token (Token.split_eq_none (by decide) (by decide) cs) rfl rfl rfl h

/-- The text of an integer has the tokens of the constant. -/
theorem tokenize_toString {k : Int} (h : (Literal.integer k).isSpellable = true) :
    ∃ ts, tokenize (toString k) = .ok ts ∧ ts.map Lexeme.token = (Literal.integer k).tokens := by
  have hreads : (Token.integer k.natAbs).Reads (Nat.toDigits 10 k.natAbs) := Token.reads_spelling h
  simp only [tokenize_eq_ok_iff, toList_toString, Literal.tokens, Literal.isNegative,
    decide_eq_true_eq]
  split
  · exact ⟨_, .minus (.reads hreads 1), rfl⟩
  · exact ⟨_, .reads hreads 0, rfl⟩

/-- The tokens of a constant are read as the constant. -/
theorem parseExpression_of_literal {c : Literal} {w : String} {ts : List Lexeme}
    (hts : tokenize w = .ok ts) (htokens : ts.map Lexeme.token = c.tokens) :
    ∃ m, parseExpression w = .ok (.literal m c) := by
  let e : Expr Unit := .literal ⟨(), ⟨0, 0⟩⟩ c
  have hwritten : e.Written ⟨false, false⟩ := List.forall_mem_singleton.2 ⟨trivial, trivial⟩
  obtain ⟨e', hread, hshape⟩ := e.parseExpression_of_tokens hwritten hts htokens
  cases e' with
  | literal m c' =>
    obtain ⟨-, rfl⟩ := Expr.literal.inj hshape
    exact ⟨m, hread⟩
  | _ => cases hshape

/-- Constants are compiled to themselves, whatever the oracle says. -/
theorem compile_literal (oracle : Oracle) (scope : Scope) (m : Mark Nat) (c : Literal) :
    compile oracle scope (.literal m c) = .ok (.literal c) := by
  rw [compile]
  rfl

theorem Literal.isSpellable_integer {k : Int} :
    (integer k).isSpellable = true ↔ -2 ^ 63 < k ∧ k < 2 ^ 63 := by
  simp only [isSpellable, Number.integerBound, Nat.one_shiftLeft, decide_eq_true_eq]
  omega

/-- An integer of 64 bits that is not the least of them comes through exactly: its decimal text is compiled
to the constant with any oracle, and the document of that holds the integer. What becomes of an integer
of any text behind a minus sign is an integer of 64 bits. -/
theorem integers_compile_exactly :
    (∀ k : Int, -2 ^ 63 < k → k < 2 ^ 63 → ∃ e, parseExpression (toString k) = .ok e ∧
      ∀ oracle scope, ∃ v, compile oracle scope e = .ok v ∧ v = .literal (.integer k) ∧
        Document.ofValue v = .object [("$literal", .integer k)] ∧
        (Document.ofValue v).compact = "\x7b\"$literal\":" ++ toString k ++ "\x7d") ∧
    ∀ source ts, tokenize source = .ok ts → ∀ x ∈ ts, ∀ k : Int,
      Grammar.negated? x.token = some (.integer k) → -2 ^ 63 ≤ k ∧ k < 2 ^ 63 := by
  constructor
  · intro k hlow hhigh
    obtain ⟨ts, hts, htokens⟩ := tokenize_toString (Literal.isSpellable_integer.2 ⟨hlow, hhigh⟩)
    obtain ⟨m, hread⟩ := parseExpression_of_literal hts htokens
    exact ⟨_, hread, fun oracle scope => ⟨_, compile_literal oracle scope m _, rfl, rfl, rfl⟩⟩
  · intro source ts hts x hx k hk
    have hreadable := (tokenize_eq_ok_iff.1 hts).isReadable x hx
    obtain ⟨hlow, hhigh⟩ := Literal.isSpellable_integer.1 (Grammar.isSpellable_of_negated? hk hreadable)
    exact ⟨hlow.le, hhigh⟩

/-- The least integer but one, whose digits are the largest integer; behind a minus sign they become it. -/
theorem integers_compile_exactly_extreme :
    let ts : List Lexeme := [⟨.symbol .minus, ⟨0, 1⟩⟩, ⟨.integer 9223372036854775807, ⟨1, 20⟩⟩]
    let k : Int := -9223372036854775807
    (-2 ^ 63 < k ∧ k < 2 ^ 63 ∧ ∃ e, parseExpression (toString k) = .ok e ∧
      ∃ v, compile .unknown (.root "this") e = .ok v ∧ v = .literal (.integer k) ∧
        (Document.ofValue v).compact = "\x7b\"$literal\":-9223372036854775807\x7d") ∧
    tokenize "-9223372036854775807" = .ok ts ∧
      Grammar.negated? (.integer 9223372036854775807) = some (.integer k) ∧ -2 ^ 63 ≤ k ∧ k < 2 ^ 63 := by
  intro ts k
  obtain ⟨hexact, hnegated⟩ := integers_compile_exactly
  have hts : tokenize "-9223372036854775807" = .ok ts := by decide +kernel
  have hlow : -2 ^ 63 < k := by decide
  have hhigh : k < 2 ^ 63 := by decide
  obtain ⟨e, hread, hcompile⟩ := hexact k hlow hhigh
  obtain ⟨v, hv, heq, -, htext⟩ := hcompile .unknown (.root "this")
  have htext' : (Document.ofValue v).compact = "\x7b\"$literal\":-9223372036854775807\x7d" := by
    rw [htext]
    decide +kernel
  have hlast : ⟨.integer 9223372036854775807, ⟨1, 20⟩⟩ ∈ ts := by simp [ts]
  exact ⟨⟨hlow, hhigh, e, hread, v, hv, heq, htext'⟩, hts, rfl, hnegated _ _ hts _ hlast k rfl⟩

/-- The least integer of 64 bits becomes a number of double precision: its digits are too large for an
integer, and are read before the minus sign counts. -/
theorem least_integer_compiles_to_float :
    ∃ e, parseExpression (toString (-2 ^ 63 : Int)) = .ok e ∧ ∀ oracle scope,
      compile oracle scope e = .ok (.literal (.float ⟨0xC3E0000000000000⟩)) ∧
        compile oracle scope e ≠ .ok (.literal (.integer (-2 ^ 63))) := by
  have hts : tokenize (toString (-2 ^ 63 : Int)) =
      .ok [⟨.symbol .minus, ⟨0, 1⟩⟩, ⟨.float ⟨0x43E0000000000000⟩, ⟨1, 20⟩⟩] := by decide +kernel
  obtain ⟨m, hread⟩ := parseExpression_of_literal (c := .float ⟨0xC3E0000000000000⟩) hts (by decide +kernel)
  refine ⟨_, hread, fun oracle scope => ?_⟩
  rw [compile_literal]
  exact ⟨rfl, by simp⟩

end Aggregation
