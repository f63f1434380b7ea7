import Aggregation.Proofs.Derivation

/-! The rules of the grammar read phrases.

Each rule that succeeds has read the tokens of its phrase (`expression_sound`, `statement_sound`). The
rules call each other on fewer and fewer tokens, so the proof goes by the number of tokens that are
left: `SoundBelow n` says it of all rules where fewer than `n` are, and each rule is then one step. -/
namespace Aggregation.Grammar

/-- The tokens begin with a phrase that stops at `stop` and leaves `r`. -/
def Spans (p : Phrase) (ts : List Lexeme) (v : Piece) (stop : Nat) (r : List Lexeme) : Prop :=
  ∃ u, ts = u ++ r ∧ stop = stopOf u ∧ Derives p u v r

/-- The tokens begin with a phrase and the symbol that closes it, which stops at `stop`. -/
def Encloses (s : Symbol) (p : Phrase) (ts : List Lexeme) (v : Piece) (stop : Nat)
    (r : List Lexeme) : Prop :=
  ∃ u q, ts = u ++ ⟨.symbol s, q⟩ :: r ∧ stop = q.stop ∧ Derives p u v (⟨.symbol s, q⟩ :: r)

/-- The tokens begin with a statement that lacks its span and its semicolon. -/
def SpansStatement (ts : List Lexeme) (make : Span → Statement Unit) (stop : Nat)
    (r : List Lexeme) : Prop :=
  ∃ u, ts = u ++ r ∧ stop = stopOf u ∧ u ≠ [] ∧ ∀ t q, r = t ++ q → Ended t q →
    Derives .statement (u ++ t) (.statement (make ⟨startOf u, stopOf (u ++ t)⟩)) q

theorem not_startsWith {s : Symbol} {ts : List Lexeme}
    (h : ∀ p r, ts ≠ ⟨.symbol s, p⟩ :: r) : startsWith s ts = false := by
  refine Bool.eq_false_iff.2 fun hs => ?_
  obtain ⟨p, r, rfl⟩ := startsWith_iff.1 hs
  exact h p r rfl

theorem named_skipName (ts : List Lexeme) : ∃ k, Named k ∧ ts = k ++ (skipName ts).rest := by
  unfold skipName
  split
  · next n p r => exact ⟨_, .name n p, rfl⟩
  · exact ⟨[], .none, rfl⟩

theorem negative?_eq_some {ts : List Lexeme} {v : Literal} {stop : Nat} {r : List Lexeme}
    {hr : r.length < ts.length} (h : negative? ts = some ⟨v, stop, r, hr⟩) :
    ∃ x, ts = x :: r ∧ negated? x.token = some v ∧ startsSuffix r = false ∧
      stop = x.span.stop := by
  match ts with
  | [] => cases h
  | x :: q =>
    rw [negative?] at h
    split at h
    · cases h
    · next hs =>
      obtain ⟨w, hw, hx⟩ := Option.map_eq_some_iff.1 h
      injection hx with hv hstop hq
      subst hv hstop hq
      exact ⟨x, rfl, hw, Bool.eq_false_iff.2 hs, rfl⟩

/-- The rules read phrases where fewer than `n` tokens are left. -/
structure SoundBelow (n : Nat) : Prop where
  expression : ∀ {ts e stop r}, ts.length < n → Yields (expression ts) e stop r →
    Spans .expression ts (.expr e) stop r
  operand : ∀ {l ts e stop r}, ts.length < n → Yields (operand l ts) e stop r →
    Spans (.operand l) ts (.expr e) stop r
  unary : ∀ {ts e stop r}, ts.length < n → Yields (unary ts) e stop r →
    Spans .unary ts (.expr e) stop r
  arguments : ∀ {ts es stop r}, ts.length < n → Yields (arguments ts) es stop r →
    Encloses .rightParen .arguments ts (.exprs es) stop r
  properties : ∀ {ts ps stop r}, ts.length < n → Yields (properties ts) ps stop r →
    Encloses .rightBrace .properties ts (.entries ps) stop r
  block : ∀ {ts ss stop r}, ts.length < n → Yields (block ts) ss stop r →
    Encloses .rightBrace .block ts (.statements ss) stop r

namespace SoundBelow

/-! One rule after the other, each from what the rules read where fewer tokens are left and from
the rules it calls on the same tokens. -/

variable {n : Nat} {ts r : List Lexeme} {stop : Nat}

theorem suffixes_step (ih : SoundBelow n) {ts r : List Lexeme} {stop : Nat} {e₀ e : Expr Unit}
    {u : List Lexeme} (hn : ts.length ≤ n)
    (hu : Derives .chain u (.expr e₀) ts)
    (h : Yields (suffixes e₀ (stopOf u) ts) e stop r) :
    ∃ w, ts = w ++ r ∧ stop = stopOf (u ++ w) ∧ Derives .suffixed (u ++ w) (.expr e) r := by
  rw [suffixes.eq_def] at h
  split at h
  · next p q =>
    obtain ⟨name, s, q₁, hq₁, hx, h⟩ := yields_bind.1 h
    obtain ⟨p', rfl, rfl⟩ := yields_identifier.1 hx
    obtain ⟨e, s, q₂, hq₂, ht, h⟩ := yields_bind.1 h
    obtain ⟨rfl, rfl, rfl⟩ := yields_pure.1 h
    -- The rule goes on from the stop of the token just read, which is that of all read so far.
    have hstop : stopOf (u ++ [⟨.symbol .dot, p⟩, ⟨.name name, p'⟩]) = p'.stop := by simp
    rw [← hstop] at ht
    obtain ⟨v, rfl, rfl, hv⟩ := suffixes_step ih (Nat.le_of_lt (Nat.lt_of_succ_lt hn))
      (by rw [hstop]; exact hu.property) ht
    exact ⟨⟨.symbol .dot, p⟩ :: ⟨.name name, p'⟩ :: v, by simp, by simp, by simpa using hv⟩
  · next p q =>
    obtain ⟨i, _, q₁, hq₁, hi, h⟩ := yields_bind.1 h
    obtain ⟨w, rfl, -, hw⟩ := ih.expression hn hi
    obtain ⟨_, s, q₂, hq₂, hc, h⟩ := yields_bind.1 h
    obtain ⟨p', hp', rfl⟩ := yields_expect.1 hc
    obtain rfl : q₁ = _ := hp'
    obtain ⟨e, s, q₃, hq₃, ht, h⟩ := yields_bind.1 h
    obtain ⟨rfl, rfl, rfl⟩ := yields_pure.1 h
    have hstop : stopOf (u ++ ⟨.symbol .leftBracket, p⟩ :: w ++ [⟨.symbol .rightBracket, p'⟩]) =
        p'.stop := by simp
    rw [← hstop] at ht
    simp only [List.length_cons, List.length_append] at hn
    obtain ⟨v, rfl, rfl, hv⟩ := suffixes_step ih (by omega) (by rw [hstop]; exact hu.element hw) ht
    exact ⟨⟨.symbol .leftBracket, p⟩ :: w ++ ⟨.symbol .rightBracket, p'⟩ :: v, by simp, by simp,
      by simpa using hv⟩
  · next p q =>
    obtain ⟨es, s, q₁, hq₁, hes, h⟩ := yields_bind.1 h
    obtain ⟨w, p', rfl, rfl, hw⟩ := ih.arguments hn hes
    obtain ⟨e, s, q₂, hq₂, ht, h⟩ := yields_bind.1 h
    obtain ⟨rfl, rfl, rfl⟩ := yields_pure.1 h
    have hstop : stopOf (u ++ ⟨.symbol .leftParen, p⟩ :: w ++ [⟨.symbol .rightParen, p'⟩]) =
        p'.stop := by simp
    rw [← hstop] at ht
    simp only [List.length_cons, List.length_append] at hn
    obtain ⟨v, rfl, rfl, hv⟩ := suffixes_step ih (by omega) (by rw [hstop]; exact hu.call hw) ht
    exact ⟨⟨.symbol .leftParen, p⟩ :: w ++ ⟨.symbol .rightParen, p'⟩ :: v, by simp, by simp,
      by simpa using hv⟩
  · next hdot hbracket hparen =>
    obtain ⟨rfl, rfl, rfl⟩ := yields_ok.1 h
    refine ⟨[], rfl, by rw [List.append_nil], ?_⟩
    rw [List.append_nil]
    refine .suffixed hu ?_
    simp [startsSuffix, not_startsWith hdot, not_startsWith hbracket, not_startsWith hparen]
termination_by ts.length

theorem fieldValue_step (ih : SoundBelow n) {e : Expr Unit} (hn : ts.length ≤ n)
    (h : Yields (fieldValue ts) e stop r) :
    ∃ p u, ts = ⟨.symbol .colon, p⟩ :: u ++ r ∧ stop = stopOf u ∧
      Derives .expression u (.expr e) r := by
  rw [fieldValue] at h
  obtain ⟨_, _, q, hq, hc, h⟩ := yields_bind.1 h
  obtain ⟨p, rfl, -⟩ := yields_expect.1 hc
  obtain ⟨e, s, q', hq', he, h⟩ := yields_bind.1 h
  obtain ⟨rfl, rfl, rfl⟩ := yields_pure.1 h
  obtain ⟨u, rfl, rfl, hu⟩ := ih.expression hn he
  exact ⟨p, u, rfl, rfl, hu⟩

theorem property_step (ih : SoundBelow n) {v : Property Unit} (hn : ts.length ≤ n)
    (h : Yields (property ts) v stop r) : Spans .property ts (.entry v) stop r := by
  have hfield : ∀ {x : Lexeme} {k : FieldName} {q : List Lexeme} {e : Expr Unit},
      fieldKey? x.token = some k → q.length ≤ n → Yields (fieldValue q) e stop r →
      Spans .property (x :: q) (.entry (.field ⟨x.span.start, stop⟩ k e)) stop r := by
    intro x k q e hx hq he
    obtain ⟨p, u, rfl, rfl, hu⟩ := ih.fieldValue_step hq he
    exact ⟨x :: ⟨_, p⟩ :: u, rfl, by simp [stopOf_cons _ hu.expr_ne_nil], .field hx hu⟩
  rw [property.eq_def] at h
  split at h
  · next name p q =>
    split at h
    · obtain ⟨rfl, rfl, rfl⟩ := yields_ok.1 h
      exact ⟨[⟨_, p⟩], rfl, rfl, .shorthand⟩
    · obtain ⟨e, _, q', hq', he, h⟩ := yields_bind.1 h
      obtain ⟨rfl, rfl, rfl⟩ := yields_pure.1 h
      exact hfield rfl (Nat.le_of_lt hn) he
  · obtain ⟨e, _, q', hq', he, h⟩ := yields_bind.1 h
    obtain ⟨rfl, rfl, rfl⟩ := yields_pure.1 h
    exact hfield rfl (Nat.le_of_lt hn) he
  · obtain ⟨e, _, q', hq', he, h⟩ := yields_bind.1 h
    obtain ⟨rfl, rfl, rfl⟩ := yields_pure.1 h
    exact hfield rfl (Nat.le_of_lt hn) he
  · next p₁ q =>
    obtain ⟨k, _, q₁, hq₁, hk, h⟩ := yields_bind.1 h
    obtain ⟨u, rfl, -, hu⟩ := ih.expression hn hk
    obtain ⟨_, _, q₂, hq₂, hc, h⟩ := yields_bind.1 h
    obtain ⟨p₂, hp₂, -⟩ := yields_expect.1 hc
    obtain rfl : q₁ = _ := hp₂
    obtain ⟨e, _, q₃, hq₃, he, h⟩ := yields_bind.1 h
    obtain ⟨rfl, rfl, rfl⟩ := yields_pure.1 h
    simp only [List.length_cons, List.length_append] at hn
    obtain ⟨p₃, w, hw', rfl, hw⟩ := ih.fieldValue_step (by omega) he
    obtain rfl : q₂ = _ := hw'
    exact ⟨⟨_, p₁⟩ :: u ++ ⟨_, p₂⟩ :: ⟨_, p₃⟩ :: w, by simp, by simp [stopOf_cons _ hw.expr_ne_nil],
      .computed hu hw⟩
  · exact absurd h not_yields_error

theorem primary_step (ih : SoundBelow n) {e : Expr Unit} (hn : ts.length ≤ n)
    (h : Yields (primary ts) e stop r) :
    Spans .primary ts (.expr e) stop r := by
  rw [primary.eq_def] at h
  split at h
  · next p q =>
    obtain ⟨e, _, q₁, hq₁, he, h⟩ := yields_bind.1 h
    obtain ⟨u, rfl, -, hu⟩ := ih.expression hn he
    obtain ⟨_, _, q₂, hq₂, hc, h⟩ := yields_bind.1 h
    obtain ⟨rfl, rfl, rfl⟩ := yields_pure.1 h
    obtain ⟨p', hp', rfl⟩ := yields_expect.1 hc
    obtain rfl : q₁ = _ := hp'
    exact ⟨⟨_, p⟩ :: u ++ [⟨_, p'⟩], by simp, by simp, .paren hu⟩
  · next p q =>
    obtain ⟨ps, _, q₁, hq₁, hps, h⟩ := yields_bind.1 h
    obtain ⟨rfl, rfl, rfl⟩ := yields_pure.1 h
    obtain ⟨u, p', rfl, rfl, hu⟩ := ih.properties hn hps
    exact ⟨⟨_, p⟩ :: u ++ [⟨_, p'⟩], by simp, by simp, .object hu⟩
  · next p₁ q =>
    obtain ⟨k, hk, hq⟩ := named_skipName q
    generalize skipName q = o at h hq
    obtain ⟨_, _, q₁, hq₁⟩ := o
    obtain rfl : q = k ++ q₁ := hq
    obtain ⟨_, _, q₂, hq₂, ho, h⟩ := yields_bind.1 h
    obtain ⟨p₂, h₁, -⟩ := yields_expect.1 ho
    obtain rfl : q₁ = _ := h₁
    obtain ⟨ps, _, q₃, hq₃, hps, h⟩ := yields_bind.1 h
    obtain ⟨u, p₃, h₂, -, hu⟩ := params_sound hps
    obtain rfl : q₂ = _ := h₂
    obtain ⟨a, _, q₄, hq₄, ha, h⟩ := yields_bind.1 h
    obtain ⟨w, h₃, -, hw⟩ := typeAfterColon_sound (w := []) ha
    obtain rfl : q₃ = _ := h₃
    obtain ⟨_, _, q₅, hq₅, hb, h⟩ := yields_bind.1 h
    obtain ⟨p₄, h₄, -⟩ := yields_expect.1 hb
    obtain rfl : q₄ = _ := h₄
    obtain ⟨ss, _, q₆, hq₆, hss, h⟩ := yields_bind.1 h
    obtain ⟨rfl, rfl, rfl⟩ := yields_pure.1 h
    simp only [List.length_cons, List.length_append] at hn
    obtain ⟨b, p₅, h₅, rfl, hb'⟩ := ih.block (by omega) hss
    obtain rfl : q₅ = _ := h₅
    exact ⟨⟨_, p₁⟩ :: k ++ ⟨_, p₂⟩ :: u ++ ⟨_, p₃⟩ :: w ++ ⟨_, p₄⟩ :: b ++ [⟨_, p₅⟩], by simp,
      by simp, .function hk (by simpa using hu) (by simpa using hw) hb'⟩
  · next name p q =>
    obtain ⟨rfl, rfl, rfl⟩ := yields_ok.1 h
    exact ⟨[⟨_, p⟩], rfl, rfl, .name⟩
  · next x q _ _ _ _ =>
    split at h
    · next c hx =>
      obtain ⟨rfl, rfl, rfl⟩ := yields_ok.1 h
      exact ⟨[x], rfl, rfl, .literal hx⟩
    · exact absurd h not_yields_error
  · exact absurd h not_yields_error

theorem suffixed_step (ih : SoundBelow n) {e : Expr Unit} (hn : ts.length ≤ n)
    (h : Yields (suffixed ts) e stop r) :
    Spans .suffixed ts (.expr e) stop r := by
  rw [suffixed] at h
  obtain ⟨a, s, q, hq, ha, h⟩ := yields_bind.1 h
  obtain ⟨u, hts, rfl, hu⟩ := ih.primary_step hn ha
  obtain ⟨e, s, q', hq', ht, h⟩ := yields_bind.1 h
  obtain ⟨rfl, rfl, rfl⟩ := yields_pure.1 h
  obtain ⟨w, rfl, rfl, hw⟩ := ih.suffixes_step (Nat.le_trans (Nat.le_of_lt hq) hn) hu.start ht
  exact ⟨u ++ w, by simp [hts], rfl, hw⟩

theorem unary_step (ih : SoundBelow n) {e : Expr Unit} (hn : ts.length ≤ n)
    (h : Yields (Grammar.unary ts) e stop r) :
    Spans .unary ts (.expr e) stop r := by
  rw [Grammar.unary.eq_def] at h
  split at h
  · next p q =>
    obtain ⟨e, s, q, hq, he, h⟩ := yields_bind.1 h
    obtain ⟨rfl, rfl, rfl⟩ := yields_pure.1 h
    obtain ⟨u, rfl, rfl, hu⟩ := ih.unary hn he
    exact ⟨⟨_, p⟩ :: u, rfl, by rw [stopOf_cons _ hu.expr_ne_nil], .not hu⟩
  · next p q =>
    split at h
    · next v s q' hq' hneg =>
      obtain ⟨rfl, rfl, rfl⟩ := yields_ok.1 h
      obtain ⟨x, rfl, hx, hs, rfl⟩ := negative?_eq_some hneg
      exact ⟨[⟨_, p⟩, x], rfl, rfl, .negative hx hs⟩
    · next hneg =>
      obtain ⟨e, s, q, hq, he, h⟩ := yields_bind.1 h
      obtain ⟨rfl, rfl, rfl⟩ := yields_pure.1 h
      obtain ⟨u, rfl, rfl, hu⟩ := ih.unary hn he
      exact ⟨⟨_, p⟩ :: u, rfl, by rw [stopOf_cons _ hu.expr_ne_nil], .negate hneg hu⟩
  · obtain ⟨u, rfl, rfl, hu⟩ := ih.suffixed_step hn h
    exact ⟨u, rfl, rfl, .operand hu⟩

theorem binaryTail_step (ih : SoundBelow n) {ts r : List Lexeme} {stop : Nat} {l : Level}
    {left e : Expr Unit} {u : List Lexeme} (hn : ts.length ≤ n)
    (hu : Derives (.joined l) u (.expr left) ts)
    (h : Yields (binaryTail l left (stopOf u) ts) e stop r) :
    ∃ w, ts = w ++ r ∧ stop = stopOf (u ++ w) ∧ Derives (.binary l) (u ++ w) (.expr e) r := by
  rw [binaryTail.eq_def] at h
  split at h
  · obtain ⟨rfl, rfl, rfl⟩ := yields_ok.1 h
    refine ⟨[], rfl, by rw [List.append_nil], ?_⟩
    rw [List.append_nil]
    exact .settled hu rfl
  · next x q =>
    split at h
    · next hx =>
      obtain ⟨rfl, rfl, rfl⟩ := yields_ok.1 h
      refine ⟨[], rfl, by rw [List.append_nil], ?_⟩
      rw [List.append_nil]
      exact .settled hu (by simp [startsOperator, hx])
    · next op hx =>
      obtain ⟨b, s, q₁, hq₁, hb, h⟩ := yields_bind.1 h
      obtain ⟨w, rfl, rfl, hw⟩ := ih.operand hn hb
      obtain ⟨e, s, q₂, hq₂, ht, h⟩ := yields_bind.1 h
      obtain ⟨rfl, rfl, rfl⟩ := yields_pure.1 h
      have hstop : stopOf (u ++ x :: w) = stopOf w := by
        rw [stopOf_append_cons, stopOf_cons _ hw.expr_ne_nil]
      rw [← hstop] at ht
      simp only [List.length_cons, List.length_append] at hn
      obtain ⟨v, rfl, rfl, hv⟩ := binaryTail_step ih (by omega) (by rw [hstop]; exact hu.join hx hw) ht
      exact ⟨x :: w ++ v, by simp, by simp, by simpa using hv⟩
termination_by ts.length

mutual

theorem binary_step (ih : SoundBelow n) {ts r : List Lexeme} {stop : Nat} {l : Level}
    {e : Expr Unit} (hn : ts.length ≤ n)
    (h : Yields (binary l ts) e stop r) : Spans (.binary l) ts (.expr e) stop r := by
  rw [binary] at h
  obtain ⟨a, s, q, hq, ha, h⟩ := yields_bind.1 h
  obtain ⟨u, hts, rfl, hu⟩ := operand_step ih hn ha
  obtain ⟨e, s, q', hq', ht, h⟩ := yields_bind.1 h
  obtain ⟨rfl, rfl, rfl⟩ := yields_pure.1 h
  obtain ⟨w, rfl, rfl, hw⟩ := ih.binaryTail_step (Nat.le_trans (Nat.le_of_lt hq) hn) hu.first ht
  exact ⟨u ++ w, by simp [hts], rfl, hw⟩
termination_by 2 * l.rank + 1

theorem operand_step (ih : SoundBelow n) {ts r : List Lexeme} {stop : Nat} {l : Level}
    {e : Expr Unit} (hn : ts.length ≤ n)
    (h : Yields (Grammar.operand l ts) e stop r) : Spans (.operand l) ts (.expr e) stop r := by
  rw [Grammar.operand] at h
  split at h
  · next m hl =>
    have := Level.rank_tighter hl
    obtain ⟨u, rfl, rfl, hu⟩ := binary_step ih hn h
    exact ⟨u, rfl, rfl, .tighter hl hu⟩
  · next hl =>
    obtain ⟨u, rfl, rfl, hu⟩ := ih.unary_step hn h
    exact ⟨u, rfl, rfl, .tightest hl hu⟩
termination_by 2 * l.rank

end

theorem conditional_step (ih : SoundBelow n) {e : Expr Unit} (hn : ts.length ≤ n)
    (h : Yields (conditional ts) e stop r) : Spans .conditional ts (.expr e) stop r := by
  rw [conditional] at h
  obtain ⟨c, s, q, hq, hc, h⟩ := yields_bind.1 h
  obtain ⟨u, hts, rfl, hu⟩ := ih.binary_step hn hc
  dsimp only at h
  split at h
  · next p₁ q hq =>
    have hq := Nat.lt_of_lt_of_le hq hn
    obtain ⟨y, _, q₁, hq₁, hy, h⟩ := yields_bind.1 h
    obtain ⟨v, rfl, rfl, hv⟩ := ih.expression (Nat.lt_of_succ_lt hq) hy
    obtain ⟨_, _, q₂, hq₂, hcolon, h⟩ := yields_bind.1 h
    obtain ⟨p₂, hp₂, -⟩ := yields_expect.1 hcolon
    obtain rfl : q₁ = _ := hp₂
    obtain ⟨no, s, q₃, hq₃, hno, h⟩ := yields_bind.1 h
    obtain ⟨rfl, rfl, rfl⟩ := yields_pure.1 h
    simp only [List.length_cons, List.length_append] at hq
    obtain ⟨w, hw', rfl, hw⟩ := ih.expression (show q₂.length < n by omega) hno
    obtain rfl : q₂ = _ := hw'
    refine ⟨u ++ ⟨_, p₁⟩ :: v ++ ⟨_, p₂⟩ :: w, by simp [hts], ?_, .choice (by simpa using hu) hv hw⟩
    rw [stopOf_append_cons, stopOf_cons _ hw.expr_ne_nil]
  · next hne =>
    obtain ⟨rfl, rfl, rfl⟩ := yields_pure.1 h
    exact ⟨u, hts, rfl, .condition hu (not_startsWith fun p r => by
      rintro rfl
      exact hne _ _ _ rfl HEq.rfl)⟩

theorem arrowFunction_step (ih : SoundBelow n) {e : Expr Unit} (hn : ts.length ≤ n)
    (h : Yields (arrowFunction ts) e stop r) : Spans .expression ts (.expr e) stop r := by
  rw [arrowFunction] at h
  obtain ⟨ps, _, q, hq, hps, h⟩ := yields_bind.1 h
  obtain ⟨u, hts, hu⟩ := arrowParams_sound hps
  obtain ⟨_, _, q₁, hq₁, ha, h⟩ := yields_bind.1 h
  obtain ⟨p₁, hq', -⟩ := yields_expect.1 ha
  obtain rfl : q = _ := hq'
  have hstart : startOf ts = startOf u := by rw [hts, startOf_append hu.ne_nil]
  have hn : q₁.length < n := Nat.lt_of_succ_lt (Nat.lt_of_lt_of_le hq hn)
  dsimp only at h
  rw [hstart] at h
  split at h
  · next p₂ q₂ _ _ =>
    obtain ⟨ss, s, q₃, hq₃, hb, h⟩ := yields_bind.1 h
    obtain ⟨rfl, rfl, rfl⟩ := yields_pure.1 h
    obtain ⟨w, p₃, rfl, rfl, hw⟩ := ih.block (Nat.lt_of_succ_lt hn) hb
    exact ⟨u ++ ⟨_, p₁⟩ :: ⟨_, p₂⟩ :: w ++ [_], by simp [hts], by simp, .arrow hu hw⟩
  · next hne =>
    obtain ⟨b, s, q₂, hq₂, hb, h⟩ := yields_bind.1 h
    obtain ⟨rfl, rfl, rfl⟩ := yields_pure.1 h
    obtain ⟨w, rfl, rfl, hw⟩ := ih.expression hn hb
    refine ⟨u ++ ⟨_, p₁⟩ :: w, by simp [hts], ?_, .lambda hu ?_ hw⟩
    · rw [stopOf_append_cons, stopOf_cons _ hw.expr_ne_nil]
    · refine not_startsWith ?_
      rintro p w rfl
      exact hne _ _ _ rfl HEq.rfl

theorem expression_step (ih : SoundBelow n) {e : Expr Unit} (hn : ts.length ≤ n)
    (h : Yields (Grammar.expression ts) e stop r) : Spans .expression ts (.expr e) stop r := by
  rw [Grammar.expression] at h
  split at h
  · exact ih.arrowFunction_step hn h
  · next ha =>
    obtain ⟨u, rfl, rfl, hu⟩ := ih.conditional_step hn h
    exact ⟨u, rfl, rfl, .plain (Bool.eq_false_iff.2 ha) hu⟩

theorem arguments_step (ih : SoundBelow n) {es : List (Expr Unit)} (hn : ts.length ≤ n)
    (h : Yields (Grammar.arguments ts) es stop r) :
    Encloses .rightParen .arguments ts (.exprs es) stop r := by
  rw [Grammar.arguments.eq_def] at h
  split at h
  · obtain ⟨rfl, rfl, rfl⟩ := yields_ok.1 h
    exact ⟨[], _, rfl, rfl, .noArgument⟩
  · obtain ⟨e, _, q, hq, he, h⟩ := yields_bind.1 h
    obtain ⟨u, hts, -, hu⟩ := ih.expression_step hn he
    have hn := Nat.lt_of_lt_of_le hq hn
    obtain ⟨_, _, q₁, hq₁, hs, h⟩ := yields_bind.1 h
    obtain ⟨es, _, q₂, hq₂, hes, h⟩ := yields_bind.1 h
    obtain ⟨rfl, rfl, rfl⟩ := yields_pure.1 h
    obtain ⟨hc, rfl⟩ | ⟨-, p, rfl⟩ := yields_separator hs
    · obtain ⟨p', q, rfl⟩ := startsWith_iff.1 hc
      rw [Grammar.arguments] at hes
      obtain ⟨rfl, rfl, rfl⟩ := yields_ok.1 hes
      exact ⟨u, p', hts, rfl, .lastArgument hu⟩
    · obtain ⟨w, p', rfl, rfl, hw⟩ := ih.arguments (Nat.lt_of_succ_lt hn) hes
      exact ⟨u ++ ⟨_, p⟩ :: w, p', by simp [hts], rfl, .argument (by simpa using hu) hw⟩

theorem properties_step (ih : SoundBelow n) {ps : List (Property Unit)} (hn : ts.length ≤ n)
    (h : Yields (Grammar.properties ts) ps stop r) :
    Encloses .rightBrace .properties ts (.entries ps) stop r := by
  rw [Grammar.properties.eq_def] at h
  split at h
  · obtain ⟨rfl, rfl, rfl⟩ := yields_ok.1 h
    exact ⟨[], _, rfl, rfl, .noEntry⟩
  · obtain ⟨v, _, q, hq, hv, h⟩ := yields_bind.1 h
    obtain ⟨u, hts, -, hu⟩ := ih.property_step hn hv
    have hn := Nat.lt_of_lt_of_le hq hn
    obtain ⟨_, _, q₁, hq₁, hs, h⟩ := yields_bind.1 h
    obtain ⟨vs, _, q₂, hq₂, hvs, h⟩ := yields_bind.1 h
    obtain ⟨rfl, rfl, rfl⟩ := yields_pure.1 h
    obtain ⟨hc, rfl⟩ | ⟨-, p, rfl⟩ := yields_separator hs
    · obtain ⟨p', q, rfl⟩ := startsWith_iff.1 hc
      rw [Grammar.properties] at hvs
      obtain ⟨rfl, rfl, rfl⟩ := yields_ok.1 hvs
      exact ⟨u, p', hts, rfl, .lastEntry hu⟩
    · obtain ⟨w, p', rfl, rfl, hw⟩ := ih.properties (Nat.lt_of_succ_lt hn) hvs
      exact ⟨u ++ ⟨_, p⟩ :: w, p', by simp [hts], rfl, .entry (by simpa using hu) hw⟩

theorem declaration_step (ih : SoundBelow n) {make : Span → Statement Unit} {k : Keyword}
    (hk : k ∈ [Keyword.constKey, .letKey, .varKey]) (p : Span) (hn : ts.length ≤ n)
    (h : Yields (declaration ts) make stop r) :
    SpansStatement (⟨.keyword k, p⟩ :: ts) make stop r := by
  rw [declaration] at h
  obtain ⟨name, _, q, hq, hx, h⟩ := yields_bind.1 h
  obtain ⟨p', rfl, rfl⟩ := yields_identifier.1 hx
  obtain ⟨a, s, q₁, hq₁, ha, h⟩ := yields_bind.1 h
  obtain ⟨w, hw', rfl, hw⟩ := typeAfterColon_sound (w := [⟨.name name, p'⟩]) ha
  obtain rfl : q = _ := hw'
  dsimp only at h
  split at h
  · next p₁ q₂ _ _ _ =>
    obtain ⟨e, _, q₃, hq₃, he, h⟩ := yields_bind.1 h
    obtain ⟨rfl, rfl, rfl⟩ := yields_pure.1 h
    simp only [List.length_cons, List.length_append] at hn
    obtain ⟨u, rfl, rfl, hu⟩ := ih.expression (by omega) he
    refine ⟨⟨.keyword k, p⟩ :: ⟨.name name, p'⟩ :: w ++ ⟨.symbol .assign, p₁⟩ :: u, by simp,
      by simp [stopOf_cons _ hu.expr_ne_nil], by simp, ?_⟩
    rintro t q rfl ht
    have hne : u ++ t ≠ [] := by simp [hu.expr_ne_nil]
    have hstatement : Derives .statement
        (⟨.keyword k, p⟩ :: ⟨.name name, p'⟩ :: w ++ ⟨.symbol .assign, p₁⟩ :: u ++ t) _ q :=
      .definition hk (by simpa using hw) hu ht
    simpa [startOf, stopOf_cons _ hne] using hstatement
  · next hne =>
    obtain ⟨rfl, rfl, rfl⟩ := yields_pure.1 h
    have hr : startsWith .assign q₁ = false := not_startsWith fun p r => by
      rintro rfl
      exact hne _ _ _ rfl HEq.rfl
    refine ⟨⟨.keyword k, p⟩ :: ⟨.name name, p'⟩ :: w, by simp, by simp, by simp, ?_⟩
    rintro t q rfl ht
    have hstatement : Derives .statement (⟨.keyword k, p⟩ :: ⟨.name name, p'⟩ :: w ++ t) _ q :=
      .declaration hk hw hr ht
    simpa [startOf] using hstatement

theorem plainStatement_step (ih : SoundBelow n) {make : Span → Statement Unit} (hn : ts.length ≤ n)
    (h : Yields (plainStatement ts) make stop r) : SpansStatement ts make stop r := by
  rw [plainStatement.eq_def] at h
  split at h
  · obtain ⟨d, _, q, hq, hd, h⟩ := yields_bind.1 h
    obtain ⟨rfl, rfl, rfl⟩ := yields_pure.1 h
    exact ih.declaration_step (by decide) _ (Nat.le_of_lt hn) hd
  · obtain ⟨d, _, q, hq, hd, h⟩ := yields_bind.1 h
    obtain ⟨rfl, rfl, rfl⟩ := yields_pure.1 h
    exact ih.declaration_step (by decide) _ (Nat.le_of_lt hn) hd
  · obtain ⟨d, _, q, hq, hd, h⟩ := yields_bind.1 h
    obtain ⟨rfl, rfl, rfl⟩ := yields_pure.1 h
    exact ih.declaration_step (by decide) _ (Nat.le_of_lt hn) hd
  · next p q =>
    split at h
    · next hend =>
      obtain ⟨rfl, rfl, rfl⟩ := yields_ok.1 h
      refine ⟨[⟨.keyword .returnKey, p⟩], rfl, rfl, by simp, ?_⟩
      rintro t r rfl ht
      refine .finish ?_ ht
      rintro rfl
      cases ht with
      | none hs => simpa [hs] using hend
    · obtain ⟨e, _, q', hq', he, h⟩ := yields_bind.1 h
      obtain ⟨rfl, rfl, rfl⟩ := yields_pure.1 h
      obtain ⟨u, rfl, rfl, hu⟩ := ih.expression hn he
      refine ⟨⟨.keyword .returnKey, p⟩ :: u, rfl, (stopOf_cons _ hu.expr_ne_nil).symm, by simp, ?_⟩
      rintro t r rfl ht
      have hne : u ++ t ≠ [] := by simp [hu.expr_ne_nil]
      rw [List.cons_append, stopOf_cons _ hne]
      exact .result hu ht
  · obtain ⟨e, _, q, hq, he, h⟩ := yields_bind.1 h
    obtain ⟨rfl, rfl, rfl⟩ := yields_pure.1 h
    obtain ⟨u, rfl, rfl, hu⟩ := ih.expression_step hn he
    refine ⟨u, rfl, rfl, hu.expr_ne_nil, ?_⟩
    rintro t r rfl ht
    exact .evaluation hu ht

theorem statement_step (ih : SoundBelow n) {s : Statement Unit} (hn : ts.length ≤ n)
    (h : Yields (statement ts) s stop r) : Spans .statement ts (.statement s) stop r := by
  rw [statement] at h
  obtain ⟨make, _, q, hq, hm, h⟩ := yields_bind.1 h
  obtain ⟨u, hts, rfl, hne, hu⟩ := ih.plainStatement_step hn hm
  have hstart : startOf ts = startOf u := by rw [hts, startOf_append hne]
  dsimp only at h
  rw [hstart] at h
  obtain ⟨p, q', hq', rfl, ho⟩ | ⟨hs, hq', ho⟩ := optional_cases .semicolon (stopOf u) q
  · simp only [ho] at h
    obtain ⟨rfl, rfl, rfl⟩ := yields_pure.1 h
    have := hu [⟨_, p⟩] q' rfl .semicolon
    exact ⟨u ++ [⟨.symbol .semicolon, p⟩], by simp [hts], by simp, by simpa using this⟩
  · simp only [ho] at h
    obtain ⟨rfl, rfl, rfl⟩ := yields_pure.1 h
    have := hu [] q rfl (.none hs)
    exact ⟨u, hts, rfl, by simpa using this⟩

theorem block_step (ih : SoundBelow n) {ss : List (Statement Unit)} (hn : ts.length ≤ n)
    (h : Yields (Grammar.block ts) ss stop r) :
    Encloses .rightBrace .block ts (.statements ss) stop r := by
  rw [Grammar.block.eq_def] at h
  split at h
  · exact absurd h not_yields_error
  · obtain ⟨rfl, rfl, rfl⟩ := yields_ok.1 h
    exact ⟨[], _, rfl, rfl, .noStatement⟩
  · obtain ⟨s, _, q, hq, hs, h⟩ := yields_bind.1 h
    obtain ⟨u, hts, -, hu⟩ := ih.statement_step hn hs
    obtain ⟨ss, _, q', hq', hss, h⟩ := yields_bind.1 h
    obtain ⟨rfl, rfl, rfl⟩ := yields_pure.1 h
    obtain ⟨w, p, rfl, rfl, hw⟩ := ih.block (Nat.lt_of_lt_of_le hq hn) hss
    exact ⟨u ++ w, p, by simp [hts], rfl, .statement hu hw⟩

end SoundBelow

/-- The rules read phrases, however many tokens are left. -/
theorem soundBelow (n : Nat) : SoundBelow n := by
  induction n with
  | zero => exact ⟨nofun, nofun, nofun, nofun, nofun, nofun⟩
  | succ n ih =>
    exact {
      expression := fun hn h => ih.expression_step (Nat.le_of_lt_succ hn) h
      operand := fun hn h => ih.operand_step (Nat.le_of_lt_succ hn) h
      unary := fun hn h => ih.unary_step (Nat.le_of_lt_succ hn) h
      arguments := fun hn h => ih.arguments_step (Nat.le_of_lt_succ hn) h
      properties := fun hn h => ih.properties_step (Nat.le_of_lt_succ hn) h
      block := fun hn h => ih.block_step (Nat.le_of_lt_succ hn) h }

theorem expression_sound {ts : List Lexeme} {e : Expr Unit} {stop : Nat} {r : List Lexeme}
    (h : Yields (expression ts) e stop r) : Spans .expression ts (.expr e) stop r :=
  (soundBelow _).expression_step (Nat.le_refl _) h

theorem statement_sound {ts : List Lexeme} {s : Statement Unit} {stop : Nat} {r : List Lexeme}
    (h : Yields (statement ts) s stop r) : Spans .statement ts (.statement s) stop r :=
  (soundBelow _).statement_step (Nat.le_refl _) h

end Aggregation.Grammar
