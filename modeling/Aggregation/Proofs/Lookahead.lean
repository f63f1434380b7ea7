import Aggregation.Script.Grammar

/-! What a rule sees of the tokens behind those it reads.

A rule of the grammar stops where the next token does not continue it, so what it reads depends on
the tokens that follow, but only on the first of them, or the first two: `Looks r r'` says that `r'`
shows a rule nothing that `r` did not show it. The one look further ahead is for an arrow behind a
group. It passes over brackets, and a rule reads brackets in pairs (`Balanced`), so it sees no
more either (`atArrow_of_looks`). -/
namespace Aggregation.Grammar

/-! ### Results of rules -/

section Yields

variable {α β : Type} {n m : Nat}

/-- The rule has read a value up to `stop` and left the tokens `r`. -/
def Yields (x : Parse α n) (v : α) (stop : Nat) (r : List Lexeme) : Prop :=
  ∃ h, x = .ok ⟨v, stop, r, h⟩

@[simp] theorem yields_ok {v w : α} {s stop : Nat} {q r : List Lexeme} {h : q.length < n} :
    Yields (.ok ⟨v, s, q, h⟩) w stop r ↔ v = w ∧ s = stop ∧ q = r := by
  constructor
  · rintro ⟨_, hx⟩
    injection hx with hx
    injection hx with hv hs hr
    exact ⟨hv, hs, hr⟩
  · rintro ⟨rfl, rfl, rfl⟩
    exact ⟨h, rfl⟩

@[simp] theorem yields_pure {v w : α} {s stop : Nat} {q r : List Lexeme} {h : q.length < n} :
    Yields (pure ⟨v, s, q, h⟩) w stop r ↔ v = w ∧ s = stop ∧ q = r :=
  yields_ok

@[simp] theorem not_yields_error {e : ParseFault} {v : α} {stop : Nat} {r : List Lexeme} :
    ¬ Yields (.error e : Parse α n) v stop r := by
  rintro ⟨_, h⟩
  cases h

/-- A rule that goes on behind another yields what it reads from the tokens the other left. -/
theorem yields_bind {x : Parse α n} {f : Read α n → Parse β m} {w : β} {stop : Nat}
    {r : List Lexeme} :
    Yields (x >>= f) w stop r ↔
      ∃ v s q h, Yields x v s q ∧ Yields (f ⟨v, s, q, h⟩) w stop r := by
  constructor
  · intro h
    cases x with
    | error e => exact absurd h not_yields_error
    | ok x => exact ⟨x.value, x.stop, x.rest, x.shorter, ⟨x.shorter, rfl⟩, h⟩
  · rintro ⟨v, s, q, h, ⟨_, rfl⟩, hf⟩
    exact hf

theorem Yields.bind {x : Parse α n} {f : Read α n → Parse β m} {v : α} {s : Nat}
    {q : List Lexeme} {w : β} {stop : Nat} {r : List Lexeme} (hx : Yields x v s q)
    (hf : ∀ h, Yields (f ⟨v, s, q, h⟩) w stop r) : Yields (x >>= f) w stop r :=
  yields_bind.2 ⟨v, s, q, hx.1, hx, hf _⟩

end Yields

/-- Where the last of the tokens stops. -/
def stopOf (ts : List Lexeme) : Nat :=
  (ts.getLast?.map (·.span.stop)).getD 0

@[simp] theorem stopOf_singleton (x : Lexeme) : stopOf [x] = x.span.stop := rfl

@[simp] theorem stopOf_append_cons (u w : List Lexeme) (x : Lexeme) :
    stopOf (u ++ x :: w) = stopOf (x :: w) := by
  simp [stopOf, List.getLast?_append, List.getLast?_cons]

@[simp] theorem stopOf_cons_cons (x y : Lexeme) (w : List Lexeme) :
    stopOf (x :: y :: w) = stopOf (y :: w) :=
  stopOf_append_cons [x] w y

@[simp] theorem stopOf_cons_append_cons (x y : Lexeme) (u w : List Lexeme) :
    stopOf (x :: (u ++ y :: w)) = stopOf (y :: w) :=
  stopOf_append_cons (x :: u) w y

theorem stopOf_append (u : List Lexeme) {w : List Lexeme} (h : w ≠ []) :
    stopOf (u ++ w) = stopOf w := by
  obtain ⟨x, w, rfl⟩ := List.exists_cons_of_ne_nil h
  exact stopOf_append_cons u w x

theorem stopOf_cons (x : Lexeme) {w : List Lexeme} (h : w ≠ []) : stopOf (x :: w) = stopOf w :=
  stopOf_append [x] h

theorem startOf_append {u : List Lexeme} (h : u ≠ []) (w : List Lexeme) :
    startOf (u ++ w) = startOf u := by
  obtain ⟨x, u, rfl⟩ := List.exists_cons_of_ne_nil h
  rfl

/-! ### Single tokens -/

@[simp] theorem startsWith_nil (s : Symbol) : startsWith s [] = false := rfl

@[simp] theorem startsWith_cons (s : Symbol) (x : Lexeme) (r : List Lexeme) :
    startsWith s (x :: r) = (x.token == .symbol s) := rfl

theorem startsWith_iff {s : Symbol} {ts : List Lexeme} :
    startsWith s ts = true ↔ ∃ p r, ts = ⟨.symbol s, p⟩ :: r := by
  match ts with
  | [] => simp
  | ⟨t, p⟩ :: r => simp

/-- Whether tokens begin with a pair of array brackets. -/
def startsWithPair (ts : List Lexeme) : Bool :=
  startsWith .leftBracket ts && startsWith .rightBracket ts.tail

/-- A symbol that is wanted is the next token. -/
theorem yields_expect {s : Symbol} {ts : List Lexeme} {v : Unit} {stop : Nat} {r : List Lexeme} :
    Yields (expect s ts) v stop r ↔ ∃ p, ts = ⟨.symbol s, p⟩ :: r ∧ p.stop = stop := by
  constructor
  · intro h
    match ts with
    | [] => exact absurd h not_yields_error
    | ⟨t, p⟩ :: q =>
      simp only [expect] at h
      split at h
      · next ht =>
        obtain ⟨-, rfl, rfl⟩ := yields_ok.1 h
        exact ⟨p, by rw [ht], rfl⟩
      · exact absurd h not_yields_error
  · rintro ⟨p, rfl, rfl⟩
    simp [expect]

theorem expect_cons (s : Symbol) (p : Span) (r : List Lexeme) :
    Yields (expect s (⟨.symbol s, p⟩ :: r)) () p.stop r :=
  yields_expect.2 ⟨p, rfl, rfl⟩

/-- A name that is wanted is the next token. -/
theorem yields_identifier {ts : List Lexeme} {name : String} {stop : Nat} {r : List Lexeme} :
    Yields (identifier ts) name stop r ↔ ∃ p, ts = ⟨.name name, p⟩ :: r ∧ p.stop = stop := by
  constructor
  · intro h
    match ts with
    | [] => exact absurd h not_yields_error
    | ⟨t, p⟩ :: q =>
      simp only [identifier] at h
      split at h
      · obtain ⟨rfl, rfl, rfl⟩ := yields_ok.1 h
        exact ⟨p, rfl, rfl⟩
      · exact absurd h not_yields_error
  · rintro ⟨p, rfl, rfl⟩
    simp [identifier]

theorem identifier_cons (n : String) (p : Span) (r : List Lexeme) :
    Yields (identifier (⟨.name n, p⟩ :: r)) n p.stop r :=
  yields_identifier.2 ⟨p, rfl, rfl⟩

/-- A symbol that may be left out is the next token, or is left out. -/
theorem optional_cases (s : Symbol) (stop : Nat) (ts : List Lexeme) :
    (∃ p r h, ts = ⟨.symbol s, p⟩ :: r ∧ optional s stop ts = ⟨true, p.stop, r, h⟩) ∨
      startsWith s ts = false ∧ ∃ h, optional s stop ts = ⟨false, stop, ts, h⟩ := by
  match ts with
  | [] => exact .inr ⟨rfl, _, rfl⟩
  | ⟨t, p⟩ :: r =>
    by_cases h : t = .symbol s
    · subst h
      exact .inl ⟨p, r, Nat.lt_succ_of_lt (length_lt r), rfl, by simp [optional, expect]⟩
    · exact .inr ⟨by simp [h], length_lt _, by simp [optional, expect, h]⟩

/-- Behind an item of a list stands the end of the list, or a comma. -/
theorem yields_separator {close : Symbol} {ts : List Lexeme} {v : Unit} {stop : Nat}
    {r : List Lexeme} (h : Yields (separator close ts) v stop r) :
    startsWith close ts = true ∧ ts = r ∨
      startsWith close ts = false ∧ ∃ p, ts = ⟨.symbol .comma, p⟩ :: r := by
  unfold separator at h
  split at h
  · next hc => exact .inl ⟨hc, (yields_ok.1 h).2.2⟩
  · next hc =>
    cases hx : expect .comma ts with
    | error e =>
      rw [hx] at h
      exact absurd h not_yields_error
    | ok x =>
      rw [hx] at h
      obtain ⟨p, hts, -⟩ := yields_expect.1 ⟨x.shorter, hx⟩
      obtain ⟨-, -, rfl⟩ := yields_ok.1 h
      exact .inr ⟨Bool.not_eq_true _ ▸ hc, p, hts⟩

theorem yields_separator_close {close : Symbol} {ts : List Lexeme}
    (h : startsWith close ts = true) : ∃ stop, Yields (separator close ts) () stop ts :=
  ⟨0, by simp [separator, h]⟩

theorem yields_separator_comma {close : Symbol} (h : close ≠ .comma) (p : Span)
    (r : List Lexeme) :
    ∃ stop, Yields (separator close (⟨.symbol .comma, p⟩ :: r)) () stop r :=
  ⟨p.stop, by simp [separator, expect, h.symm, Except.map]⟩

/-! ### What is seen of the tokens behind -/

/-- Among the first tokens of `r'` is nothing that continues a phrase and is not there in `r`. What
continues a phrase is any symbol but a closing parenthesis or brace. -/
structure Looks (r r' : List Lexeme) : Prop where
  symbol : ∀ s, s ≠ .rightParen → s ≠ .rightBrace → startsWith s r = false →
    startsWith s r' = false
  pair : startsWithPair r = false → startsWithPair r' = false

namespace Looks

/-- The end of the tokens continues nothing. -/
theorem nil (r : List Lexeme) : Looks r [] := ⟨fun _ _ _ _ => rfl, fun _ => rfl⟩

/-- A closing parenthesis or brace continues nothing. -/
theorem close {s : Symbol} (h : s = .rightParen ∨ s = .rightBrace) (p : Span)
    (r r' : List Lexeme) : Looks r (⟨.symbol s, p⟩ :: r') := by
  refine ⟨fun t h₁ h₂ _ => ?_, fun _ => ?_⟩
  · rcases h with rfl | rfl <;> simp [h₁.symm, h₂.symm]
  · rcases h with rfl | rfl <;> simp [startsWithPair]

/-- Behind a token that opens no pair of brackets anything may follow. -/
theorem cons {x : Lexeme} (h : x.token ≠ .symbol .leftBracket) (r r' : List Lexeme) :
    Looks (x :: r) (x :: r') :=
  ⟨fun _ _ _ h => h, fun _ => by simp [startsWithPair, h]⟩

/-- What is seen behind further tokens is less still. -/
theorem append {r r' : List Lexeme} (h : Looks r r') (u : List Lexeme) :
    Looks (u ++ r) (u ++ r') := by
  match u with
  | [] => exact h
  | [x] =>
    refine ⟨fun _ _ _ h => h, fun hp => ?_⟩
    simp only [startsWithPair, List.cons_append, List.nil_append, startsWith_cons, List.tail_cons,
      Bool.and_eq_false_iff] at hp ⊢
    exact hp.imp_right (h.symbol _ (by decide) (by decide))
  | x :: y :: u => exact ⟨fun _ _ _ h => h, id⟩

end Looks

/-- What may follow a statement in place of `r`: what shows nothing new, and ends a `return` without
a value if `r` does. -/
structure Follows (r r' : List Lexeme) : Prop extends Looks r r' where
  ends : r = [] ∨ startsWith .rightBrace r = true → r' = [] ∨ startsWith .rightBrace r' = true

namespace Follows

theorem nil (r : List Lexeme) : Follows r [] := ⟨.nil r, fun _ => .inl rfl⟩

theorem close (p : Span) (r r' : List Lexeme) : Follows r (⟨.symbol .rightBrace, p⟩ :: r') :=
  ⟨.close (.inr rfl) p r r', fun _ => .inr (by simp)⟩

theorem cons {x : Lexeme} (h : x.token ≠ .symbol .leftBracket) (r r' : List Lexeme) :
    Follows (x :: r) (x :: r') :=
  ⟨.cons h r r', by simp⟩

theorem append {r r' : List Lexeme} (h : Follows r r') (u : List Lexeme) :
    Follows (u ++ r) (u ++ r') := by
  refine ⟨h.toLooks.append u, ?_⟩
  match u with
  | [] => exact h.ends
  | x :: u => simp

end Follows

/-! ### Brackets in pairs -/

/-- Tokens in which every bracket that opens is closed again, and none other. -/
inductive Balanced : List Lexeme → Prop
  | nil : Balanced []
  | plain {x : Lexeme} {u : List Lexeme} (ho : opens x.token = false) (hc : closes x.token = false)
      (hu : Balanced u) : Balanced (x :: u)
  | group {x y : Lexeme} {u v : List Lexeme} (ho : opens x.token = true) (hu : Balanced u)
      (hc : closes y.token = true) (hv : Balanced v) : Balanced (x :: u ++ y :: v)

namespace Balanced

theorem singleton {x : Lexeme} (ho : opens x.token = false) (hc : closes x.token = false) :
    Balanced [x] := .plain ho hc .nil

theorem append {u v : List Lexeme} (hu : Balanced u) (hv : Balanced v) : Balanced (u ++ v) := by
  induction hu with
  | nil => exact hv
  | plain ho hc _ ih => exact .plain ho hc ih
  | group ho hu hc _ _ ih => simpa using group ho hu hc ih

/-- A group in brackets. -/
theorem bracketed {x y : Lexeme} {u : List Lexeme} (ho : opens x.token = true) (hu : Balanced u)
    (hc : closes y.token = true) : Balanced (x :: u ++ [y]) := .group ho hu hc .nil

theorem opens_of_closes {t : Token} (h : closes t = true) : opens t = false := by
  simp only [closes, opens, List.mem_cons, List.not_mem_nil, or_false, decide_eq_true_eq,
    decide_eq_false_iff_not] at h ⊢
  rintro (rfl | rfl | rfl) <;> simp at h

/-- The look for an arrow passes over what is balanced. -/
theorem arrowAfter_append {u : List Lexeme} (hu : Balanced u) {d : Nat} (hd : 1 ≤ d)
    (r : List Lexeme) : arrowAfter d (u ++ r) = arrowAfter d r := by
  induction hu generalizing d r with
  | nil => rfl
  | plain ho hc _ ih => simp [arrowAfter, ho, hc, ih hd]
  | @group x y u v ho _ hc _ ihu ihv =>
    have hy := opens_of_closes hc
    have hd' : ¬ d + 1 ≤ 1 := by omega
    simp [arrowAfter, ho, hc, hy, ihu (Nat.le_add_left 1 d), ihv hd, hd']

/-- The look from inside a group ends behind the group. -/
theorem arrowAfter_close {u : List Lexeme} (hu : Balanced u) {y : Lexeme}
    (hc : closes y.token = true) (r : List Lexeme) :
    arrowAfter 1 (u ++ y :: r) = startsWith .arrow r := by
  rw [hu.arrowAfter_append (Nat.le_refl 1)]
  simp [arrowAfter, hc, opens_of_closes hc]

end Balanced

/-- Whether balanced tokens begin an arrow function depends on what is seen behind them. -/
theorem atArrow_of_looks {u r r' : List Lexeme} (hu : Balanced u) (hne : u ≠ []) (h : Looks r r')
    (ha : atArrow (u ++ r) = false) : atArrow (u ++ r') = false := by
  have harrow : ∀ v, startsWith .arrow (v ++ r) = false → startsWith .arrow (v ++ r') = false :=
    fun v => (h.append v).symbol _ (by decide) (by decide)
  -- Behind any token but an opening parenthesis, the next token decides.
  have hname : ∀ {x : Lexeme} {w : List Lexeme}, x.token ≠ .symbol .leftParen →
      atArrow (x :: w ++ r) = false → atArrow (x :: w ++ r') = false := by
    rintro ⟨t, p⟩ w hx ha
    cases t with
    | name n => exact harrow w ha
    | symbol s =>
      cases s with
      | leftParen => exact absurd rfl hx
      | _ => rfl
    | _ => rfl
  cases hu with
  | nil => exact absurd rfl hne
  | plain ho _ _ => exact hname (by rintro hx; simp [hx, opens] at ho) ha
  | @group x y w v ho hw hc hv =>
    by_cases hx : x.token = .symbol .leftParen
    · obtain ⟨t, p⟩ := x
      obtain rfl : t = .symbol .leftParen := hx
      -- The look goes through the group, and ends at the token behind it.
      have hlook : ∀ q, atArrow (⟨.symbol .leftParen, p⟩ :: w ++ y :: v ++ q) =
          startsWith .arrow (v ++ q) := by
        intro q
        rw [← hw.arrowAfter_close hc (v ++ q)]
        simp [atArrow]
      rw [hlook] at ha ⊢
      exact harrow v ha
    · rw [List.cons_append] at ha ⊢
      exact hname hx ha

end Aggregation.Grammar
