import Aggregation.Proofs.Cursor
import Aggregation.Proofs.GrammarSoundness

/-! The cursor moves on and stops.

A walk of the cursor does what the rule of the grammar does with the tokens that are left: it stops where
the rule leaves off, or at the token that the fault of the rule names, never before where it started and
never behind the end (`Mirrors`). A call is on fewer tokens, or on as many and of a rule of lower rank, so
calls are nested no deeper than the tokens and the ranks allow (`bound`); with that many calls no walk is
unfinished, and none of them takes a token that is not there.

The argument has a step, in which the calls of a rule are known to do as the grammar does (`Serves`), with
a lemma for each rule, and a run, by induction on the nesting (`walk_mirrors`). -/
namespace Aggregation

/-- The token at which reading stopped, none at the end. -/
def ParseFault.found? : ParseFault → Option Lexeme
  | expected _ x => x
  | unexpected x => x

namespace Cursor

open Grammar (Yields startsWith_cons startsWith_iff not_startsWith startsSuffix)

variable {tokens ts r : List Lexeme} {x : Lexeme} {start c c' : Nat} {short : Prop}

/-! ### Where the cursor stands -/

/-- The cursor stands before certain tokens, not before the place where it started, and behind the last
token only if it started there. -/
structure Stands (tokens : List Lexeme) (start c : Nat) (ts : List Lexeme) : Prop where
  drop : tokens.drop c = ts
  start_le : start ≤ c
  le_max : c ≤ max start tokens.length

namespace Stands

theorem refl (tokens : List Lexeme) (c : Nat) : Stands tokens c c (tokens.drop c) :=
  ⟨rfl, Nat.le_refl c, Nat.le_max_left c _⟩

theorem length (h : Stands tokens start c ts) (hstart : start ≤ tokens.length) :
    c + ts.length = tokens.length := by
  have := h.le_max
  rw [← h.drop, List.length_drop]
  omega

theorem get (h : Stands tokens start c ts) : tokens[c]? = ts.head? := by
  rw [← h.drop, List.head?_drop]

theorem fits (h : Stands tokens start c ts) (p : Token → Bool) :
    Cursor.fits tokens p c = ts.head?.any (p ·.token) := by
  rw [Cursor.fits, h.get]

theorem sees (h : Stands tokens start c ts) (s : Symbol) :
    Cursor.sees tokens s c = startsWith s ts :=
  h.fits _

theorem atEnd (h : Stands tokens start c ts) : Cursor.atEnd tokens c = ts.isEmpty := by
  rw [Cursor.atEnd, h.get]
  cases ts <;> rfl

theorem succ (h : Stands tokens start c (x :: r)) : Stands tokens start (c + 1) r := by
  have hlt : c < tokens.length := by
    refine Nat.lt_of_not_le fun hle => ?_
    have hdrop := h.drop
    rw [List.drop_eq_nil_of_le hle] at hdrop
    cases hdrop
  refine ⟨?_, Nat.le_succ_of_le h.start_le, Nat.le_trans hlt (Nat.le_max_right start _)⟩
  rw [← List.drop_drop, h.drop, List.drop_one, List.tail_cons]

theorem advance_eq (h : Stands tokens start c (x :: r)) : Cursor.advance tokens c = c + 1 := by
  rw [Cursor.advance, h.atEnd, List.isEmpty_cons, if_neg Bool.false_ne_true]

theorem advance (h : Stands tokens start c (x :: r)) :
    Stands tokens start (Cursor.advance tokens c) r :=
  h.advance_eq ▸ h.succ

end Stands

/-! ### Walks and rules side by side -/

/-- A walk ends as a rule does that leaves certain tokens or fails: before these tokens, or at the one
that the fault names, and not before the start. Walks that are cut short are left aside. -/
inductive Mirrors (tokens : List Lexeme) (start : Nat) (short : Prop) :
    Outcome → Except ParseFault (List Lexeme) → Prop
  | done {c : Nat} {r : List Lexeme} (h : Stands tokens start c r) :
      Mirrors tokens start short (.done c) (.ok r)
  | failed {fault : ParseFault} {c : Nat} {r : List Lexeme} (h : Stands tokens start c r)
      (hfound : fault.found? = r.head?) :
      Mirrors tokens start short (.failed fault c) (.error fault)
  | unfinished {y : Except ParseFault (List Lexeme)} (h : short) :
      Mirrors tokens start short .unfinished y

namespace Mirrors

variable {α β : Type} {n : Nat} {o : Outcome} {y : Except ParseFault (List Lexeme)}

theorem mono {short' : Prop} (h : Mirrors tokens start short o y) (himp : short → short') :
    Mirrors tokens start short' o y := by
  cases h with
  | done h => exact .done h
  | failed h hfound => exact .failed h hfound
  | unfinished h => exact .unfinished (himp h)

/-- The walk goes on and so does the rule. -/
theorem bind {p : Parse α n} {g : Read α n → Except ParseFault β} {f : β → List Lexeme}
    {next : Nat → Outcome} (h : Mirrors tokens start short o (p.map Read.rest))
    (hnext : ∀ v stop r hr c, Stands tokens start c r →
      Mirrors tokens start short (next c) ((g ⟨v, stop, r, hr⟩).map f)) :
    Mirrors tokens start short (o.andThen next) ((p >>= g).map f) := by
  cases p with
  | ok v =>
    cases h with
    | done h => exact hnext v.value v.stop v.rest v.shorter _ h
    | unfinished h => exact .unfinished h
  | error fault =>
    cases h with
    | failed h hfound => exact .failed h hfound
    | unfinished h => exact .unfinished h

/-- The rule makes something of what it has read. -/
theorem map {p : Parse α n} {g : Read α n → Except ParseFault β} {f : β → List Lexeme}
    (h : Mirrors tokens start short o (p.map Read.rest))
    (hg : ∀ v stop r hr, (g ⟨v, stop, r, hr⟩).map f = .ok r) :
    Mirrors tokens start short o ((p >>= g).map f) := by
  have hp : (p >>= g).map f = p.map Read.rest := by
    cases p with
    | ok v => exact hg v.value v.stop v.rest v.shorter
    | error fault => rfl
  rw [hp]
  exact h

end Mirrors

/-! ### Single tokens -/

/-- Tokens do not begin with one that a rule has looked for in vain. -/
theorem not_any_head {p : Token → Bool}
    (h : ∀ t s r, p t = true → ts = ⟨t, s⟩ :: r → False) : ts.head?.any (p ·.token) = false := by
  match ts with
  | [] => rfl
  | ⟨t, s⟩ :: r => exact Bool.eq_false_iff.2 fun hp => h t s r hp rfl

theorem not_any_token {t : Token} (h : ∀ s r, ts = ⟨t, s⟩ :: r → False) :
    ts.head?.any (·.token == t) = false := by
  match ts with
  | [] => rfl
  | ⟨t', s⟩ :: r => exact beq_eq_false_iff_ne.2 fun (ht : t' = t) => h s r (ht ▸ rfl)

theorem not_any_name (h : ∀ n s r, ts = ⟨.name n, s⟩ :: r → False) :
    ts.head?.any (Kind.name.has ·.token) = false := by
  refine not_any_head fun t s r ht hts => ?_
  cases t with
  | name n => exact h n s r hts
  | _ => cases ht

theorem not_any_string (h : ∀ n s r, ts = ⟨.string n, s⟩ :: r → False) :
    ts.head?.any (Kind.string.has ·.token) = false := by
  refine not_any_head fun t s r ht hts => ?_
  cases t with
  | string n => exact h n s r hts
  | _ => cases ht

theorem not_any_integer (h : ∀ n s r, ts = ⟨.integer n, s⟩ :: r → False) :
    ts.head?.any (Kind.integer.has ·.token) = false := by
  refine not_any_head fun t s r ht hts => ?_
  cases t with
  | integer n => exact h n s r hts
  | _ => cases ht

theorem mirrors_stuck (h : Stands tokens start c ts) (what : Expectation) :
    Mirrors tokens start short (stuck tokens what c) (.error (.expected what ts.head?)) := by
  rw [stuck, h.get]
  exact .failed h rfl

theorem mirrors_expect (h : Stands tokens start c ts) (s : Symbol) :
    Mirrors tokens start short (expect tokens s c) ((Aggregation.expect s ts).map Read.rest) := by
  rw [expect, h.sees]
  match ts with
  | [] => exact mirrors_stuck h (.symbol s)
  | x :: r =>
    by_cases hx : x.token = .symbol s
    · rw [Aggregation.expect, if_pos hx, if_pos (by simp [hx])]
      exact .done h.advance
    · rw [Aggregation.expect, if_neg hx, if_neg (by simp [hx])]
      exact mirrors_stuck h (.symbol s)

/-- A token that was seen to be of a kind is there to be taken. -/
theorem take_eq {k : Kind} (h : Stands tokens start c (x :: r)) (hx : k.has x.token = true) :
    take tokens k c = .done (advance tokens c) := by
  rw [take, h.fits, List.head?_cons, Option.any_some, if_pos hx]

theorem identifier_eq {name : String} {p : Span} (h : Stands tokens start c (⟨.name name, p⟩ :: r)) :
    identifier tokens c = .done (advance tokens c) := by
  rw [identifier, h.fits, take_eq h rfl]
  rfl

theorem mirrors_identifier (h : Stands tokens start c ts) :
    Mirrors tokens start short (identifier tokens c) ((Aggregation.identifier ts).map Read.rest) := by
  match ts with
  | [] =>
    rw [identifier, h.fits]
    exact mirrors_stuck h .identifier
  | ⟨t, s⟩ :: r =>
    cases t with
    | name n =>
      rw [identifier_eq h]
      exact .done h.advance
    | _ =>
      rw [identifier, h.fits]
      exact mirrors_stuck h .identifier

theorem mirrors_separator (h : Stands tokens start c ts) (close : Symbol) :
    Mirrors tokens start short (separator tokens close c)
      ((Aggregation.separator close ts).map Read.rest) := by
  rw [separator, h.sees, Aggregation.separator]
  split
  · exact .done h
  · have hcomma : Mirrors tokens start short _ _ := mirrors_expect h .comma
    generalize Aggregation.expect .comma ts = p at hcomma
    cases p <;> exact hcomma

theorem Stands.skip (h : Stands tokens start c ts) (s : Symbol) (stop : Nat) :
    Stands tokens start (skip tokens s c) (optional s stop ts).rest := by
  rw [Cursor.skip, h.sees]
  rcases Grammar.optional_cases s stop ts with ⟨p, r, hr, rfl, ho⟩ | ⟨hs, hr, ho⟩
  · rw [ho, if_pos (by simp)]
    exact h.advance
  · rw [ho, hs, if_neg Bool.false_ne_true]
    exact h

theorem skipName_cases (ts : List Lexeme) :
    (∃ n p r, ts = ⟨.name n, p⟩ :: r ∧ (Grammar.skipName ts).rest = r) ∨
      ts.head?.any (Kind.name.has ·.token) = false ∧ (Grammar.skipName ts).rest = ts := by
  rw [Grammar.skipName.eq_def]
  split
  · next n p r => exact .inl ⟨n, p, r, rfl, rfl⟩
  · next hname => exact .inr ⟨not_any_name hname, rfl⟩

theorem Stands.skipName (h : Stands tokens start c ts) :
    Stands tokens start (if Cursor.fits tokens Kind.name.has c then Cursor.advance tokens c else c)
      (Grammar.skipName ts).rest := by
  rw [h.fits]
  rcases skipName_cases ts with ⟨n, p, r, rfl, hr⟩ | ⟨hname, hr⟩
  · exact hr ▸ h.advance
  · rw [hname, hr]
    exact h

/-! ### Calls -/

/-- On the same tokens, a rule calls rules of lower rank only. -/
def Rule.rank : Rule → Nat
  | typeExpr | brackets | members | params | binaryTail _ | suffixes | properties => 0
  | typeArgs | primary => 1
  | suffixed => 2
  | unary => 3
  | binary l => 4 + l.rank
  | arrowFunction | conditional => 10
  | expression => 11
  | arguments | statement => 12
  | block | program => 13

/-- How deep the calls of a rule are nested at most, where `n` tokens are left. -/
def bound (rule : Rule) (n : Nat) : Nat :=
  14 * n + rule.rank

/-- What a rule makes of tokens: those that it leaves, or its fault. A loop does so whatever was read
before it. -/
inductive Means : Rule → List Lexeme → Except ParseFault (List Lexeme) → Prop
  | typeExpr (ts : List Lexeme) : Means .typeExpr ts ((Grammar.typeExpr ts).map Read.rest)
  | brackets (a : TypeExpr) (stop : Nat) (ts : List Lexeme) :
      Means .brackets ts (.ok (Grammar.brackets a stop ts).rest)
  | typeArgs (ts : List Lexeme) : Means .typeArgs ts ((Grammar.typeArgs ts).map Read.rest)
  | members (ts : List Lexeme) : Means .members ts ((Grammar.members ts).map Read.rest)
  | params (ts : List Lexeme) : Means .params ts ((Grammar.params ts).map Read.rest)
  | expression (ts : List Lexeme) : Means .expression ts ((Grammar.expression ts).map Read.rest)
  | arrowFunction (ts : List Lexeme) :
      Means .arrowFunction ts ((Grammar.arrowFunction ts).map Read.rest)
  | conditional (ts : List Lexeme) : Means .conditional ts ((Grammar.conditional ts).map Read.rest)
  | binary (l : Level) (ts : List Lexeme) : Means (.binary l) ts ((Grammar.binary l ts).map Read.rest)
  | binaryTail (l : Level) (e : Expr Unit) (stop : Nat) (ts : List Lexeme) :
      Means (.binaryTail l) ts ((Grammar.binaryTail l e stop ts).map Read.rest)
  | unary (ts : List Lexeme) : Means .unary ts ((Grammar.unary ts).map Read.rest)
  | suffixed (ts : List Lexeme) : Means .suffixed ts ((Grammar.suffixed ts).map Read.rest)
  | suffixes (e : Expr Unit) (stop : Nat) (ts : List Lexeme) :
      Means .suffixes ts ((Grammar.suffixes e stop ts).map Read.rest)
  | arguments (ts : List Lexeme) : Means .arguments ts ((Grammar.arguments ts).map Read.rest)
  | primary (ts : List Lexeme) : Means .primary ts ((Grammar.primary ts).map Read.rest)
  | properties (ts : List Lexeme) : Means .properties ts ((Grammar.properties ts).map Read.rest)
  | block (ts : List Lexeme) : Means .block ts ((Grammar.block ts).map Read.rest)
  | statement (ts : List Lexeme) : Means .statement ts ((Grammar.statement ts).map Read.rest)
  | program (ts : List Lexeme) : Means .program ts ((Grammar.program ts).map fun _ => [])

/-- The calls that a rule of rank `k` makes where `n` tokens are left do as the grammar does: those on
fewer tokens, and those of rules of lower rank on as many. -/
structure Serves (tokens : List Lexeme) (start : Nat) (short : Prop) (call : Rule → Nat → Outcome)
    (k n : Nat) : Prop where
  fewer : ∀ {rule : Rule} {r : List Lexeme} {y : Except ParseFault (List Lexeme)} {c : Nat},
    Means rule r y → Stands tokens start c r → r.length < n →
      Mirrors tokens start short (call rule c) y
  lower : ∀ {rule : Rule} {r : List Lexeme} {y : Except ParseFault (List Lexeme)} {c : Nat},
    Means rule r y → Stands tokens start c r → r.length = n → rule.rank < k →
      Mirrors tokens start short (call rule c) y

variable {call : Rule → Nat → Outcome} {k n : Nat}

/-! ### Annotations

From here on, each rule does at the cursor what it does in the grammar, if the rules that it calls do. The
rule of the grammar is opened first; the tokens that it finds decide what the cursor sees. -/

theorem mirrors_plainType (hs : Serves tokens start short call k ts.length)
    (h : Stands tokens start c ts) :
    Mirrors tokens start short (plainType tokens call c) ((Grammar.plainType ts).map Read.rest) := by
  rw [Grammar.plainType.eq_def]
  split <;> rw [plainType, h.sees, h.fits, h.fits]
  · next p r => exact .map (hs.fewer (.members r) h.advance (length_lt r)) fun _ _ _ _ => rfl
  · next name p p' r =>
    rw [identifier_eq h, Outcome.andThen, h.advance.sees]
    exact .map (hs.fewer (.typeArgs r) h.advance.advance (length_lt_add_two r)) fun _ _ _ _ => rfl
  · next name p r hlt =>
    rw [identifier_eq h, Outcome.andThen, h.advance.sees, not_startsWith hlt]
    exact .done h.advance
  · exact .done h.advance
  · next hbrace _ hname hnull =>
    rw [not_startsWith hbrace, not_any_name hname, not_any_token hnull]
    exact mirrors_stuck h .typeExpr

theorem mirrors_typeExpr (hs : Serves tokens start short call Rule.typeExpr.rank ts.length)
    (h : Stands tokens start c ts) :
    Mirrors tokens start short (typeExpr tokens call c) ((Grammar.typeExpr ts).map Read.rest) := by
  rw [typeExpr, Grammar.typeExpr]
  refine (mirrors_plainType hs h).bind fun a stop r hr c h => ?_
  exact hs.fewer (.brackets a stop r) h hr

theorem mirrors_brackets (a : TypeExpr) (stop : Nat)
    (hs : Serves tokens start short call Rule.brackets.rank ts.length)
    (h : Stands tokens start c ts) :
    Mirrors tokens start short (brackets tokens call c) (.ok (Grammar.brackets a stop ts).rest) := by
  rw [Grammar.brackets.eq_def]
  split <;> rw [brackets, h.sees]
  · next p p' r =>
    rw [h.succ.sees]
    exact hs.fewer (.brackets (.array a) p'.stop r) h.advance.advance (length_lt_add_two r)
  · next hpair =>
    have hno : (startsWith .leftBracket ts && Cursor.sees tokens .rightBracket (c + 1)) = false := by
      refine Bool.eq_false_iff.2 fun hyes => ?_
      obtain ⟨hleft, hright⟩ := Bool.and_eq_true_iff.1 hyes
      obtain ⟨p, q, rfl⟩ := startsWith_iff.1 hleft
      rw [h.succ.sees] at hright
      obtain ⟨p', r, rfl⟩ := startsWith_iff.1 hright
      exact hpair p p' r rfl
    rw [hno]
    exact .done h

theorem mirrors_typeArgs (hs : Serves tokens start short call Rule.typeArgs.rank ts.length)
    (h : Stands tokens start c ts) :
    Mirrors tokens start short (typeArgs tokens call c) ((Grammar.typeArgs ts).map Read.rest) := by
  rw [typeArgs, Grammar.typeArgs]
  refine (hs.lower (.typeExpr ts) h rfl Nat.one_pos).bind fun a stop r hr c h => ?_
  rw [h.sees]
  cases hcomma : startsWith .comma r with
  | true =>
    obtain ⟨p, q, rfl⟩ := startsWith_iff.1 hcomma
    exact .map (hs.fewer (.typeArgs q) h.advance (Nat.lt_of_succ_lt hr)) fun _ _ _ _ => rfl
  | false =>
    rw [if_neg Bool.false_ne_true]
    dsimp only
    split
    · simp at hcomma
    · exact .map (mirrors_expect h .gt) fun _ _ _ _ => rfl

theorem mirrors_memberName (h : Stands tokens start c ts) :
    Mirrors tokens start short (memberName tokens c) ((Grammar.memberName ts).map Read.rest) := by
  rw [Grammar.memberName.eq_def]
  split <;> rw [memberName, h.fits]
  · rw [take_eq h rfl]
    exact .done h.advance
  · next hstring =>
    rw [not_any_string hstring]
    exact mirrors_identifier h

theorem mirrors_members (hs : Serves tokens start short call Rule.members.rank ts.length)
    (h : Stands tokens start c ts) :
    Mirrors tokens start short (members tokens call c) ((Grammar.members ts).map Read.rest) := by
  rw [Grammar.members.eq_def]
  split <;> rw [members, h.sees]
  · exact mirrors_expect h .rightBrace
  · next hbrace =>
    rw [not_startsWith hbrace]
    refine (mirrors_memberName h).bind fun name _ r hr c h => ?_
    have hskip := h.skip .question 0
    have hlt := (optional .question 0 r).shorter
    refine (mirrors_expect hskip .colon).bind fun _ _ r₂ hr₂ c h => ?_
    refine (hs.fewer (.typeExpr r₂) h (by omega)).bind fun a _ r₃ hr₃ c h => ?_
    rw [h.sees, h.sees]
    dsimp only
    split
    · next hmore =>
      cases r₃ with
      | nil => cases hmore
      | cons x q => exact .map (hs.fewer (.members q) h.advance (by grind)) fun _ _ _ _ => rfl
    · exact .map (mirrors_expect h .rightBrace) fun _ _ _ _ => rfl

theorem mirrors_typeAfterColon (hs : Serves tokens start short call k n) (stop : Nat)
    (h : Stands tokens start c ts) (hn : ts.length ≤ n) :
    Mirrors tokens start short (typeAfterColon tokens call c)
      ((Grammar.typeAfterColon stop ts).map Read.rest) := by
  rw [Grammar.typeAfterColon.eq_def]
  split <;> rw [typeAfterColon, h.sees]
  · next p r => exact .map (hs.fewer (.typeExpr r) h.advance hn) fun _ _ _ _ => rfl
  · next hcolon =>
    rw [not_startsWith hcolon]
    exact .done h

/-! ### Parameters -/

theorem mirrors_param (hs : Serves tokens start short call k ts.length)
    (h : Stands tokens start c ts) :
    Mirrors tokens start short (param tokens call c) ((Grammar.param ts).map Read.rest) := by
  rw [param, Grammar.param]
  refine (mirrors_identifier h).bind fun name stop r hr c h => ?_
  exact .map (mirrors_typeAfterColon hs stop h (Nat.le_of_lt hr)) fun _ _ _ _ => rfl

theorem mirrors_params (hs : Serves tokens start short call Rule.params.rank ts.length)
    (h : Stands tokens start c ts) :
    Mirrors tokens start short (list tokens .rightParen (param tokens call) (call .params) c)
      ((Grammar.params ts).map Read.rest) := by
  rw [Grammar.params.eq_def]
  split <;> rw [list, h.sees]
  · exact mirrors_expect h .rightParen
  · next hparen =>
    rw [not_startsWith hparen]
    refine (mirrors_param hs h).bind fun _ _ r hr c h => ?_
    refine (mirrors_separator h .rightParen).bind fun _ _ r₁ hr₁ c h => ?_
    exact .map (hs.fewer (.params r₁) h (by omega)) fun _ _ _ _ => rfl

theorem mirrors_arrowParams (hs : Serves tokens start short call k ts.length)
    (h : Stands tokens start c ts) :
    Mirrors tokens start short (arrowParams tokens call c) ((Grammar.arrowParams ts).map Read.rest) := by
  rw [Grammar.arrowParams.eq_def]
  split <;> rw [arrowParams, h.sees]
  · next p r => exact .map (hs.fewer (.params r) h.advance (length_lt r)) fun _ _ _ _ => rfl
  · next hparen =>
    rw [not_startsWith hparen]
    exact .map (mirrors_identifier h) fun _ _ _ _ => rfl

/-! ### Expressions -/

theorem mirrors_expression (hs : Serves tokens start short call Rule.expression.rank ts.length)
    (h : Stands tokens start c ts) :
    Mirrors tokens start short (if lookahead tokens c then call .arrowFunction c else call .conditional c)
      ((Grammar.expression ts).map Read.rest) := by
  rw [Grammar.expression, lookahead, h.drop]
  split
  · exact hs.lower (.arrowFunction ts) h rfl (by decide)
  · exact hs.lower (.conditional ts) h rfl (by decide)

theorem mirrors_arrowFunction
    (hs : Serves tokens start short call Rule.arrowFunction.rank ts.length)
    (h : Stands tokens start c ts) :
    Mirrors tokens start short (arrowFunction tokens call c)
      ((Grammar.arrowFunction ts).map Read.rest) := by
  rw [arrowFunction, Grammar.arrowFunction]
  refine (mirrors_arrowParams hs h).bind fun ps _ r hr c h => ?_
  refine (mirrors_expect h .arrow).bind fun _ _ r₁ hr₁ c h => ?_
  rw [h.sees]
  cases hbrace : startsWith .leftBrace r₁ with
  | true =>
    obtain ⟨p, q, rfl⟩ := startsWith_iff.1 hbrace
    exact .map (hs.fewer (.block q) h.advance (by grind)) fun _ _ _ _ => rfl
  | false =>
    rw [if_neg Bool.false_ne_true]
    dsimp only
    split
    · simp at hbrace
    · exact .map (hs.fewer (.expression r₁) h (by omega)) fun _ _ _ _ => rfl

theorem mirrors_conditional (hs : Serves tokens start short call Rule.conditional.rank ts.length)
    (h : Stands tokens start c ts) :
    Mirrors tokens start short (conditional tokens call c) ((Grammar.conditional ts).map Read.rest) := by
  rw [conditional, Grammar.conditional]
  refine (hs.lower (.binary .or ts) h rfl (by decide)).bind fun e stop r hr c h => ?_
  rw [h.sees]
  cases hquestion : startsWith .question r with
  | true =>
    obtain ⟨p, q, rfl⟩ := startsWith_iff.1 hquestion
    have hq : q.length < ts.length := Nat.lt_of_succ_lt hr
    refine (hs.fewer (.expression q) h.advance hq).bind fun yes _ r₁ hr₁ c h => ?_
    refine (mirrors_expect h .colon).bind fun _ _ r₂ hr₂ c h => ?_
    exact .map (hs.fewer (.expression r₂) h (by omega)) fun _ _ _ _ => rfl
  | false =>
    rw [if_neg Bool.false_ne_true]
    dsimp only
    split
    · simp at hquestion
    · exact .done h

theorem mirrors_operand (l : Level)
    (hcall : ∀ {rule : Rule} {y : Except ParseFault (List Lexeme)}, Means rule ts y →
      rule.rank < (Rule.binary l).rank → Mirrors tokens start short (call rule c) y) :
    Mirrors tokens start short (operand call l c) ((Grammar.operand l ts).map Read.rest) := by
  rw [Grammar.operand]
  split
  · next m hl =>
    rw [operand, hl]
    exact hcall (.binary m ts) (Nat.add_lt_add_left (Level.rank_tighter hl) 4)
  · next hl =>
    rw [operand, hl]
    exact hcall (.unary ts) (Nat.lt_add_right l.rank (Nat.lt_succ_self 3))

theorem mirrors_binary (l : Level)
    (hs : Serves tokens start short call (Rule.binary l).rank ts.length)
    (h : Stands tokens start c ts) :
    Mirrors tokens start short ((operand call l c).andThen (call (.binaryTail l)))
      ((Grammar.binary l ts).map Read.rest) := by
  rw [Grammar.binary]
  have hoperand := mirrors_operand l fun hm hlt => hs.lower hm h rfl hlt
  refine hoperand.bind fun e stop r hr c h => ?_
  exact .map (hs.fewer (.binaryTail l e stop r) h hr) fun _ _ _ _ => rfl

theorem mirrors_binaryTail (l : Level) (e : Expr Unit) (stop : Nat)
    (hs : Serves tokens start short call (Rule.binaryTail l).rank ts.length)
    (h : Stands tokens start c ts) :
    Mirrors tokens start short (binaryTail tokens call l c)
      ((Grammar.binaryTail l e stop ts).map Read.rest) := by
  rw [Grammar.binaryTail.eq_def]
  split <;> rw [binaryTail, h.fits]
  · exact .done h
  · next x r =>
    rw [List.head?_cons, Option.any_some]
    cases hop : l.operator? x.token with
    | none => exact .done h
    | some op =>
      have hoperand := mirrors_operand l fun hm _ => hs.fewer hm h.advance (length_lt r)
      refine hoperand.bind fun right stop r₁ hr₁ c h => ?_
      exact .map (hs.fewer (.binaryTail l _ stop r₁) h (Nat.lt_succ_of_lt hr₁)) fun _ _ _ _ => rfl

theorem Stands.seesSuffix (h : Stands tokens start c ts) :
    seesSuffix tokens c = startsSuffix ts := by
  rw [Cursor.seesSuffix, h.sees, h.sees, h.sees]
  rfl

/-- Whether a minus sign and a number are read as a constant. -/
theorem seesNegative_eq (h : Stands tokens start c ts) :
    (fits tokens (fun t => (Grammar.negated? t).isSome) c && !seesSuffix tokens (c + 1)) =
      (Grammar.negative? ts).isSome := by
  rw [h.fits]
  match ts with
  | [] => rfl
  | x :: r =>
    rw [h.succ.seesSuffix, Grammar.negative?, ← startsSuffix]
    cases startsSuffix r <;> cases hx : Grammar.negated? x.token <;> simp [hx]

theorem mirrors_unary (hs : Serves tokens start short call Rule.unary.rank ts.length)
    (h : Stands tokens start c ts) :
    Mirrors tokens start short (unary tokens call c) ((Grammar.unary ts).map Read.rest) := by
  rw [Grammar.unary.eq_def]
  split <;> rw [unary, h.sees, h.sees]
  · next p r => exact .map (hs.fewer (.unary r) h.advance (length_lt r)) fun _ _ _ _ => rfl
  · next p r =>
    rw [seesNegative_eq h.succ]
    cases hneg : Grammar.negative? r with
    | none => exact .map (hs.fewer (.unary r) h.advance (length_lt r)) fun _ _ _ _ => rfl
    | some v =>
      obtain ⟨v, stop, r', hr'⟩ := v
      obtain ⟨x, rfl, -⟩ := Grammar.negative?_eq_some hneg
      exact .done h.advance.advance
  · next hnot hminus =>
    rw [not_startsWith hnot, not_startsWith hminus]
    exact hs.lower (.suffixed ts) h rfl (by decide)

theorem mirrors_suffixed (hs : Serves tokens start short call Rule.suffixed.rank ts.length)
    (h : Stands tokens start c ts) :
    Mirrors tokens start short ((call .primary c).andThen (call .suffixes))
      ((Grammar.suffixed ts).map Read.rest) := by
  rw [Grammar.suffixed]
  refine (hs.lower (.primary ts) h rfl (by decide)).bind fun e stop r hr c h => ?_
  exact .map (hs.fewer (.suffixes e stop r) h hr) fun _ _ _ _ => rfl

theorem mirrors_suffixes (e : Expr Unit) (stop : Nat)
    (hs : Serves tokens start short call Rule.suffixes.rank ts.length)
    (h : Stands tokens start c ts) :
    Mirrors tokens start short (suffixes tokens call c)
      ((Grammar.suffixes e stop ts).map Read.rest) := by
  rw [Grammar.suffixes.eq_def]
  split <;> rw [suffixes, h.sees, h.sees, h.sees]
  · next p r =>
    refine (mirrors_identifier h.advance).bind fun name stop r₁ hr₁ c h => ?_
    exact .map (hs.fewer (.suffixes _ stop r₁) h (Nat.lt_succ_of_lt hr₁)) fun _ _ _ _ => rfl
  · next p r =>
    refine (hs.fewer (.expression r) h.advance (length_lt r)).bind fun index _ r₁ hr₁ c h => ?_
    refine (mirrors_expect h .rightBracket).bind fun _ stop r₂ hr₂ c h => ?_
    exact .map (hs.fewer (.suffixes _ stop r₂) h (by grind)) fun _ _ _ _ => rfl
  · next p r =>
    refine (hs.fewer (.arguments r) h.advance (length_lt r)).bind fun es stop r₁ hr₁ c h => ?_
    exact .map (hs.fewer (.suffixes _ stop r₁) h (Nat.lt_succ_of_lt hr₁)) fun _ _ _ _ => rfl
  · next hdot hbracket hparen =>
    rw [not_startsWith hdot, not_startsWith hbracket, not_startsWith hparen]
    exact .done h

theorem mirrors_arguments (hs : Serves tokens start short call Rule.arguments.rank ts.length)
    (h : Stands tokens start c ts) :
    Mirrors tokens start short (list tokens .rightParen (call .expression) (call .arguments) c)
      ((Grammar.arguments ts).map Read.rest) := by
  rw [Grammar.arguments.eq_def]
  split <;> rw [list, h.sees]
  · exact mirrors_expect h .rightParen
  · next hparen =>
    rw [not_startsWith hparen]
    refine (hs.lower (.expression ts) h rfl (by decide)).bind fun _ _ r hr c h => ?_
    refine (mirrors_separator h .rightParen).bind fun _ _ r₁ hr₁ c h => ?_
    exact .map (hs.fewer (.arguments r₁) h (by omega)) fun _ _ _ _ => rfl

theorem mirrors_primary (hs : Serves tokens start short call Rule.primary.rank ts.length)
    (h : Stands tokens start c ts) :
    Mirrors tokens start short (primary tokens call c) ((Grammar.primary ts).map Read.rest) := by
  rw [Grammar.primary.eq_def]
  split <;> rw [primary, h.sees, h.sees, h.fits, h.fits, h.fits]
  · next p r =>
    refine (hs.fewer (.expression r) h.advance (length_lt r)).bind fun e _ r₁ hr₁ c h => ?_
    exact .map (mirrors_expect h .rightParen) fun _ _ _ _ => rfl
  · next p r => exact .map (hs.fewer (.properties r) h.advance (length_lt r)) fun _ _ _ _ => rfl
  · next p r =>
    have hlt := (Grammar.skipName r).shorter
    simp only [startsWith_cons, List.head?_cons, Option.any_some, beq_iff_eq, reduceCtorEq, ↓reduceIte]
    rw [functionRest]
    refine (mirrors_expect h.advance.skipName .leftParen).bind fun _ _ r₂ hr₂ c h => ?_
    refine (hs.fewer (.params r₂) h (by grind)).bind fun ps _ r₃ hr₃ c h => ?_
    refine (mirrors_typeAfterColon hs 0 h (by grind)).bind fun _ _ r₄ hr₄ c h => ?_
    refine (mirrors_expect h .leftBrace).bind fun _ _ r₅ hr₅ c h => ?_
    exact .map (hs.fewer (.block r₅) h (by grind)) fun _ _ _ _ => rfl
  · rw [identifier_eq h]
    exact .done h.advance
  · next x r hparen hbrace hkey hname =>
    have hx : ∀ {t : Token}, (∀ p, x = ⟨t, p⟩ → False) → (x.token == t) = false := by
      intro t hne
      exact beq_eq_false_iff_ne.2 fun ht => hne x.span (ht ▸ rfl)
    have hno : (x :: r).head?.any (Kind.name.has ·.token) = false :=
      not_any_name fun n p q hq => hname n p (List.cons.inj hq).1
    rw [startsWith_cons, startsWith_cons, hx hparen, hx hbrace, hno, List.head?_cons, Option.any_some,
      Option.any_some, hx hkey]
    cases hlit : Grammar.literal? x.token with
    | none =>
      rw [h.get]
      exact .failed h rfl
    | some v => exact .done h.advance
  · rw [h.get]
    exact .failed h rfl

theorem mirrors_fieldValue (hs : Serves tokens start short call k n)
    (h : Stands tokens start c ts) (hn : ts.length ≤ n) :
    Mirrors tokens start short (fieldValue tokens call c) ((Grammar.fieldValue ts).map Read.rest) := by
  rw [fieldValue, Grammar.fieldValue]
  refine (mirrors_expect h .colon).bind fun _ _ r hr c h => ?_
  exact .map (hs.fewer (.expression r) h (by omega)) fun _ _ _ _ => rfl

theorem mirrors_property (hs : Serves tokens start short call k ts.length)
    (h : Stands tokens start c ts) :
    Mirrors tokens start short (property tokens call c) ((Grammar.property ts).map Read.rest) := by
  rw [Grammar.property.eq_def]
  split <;> rw [property, h.fits, h.fits, h.fits, h.sees]
  · next name p r =>
    rw [identifier_eq h, Outcome.andThen, h.advance.sees, h.advance.sees]
    cases startsWith .comma r || startsWith .rightBrace r with
    | true => exact .done h.advance
    | false => exact .map (mirrors_fieldValue hs h.advance (Nat.le_succ _)) fun _ _ _ _ => rfl
  · next key p r =>
    rw [take_eq h rfl]
    exact .map (mirrors_fieldValue hs h.advance (Nat.le_succ _)) fun _ _ _ _ => rfl
  · next key p r =>
    have hkey : take tokens .integer c = .done (advance tokens c) := take_eq h rfl
    rw [hkey]
    exact .map (mirrors_fieldValue hs h.advance (Nat.le_succ _)) fun _ _ _ _ => rfl
  · next p r =>
    refine (hs.fewer (.expression r) h.advance (length_lt r)).bind fun key _ r₁ hr₁ c h => ?_
    refine (mirrors_expect h .rightBracket).bind fun _ _ r₂ hr₂ c h => ?_
    exact .map (mirrors_fieldValue hs h (by grind)) fun _ _ _ _ => rfl
  · next hname hstring hinteger hbracket =>
    rw [not_any_name hname, not_any_string hstring, not_any_integer hinteger, not_startsWith hbracket]
    exact mirrors_stuck h .propertyName

theorem mirrors_properties (hs : Serves tokens start short call Rule.properties.rank ts.length)
    (h : Stands tokens start c ts) :
    Mirrors tokens start short (list tokens .rightBrace (property tokens call) (call .properties) c)
      ((Grammar.properties ts).map Read.rest) := by
  rw [Grammar.properties.eq_def]
  split <;> rw [list, h.sees]
  · exact mirrors_expect h .rightBrace
  · next hbrace =>
    rw [not_startsWith hbrace]
    refine (mirrors_property hs h).bind fun _ _ r hr c h => ?_
    refine (mirrors_separator h .rightBrace).bind fun _ _ r₁ hr₁ c h => ?_
    exact .map (hs.fewer (.properties r₁) h (by omega)) fun _ _ _ _ => rfl

/-! ### Statements -/

theorem mirrors_block (hs : Serves tokens start short call Rule.block.rank ts.length)
    (h : Stands tokens start c ts) :
    Mirrors tokens start short (block tokens call c) ((Grammar.block ts).map Read.rest) := by
  rw [Grammar.block.eq_def]
  split <;> rw [block, h.sees, h.atEnd]
  · exact mirrors_stuck h (.symbol .rightBrace)
  · exact mirrors_expect h .rightBrace
  · next hnil hbrace =>
    rw [not_startsWith hbrace, List.isEmpty_eq_false_iff.2 hnil]
    refine (hs.lower (.statement ts) h rfl (by decide)).bind fun st _ r hr c h => ?_
    exact .map (hs.fewer (.block r) h hr) fun _ _ _ _ => rfl

theorem mirrors_declaration (hs : Serves tokens start short call k n)
    (h : Stands tokens start c ts) (hn : ts.length ≤ n) :
    Mirrors tokens start short (declaration tokens call c) ((Grammar.declaration ts).map Read.rest) := by
  rw [declaration, Grammar.declaration]
  refine (mirrors_identifier h).bind fun name stop r hr c h => ?_
  refine (mirrors_typeAfterColon hs stop h (by omega)).bind fun _ stop r₁ hr₁ c h => ?_
  rw [h.sees]
  cases hassign : startsWith .assign r₁ with
  | true =>
    obtain ⟨p, q, rfl⟩ := startsWith_iff.1 hassign
    exact .map (hs.fewer (.expression q) h.advance (by grind)) fun _ _ _ _ => rfl
  | false =>
    rw [if_neg Bool.false_ne_true]
    dsimp only
    split
    · simp at hassign
    · exact .done h

theorem mirrors_plainStatement
    (hs : Serves tokens start short call Rule.statement.rank ts.length)
    (h : Stands tokens start c ts) :
    Mirrors tokens start short (plainStatement tokens call c)
      ((Grammar.plainStatement ts).map Read.rest) := by
  rw [Grammar.plainStatement.eq_def]
  split <;> rw [plainStatement, h.fits, h.fits]
  · next p r => exact .map (mirrors_declaration hs h.advance (Nat.le_succ _)) fun _ _ _ _ => rfl
  · next p r => exact .map (mirrors_declaration hs h.advance (Nat.le_succ _)) fun _ _ _ _ => rfl
  · next p r => exact .map (mirrors_declaration hs h.advance (Nat.le_succ _)) fun _ _ _ _ => rfl
  · next p r =>
    rw [h.succ.atEnd, h.succ.sees, h.succ.sees]
    cases r.isEmpty || startsWith .semicolon r || startsWith .rightBrace r with
    | true => exact .done h.advance
    | false => exact .map (hs.fewer (.expression r) h.advance (length_lt r)) fun _ _ _ _ => rfl
  · next hconst hlet hvar hreturn =>
    have hkey : ts.head?.any (fun x =>
        x.token ∈ [.keyword .constKey, .keyword .letKey, .keyword .varKey]) = false := by
      refine not_any_head (p := (· ∈ [.keyword .constKey, .keyword .letKey, .keyword .varKey]))
        fun t p r ht hts => ?_
      simp only [List.mem_cons, List.not_mem_nil, or_false, decide_eq_true_eq] at ht
      rcases ht with rfl | rfl | rfl
      · exact hconst p r hts
      · exact hlet p r hts
      · exact hvar p r hts
    rw [hkey, not_any_token hreturn]
    exact .map (hs.lower (.expression ts) h rfl (by decide)) fun _ _ _ _ => rfl

theorem mirrors_statement (hs : Serves tokens start short call Rule.statement.rank ts.length)
    (h : Stands tokens start c ts) :
    Mirrors tokens start short
      ((plainStatement tokens call c).andThen fun c => .done (skip tokens .semicolon c))
      ((Grammar.statement ts).map Read.rest) := by
  rw [Grammar.statement]
  refine (mirrors_plainStatement hs h).bind fun make stop r hr c h => ?_
  exact .done (h.skip .semicolon stop)

theorem mirrors_program (hs : Serves tokens start short call Rule.program.rank ts.length)
    (h : Stands tokens start c ts) :
    Mirrors tokens start short
      (if atEnd tokens c then .done c else (call .statement c).andThen (call .program))
      ((Grammar.program ts).map fun _ => []) := by
  rw [Grammar.program.eq_def]
  match ts with
  | [] =>
    rw [h.atEnd]
    exact .done h
  | x :: r =>
    rw [h.atEnd, List.isEmpty_cons, if_neg Bool.false_ne_true]
    refine (hs.lower (.statement (x :: r)) h rfl (by decide)).bind fun st _ q hq c h => ?_
    have hnext := hs.fewer (.program q) h hq
    dsimp only
    generalize Grammar.program q = p at hnext
    cases p <;> exact hnext

/-! ### Runs -/

/-- What a rule does at the cursor is what the grammar makes of the tokens there, if that is so of the
rules that it calls. -/
theorem body_mirrors {rule : Rule} {y : Except ParseFault (List Lexeme)} (hm : Means rule ts y)
    (hs : Serves tokens start short call rule.rank ts.length) (h : Stands tokens start c ts) :
    Mirrors tokens start short (body tokens call (lookahead tokens) rule c) y := by
  cases hm with
  | typeExpr => exact mirrors_typeExpr hs h
  | brackets a stop => exact mirrors_brackets a stop hs h
  | typeArgs => exact mirrors_typeArgs hs h
  | members => exact mirrors_members hs h
  | params => exact mirrors_params hs h
  | expression => exact mirrors_expression hs h
  | arrowFunction => exact mirrors_arrowFunction hs h
  | conditional => exact mirrors_conditional hs h
  | binary l => exact mirrors_binary l hs h
  | binaryTail l e stop => exact mirrors_binaryTail l e stop hs h
  | unary => exact mirrors_unary hs h
  | suffixed => exact mirrors_suffixed hs h
  | suffixes e stop => exact mirrors_suffixes e stop hs h
  | arguments => exact mirrors_arguments hs h
  | primary => exact mirrors_primary hs h
  | properties => exact mirrors_properties hs h
  | block => exact mirrors_block hs h
  | statement => exact mirrors_statement hs h
  | program => exact mirrors_program hs h

theorem Rule.rank_le (rule : Rule) : rule.rank ≤ 13 := by
  cases rule with
  | binary l =>
    have := l.rank_le
    simp only [rank]
    omega
  | _ => simp only [rank]; omega

/-- A walk that may nest its calls `n` deep does as the grammar does, and is cut short only if `n` is
within the bound. -/
theorem walk_mirrors {rule : Rule} {y : Except ParseFault (List Lexeme)} (hm : Means rule ts y)
    (h : Stands tokens start c ts) (n : Nat) :
    Mirrors tokens start (n ≤ bound rule ts.length) (walk tokens (lookahead tokens) n rule c) y := by
  induction n generalizing rule ts y c with
  | zero => exact .unfinished (Nat.zero_le _)
  | succ n ih =>
    -- A call that is cut short has a bound of at least `n`, and that of the caller is greater.
    refine body_mirrors hm ⟨fun {rule' r y c} hm h hr => ?_, fun {rule' r y c} hm h hr hk => ?_⟩ h
    · refine (ih hm h).mono fun hn => ?_
      have := rule'.rank_le
      unfold bound at hn ⊢
      omega
    · refine (ih hm h).mono fun hn => ?_
      unfold bound at hn ⊢
      omega

/-! ### Ends of walks -/

/-- Every rule makes something of any tokens. -/
theorem exists_means (rule : Rule) (ts : List Lexeme) : ∃ y, Means rule ts y := by
  cases rule with
  | brackets => exact ⟨_, .brackets .any 0 ts⟩
  | binaryTail l => exact ⟨_, .binaryTail l (.literal (Grammar.mark 0 0) .null) 0 ts⟩
  | suffixes => exact ⟨_, .suffixes (.literal (Grammar.mark 0 0) .null) 0 ts⟩
  | _ => exact ⟨_, by constructor⟩

/-- A walk that starts at `c` stops as the rule fails, at the token that the fault names, not before where
it started and not behind the end. -/
def Fails {α : Type} (tokens : List Lexeme) (c : Nat) (o : Outcome) (p : Except ParseFault α) : Prop :=
  ∃ fault c', o = .failed fault c' ∧ p = .error fault ∧ fault.found? = tokens[c']? ∧ c ≤ c' ∧
    c' ≤ tokens.length

/-- A walk that starts at `c` comes to an end: behind what the rule reads, further on and not behind the
end, or where the rule fails. -/
def Settles {α : Type} {n : Nat} (tokens : List Lexeme) (c : Nat) (o : Outcome) (p : Parse α n) : Prop :=
  (∃ v stop c', o = .done c' ∧ Yields p v stop (tokens.drop c') ∧ c < c' ∧ c' ≤ tokens.length) ∨
    Fails tokens c o p

/-- The same of a walk over the statements of a program, which reads all tokens or fails. -/
def SettlesProgram (tokens : List Lexeme) (c : Nat) (o : Outcome)
    (p : Except ParseFault (List (Statement Unit))) : Prop :=
  (o = .done tokens.length ∧ ∃ ss, p = .ok ss) ∨ Fails tokens c o p

namespace Mirrors

theorem ne_unreachable {o : Outcome} {y : Except ParseFault (List Lexeme)}
    (h : Mirrors tokens start short o y) : o ≠ .unreachable := by
  cases h <;> exact Outcome.noConfusion

theorem fails {α : Type} {o : Outcome} {fault : ParseFault}
    (h : Mirrors tokens c short o (.error fault)) (hc : c ≤ tokens.length) (hshort : ¬ short) :
    Fails tokens c o (.error fault : Except ParseFault α) := by
  cases h with
  | failed h hfound =>
    have hle := h.le_max
    exact ⟨fault, _, rfl, rfl, hfound.trans h.get.symm, h.start_le, by omega⟩
  | unfinished h => exact absurd h hshort

theorem settles {α : Type} {o : Outcome} {p : Parse α (tokens.drop c).length}
    (h : Mirrors tokens c short o (p.map Read.rest)) (hc : c ≤ tokens.length) (hshort : ¬ short) :
    Settles tokens c o p := by
  cases p with
  | error fault => exact .inr (fails h hc hshort)
  | ok v =>
    obtain ⟨v, stop, r, hr⟩ := v
    cases h with
    | @done c' _ h =>
      have hlength : c' + r.length = tokens.length := h.length hc
      have hr' := hr
      rw [List.length_drop] at hr'
      exact .inl ⟨v, stop, c', rfl, ⟨h.drop ▸ hr, by simp only [h.drop]⟩, by omega, by omega⟩
    | unfinished h => exact absurd h hshort

theorem settlesProgram {o : Outcome} {p : Except ParseFault (List (Statement Unit))}
    (h : Mirrors tokens c short o (p.map fun _ => [])) (hc : c ≤ tokens.length) (hshort : ¬ short) :
    SettlesProgram tokens c o p := by
  cases p with
  | error fault => exact .inr (fails h hc hshort)
  | ok ss =>
    cases h with
    | done h => exact .inl ⟨congrArg Outcome.done (h.length hc), ss, rfl⟩
    | unfinished h => exact absurd h hshort

end Mirrors

/-- With more calls allowed than fourteen for each token that is left, and thirteen, the walks over an
expression, a statement and an annotation come to an end, and so do the loops over entries, parameters,
arguments, members and statements, wherever the tokens break off. However many calls are allowed, no walk
takes a token that is not there. -/
theorem walks_settle (tokens : List Lexeme) {c n : Nat} (hc : c ≤ tokens.length)
    (hn : 14 * (tokens.length - c) + 13 < n) :
    Settles tokens c (walk tokens (lookahead tokens) n .expression c)
        (Grammar.expression (tokens.drop c)) ∧
      Settles tokens c (walk tokens (lookahead tokens) n .statement c)
        (Grammar.statement (tokens.drop c)) ∧
      Settles tokens c (walk tokens (lookahead tokens) n .typeExpr c)
        (Grammar.typeExpr (tokens.drop c)) ∧
      Settles tokens c (walk tokens (lookahead tokens) n .properties c)
        (Grammar.properties (tokens.drop c)) ∧
      Settles tokens c (walk tokens (lookahead tokens) n .params c)
        (Grammar.params (tokens.drop c)) ∧
      Settles tokens c (walk tokens (lookahead tokens) n .arguments c)
        (Grammar.arguments (tokens.drop c)) ∧
      Settles tokens c (walk tokens (lookahead tokens) n .block c) (Grammar.block (tokens.drop c)) ∧
      Settles tokens c (walk tokens (lookahead tokens) n .members c)
        (Grammar.members (tokens.drop c)) ∧
      SettlesProgram tokens c (walk tokens (lookahead tokens) n .program c)
        (Grammar.program (tokens.drop c)) ∧
      ∀ rule m, walk tokens (lookahead tokens) m rule c ≠ .unreachable := by
  have h := Stands.refl tokens c
  have hshort (rule : Rule) : ¬ n ≤ bound rule (tokens.drop c).length := by
    have := rule.rank_le
    rw [List.length_drop]
    unfold bound
    omega
  refine ⟨?_, ?_, ?_, ?_, ?_, ?_, ?_, ?_, ?_, ?_⟩
  · exact (walk_mirrors (.expression _) h n).settles hc (hshort _)
  · exact (walk_mirrors (.statement _) h n).settles hc (hshort _)
  · exact (walk_mirrors (.typeExpr _) h n).settles hc (hshort _)
  · exact (walk_mirrors (.properties _) h n).settles hc (hshort _)
  · exact (walk_mirrors (.params _) h n).settles hc (hshort _)
  · exact (walk_mirrors (.arguments _) h n).settles hc (hshort _)
  · exact (walk_mirrors (.block _) h n).settles hc (hshort _)
  · exact (walk_mirrors (.members _) h n).settles hc (hshort _)
  · exact (walk_mirrors (.program _) h n).settlesProgram hc (hshort _)
  · intro rule m
    obtain ⟨y, hm⟩ := exists_means rule (tokens.drop c)
    exact (walk_mirrors hm h m).ne_unreachable

/-- The tokens of `f({a: 1`. -/
def brokenCall : List Lexeme :=
  [⟨.name "f", ⟨0, 1⟩⟩, ⟨.symbol .leftParen, ⟨1, 2⟩⟩, ⟨.symbol .leftBrace, ⟨2, 3⟩⟩, ⟨.name "a", ⟨3, 4⟩⟩,
    ⟨.symbol .colon, ⟨4, 5⟩⟩, ⟨.integer 1, ⟨6, 7⟩⟩]

theorem walks_settle_brokenCall :
    (2 ≤ brokenCall.length ∧ 14 * (brokenCall.length - 2) + 13 < 70) ∧
      walk brokenCall (lookahead brokenCall) 70 .expression 2 =
        .failed (.expected (.symbol .comma) none) 6 ∧
      Settles brokenCall 2 (walk brokenCall (lookahead brokenCall) 70 .expression 2)
        (Grammar.expression (brokenCall.drop 2)) :=
  ⟨⟨by decide, by decide⟩, by decide, (walks_settle brokenCall (by decide) (by decide)).1⟩

end Cursor

end Aggregation
