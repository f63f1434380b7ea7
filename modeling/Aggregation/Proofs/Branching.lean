import Aggregation.Proofs.Halting

/-! The one look ahead decides right.

An expression is read as an arrow function where looking ahead says so. An arrow function that can be read
begins with parameters and an arrow, and these are what the look ahead finds. The other way round, any
other expression that can be read there stops before that arrow, since phrases are balanced and the look
ahead ends where the group does.

An arrow that is left over is no use to anyone: no rule goes on with it. So whatever is chosen at each
position (`choose`), a text that can be read with these choices can be read by looking ahead: the walk
with other choices leaves an arrow, or is matched by the walk that looks ahead (`Covers`).

The look ahead over a group counts brackets (`Scan`). It is the count of the grammar, ends at the latest
with the tokens, and never meets a bracket that closes where none is open. -/
namespace Aggregation

namespace Grammar

variable {ts r : List Lexeme} {e : Expr Unit} {stop : Nat}

/-! ### The two branches -/

/-- Where an arrow function can be read, the look ahead finds it. -/
theorem atArrow_of_arrowFunction (h : Yields (arrowFunction ts) e stop r) : atArrow ts = true := by
  rw [arrowFunction] at h
  obtain ⟨ps, _, q, _, hps, h⟩ := yields_bind.1 h
  obtain ⟨u, rfl, hu⟩ := arrowParams_sound hps
  obtain ⟨_, _, q₁, _, harrow, -⟩ := yields_bind.1 h
  obtain ⟨p, hq, -⟩ := yields_expect.1 harrow
  obtain rfl : q = _ := hq
  exact hu.atArrow

/-- Phrases that any expression but an arrow function is made of. -/
def Phrase.isPlain : Phrase → Bool
  | .conditional | .binary _ | .joined _ | .operand _ | .unary | .suffixed | .chain | .primary => true
  | _ => false

theorem not_arrow_of_operator {l : Level} {x : Lexeme} {op : BinaryOp}
    (h : l.operator? x.token = some op) : startsWith .arrow (x :: r) = false := by
  have hx : x.token = .symbol op.symbol := by simpa using List.find?_some h
  rw [startsWith_cons, hx]
  cases op <;> rfl

/-- A phrase at which the look ahead finds an arrow is what stands before that arrow. -/
theorem Derives.arrow_of_atArrow {p : Phrase} {u : List Lexeme} {v : Piece} (h : Derives p u v r)
    (hp : p.isPlain = true) (ha : atArrow (u ++ r) = true) : startsWith .arrow r = true := by
  induction h with
  | condition _ _ ih | settled _ _ ih | first _ ih | tighter _ _ ih | tightest _ _ ih | operand _ ih
  | suffixed _ _ ih | start _ ih => exact ih rfl ha
  -- What goes on behind a phrase begins with a symbol of its own, so the phrase is not the one before
  -- the arrow.
  | choice _ _ _ ih => exact absurd (ih rfl (by simpa using ha)) (by simp)
  | join hx _ _ ih =>
    have harrow := ih rfl (by simpa using ha)
    rw [List.cons_append, not_arrow_of_operator hx] at harrow
    cases harrow
  | property _ ih => exact absurd (ih rfl (by simpa using ha)) (by simp)
  | element _ _ ih => exact absurd (ih rfl (by simpa using ha)) (by simp)
  | call _ _ ih => exact absurd (ih rfl (by simpa using ha)) (by simp)
  | name => exact ha
  | @literal x _ _ hx =>
    obtain ⟨t, p⟩ := x
    cases t <;> simp [literal?, atArrow] at hx ha
  | @paren p₁ w _ p₂ r hu =>
    have hgroup : atArrow (⟨.symbol .leftParen, p₁⟩ :: w ++ [⟨.symbol .rightParen, p₂⟩] ++ r) =
        arrowAfter 1 (w ++ ⟨.symbol .rightParen, p₂⟩ :: r) := by simp [atArrow]
    rw [hgroup, hu.balanced.arrowAfter_close rfl] at ha
    exact ha
  | not | negate | negative | object | function => cases ha
  | _ => cases hp

/-- Where the look ahead finds an arrow, any other expression stops before an arrow. -/
theorem arrow_of_conditional (ha : atArrow ts = true) (h : Yields (conditional ts) e stop r) :
    startsWith .arrow r = true := by
  obtain ⟨u, rfl, -, hu⟩ := (soundBelow ts.length).conditional_step (Nat.le_refl _) h
  exact hu.arrow_of_atArrow rfl ha

/-- No rule goes on with the tokens behind an expression: not with another symbol, not in a list, and not
behind a semicolon with a statement, with the end of a block or with the end of the text. -/
structure Refused (r : List Lexeme) : Prop where
  symbol : ∀ s, s ≠ .arrow → ∃ fault, expect s r = .error fault
  list : ∀ close, close ≠ .arrow → ∃ fault, separator close r = .error fault
  semicolon : ∀ stop, (optional .semicolon stop r).rest = r
  statement : ∃ fault, statement r = .error fault
  block : ∃ fault, block r = .error fault
  program : ∃ fault, program r = .error fault
  finish : ∃ fault, finish r = .error fault

/-- A statement does not begin with an arrow. -/
theorem statement_arrow (p : Span) (r : List Lexeme) :
    ∃ fault, statement (⟨.symbol .arrow, p⟩ :: r) = .error fault := by
  cases hread : statement (⟨.symbol .arrow, p⟩ :: r) with
  | error fault => exact ⟨fault, rfl⟩
  | ok v =>
    obtain ⟨u, hu, -, hderives⟩ := statement_sound ⟨v.shorter, hread⟩
    obtain ⟨x, w, rfl, hx⟩ := hderives.begins rfl
    rw [List.cons_append] at hu
    obtain ⟨rfl, -⟩ := List.cons.inj hu
    cases hx

/-- An arrow behind an expression is refused. -/
theorem refused_of_arrow (h : startsWith .arrow r = true) : Refused r := by
  obtain ⟨p, q, rfl⟩ := startsWith_iff.1 h
  obtain ⟨fault, hstatement⟩ := statement_arrow p q
  have hnil : (⟨.symbol .arrow, p⟩ :: q : List Lexeme) ≠ [] := List.cons_ne_nil _ _
  have hbrace (p' : Span) (q' : List Lexeme) :
      (⟨.symbol .arrow, p⟩ :: q : List Lexeme) ≠ ⟨.symbol .rightBrace, p'⟩ :: q' := by
    intro h
    cases h
  have hsymbol (s : Symbol) (hs : s ≠ .arrow) :
      expect s (⟨.symbol .arrow, p⟩ :: q) = .error (.expected (.symbol s) (some ⟨.symbol .arrow, p⟩)) :=
    if_neg fun heq => hs (Token.symbol.inj heq).symm
  refine ⟨fun s hs => ⟨_, hsymbol s hs⟩, fun close hs => ?_, fun stop => ?_, ⟨fault, hstatement⟩,
    ⟨fault, ?_⟩, ⟨fault, ?_⟩, ⟨_, rfl⟩⟩
  · have hclose : startsWith close (⟨.symbol .arrow, p⟩ :: q) = false := by simp [hs.symm]
    rw [separator, hclose, if_neg Bool.false_ne_true, hsymbol .comma (by decide)]
    exact ⟨_, rfl⟩
  · rw [optional, hsymbol .semicolon (by decide)]
  · rw [block.eq_3 _ hnil hbrace, hstatement]
    rfl
  · rw [program.eq_2 _ hnil, hstatement]
    rfl

end Grammar

namespace Cursor

open Grammar (Yields)

variable {tokens : List Lexeme} {c c' : Nat}

/-! ### Other choices -/

/-- Where the first walk is done, the second is done too, unless an arrow is left. -/
def Follows (tokens : List Lexeme) (o o' : Outcome) : Prop :=
  ∀ c, o = .done c → sees tokens .arrow c = true ∨ o' = .done c

/-- From everywhere, the second walk follows the first, and one that starts at an arrow does not get over
it. -/
structure Covers (tokens : List Lexeme) (k k' : Nat → Outcome) : Prop where
  follows : ∀ c, Follows tokens (k c) (k' c)
  stays : ∀ c c', sees tokens .arrow c = true → k c = .done c' → sees tokens .arrow c' = true

theorem fits_of_sees {s : Symbol} (h : sees tokens s c = true) (p : Token → Bool) :
    fits tokens p c = p (.symbol s) := by
  rw [sees, fits, Option.any_eq_true] at h
  obtain ⟨x, hx, hs⟩ := h
  rw [fits, hx, Option.any_some, eq_of_beq hs]

theorem sees_of_arrow (h : sees tokens .arrow c = true) {s : Symbol} (hs : s ≠ .arrow) :
    sees tokens s c = false := by
  rw [sees, fits_of_sees h]
  simp [hs.symm]

theorem atEnd_of_arrow (h : sees tokens .arrow c = true) : atEnd tokens c = false := by
  rw [sees, fits, Option.any_eq_true] at h
  obtain ⟨x, hx, -⟩ := h
  rw [atEnd, hx]
  rfl

theorem andThen_eq_done {o : Outcome} {k : Nat → Outcome} (h : o.andThen k = .done c) :
    ∃ c', o = .done c' ∧ k c' = .done c := by
  cases o with
  | done c' => exact ⟨c', rfl, h⟩
  | _ => cases h

theorem andThen_assoc (o : Outcome) (k m : Nat → Outcome) :
    (o.andThen k).andThen m = o.andThen fun c => (k c).andThen m := by
  cases o <;> rfl

theorem Follows.refl (o : Outcome) : Follows tokens o o :=
  fun _ h => .inr h

theorem Follows.andThen {o o' : Outcome} {k k' : Nat → Outcome} (h : Follows tokens o o')
    (hk : Covers tokens k k') : Follows tokens (o.andThen k) (o'.andThen k') := by
  intro c hc
  obtain ⟨c', ho, hc⟩ := andThen_eq_done hc
  rcases h c' ho with harrow | ho'
  · exact .inl (hk.stays c' c harrow hc)
  · rw [ho']
    exact hk.follows c' c hc

namespace Covers

variable {k k' m m' : Nat → Outcome}

/-- A walk without choices, which does not get over an arrow. -/
theorem refl (h : ∀ c c', sees tokens .arrow c = true → k c = .done c' → sees tokens .arrow c' = true) :
    Covers tokens k k :=
  ⟨fun c => .refl (k c), h⟩

theorem andThen (hk : Covers tokens k k') (hm : Covers tokens m m') :
    Covers tokens (fun c => (k c).andThen m) (fun c => (k' c).andThen m') := by
  refine ⟨fun c => (hk.follows c).andThen hm, fun c c' harrow h => ?_⟩
  obtain ⟨c₁, hc₁, h⟩ := andThen_eq_done h
  exact hm.stays c₁ c' (hk.stays c c₁ harrow hc₁) h

/-- A choice by the next token, of which one side is not taken at an arrow. -/
theorem ite {b : Nat → Bool} (hb : ∀ c, sees tokens .arrow c = true → b c = false)
    (hk : ∀ c, Follows tokens (k c) (k' c)) (hm : Covers tokens m m') :
    Covers tokens (fun c => if b c then k c else m c) (fun c => if b c then k' c else m' c) := by
  refine ⟨fun c => ?_, fun c c' harrow h => ?_⟩
  · cases b c with
    | true => exact hk c
    | false => exact hm.follows c
  · rw [hb c harrow, if_neg Bool.false_ne_true] at h
    exact hm.stays c c' harrow h

/-- The choice is made by whether the next token is of a kind that an arrow is not. -/
theorem look {p : Token → Bool} (hp : p (.symbol .arrow) = false)
    (hk : ∀ c, Follows tokens (k c) (k' c)) (hm : Covers tokens m m') :
    Covers tokens (fun c => if fits tokens p c then k c else m c)
      (fun c => if fits tokens p c then k' c else m' c) :=
  ite (fun _ h => (fits_of_sees h p).trans hp) hk hm

theorem done : Covers tokens .done .done :=
  refl fun c c' harrow h => by
    cases h
    exact harrow

theorem stuck (what : Expectation) : Covers tokens (stuck tokens what) (stuck tokens what) :=
  refl fun c c' _ h => by cases h

theorem expect {s : Symbol} (hs : s ≠ .arrow) : Covers tokens (expect tokens s) (expect tokens s) :=
  ite (fun _ h => sees_of_arrow h hs) (fun _ => .refl _) (stuck (.symbol s))

theorem identifier : Covers tokens (identifier tokens) (identifier tokens) :=
  look rfl (fun _ => .refl _) (stuck .identifier)

theorem separator {close : Symbol} (hs : close ≠ .arrow) :
    Covers tokens (separator tokens close) (separator tokens close) :=
  ite (fun _ h => sees_of_arrow h hs) (fun _ => .refl _) (expect (by decide))

theorem skip {s : Symbol} (hs : s ≠ .arrow) (hk : Covers tokens k k') :
    Covers tokens (fun c => k (skip tokens s c)) (fun c => k' (skip tokens s c)) := by
  refine ⟨fun c => hk.follows _, fun c c' harrow h => ?_⟩
  rw [Cursor.skip, sees_of_arrow harrow hs, if_neg Bool.false_ne_true] at h
  exact hk.stays c c' harrow h

theorem list {close : Symbol} (hs : close ≠ .arrow) (hitem : Covers tokens k k')
    (hagain : Covers tokens m m') :
    Covers tokens (list tokens close k m) (list tokens close k' m') :=
  ite (fun _ h => sees_of_arrow h hs) (fun _ => .refl _)
    (hitem.andThen ((separator hs).andThen hagain))

theorem memberName : Covers tokens (memberName tokens) (memberName tokens) :=
  look rfl (fun _ => .refl _) identifier

/-! Each rule, from the rules that it calls. -/

variable {call call' : Rule → Nat → Outcome}
  (hcall : ∀ rule, Covers tokens (call rule) (call' rule))

include hcall

theorem plainType : Covers tokens (plainType tokens call) (plainType tokens call') := by
  refine look rfl (fun _ => (hcall .members).follows _) ?_
  refine look rfl (fun _ => (Follows.refl _).andThen ?_) ?_
  · exact look rfl (fun _ => (hcall .typeArgs).follows _) done
  · exact look rfl (fun _ => .refl _) (stuck .typeExpr)

theorem brackets : Covers tokens (brackets tokens call) (brackets tokens call') := by
  refine ite (fun c h => ?_) (fun _ => (hcall .brackets).follows _) done
  rw [sees_of_arrow h (by decide), Bool.false_and]

theorem typeArgs : Covers tokens (typeArgs tokens call) (typeArgs tokens call') :=
  (hcall .typeExpr).andThen <|
    look rfl (fun _ => (hcall .typeArgs).follows _) (expect (by decide))

theorem members : Covers tokens (members tokens call) (members tokens call') := by
  refine look rfl (fun _ => .refl _) (memberName.andThen ?_)
  refine andThen (skip (by decide) (expect (by decide))) ((hcall .typeExpr).andThen ?_)
  refine ite (fun c h => ?_) (fun _ => (hcall .members).follows _) (expect (by decide))
  rw [sees_of_arrow h (by decide), sees_of_arrow h (by decide), Bool.or_false]

theorem typeAfterColon : Covers tokens (typeAfterColon tokens call) (typeAfterColon tokens call') :=
  look rfl (fun _ => (hcall .typeExpr).follows _) done

/-- The arrow behind parameters is the one that a rule asks for. No choice is made before it. -/
theorem arrowFunction (hparams : call .params = call' .params) :
    Covers tokens (arrowFunction tokens call) (arrowFunction tokens call') := by
  have hhead (c : Nat) : arrowParams tokens call c = arrowParams tokens call' c := by
    rw [arrowParams, arrowParams, hparams]
  refine ⟨fun c => ?_, fun c c' harrow h => ?_⟩
  · rw [Cursor.arrowFunction, Cursor.arrowFunction, ← andThen_assoc, ← andThen_assoc, hhead]
    refine (Follows.refl _).andThen ?_
    exact look rfl (fun _ => (hcall .block).follows _) (hcall .expression)
  · rw [Cursor.arrowFunction, arrowParams, sees_of_arrow harrow (by decide), Cursor.identifier,
      fits_of_sees harrow] at h
    cases h

theorem conditional : Covers tokens (conditional tokens call) (conditional tokens call') := by
  refine (hcall _).andThen (look rfl (fun c => ?_) done)
  exact ((hcall .expression).follows _).andThen ((expect (by decide)).andThen (hcall .expression))

theorem operand (l : Level) : Covers tokens (operand call l) (operand call' l) := by
  unfold Cursor.operand
  cases l.tighter with
  | none => exact hcall .unary
  | some m => exact hcall (.binary m)

theorem binaryTail (l : Level) : Covers tokens (binaryTail tokens call l) (binaryTail tokens call' l) := by
  refine ite (fun c h => ?_) (fun _ => ((operand hcall l).follows _).andThen (hcall (.binaryTail l))) done
  rw [fits_of_sees h]
  cases l <;> rfl

theorem unary : Covers tokens (unary tokens call) (unary tokens call') := by
  refine look rfl (fun _ => (hcall .unary).follows _) ?_
  refine look rfl (fun c => ?_) (hcall .suffixed)
  split
  · exact .refl _
  · exact (hcall .unary).follows _

theorem suffixes : Covers tokens (suffixes tokens call) (suffixes tokens call') := by
  refine look rfl (fun c => ?_) ?_
  · exact (Follows.refl _).andThen (hcall .suffixes)
  refine look rfl (fun c => ?_) ?_
  · exact ((hcall .expression).follows _).andThen ((expect (by decide)).andThen (hcall .suffixes))
  refine look rfl (fun c => ?_) done
  exact ((hcall .arguments).follows _).andThen (hcall .suffixes)

theorem functionRest (c : Nat) :
    Follows tokens (functionRest tokens call c) (functionRest tokens call' c) :=
  (Follows.refl _).andThen <| (hcall .params).andThen <| (typeAfterColon hcall).andThen <|
    (expect (by decide)).andThen (hcall .block)

theorem primary : Covers tokens (primary tokens call) (primary tokens call') := by
  refine look rfl (fun c => ?_) ?_
  · exact ((hcall .expression).follows _).andThen (expect (by decide))
  refine look rfl (fun _ => (hcall .properties).follows _) ?_
  refine look rfl (fun _ => functionRest hcall _) ?_
  refine look rfl (fun _ => .refl _) ?_
  exact look rfl (fun _ => .refl _) (refl fun _ _ _ h => by cases h)

theorem fieldValue : Covers tokens (fieldValue tokens call) (fieldValue tokens call') :=
  (expect (by decide)).andThen (hcall .expression)

theorem property : Covers tokens (property tokens call) (property tokens call') := by
  refine look rfl (fun _ => (Follows.refl _).andThen ?_) ?_
  · refine ite (fun c h => ?_) (fun _ => .refl _) (fieldValue hcall)
    rw [sees_of_arrow h (by decide), sees_of_arrow h (by decide), Bool.or_false]
  refine look rfl (fun _ => (Follows.refl _).andThen (fieldValue hcall)) ?_
  refine look rfl (fun _ => (Follows.refl _).andThen (fieldValue hcall)) ?_
  refine look rfl (fun c => ?_) (stuck .propertyName)
  exact ((hcall .expression).follows _).andThen ((expect (by decide)).andThen (fieldValue hcall))

theorem block : Covers tokens (block tokens call) (block tokens call') := by
  refine look rfl (fun _ => .refl _) ?_
  exact ite (fun _ h => atEnd_of_arrow h) (fun _ => .refl _) ((hcall .statement).andThen (hcall .block))

theorem declaration : Covers tokens (declaration tokens call) (declaration tokens call') :=
  identifier.andThen <| (typeAfterColon hcall).andThen <|
    look rfl (fun _ => (hcall .expression).follows _) done

theorem plainStatement : Covers tokens (plainStatement tokens call) (plainStatement tokens call') := by
  refine look rfl (fun _ => (declaration hcall).follows _) ?_
  refine look rfl (fun c => ?_) (hcall .expression)
  split
  · exact .refl _
  · exact (hcall .expression).follows _

end Covers

/-- The rules that read annotations and parameters, in which no expression stands. -/
def Rule.isSignature : Rule → Bool
  | .typeExpr | .brackets | .typeArgs | .members | .params => true
  | _ => false

section Body

variable {call call' : Rule → Nat → Outcome} {choose choose' : Nat → Bool}

/-- What such a rule does depends on the rules of that kind only. -/
theorem body_eq_of_isSignature (hcall : ∀ rule, rule.isSignature = true → call rule = call' rule)
    {rule : Rule} (h : rule.isSignature = true) :
    body tokens call choose rule = body tokens call' choose' rule := by
  funext c
  cases rule with
  | typeExpr =>
    rw [body, body, typeExpr, typeExpr, plainType, plainType, hcall .members rfl, hcall .typeArgs rfl,
      hcall .brackets rfl]
  | brackets => rw [body, body, brackets, brackets, hcall .brackets rfl]
  | typeArgs => rw [body, body, typeArgs, typeArgs, hcall .typeExpr rfl, hcall .typeArgs rfl]
  | members => rw [body, body, members, members, hcall .typeExpr rfl, hcall .members rfl]
  | params =>
    have hcolon : typeAfterColon tokens call = typeAfterColon tokens call' := by
      funext c
      rw [typeAfterColon, typeAfterColon, hcall .typeExpr rfl]
    have hparam : param tokens call = param tokens call' := by
      funext c
      rw [param, param, hcolon]
    rw [body, body, hparam, hcall .params rfl]
  | _ => cases h

/-- Every rule is covered by itself, if the rules that it calls are and the choice is. -/
theorem body_covers (hcall : ∀ rule, Covers tokens (call rule) (call' rule))
    (hparams : call .params = call' .params)
    (hexpression : Covers tokens (body tokens call choose .expression)
      (body tokens call' choose' .expression)) (rule : Rule) :
    Covers tokens (body tokens call choose rule) (body tokens call' choose' rule) := by
  cases rule with
  | typeExpr => exact (Covers.plainType hcall).andThen (hcall .brackets)
  | brackets => exact .brackets hcall
  | typeArgs => exact .typeArgs hcall
  | members => exact .members hcall
  | params => exact .list (by decide) (Covers.identifier.andThen (.typeAfterColon hcall)) (hcall .params)
  | expression => exact hexpression
  | arrowFunction => exact .arrowFunction hcall hparams
  | conditional => exact .conditional hcall
  | binary l => exact (Covers.operand hcall l).andThen (hcall (.binaryTail l))
  | binaryTail l => exact .binaryTail hcall l
  | unary => exact .unary hcall
  | suffixed => exact (hcall .primary).andThen (hcall .suffixes)
  | suffixes => exact .suffixes hcall
  | arguments => exact .list (by decide) (hcall .expression) (hcall .arguments)
  | primary => exact .primary hcall
  | properties => exact .list (by decide) (.property hcall) (hcall .properties)
  | block => exact .block hcall
  | statement => exact (Covers.plainStatement hcall).andThen (Covers.done.skip (by decide))
  | program =>
    exact .ite (fun _ h => atEnd_of_arrow h) (fun _ => .refl _)
      ((hcall .statement).andThen (hcall .program))

end Body

theorem walk_eq_of_isSignature (choose choose' : Nat → Bool) (n : Nat) {rule : Rule}
    (h : rule.isSignature = true) : walk tokens choose n rule = walk tokens choose' n rule := by
  induction n generalizing rule with
  | zero => rfl
  | succ n ih => exact body_eq_of_isSignature (fun _ h => ih h) h

/-- A walk that is done has read what the grammar reads. -/
theorem yields_of_walk {α : Type} {rule : Rule} {p : Parse α (tokens.drop c).length} {n : Nat}
    (hm : Means rule (tokens.drop c) (p.map Read.rest))
    (h : walk tokens (lookahead tokens) n rule c = .done c') :
    ∃ v stop, Yields p v stop (tokens.drop c') := by
  have hwalk := walk_mirrors hm (.refl tokens c) n
  rw [h] at hwalk
  cases p with
  | error fault => cases hwalk
  | ok v =>
    obtain ⟨v, stop, r, hr⟩ := v
    cases hwalk with
    | done hc => exact ⟨v, stop, hc.drop ▸ hr, by simp only [hc.drop]⟩

theorem sees_eq_startsWith (s : Symbol) (c : Nat) :
    sees tokens s c = startsWith s (tokens.drop c) :=
  (Stands.refl tokens c).sees s

/-- The other branch, where it can be read at all, leaves an arrow. -/
theorem choice_follows {choose : Nat → Bool} {n : Nat}
    (ih : ∀ rule, Covers tokens (walk tokens choose n rule) (walk tokens (lookahead tokens) n rule))
    (c : Nat) :
    Follows tokens (body tokens (walk tokens choose n) choose .expression c)
      (body tokens (walk tokens (lookahead tokens) n) (lookahead tokens) .expression c) := by
  rw [body, body]
  cases choose c with
  | true =>
    cases hlook : lookahead tokens c with
    | true => exact (ih .arrowFunction).follows c
    | false =>
      intro c' h
      rcases (ih .arrowFunction).follows c c' h with harrow | hdone
      · exact .inl harrow
      · obtain ⟨e, stop, hread⟩ := yields_of_walk (.arrowFunction _) hdone
        exact absurd (Grammar.atArrow_of_arrowFunction hread) (Bool.eq_false_iff.1 hlook)
  | false =>
    cases hlook : lookahead tokens c with
    | true =>
      intro c' h
      rcases (ih .conditional).follows c c' h with harrow | hdone
      · exact .inl harrow
      · obtain ⟨e, stop, hread⟩ := yields_of_walk (.conditional _) hdone
        have harrow := Grammar.arrow_of_conditional hlook hread
        exact .inl ((sees_eq_startsWith .arrow c').trans harrow)
    | false => exact (ih .conditional).follows c

/-- Whatever is chosen at each position, a walk leaves an arrow or is matched by the one that looks
ahead. -/
theorem walk_covers (choose : Nat → Bool) (n : Nat) (rule : Rule) :
    Covers tokens (walk tokens choose n rule) (walk tokens (lookahead tokens) n rule) := by
  induction n generalizing rule with
  | zero => exact .refl fun _ _ _ h => by cases h
  | succ n ih =>
    have hparams : walk tokens choose n .params = walk tokens (lookahead tokens) n .params :=
      walk_eq_of_isSignature _ _ n rfl
    refine body_covers ih hparams ⟨choice_follows ih, fun c c' harrow h => ?_⟩ rule
    rw [body] at h
    cases hc : choose c with
    | true =>
      rw [hc] at h
      exact (ih .arrowFunction).stays c c' harrow h
    | false =>
      rw [hc] at h
      exact (ih .conditional).stays c c' harrow h

/-! ### Whole texts -/

/-- A program is read to the end. -/
theorem atEnd_of_program {choose : Nat → Bool} {n : Nat}
    (h : walk tokens choose n .program c = .done c') : atEnd tokens c' = true := by
  induction n generalizing c with
  | zero => cases h
  | succ n ih =>
    rw [walk, body] at h
    split at h
    · next hend =>
      cases h
      exact hend
    · obtain ⟨c₁, -, h⟩ := andThen_eq_done h
      exact ih h

theorem atEnd_of_finish (h : finish tokens c = .done c') : atEnd tokens c = true := by
  rw [finish] at h
  split at h
  · next hend => exact hend
  · cases h

theorem program_of_walk {choose : Nat → Bool} {n : Nat}
    (h : walk tokens choose n .program c = .done c') :
    ∃ ss, Grammar.program (tokens.drop c) = .ok ss := by
  rcases (walk_covers choose n .program).follows c c' h with harrow | hdone
  · have hend := atEnd_of_program h
    rw [atEnd_of_arrow harrow] at hend
    cases hend
  · have hwalk := walk_mirrors (.program _) (.refl tokens c) n
    rw [hdone] at hwalk
    cases hp : Grammar.program (tokens.drop c) with
    | ok ss => exact ⟨ss, rfl⟩
    | error fault =>
      rw [hp] at hwalk
      cases hwalk

theorem wholeExpression_of_walk {choose : Nat → Bool} {n : Nat}
    (h : wholeExpression tokens choose n c = .done c') :
    ∃ e, Grammar.wholeExpression (tokens.drop c) = .ok e := by
  obtain ⟨c₁, hread, hfinish⟩ := andThen_eq_done h
  have hend := atEnd_of_finish hfinish
  rcases (walk_covers choose n .expression).follows c c₁ hread with harrow | hdone
  · rw [skip, sees_of_arrow harrow (by decide), if_neg Bool.false_ne_true, atEnd_of_arrow harrow] at hend
    cases hend
  · obtain ⟨e, stop, hr, he⟩ := yields_of_walk (.expression _) hdone
    rw [((Stands.refl tokens c₁).skip .semicolon stop).atEnd] at hend
    refine ⟨e, ?_⟩
    rw [Grammar.wholeExpression, he]
    show (Grammar.finish (optional .semicolon stop (tokens.drop c₁)).rest >>= fun _ => .ok e) = .ok e
    rw [List.isEmpty_iff.1 hend]
    rfl

/-- With enough calls, the walk that looks ahead is done where the grammar reads something. -/
theorem exists_walk {rule : Rule} {r : List Lexeme} (hm : Means rule (tokens.drop c) (.ok r)) :
    ∃ n c', walk tokens (lookahead tokens) n rule c = .done c' ∧ Stands tokens c c' r := by
  refine ⟨bound rule (tokens.drop c).length + 1, ?_⟩
  have hwalk := walk_mirrors hm (.refl tokens c) (bound rule (tokens.drop c).length + 1)
  generalize walk tokens (lookahead tokens) _ rule c = o at hwalk ⊢
  cases hwalk with
  | done h => exact ⟨_, rfl, h⟩
  | unfinished h => exact absurd h (Nat.not_succ_le_self _)

/-- A program can be read with some choices if and only if it can be read by looking ahead. -/
theorem exists_walk_program_iff (tokens : List Lexeme) (c : Nat) :
    (∃ choose n c', walk tokens choose n .program c = .done c') ↔
      ∃ ss, Grammar.program (tokens.drop c) = .ok ss := by
  constructor
  · rintro ⟨choose, n, c', h⟩
    exact program_of_walk h
  · rintro ⟨ss, h⟩
    have hm := Means.program (tokens.drop c)
    rw [h] at hm
    obtain ⟨n, c', hwalk, -⟩ := exists_walk hm
    exact ⟨lookahead tokens, n, c', hwalk⟩

/-- The same of an expression by itself. -/
theorem exists_walk_expression_iff (tokens : List Lexeme) (c : Nat) :
    (∃ choose n c', wholeExpression tokens choose n c = .done c') ↔
      ∃ e, Grammar.wholeExpression (tokens.drop c) = .ok e := by
  constructor
  · rintro ⟨choose, n, c', h⟩
    exact wholeExpression_of_walk h
  · rintro ⟨e, h⟩
    have hm := Means.expression (tokens.drop c)
    rw [Grammar.wholeExpression] at h
    cases hread : Grammar.expression (tokens.drop c) with
    | error fault =>
      rw [hread] at h
      cases h
    | ok v =>
      obtain ⟨v, stop, r, hr⟩ := v
      rw [hread] at h hm
      obtain ⟨n, c', hwalk, hc'⟩ := exists_walk hm
      have hend := (hc'.skip .semicolon stop).atEnd
      change (Grammar.finish (optional .semicolon stop r).rest >>= fun _ => .ok v) = .ok e at h
      cases hrest : (optional .semicolon stop r).rest with
      | cons x q =>
        rw [hrest] at h
        cases h
      | nil =>
        rw [hrest] at hend
        refine ⟨lookahead tokens, n, skip tokens .semicolon c', ?_⟩
        rw [wholeExpression, hwalk, Outcome.andThen, finish, hend]
        rfl

/-! ### The count of brackets -/

/-- A look over a group: how many brackets are open, and the place of the next token. -/
structure Scan where
  depth : Int
  offset : Nat

namespace Scan

/-- One round of the look: it goes on, or it ends with an answer. -/
def step (tokens : List Lexeme) (s : Scan) : Scan ⊕ Bool :=
  if atEnd tokens s.offset then .inr false
  else if fits tokens Grammar.opens s.offset then .inl ⟨s.depth + 1, s.offset + 1⟩
  else if fits tokens Grammar.closes s.offset then
    if s.depth - 1 = 0 then .inr (sees tokens .arrow (s.offset + 1))
    else .inl ⟨s.depth - 1, s.offset + 1⟩
  else .inl ⟨s.depth, s.offset + 1⟩

/-- At most `n` rounds of the look. -/
def run (tokens : List Lexeme) : Nat → Scan → Option Bool
  | 0, _ => none
  | n + 1, s =>
    match s.step tokens with
    | .inl s => run tokens n s
    | .inr answer => some answer

/-- The states that the look from `c` on passes through. -/
inductive Reaches (tokens : List Lexeme) (c : Nat) : Scan → Prop
  | start : Reaches tokens c ⟨0, c⟩
  | step {s s' : Scan} (h : Reaches tokens c s) (hs : s.step tokens = .inl s') : Reaches tokens c s'

/-- A round in which the look goes on counts the bracket there is. -/
theorem step_eq_inl {s s' : Scan} (h : s.step tokens = .inl s') :
    s'.offset = s.offset + 1 ∧
      (fits tokens Grammar.opens s.offset = true ∧ s'.depth = s.depth + 1 ∨
        fits tokens Grammar.opens s.offset = false ∧ s'.depth = s.depth - 1 ∧ s'.depth ≠ 0 ∨
        fits tokens Grammar.opens s.offset = false ∧ s'.depth = s.depth) := by
  rw [step] at h
  split at h
  · cases h
  · split at h
    · next hopen =>
      cases h
      exact ⟨rfl, .inl ⟨hopen, rfl⟩⟩
    · next hopen =>
      have hopen := Bool.eq_false_iff.2 hopen
      split at h
      · split at h
        · cases h
        · next hzero =>
          cases h
          exact ⟨rfl, .inr (.inl ⟨hopen, rfl, hzero⟩)⟩
      · cases h
        exact ⟨rfl, .inr (.inr ⟨hopen, rfl⟩)⟩

/-- Behind the bracket with which the look begins, a bracket is always open. -/
theorem Reaches.depth_pos {s : Scan} (h : Reaches tokens c s)
    (hc : sees tokens .leftParen c = true) : s = ⟨0, c⟩ ∨ 1 ≤ s.depth := by
  induction h with
  | start => exact .inl rfl
  | step _ hs ih =>
    right
    obtain ⟨-, hcount⟩ := step_eq_inl hs
    rcases ih with rfl | hdepth
    · have hopen : fits tokens Grammar.opens c = true := fits_of_sees hc _
      rw [hopen] at hcount
      simp only [reduceCtorEq, false_and, or_false, true_and] at hcount
      omega
    · omega

/-- The count is that of the grammar. -/
theorem run_eq {start o d n : Nat} {ts : List Lexeme} (h : Stands tokens start o ts) (hd : 1 ≤ d)
    (hn : ts.length < n) : run tokens n ⟨d, o⟩ = some (Grammar.arrowAfter d ts) := by
  induction n generalizing o d ts with
  | zero => omega
  | succ n ih =>
    rw [run, step, h.atEnd, h.fits, h.fits]
    cases ts with
    | nil => rfl
    | cons x r =>
      have hr : r.length < n := Nat.lt_of_succ_lt_succ hn
      simp only [List.isEmpty_cons, Bool.false_eq_true, if_false, List.head?_cons, Option.any_some,
        Grammar.arrowAfter]
      cases hopen : Grammar.opens x.token with
      | true => exact ih h.succ (Nat.le_succ_of_le hd) hr
      | false =>
        cases hclose : Grammar.closes x.token with
        | true =>
          simp only [Bool.false_eq_true, if_false, if_true]
          by_cases hone : d ≤ 1
          · rw [if_pos hone, if_pos (by omega), h.succ.sees]
          · have hcast : (d : Int) - 1 = (d - 1 : Nat) := by omega
            rw [if_neg hone, if_neg (by omega), hcast]
            exact ih h.succ (by omega) hr
        | false => exact ih h.succ hd hr

end Scan

/-- Looks ahead with at most `n` rounds over a group. -/
def glance (tokens : List Lexeme) (n c : Nat) : Option Bool :=
  if fits tokens Kind.name.has c then some (sees tokens .arrow (c + 1))
  else if sees tokens .leftParen c then Scan.run tokens n ⟨0, c⟩
  else some false

/-- The look ends with the tokens, with the answer of the grammar. -/
theorem glance_eq {start n : Nat} {ts : List Lexeme} (h : Stands tokens start c ts)
    (hn : ts.length < n) : glance tokens n c = some (Grammar.atArrow ts) := by
  rw [Grammar.atArrow.eq_def]
  split <;> rw [glance, h.fits, h.sees]
  · rw [h.succ.sees]
    rfl
  · next p r =>
    cases n with
    | zero => omega
    | succ n =>
      have hstep : Scan.step tokens ⟨0, c⟩ = .inl ⟨1, c + 1⟩ := by
        rw [Scan.step, h.atEnd, h.fits]
        rfl
      show Scan.run tokens (n + 1) ⟨0, c⟩ = _
      rw [Scan.run, hstep]
      exact Scan.run_eq h.succ (Nat.le_refl 1) (Nat.lt_of_succ_lt_succ hn)
  · next hname hparen =>
    rw [not_any_name hname, Grammar.not_startsWith hparen]
    rfl

/-! ### The branches decided -/

/-- The look ahead never picks the wrong branch. Where an arrow function can be read it says so; where it
says so and something else can be read, an arrow is left, which is refused; so texts that can be read with
any choices are read by looking ahead. The look ends with the tokens, and a bracket that closes is met only
where one is open. -/
theorem lookahead_decides (tokens : List Lexeme) (c : Nat) :
    (∀ e stop r, Yields (Grammar.arrowFunction (tokens.drop c)) e stop r → lookahead tokens c = true) ∧
      (∀ e stop r, lookahead tokens c = true →
        Yields (Grammar.conditional (tokens.drop c)) e stop r →
          startsWith .arrow r = true ∧ Grammar.Refused r) ∧
      ((∃ choose n c', walk tokens choose n .program c = .done c') ↔
        ∃ ss, Grammar.program (tokens.drop c) = .ok ss) ∧
      ((∃ choose n c', wholeExpression tokens choose n c = .done c') ↔
        ∃ e, Grammar.wholeExpression (tokens.drop c) = .ok e) ∧
      (∀ n, tokens.length - c < n → glance tokens n c = some (lookahead tokens c)) ∧
      (sees tokens .leftParen c = true → ∀ s, Scan.Reaches tokens c s →
        0 ≤ s.depth ∧ (fits tokens Grammar.closes s.offset = true → 1 ≤ s.depth)) := by
  refine ⟨fun e stop r h => Grammar.atArrow_of_arrowFunction h, fun e stop r ha h => ?_,
    exists_walk_program_iff tokens c, exists_walk_expression_iff tokens c, fun n hn => ?_,
    fun hparen s hs => ?_⟩
  · have harrow := Grammar.arrow_of_conditional ha h
    exact ⟨harrow, Grammar.refused_of_arrow harrow⟩
  · exact glance_eq (.refl tokens c) (by rwa [List.length_drop])
  · rcases hs.depth_pos hparen with rfl | hdepth
    · exact ⟨Int.le_refl 0, fun hclose => by rw [fits_of_sees hparen] at hclose; cases hclose⟩
    · exact ⟨by omega, fun _ => hdepth⟩

/-- The tokens of `f((a) => a)`. -/
def callback : List Lexeme :=
  [⟨.name "f", ⟨0, 1⟩⟩, ⟨.symbol .leftParen, ⟨1, 2⟩⟩, ⟨.symbol .leftParen, ⟨2, 3⟩⟩, ⟨.name "a", ⟨3, 4⟩⟩,
    ⟨.symbol .rightParen, ⟨4, 5⟩⟩, ⟨.symbol .arrow, ⟨6, 8⟩⟩, ⟨.name "a", ⟨9, 10⟩⟩,
    ⟨.symbol .rightParen, ⟨10, 11⟩⟩]

theorem lookahead_decides_callback :
    (∃ e stop, Yields (Grammar.arrowFunction (callback.drop 2)) e stop (callback.drop 7) ∧
        lookahead callback 2 = true) ∧
      (∃ e stop, Yields (Grammar.conditional (callback.drop 2)) e stop (callback.drop 5) ∧
        startsWith .arrow (callback.drop 5) = true ∧ Grammar.Refused (callback.drop 5)) ∧
      (walk callback (· == 2) 60 .program 0 = .done 8 ∧
        ∃ ss, Grammar.program (callback.drop 0) = .ok ss) ∧
      (callback.length - 2 < 7 ∧ glance callback 7 2 = some (lookahead callback 2)) ∧
      (sees callback .leftParen 2 = true ∧ Scan.Reaches callback 2 ⟨1, 4⟩ ∧
        fits callback Grammar.closes 4 = true ∧ (1 : Int) ≤ 1) := by
  obtain ⟨harrow, hplain, -, -, hglance, hdepth⟩ := lookahead_decides callback 2
  have hprogram := (lookahead_decides callback 0).2.2.1
  have hwalk : walk callback (· == 2) 60 .program 0 = .done 8 := by decide
  have hscan : Scan.Reaches callback 2 ⟨1, 4⟩ := .step (.step .start rfl) rfl
  obtain ⟨e, stop, hread⟩ : ∃ e stop, Yields (Grammar.arrowFunction (callback.drop 2)) e stop
      (callback.drop 7) := yields_of_walk (n := 60) (.arrowFunction _) (by decide)
  obtain ⟨e', stop', hread'⟩ : ∃ e stop, Yields (Grammar.conditional (callback.drop 2)) e stop
      (callback.drop 5) := yields_of_walk (n := 60) (.conditional _) (by decide)
  have hlook := harrow e stop _ hread
  exact ⟨⟨e, stop, hread, hlook⟩, ⟨e', stop', hread', hplain e' stop' _ hlook hread'⟩,
    ⟨hwalk, hprogram.1 ⟨_, 60, 8, hwalk⟩⟩, ⟨by decide, hglance 7 (by decide)⟩, by decide, hscan, by decide,
    (hdepth (by decide) _ hscan).2 (by decide)⟩

end Cursor

end Aggregation
