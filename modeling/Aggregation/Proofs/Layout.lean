import Aggregation.Proofs.Displacement

/-! Rules of the grammar on tokens that stand elsewhere.

A rule looks at tokens and never at places, so on tokens that were moved it takes the same steps: it
succeeds with the value moved, or fails at the same token and wanting the same (`Tracks`). Stops that
no token gives are zero, so the move has to leave zero alone. As for the phrases that the rules read,
the proof goes by the number of tokens that are left (`TracksBelow`). -/
namespace Aggregation

/-- The fault with the token at which reading stopped moved. -/
def ParseFault.relocate (g : Nat → Nat) : ParseFault → ParseFault
  | expected what found => expected what (found.map (Lexeme.relocate g))
  | unexpected found => unexpected (found.map (Lexeme.relocate g))

namespace Grammar

variable {g : Nat → Nat} {α β γ δ : Type} {R : α → β → Prop} {Q : γ → δ → Prop} {n m k j : Nat}

/-! ### Results that track each other -/

/-- What the second rule reads is what the first does, moved. -/
inductive Follow (g : Nat → Nat) (R : α → β → Prop) : Read α n → Read β m → Prop
  | mk {v v' s r h h'} (hv : R v v') :
      Follow g R ⟨v, s, r, h⟩ ⟨v', g s, r.map (Lexeme.relocate g), h'⟩

theorem Follow.of_stop {v : α} {v' : β} {s s' : Nat} {r : List Lexeme} {h : r.length < n}
    {h' : (r.map (Lexeme.relocate g)).length < m} (hs : s' = g s) (hv : R v v') :
    Follow g R ⟨v, s, r, h⟩ ⟨v', s', r.map (Lexeme.relocate g), h'⟩ := by
  subst hs
  exact .mk hv

/-- Both rules succeed, the second with what the first reads, moved, or both fail alike. -/
inductive Tracks (g : Nat → Nat) (R : α → β → Prop) : Parse α n → Parse β m → Prop
  | ok {x y} (h : Follow g R x y) : Tracks g R (.ok x) (.ok y)
  | error (e : ParseFault) : Tracks g R (.error e) (.error (e.relocate g))

namespace Tracks

theorem pure {v : α} {v' : β} {s s' : Nat} {r : List Lexeme} {h : r.length < n}
    {h' : (r.map (Lexeme.relocate g)).length < m} (hv : R v v') (hs : s' = g s) :
    Tracks g R (.ok ⟨v, s, r, h⟩) (.ok ⟨v', s', r.map (Lexeme.relocate g), h'⟩) :=
  .ok (.of_stop hs hv)

theorem of_eq {x : Parse α n} {y y' : Parse β m} (hy : y = y') (h : Tracks g R x y') :
    Tracks g R x y :=
  hy ▸ h

/-- Rules that go on behind rules that track each other track each other if they do so on what these
read. -/
theorem bind {x : Parse α n} {y : Parse β m} {f : Read α n → Parse γ k} {f' : Read β m → Parse δ j}
    (h : Tracks g R x y) (hf : ∀ v v' s r h h', R v v' →
      Tracks g Q (f ⟨v, s, r, h⟩) (f' ⟨v', g s, r.map (Lexeme.relocate g), h'⟩)) :
    Tracks g Q (x >>= f) (y >>= f') := by
  cases h with
  | ok h =>
    cases h with
    | mk hv => exact hf _ _ _ _ _ _ hv
  | error e => exact .error e

theorem bind_node {make make' : Mark Unit → Expr Unit} {a b a' b' : Nat} {f : Expr Unit → Parse γ k}
    {f' : Expr Unit → Parse δ j}
    (hmake : make' (mark a' b') = (make (mark a b)).relocate id g)
    (hf : Tracks g Q (f (make (mark a b))) (f' ((make (mark a b)).relocate id g))) :
    Tracks g Q (node make a b >>= f) (node make' a' b' >>= f') := by
  rw [← hmake] at hf
  exact hf

end Tracks

/-! ### Single tokens -/

theorem map_ne_cons {ts : List Lexeme} {t : Token} (h : ∀ p r, ts = ⟨t, p⟩ :: r → False) (p : Span)
    (r : List Lexeme) : ts.map (Lexeme.relocate g) = ⟨t, p⟩ :: r → False := by
  intro hmap
  obtain ⟨⟨t', p'⟩, q, rfl, hx, -⟩ := List.map_eq_cons_iff.1 hmap
  injection hx with ht
  subst ht
  exact h _ _ rfl

/-- Tokens of which a rule knows that they are fewer do not begin with the one that it looked for. -/
theorem ne_cons_of_fewer {ts : List Lexeme} {hts : ts.length < n} {t : Token}
    (h : ∀ p r (hr : (⟨t, p⟩ :: r : List Lexeme).length < n), ts = ⟨t, p⟩ :: r → HEq hts hr → False)
    (p : Span) (r : List Lexeme) : ts = ⟨t, p⟩ :: r → False := by
  rintro rfl
  exact h p r hts rfl HEq.rfl

theorem startOf_relocate (hg : g 0 = 0) (ts : List Lexeme) :
    startOf (ts.map (Lexeme.relocate g)) = g (startOf ts) := by
  cases ts with
  | nil => exact hg.symm
  | cons x r => rfl

theorem tracks_expect (s : Symbol) (ts : List Lexeme) :
    Tracks g Eq (expect s ts) (expect s (ts.map (Lexeme.relocate g))) := by
  match ts with
  | [] => exact .error (.expected (.symbol s) none)
  | x :: r =>
    by_cases hx : x.token = .symbol s
    · rw [expect, if_pos hx]
      exact .of_eq (if_pos hx) (.pure rfl rfl)
    · rw [expect, if_neg hx]
      exact .of_eq (if_neg hx) (.error (.expected (.symbol s) (some x)))

theorem tracks_identifier (ts : List Lexeme) :
    Tracks g Eq (identifier ts) (identifier (ts.map (Lexeme.relocate g))) := by
  match ts with
  | [] => exact .error (.expected .identifier none)
  | x :: r =>
    show Tracks g Eq (identifier (x :: r)) (identifier (x.relocate g :: r.map (Lexeme.relocate g)))
    simp only [identifier, token_relocate]
    split
    · exact .pure rfl rfl
    · exact .error (.expected .identifier (some x))

theorem follow_optional (s : Symbol) {stop stop' : Nat} (hs : stop' = g stop) (ts : List Lexeme) :
    Follow g Eq (optional s stop ts) (optional s stop' (ts.map (Lexeme.relocate g))) := by
  subst hs
  have h := tracks_expect (g := g) s ts
  unfold optional
  generalize expect s ts = x at h
  generalize expect s (ts.map (Lexeme.relocate g)) = y at h
  cases h with
  | ok h =>
    cases h
    exact .mk rfl
  | error e => exact .mk rfl

theorem tracks_separator (hg : g 0 = 0) (close : Symbol) (ts : List Lexeme) :
    Tracks g Eq (separator close ts) (separator close (ts.map (Lexeme.relocate g))) := by
  have h := tracks_expect (g := g) .comma ts
  unfold separator
  rw [startsWith_map]
  split
  · exact .pure rfl hg.symm
  · generalize expect .comma ts = x at h
    generalize expect .comma (ts.map (Lexeme.relocate g)) = y at h
    cases h with
    | ok h =>
      cases h
      exact .pure rfl rfl
    | error e => exact .error e

theorem follow_skipName (hg : g 0 = 0) (ts : List Lexeme) :
    Follow g Eq (skipName ts) (skipName (ts.map (Lexeme.relocate g))) := by
  rw [skipName.eq_def ts]
  split
  · exact .mk rfl
  · next h =>
    rw [skipName.eq_2 _ fun name => map_ne_cons (h name)]
    exact .of_stop hg.symm rfl

/-! ### Annotations -/

theorem follow_brackets (a : TypeExpr) {stop stop' : Nat} (hs : stop' = g stop) (ts : List Lexeme) :
    Follow g Eq (brackets a stop ts) (brackets a stop' (ts.map (Lexeme.relocate g))) := by
  rw [brackets.eq_def a stop ts]
  split
  · next p p' q =>
    have h := follow_brackets (.array a) (rfl : (p'.relocate g).stop = g p'.stop) q
    show Follow g Eq _ (brackets a stop' (⟨.symbol .leftBracket, p.relocate g⟩ ::
      ⟨.symbol .rightBracket, p'.relocate g⟩ :: q.map (Lexeme.relocate g)))
    rw [brackets]
    generalize brackets (.array a) p'.stop q = x at h
    generalize brackets (.array a) (p'.relocate g).stop (q.map (Lexeme.relocate g)) = y at h
    cases h with
    | mk hv => exact .mk hv
  · next h =>
    rw [brackets.eq_2 _ _ _ fun p p' q hq => ?_]
    · exact .of_stop hs rfl
    · obtain ⟨⟨t, u⟩, w, rfl, hx, hw⟩ := List.map_eq_cons_iff.1 hq
      obtain ⟨⟨t', u'⟩, w, rfl, hx', -⟩ := List.map_eq_cons_iff.1 hw
      injection hx with ht
      injection hx' with ht'
      subst ht ht'
      exact h _ _ _ rfl
termination_by ts.length

theorem tracks_memberName (ts : List Lexeme) :
    Tracks g Eq (memberName ts) (memberName (ts.map (Lexeme.relocate g))) := by
  rw [memberName.eq_def ts]
  split
  · exact .pure rfl rfl
  · next h => exact .of_eq (memberName.eq_2 _ fun name => map_ne_cons (h name)) (tracks_identifier ts)

mutual

theorem tracks_typeExpr (hg : g 0 = 0) (ts : List Lexeme) :
    Tracks g Eq (typeExpr ts) (typeExpr (ts.map (Lexeme.relocate g))) := by
  rw [typeExpr, typeExpr]
  refine (tracks_plainType hg ts).bind ?_
  rintro a _ s r h h' rfl
  have hb := follow_brackets a (rfl : g s = g s) r
  dsimp only
  generalize brackets a s r = x at hb
  generalize brackets a (g s) (r.map (Lexeme.relocate g)) = y at hb
  cases hb with
  | mk hv => exact .pure hv rfl
termination_by 4 * ts.length + 1

theorem tracks_plainType (hg : g 0 = 0) (ts : List Lexeme) :
    Tracks g Eq (plainType ts) (plainType (ts.map (Lexeme.relocate g))) := by
  rw [plainType.eq_def ts]
  split
  · next p q =>
    refine .of_eq (plainType.eq_1 _ _) ((tracks_members hg q).bind ?_)
    rintro fs _ s r h h' rfl
    exact .pure rfl rfl
  · next name p p' q =>
    refine .of_eq (plainType.eq_2 _ _ _ _) ((tracks_typeArgs hg q).bind ?_)
    rintro as _ s r h h' rfl
    exact .pure rfl rfl
  · next name p q h => exact .of_eq (plainType.eq_3 _ _ _ (map_ne_cons h)) (.pure rfl rfl)
  · exact .of_eq (plainType.eq_4 _ _) (.pure rfl rfl)
  · next hbrace _ hname hnull =>
    refine .of_eq (plainType.eq_5 _ (map_ne_cons hbrace)
      (fun name p _ _ => map_ne_cons (hname name) p _) (fun name => map_ne_cons (hname name))
      (map_ne_cons hnull)) ?_
    rw [List.head?_map]
    exact .error (.expected .typeExpr ts.head?)
termination_by 4 * ts.length

theorem tracks_typeArgs (hg : g 0 = 0) (ts : List Lexeme) :
    Tracks g Eq (typeArgs ts) (typeArgs (ts.map (Lexeme.relocate g))) := by
  rw [typeArgs, typeArgs]
  refine (tracks_typeExpr hg ts).bind ?_
  rintro a _ s r h h' rfl
  dsimp only
  split
  · next p q _ =>
    refine (tracks_typeArgs hg q).bind ?_
    rintro as _ s r h h' rfl
    exact .pure rfl rfl
  · next hne =>
    split
    · next heq _ => exact (map_ne_cons (ne_cons_of_fewer hne) _ _ heq).elim
    · refine (tracks_expect .gt r).bind ?_
      rintro _ _ s r h h' -
      exact .pure rfl rfl
termination_by 4 * ts.length + 2
decreasing_by all_goals grind

theorem tracks_members (hg : g 0 = 0) (ts : List Lexeme) :
    Tracks g Eq (members ts) (members (ts.map (Lexeme.relocate g))) := by
  rw [members.eq_def ts]
  split
  · exact .of_eq (members.eq_1 _ _) (.pure rfl rfl)
  · next h =>
    refine .of_eq (members.eq_2 _ (map_ne_cons h)) ((tracks_memberName ts).bind ?_)
    rintro name _ s r h h' rfl
    have ho := follow_optional .question hg.symm r
    dsimp only
    generalize optional .question 0 r = x at ho
    generalize optional .question 0 (r.map (Lexeme.relocate g)) = y at ho
    cases ho with
    | @mk _ _ s r₁ h₁ h₁' =>
      refine (tracks_expect .colon r₁).bind ?_
      rintro _ _ s r₂ h₂ h₂' -
      refine (tracks_typeExpr hg r₂).bind ?_
      rintro a _ s r₃ h₃ h₃' rfl
      dsimp only
      simp only [startsWith_map]
      split
      · next hmore =>
        match r₃, hmore with
        | x :: r₃, _ =>
          refine (tracks_members hg r₃).bind ?_
          rintro fs _ s r₄ h₄ h₄' rfl
          exact .pure rfl rfl
      · refine (tracks_expect .rightBrace r₃).bind ?_
        rintro _ _ s r₄ h₄ h₄' -
        exact .pure rfl rfl
termination_by 4 * ts.length + 3
decreasing_by all_goals grind

end

theorem tracks_typeAfterColon (hg : g 0 = 0) {stop stop' : Nat} (hs : stop' = g stop)
    (ts : List Lexeme) :
    Tracks g Eq (typeAfterColon stop ts) (typeAfterColon stop' (ts.map (Lexeme.relocate g))) := by
  rw [typeAfterColon.eq_def stop ts]
  split
  · next p q =>
    refine .of_eq (typeAfterColon.eq_1 _ _ _) ((tracks_typeExpr hg q).bind ?_)
    rintro a _ s r h h' rfl
    exact .pure rfl rfl
  · next h => exact .of_eq (typeAfterColon.eq_2 _ _ (map_ne_cons h)) (.pure rfl hs)

/-! ### Parameters -/

/-- The second value is the first, moved by the given function. -/
def Moves (move : α → β) (v : α) (v' : β) : Prop :=
  v' = move v

theorem tracks_param (hg : g 0 = 0) (ts : List Lexeme) :
    Tracks g (Moves (Param.relocate g)) (param ts) (param (ts.map (Lexeme.relocate g))) := by
  refine (tracks_identifier ts).bind ?_
  rintro name _ s r h h' rfl
  refine (tracks_typeAfterColon hg rfl r).bind ?_
  rintro a _ s' r' h h' rfl
  refine .pure ?_ rfl
  rw [Moves, Param.relocate, Span.relocate, startOf_relocate hg]

theorem tracks_params (hg : g 0 = 0) (ts : List Lexeme) :
    Tracks g (Moves (List.map (Param.relocate g))) (params ts)
      (params (ts.map (Lexeme.relocate g))) := by
  rw [params.eq_def ts]
  split
  · exact .of_eq (params.eq_1 _ _) (.pure rfl rfl)
  · next h =>
    refine .of_eq (params.eq_2 _ (map_ne_cons h)) ((tracks_param hg ts).bind ?_)
    rintro p _ s r h h' rfl
    refine (tracks_separator hg .rightParen r).bind ?_
    rintro _ _ s r₁ h₁ h₁' -
    refine (tracks_params hg r₁).bind ?_
    rintro ps _ s r₂ h₂ h₂' rfl
    exact .pure rfl rfl
termination_by ts.length

theorem tracks_arrowParams (hg : g 0 = 0) (ts : List Lexeme) :
    Tracks g (Moves (List.map (Param.relocate g))) (arrowParams ts)
      (arrowParams (ts.map (Lexeme.relocate g))) := by
  rw [arrowParams.eq_def ts]
  split
  · next p q =>
    refine .of_eq (arrowParams.eq_1 _ _) ((tracks_params hg q).bind ?_)
    rintro ps _ s r h h' rfl
    exact .pure rfl rfl
  · next h =>
    refine .of_eq (arrowParams.eq_2 _ (map_ne_cons h)) ((tracks_identifier ts).bind ?_)
    rintro name _ s r h h' rfl
    refine .pure ?_ rfl
    rw [Moves, List.map_singleton, Param.relocate, Span.relocate, startOf_relocate hg]

/-! ### Expressions and statements -/

theorem mark_relocate (start stop : Nat) :
    (mark start stop).relocate id g = mark (g start) (g stop) := rfl

theorem negative?_map_eq_some {ts r : List Lexeme} {v : Literal} {stop : Nat}
    {h : r.length < ts.length} (hv : negative? ts = some ⟨v, stop, r, h⟩) :
    ∃ h', negative? (ts.map (Lexeme.relocate g)) =
      some ⟨v, g stop, r.map (Lexeme.relocate g), h'⟩ := by
  obtain ⟨x, rfl, hx, hr, rfl⟩ := negative?_eq_some hv
  have hr' : ¬ startsSuffix (r.map (Lexeme.relocate g)) = true := by simp [hr]
  refine ⟨by simp, ?_⟩
  show negative? (x.relocate g :: r.map (Lexeme.relocate g)) = _
  rw [negative?, ← startsSuffix, if_neg hr', token_relocate, hx]
  rfl

/-- A statement that lacks its span, moved. -/
def MovesStatement (g : Nat → Nat) (make make' : Span → Statement Unit) : Prop :=
  ∀ s, make' (s.relocate g) = (make s).relocate id g

/-- The rules track each other where fewer than `n` tokens are left. -/
structure TracksBelow (g : Nat → Nat) (n : Nat) : Prop where
  expression : ∀ ts, ts.length < n → Tracks g (Moves (Expr.relocate id g)) (expression ts)
    (expression (ts.map (Lexeme.relocate g)))
  operand : ∀ l ts, ts.length < n → Tracks g (Moves (Expr.relocate id g)) (operand l ts)
    (operand l (ts.map (Lexeme.relocate g)))
  binaryTail : ∀ l e stop ts, ts.length < n → Tracks g (Moves (Expr.relocate id g))
    (binaryTail l e stop ts) (binaryTail l (e.relocate id g) (g stop) (ts.map (Lexeme.relocate g)))
  suffixes : ∀ e stop ts, ts.length < n → Tracks g (Moves (Expr.relocate id g))
    (suffixes e stop ts) (suffixes (e.relocate id g) (g stop) (ts.map (Lexeme.relocate g)))
  unary : ∀ ts, ts.length < n → Tracks g (Moves (Expr.relocate id g)) (unary ts)
    (unary (ts.map (Lexeme.relocate g)))
  arguments : ∀ ts, ts.length < n → Tracks g (Moves (relocateAll id g)) (arguments ts)
    (arguments (ts.map (Lexeme.relocate g)))
  properties : ∀ ts, ts.length < n → Tracks g (Moves (relocateProperties id g)) (properties ts)
    (properties (ts.map (Lexeme.relocate g)))
  block : ∀ ts, ts.length < n → Tracks g (Moves (relocateStatements id g)) (block ts)
    (block (ts.map (Lexeme.relocate g)))

namespace TracksBelow

/-! One rule after the other, each from the rules where fewer tokens are left and from the rules it
calls on the same tokens. -/

variable {n : Nat} (hg : g 0 = 0)

theorem suffixes_step (ih : TracksBelow g n) (e : Expr Unit) (stop : Nat) (ts : List Lexeme)
    (hn : ts.length ≤ n) :
    Tracks g (Moves (Expr.relocate id g)) (Grammar.suffixes e stop ts)
      (Grammar.suffixes (e.relocate id g) (g stop) (ts.map (Lexeme.relocate g))) := by
  rw [suffixes.eq_def e stop ts]
  split
  · next p q =>
    have hq : q.length < n := hn
    refine .of_eq (suffixes.eq_1 _ _ _ _) ((tracks_identifier q).bind ?_)
    rintro name _ s r₁ h₁ h₁' rfl
    have hproperty : Expr.property (mark (e.relocate id g).span.start (g s)) (e.relocate id g) name =
        (Expr.property (mark e.span.start s) e name).relocate id g := by
      rw [Expr.relocate, mark_relocate, start_span_relocate]
    refine .bind_node hproperty ((ih.suffixes _ s r₁ (by omega)).bind ?_)
    rintro e _ s r₂ h₂ h₂' rfl
    exact .pure rfl rfl
  · next p q =>
    have hq : q.length < n := hn
    refine .of_eq (suffixes.eq_2 _ _ _ _) ((ih.expression q hq).bind ?_)
    rintro i _ s r₁ h₁ h₁' rfl
    refine (tracks_expect .rightBracket r₁).bind ?_
    rintro _ _ s r₂ h₂ h₂' -
    have helement : Expr.element (mark (e.relocate id g).span.start (g s)) (e.relocate id g)
        (i.relocate id g) = (Expr.element (mark e.span.start s) e i).relocate id g := by
      rw [Expr.relocate, mark_relocate, start_span_relocate]
    refine .bind_node helement ((ih.suffixes _ s r₂ (by omega)).bind ?_)
    rintro e _ s r₃ h₃ h₃' rfl
    exact .pure rfl rfl
  · next p q =>
    have hq : q.length < n := hn
    refine .of_eq (suffixes.eq_3 _ _ _ _) ((ih.arguments q hq).bind ?_)
    rintro es _ s r₁ h₁ h₁' rfl
    have hcall : Expr.call (mark (e.relocate id g).span.start (g s)) (e.relocate id g)
        (relocateAll id g es) = (Expr.call (mark e.span.start s) e es).relocate id g := by
      rw [Expr.relocate, mark_relocate, start_span_relocate]
    refine .bind_node hcall ((ih.suffixes _ s r₁ (by omega)).bind ?_)
    rintro e _ s r₂ h₂ h₂' rfl
    exact .pure rfl rfl
  · next hdot hbracket hparen =>
    exact .of_eq (suffixes.eq_4 _ _ _ (map_ne_cons hdot) (map_ne_cons hbracket) (map_ne_cons hparen))
      (.pure rfl rfl)

theorem fieldValue_step (ih : TracksBelow g n) (ts : List Lexeme) (hn : ts.length ≤ n) :
    Tracks g (Moves (Expr.relocate id g)) (fieldValue ts)
      (fieldValue (ts.map (Lexeme.relocate g))) := by
  rw [fieldValue, fieldValue]
  refine (tracks_expect .colon ts).bind ?_
  rintro _ _ s r h h' -
  refine (ih.expression r (by omega)).bind ?_
  rintro e _ s r' h h' rfl
  exact .pure rfl rfl

theorem property_step (ih : TracksBelow g n) (ts : List Lexeme) (hn : ts.length ≤ n) :
    Tracks g (Moves (Property.relocate id g)) (property ts)
      (property (ts.map (Lexeme.relocate g))) := by
  rw [property.eq_def ts]
  split
  · next name p q =>
    have hq : q.length < n := hn
    refine .of_eq (property.eq_1 _ _ _) ?_
    simp only [startsWith_map]
    split
    · exact .pure rfl rfl
    · refine (ih.fieldValue_step q (Nat.le_of_lt hq)).bind ?_
      rintro e _ s r h h' rfl
      exact .pure rfl rfl
  · next key p q =>
    have hq : q.length < n := hn
    refine .of_eq (property.eq_2 _ _ _) ((ih.fieldValue_step q (Nat.le_of_lt hq)).bind ?_)
    rintro e _ s r h h' rfl
    exact .pure rfl rfl
  · next key p q =>
    have hq : q.length < n := hn
    refine .of_eq (property.eq_3 _ _ _) ((ih.fieldValue_step q (Nat.le_of_lt hq)).bind ?_)
    rintro e _ s r h h' rfl
    exact .pure rfl rfl
  · next p q =>
    have hq : q.length < n := hn
    refine .of_eq (property.eq_4 _ _) ((ih.expression q hq).bind ?_)
    rintro k _ s r₁ h₁ h₁' rfl
    refine (tracks_expect .rightBracket r₁).bind ?_
    rintro _ _ s r₂ h₂ h₂' -
    refine (ih.fieldValue_step r₂ (by omega)).bind ?_
    rintro e _ s r₃ h₃ h₃' rfl
    exact .pure rfl rfl
  · next hname hstring hinteger hbracket =>
    refine .of_eq (property.eq_5 _ (fun name => map_ne_cons (hname name))
      (fun key => map_ne_cons (hstring key)) (fun n => map_ne_cons (hinteger n))
      (map_ne_cons hbracket)) ?_
    rw [List.head?_map]
    exact .error (.expected .propertyName ts.head?)

include hg in
theorem primary_step (ih : TracksBelow g n) (ts : List Lexeme) (hn : ts.length ≤ n) :
    Tracks g (Moves (Expr.relocate id g)) (primary ts)
      (primary (ts.map (Lexeme.relocate g))) := by
  rw [primary.eq_def ts]
  split
  · next p q =>
    refine .of_eq (primary.eq_1 _ _) ((ih.expression q hn).bind ?_)
    rintro e _ s r₁ h₁ h₁' rfl
    refine (tracks_expect .rightParen r₁).bind ?_
    rintro _ _ s r₂ h₂ h₂' -
    exact .pure rfl rfl
  · next p q =>
    refine .of_eq (primary.eq_2 _ _) ((ih.properties q hn).bind ?_)
    rintro ps _ s r₁ h₁ h₁' rfl
    exact .pure rfl rfl
  · next p q =>
    have hq : q.length < n := hn
    refine .of_eq (primary.eq_3 _ _) ?_
    have hskip := follow_skipName hg q
    generalize skipName q = x at hskip
    generalize skipName (q.map (Lexeme.relocate g)) = y at hskip
    cases hskip with
    | @mk _ _ s r₁ h₁ h₁' =>
      refine (tracks_expect .leftParen r₁).bind ?_
      rintro _ _ s r₂ h₂ h₂' -
      refine (tracks_params hg r₂).bind ?_
      rintro ps _ s r₃ h₃ h₃' rfl
      refine (tracks_typeAfterColon hg hg.symm r₃).bind ?_
      rintro _ _ s r₄ h₄ h₄' -
      refine (tracks_expect .leftBrace r₄).bind ?_
      rintro _ _ s r₅ h₅ h₅' -
      refine (ih.block r₅ (by omega)).bind ?_
      rintro ss _ s r₆ h₆ h₆' rfl
      exact .pure rfl rfl
  · exact .of_eq (primary.eq_4 _ _ _) (.pure rfl rfl)
  · next x q hparen hbrace hkey hname =>
    have hx {t : Token} (h : ∀ p, x = ⟨t, p⟩ → False) (p : Span) (hp : x.relocate g = ⟨t, p⟩) :
        False := by
      injection hp with ht
      exact h x.span (by rw [← ht])
    refine .of_eq (primary.eq_5 _ _ (hx hparen) (hx hbrace) (hx hkey) fun name => hx (hname name)) ?_
    rw [token_relocate]
    split
    · exact .pure rfl rfl
    · exact .error (.unexpected (some x))
  · exact .of_eq primary.eq_6 (.error (.unexpected none))

include hg in
theorem suffixed_step (ih : TracksBelow g n) (ts : List Lexeme) (hn : ts.length ≤ n) :
    Tracks g (Moves (Expr.relocate id g)) (suffixed ts)
      (suffixed (ts.map (Lexeme.relocate g))) := by
  rw [suffixed, suffixed]
  refine (ih.primary_step hg ts hn).bind ?_
  rintro e _ s r h h' rfl
  refine (ih.suffixes_step e s r (by omega)).bind ?_
  rintro e _ s r h h' rfl
  exact .pure rfl rfl

include hg in
theorem unary_step (ih : TracksBelow g n) (ts : List Lexeme) (hn : ts.length ≤ n) :
    Tracks g (Moves (Expr.relocate id g)) (Grammar.unary ts)
      (Grammar.unary (ts.map (Lexeme.relocate g))) := by
  rw [unary.eq_def ts]
  split
  · next p q =>
    refine .of_eq (unary.eq_1 _ _) ((ih.unary q hn).bind ?_)
    rintro e _ s r h h' rfl
    exact .pure rfl rfl
  · next p q =>
    refine .of_eq (unary.eq_2 _ _) ?_
    split
    · next v s r h hv =>
      obtain ⟨h', hv'⟩ := negative?_map_eq_some (g := g) hv
      rw [hv']
      exact .pure rfl rfl
    · next hv =>
      rw [negative?_map_eq_none hv]
      refine (ih.unary q hn).bind ?_
      rintro e _ s r h h' rfl
      exact .pure rfl rfl
  · next hnot hminus =>
    exact .of_eq (unary.eq_3 _ (map_ne_cons hnot) (map_ne_cons hminus)) (ih.suffixed_step hg ts hn)

theorem binaryTail_step (ih : TracksBelow g n) (l : Level) (e : Expr Unit) (stop : Nat)
    (ts : List Lexeme) (hn : ts.length ≤ n) :
    Tracks g (Moves (Expr.relocate id g)) (Grammar.binaryTail l e stop ts)
      (Grammar.binaryTail l (e.relocate id g) (g stop) (ts.map (Lexeme.relocate g))) := by
  rw [binaryTail.eq_def l e stop ts]
  split
  · exact .of_eq (binaryTail.eq_1 _ _ _) (.pure rfl rfl)
  · next x q =>
    have hq : q.length < n := hn
    refine .of_eq (binaryTail.eq_2 _ _ _ _ _) ?_
    rw [token_relocate]
    split
    · exact .pure rfl rfl
    · next op _ =>
      refine (ih.operand l q hq).bind ?_
      rintro b _ s r₁ h₁ h₁' rfl
      have hjoined : Expr.binary (mark (e.relocate id g).span.start (g s)) op (e.relocate id g)
          (b.relocate id g) = (Expr.binary (mark e.span.start s) op e b).relocate id g := by
        rw [Expr.relocate, mark_relocate, start_span_relocate]
      refine .bind_node hjoined ((ih.binaryTail l _ s r₁ (by omega)).bind ?_)
      rintro e _ s r₂ h₂ h₂' rfl
      exact .pure rfl rfl

mutual

theorem binary_step (hg : g 0 = 0) (ih : TracksBelow g n) (l : Level) (ts : List Lexeme)
    (hn : ts.length ≤ n) :
    Tracks g (Moves (Expr.relocate id g)) (binary l ts)
      (binary l (ts.map (Lexeme.relocate g))) := by
  rw [binary, binary]
  refine (operand_step hg ih l ts hn).bind ?_
  rintro e _ s r h h' rfl
  refine (ih.binaryTail_step l e s r (by omega)).bind ?_
  rintro e _ s r h h' rfl
  exact .pure rfl rfl
termination_by 2 * l.rank + 1

theorem operand_step (hg : g 0 = 0) (ih : TracksBelow g n) (l : Level) (ts : List Lexeme)
    (hn : ts.length ≤ n) :
    Tracks g (Moves (Expr.relocate id g)) (Grammar.operand l ts)
      (Grammar.operand l (ts.map (Lexeme.relocate g))) := by
  rw [Grammar.operand, Grammar.operand]
  split
  · next m hl =>
    have := Level.rank_tighter hl
    exact binary_step hg ih m ts hn
  · exact ih.unary_step hg ts hn
termination_by 2 * l.rank

end

include hg in
theorem conditional_step (ih : TracksBelow g n) (ts : List Lexeme) (hn : ts.length ≤ n) :
    Tracks g (Moves (Expr.relocate id g)) (conditional ts)
      (conditional (ts.map (Lexeme.relocate g))) := by
  rw [conditional, conditional]
  refine (ih.binary_step hg .or ts hn).bind ?_
  rintro c _ s r h h' rfl
  dsimp only
  split
  · next p q hq =>
    have hq : q.length < n := Nat.lt_of_succ_lt (Nat.lt_of_lt_of_le hq hn)
    refine (ih.expression q hq).bind ?_
    rintro y _ s r₁ h₁ h₁' rfl
    refine (tracks_expect .colon r₁).bind ?_
    rintro _ _ s r₂ h₂ h₂' -
    refine (ih.expression r₂ (by omega)).bind ?_
    rintro n _ s r₃ h₃ h₃' rfl
    refine .pure ?_ rfl
    rw [Moves, Expr.relocate, mark_relocate, start_span_relocate]
  · next hne =>
    split
    · next heq _ => exact (map_ne_cons (ne_cons_of_fewer hne) _ _ heq).elim
    · exact .pure rfl rfl

include hg in
theorem arrowFunction_step (ih : TracksBelow g n) (ts : List Lexeme) (hn : ts.length ≤ n) :
    Tracks g (Moves (Expr.relocate id g)) (arrowFunction ts)
      (arrowFunction (ts.map (Lexeme.relocate g))) := by
  rw [arrowFunction, arrowFunction]
  refine (tracks_arrowParams hg ts).bind ?_
  rintro ps _ s r h h' rfl
  refine (tracks_expect .arrow r).bind ?_
  rintro _ _ s r₁ h₁ h₁' -
  have hr₁ : r₁.length < n := by omega
  dsimp only
  split
  · next p q _ =>
    refine (ih.block q (Nat.lt_of_succ_lt hr₁)).bind ?_
    rintro ss _ s r h h' rfl
    refine .pure ?_ rfl
    rw [Moves, Expr.relocate, mark_relocate, startOf_relocate hg]
  · next hne =>
    split
    · next heq _ => exact (map_ne_cons (ne_cons_of_fewer hne) _ _ heq).elim
    · refine (ih.expression r₁ hr₁).bind ?_
      rintro e _ s r h h' rfl
      refine .pure ?_ rfl
      rw [Moves, Expr.relocate, mark_relocate, startOf_relocate hg]

include hg in
theorem expression_step (ih : TracksBelow g n) (ts : List Lexeme) (hn : ts.length ≤ n) :
    Tracks g (Moves (Expr.relocate id g)) (Grammar.expression ts)
      (Grammar.expression (ts.map (Lexeme.relocate g))) := by
  rw [Grammar.expression, Grammar.expression, atArrow_map]
  split
  · exact ih.arrowFunction_step hg ts hn
  · exact ih.conditional_step hg ts hn

include hg in
theorem arguments_step (ih : TracksBelow g n) (ts : List Lexeme) (hn : ts.length ≤ n) :
    Tracks g (Moves (relocateAll id g)) (Grammar.arguments ts)
      (Grammar.arguments (ts.map (Lexeme.relocate g))) := by
  rw [arguments.eq_def ts]
  split
  · exact .of_eq (arguments.eq_1 _ _) (.pure rfl rfl)
  · next h =>
    refine .of_eq (arguments.eq_2 _ (map_ne_cons h)) ((ih.expression_step hg ts hn).bind ?_)
    rintro e _ s r h h' rfl
    refine (tracks_separator hg .rightParen r).bind ?_
    rintro _ _ s r₁ h₁ h₁' -
    refine (ih.arguments r₁ (by omega)).bind ?_
    rintro es _ s r₂ h₂ h₂' rfl
    exact .pure rfl rfl

include hg in
theorem properties_step (ih : TracksBelow g n) (ts : List Lexeme) (hn : ts.length ≤ n) :
    Tracks g (Moves (relocateProperties id g)) (Grammar.properties ts)
      (Grammar.properties (ts.map (Lexeme.relocate g))) := by
  rw [properties.eq_def ts]
  split
  · exact .of_eq (properties.eq_1 _ _) (.pure rfl rfl)
  · next h =>
    refine .of_eq (properties.eq_2 _ (map_ne_cons h)) ((ih.property_step ts hn).bind ?_)
    rintro p _ s r h h' rfl
    refine (tracks_separator hg .rightBrace r).bind ?_
    rintro _ _ s r₁ h₁ h₁' -
    refine (ih.properties r₁ (by omega)).bind ?_
    rintro ps _ s r₂ h₂ h₂' rfl
    refine .pure ?_ rfl
    simp only [Moves, relocateProperties_eq_map, List.map_cons]

include hg in
theorem declaration_step (ih : TracksBelow g n) (ts : List Lexeme) (hn : ts.length ≤ n) :
    Tracks g (MovesStatement g) (declaration ts) (declaration (ts.map (Lexeme.relocate g))) := by
  rw [declaration, declaration]
  refine (tracks_identifier ts).bind ?_
  rintro name _ s r h h' rfl
  refine (tracks_typeAfterColon hg rfl r).bind ?_
  rintro _ _ s r₁ h₁ h₁' -
  have hr₁ : r₁.length ≤ n := by omega
  dsimp only
  split
  · next p q _ =>
    refine (ih.expression q hr₁).bind ?_
    rintro e _ s r₃ h₃ h₃' rfl
    exact .pure (fun _ => rfl) rfl
  · next hne =>
    split
    · next heq _ => exact (map_ne_cons (ne_cons_of_fewer hne) _ _ heq).elim
    · exact .pure (fun _ => rfl) rfl

include hg in
theorem plainStatement_step (ih : TracksBelow g n) (ts : List Lexeme) (hn : ts.length ≤ n) :
    Tracks g (MovesStatement g) (plainStatement ts)
      (plainStatement (ts.map (Lexeme.relocate g))) := by
  rw [plainStatement.eq_def ts]
  split
  · next p q =>
    refine .of_eq (plainStatement.eq_1 _ _) ((ih.declaration_step hg q (Nat.le_of_lt hn)).bind ?_)
    intro d d' s r h h' hd
    exact .pure hd rfl
  · next p q =>
    refine .of_eq (plainStatement.eq_2 _ _) ((ih.declaration_step hg q (Nat.le_of_lt hn)).bind ?_)
    intro d d' s r h h' hd
    exact .pure hd rfl
  · next p q =>
    refine .of_eq (plainStatement.eq_3 _ _) ((ih.declaration_step hg q (Nat.le_of_lt hn)).bind ?_)
    intro d d' s r h h' hd
    exact .pure hd rfl
  · next p q =>
    refine .of_eq (plainStatement.eq_4 _ _) ?_
    simp only [startsWith_map, List.isEmpty_map]
    split
    · exact .pure (fun _ => rfl) rfl
    · refine (ih.expression q hn).bind ?_
      rintro e _ s r h h' rfl
      exact .pure (fun _ => rfl) rfl
  · next hconst hlet hvar hreturn =>
    refine .of_eq (plainStatement.eq_5 _ (map_ne_cons hconst) (map_ne_cons hlet) (map_ne_cons hvar)
      (map_ne_cons hreturn)) ((ih.expression_step hg ts hn).bind ?_)
    rintro e _ s r h h' rfl
    exact .pure (fun _ => rfl) rfl

include hg in
theorem statement_step (ih : TracksBelow g n) (ts : List Lexeme) (hn : ts.length ≤ n) :
    Tracks g (Moves (Statement.relocate id g)) (statement ts)
      (statement (ts.map (Lexeme.relocate g))) := by
  rw [statement, statement]
  refine (ih.plainStatement_step hg ts hn).bind ?_
  intro make make' s r h h' hmake
  have ho := follow_optional .semicolon (rfl : g s = g s) r
  dsimp only
  generalize optional .semicolon s r = x at ho
  generalize optional .semicolon (g s) (r.map (Lexeme.relocate g)) = y at ho
  cases ho with
  | @mk _ _ s r₁ h₁ h₁' =>
    refine .pure ?_ rfl
    rw [startOf_relocate hg]
    exact hmake ⟨startOf ts, s⟩

include hg in
theorem block_step (ih : TracksBelow g n) (ts : List Lexeme) (hn : ts.length ≤ n) :
    Tracks g (Moves (relocateStatements id g)) (Grammar.block ts)
      (Grammar.block (ts.map (Lexeme.relocate g))) := by
  rw [block.eq_def ts]
  split
  · exact .of_eq block.eq_1 (.error (.expected (.symbol .rightBrace) none))
  · exact .of_eq (block.eq_2 _ _) (.pure rfl rfl)
  · next hnil hbrace =>
    refine .of_eq (block.eq_3 _ (fun h => hnil (List.map_eq_nil_iff.1 h)) (map_ne_cons hbrace))
      ((ih.statement_step hg ts hn).bind ?_)
    rintro st _ s r h h' rfl
    refine (ih.block r (by omega)).bind ?_
    rintro ss _ s r' h h' rfl
    refine .pure ?_ rfl
    simp only [Moves, relocateStatements_eq_map, List.map_cons]

end TracksBelow

/-- The rules track each other, whatever the number of tokens. -/
theorem tracksBelow (hg : g 0 = 0) (n : Nat) : TracksBelow g n := by
  induction n with
  | zero => exact ⟨nofun, nofun, nofun, nofun, nofun, nofun, nofun, nofun⟩
  | succ n ih =>
    exact {
      expression := fun ts h => ih.expression_step hg ts (Nat.le_of_lt_succ h)
      operand := fun l ts h => ih.operand_step hg l ts (Nat.le_of_lt_succ h)
      binaryTail := fun l e s ts h => ih.binaryTail_step l e s ts (Nat.le_of_lt_succ h)
      suffixes := fun e s ts h => ih.suffixes_step e s ts (Nat.le_of_lt_succ h)
      unary := fun ts h => ih.unary_step hg ts (Nat.le_of_lt_succ h)
      arguments := fun ts h => ih.arguments_step hg ts (Nat.le_of_lt_succ h)
      properties := fun ts h => ih.properties_step hg ts (Nat.le_of_lt_succ h)
      block := fun ts h => ih.block_step hg ts (Nat.le_of_lt_succ h) }

/-! ### Whole texts -/

/-- What a rule for whole texts gives, moved. -/
def moved {α : Type} (move : α → α) (g : Nat → Nat) (x : Except ParseFault α) : Except ParseFault α :=
  (x.map move).mapError (ParseFault.relocate g)

theorem finish_map (ts : List Lexeme) :
    finish (ts.map (Lexeme.relocate g)) = (finish ts).mapError (ParseFault.relocate g) := by
  cases ts <;> rfl

/-- Tokens that are moved are read as the expression that they were read as, or not read for the
reason that they were not read for, moved. -/
theorem wholeExpression_relocate (hg : g 0 = 0) (ts : List Lexeme) :
    wholeExpression (ts.map (Lexeme.relocate g)) =
      moved (Expr.relocate id g) g (wholeExpression ts) := by
  have h := (tracksBelow hg ts.length).expression_step hg ts (Nat.le_refl _)
  unfold wholeExpression
  generalize expression ts = x at h
  generalize expression (ts.map (Lexeme.relocate g)) = y at h
  cases h with
  | error e => rfl
  | ok h =>
    cases h with
    | @mk e _ s r h h' he =>
      obtain rfl := he
      have ho := follow_optional .semicolon (rfl : g s = g s) r
      show (finish (optional .semicolon (g s) (r.map (Lexeme.relocate g))).rest >>= fun _ => _) =
        moved _ g (finish (optional .semicolon s r).rest >>= fun _ => _)
      generalize optional .semicolon s r = x at ho
      generalize optional .semicolon (g s) (r.map (Lexeme.relocate g)) = y at ho
      cases ho with
      | @mk _ _ _ q =>
        rw [finish_map]
        cases finish q <;> rfl

theorem wholeType_relocate (hg : g 0 = 0) (ts : List Lexeme) :
    wholeType (ts.map (Lexeme.relocate g)) = moved id g (wholeType ts) := by
  have h := tracks_typeExpr hg ts
  unfold wholeType
  generalize typeExpr ts = x at h
  generalize typeExpr (ts.map (Lexeme.relocate g)) = y at h
  cases h with
  | error e => rfl
  | ok h =>
    cases h with
    | @mk a _ s r h h' ha =>
      obtain rfl := ha
      show (finish (r.map (Lexeme.relocate g)) >>= fun _ => _) = moved _ g (finish r >>= fun _ => _)
      rw [finish_map]
      cases finish r <;> rfl

theorem relocateStatements_cons (s : Statement Unit) (ss : List (Statement Unit)) :
    relocateStatements id g (s :: ss) = s.relocate id g :: relocateStatements id g ss := by
  simp only [relocateStatements_eq_map, List.map_cons]

theorem program_relocate (hg : g 0 = 0) (ts : List Lexeme) :
    program (ts.map (Lexeme.relocate g)) = moved (relocateStatements id g) g (program ts) := by
  match ts with
  | [] =>
    rw [List.map_nil, program]
    rfl
  | x :: q =>
    have h := (tracksBelow hg _).statement_step hg (x :: q) (Nat.le_refl _)
    rw [program.eq_2 _ (by simp), program.eq_2 (x :: q) (by simp)]
    generalize statement (x :: q) = y at h
    generalize statement ((x :: q).map (Lexeme.relocate g)) = z at h
    cases h with
    | error e => rfl
    | ok h =>
      cases h with
      | @mk st _ s r hr h' hst =>
        obtain rfl := hst
        show (program (r.map (Lexeme.relocate g)) >>= fun _ => _) =
          moved _ g (program r >>= fun _ => _)
        rw [program_relocate hg r]
        cases program r with
        | error e => rfl
        | ok ss => exact congrArg Except.ok (relocateStatements_cons st ss).symm
termination_by ts.length
decreasing_by exact hr

end Grammar

end Aggregation
