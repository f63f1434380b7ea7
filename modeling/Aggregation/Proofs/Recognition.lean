import Aggregation.Proofs.GrammarSoundness

/-! The rules of the grammar read every phrase.

Each phrase is read by its rule in front of the tokens that it is followed by (`Derives.reads`). With
the converse, tokens are a program just if they are a block with nothing behind it
(`program_eq_ok_iff`), and likewise for a single expression and a single annotation. -/
namespace Aggregation.Grammar

/-! ### Phrases are read -/

/-- The rule of a phrase reads it. The rule for what stands between brackets reads the closing one
too, the rule for an entry is called only where a comma or a brace follows, and behind a phrase that
may go on its rule is still to read the rest. -/
def ReadsPhrase : Phrase → List Lexeme → Piece → List Lexeme → Prop
  | .expression, u, .expr e, r => ∀ ts, ts = u ++ r → Yields (expression ts) e (stopOf u) r
  | .conditional, u, .expr e, r => ∀ ts, ts = u ++ r → Yields (conditional ts) e (stopOf u) r
  | .binary l, u, .expr e, r => ∀ ts, ts = u ++ r → Yields (binary l ts) e (stopOf u) r
  | .joined l, u, .expr e, r => ∀ ts, ts = u ++ r → ∀ v stop q,
    Yields (binaryTail l e (stopOf u) r) v stop q → Yields (binary l ts) v stop q
  | .operand l, u, .expr e, r => ∀ ts, ts = u ++ r → Yields (operand l ts) e (stopOf u) r
  | .unary, u, .expr e, r => ∀ ts, ts = u ++ r → Yields (unary ts) e (stopOf u) r
  | .suffixed, u, .expr e, r => ∀ ts, ts = u ++ r → Yields (suffixed ts) e (stopOf u) r
  | .chain, u, .expr e, r => ∀ ts, ts = u ++ r → ∀ v stop q,
    Yields (suffixes e (stopOf u) r) v stop q → Yields (suffixed ts) v stop q
  | .primary, u, .expr e, r => ∀ ts, ts = u ++ r → Yields (primary ts) e (stopOf u) r
  | .arguments, u, .exprs es, r => ∀ p q, r = ⟨.symbol .rightParen, p⟩ :: q →
    ∀ ts, ts = u ++ r → Yields (arguments ts) es p.stop q
  | .properties, u, .entries ps, r => ∀ p q, r = ⟨.symbol .rightBrace, p⟩ :: q →
    ∀ ts, ts = u ++ r → Yields (properties ts) ps p.stop q
  | .property, u, .entry v, r => (startsWith .comma r || startsWith .rightBrace r) = true →
    ∀ ts, ts = u ++ r → Yields (property ts) v (stopOf u) r
  | .statement, u, .statement s, r => ∀ ts, ts = u ++ r → Yields (statement ts) s (stopOf u) r
  | .block, u, .statements ss, r => ∀ p q, r = ⟨.symbol .rightBrace, p⟩ :: q →
    ∀ ts, ts = u ++ r → Yields (block ts) ss p.stop q
  | _, _, _, _ => True

/-- Where no operator follows, no operand does. -/
theorem binaryTail_of_not_operator {l : Level} {e : Expr Unit} {stop : Nat} {ts : List Lexeme}
    (h : startsOperator l ts = false) : Yields (binaryTail l e stop ts) e stop ts := by
  rw [binaryTail.eq_def]
  split
  · exact yields_ok.2 ⟨rfl, rfl, rfl⟩
  · next x q =>
    have hx : l.operator? x.token = none := by simpa [startsOperator] using h
    simp only [hx]
    exact yields_ok.2 ⟨rfl, rfl, rfl⟩

/-- Where nothing is read from an expression and it is not called, there is no suffix. -/
theorem suffixes_of_not_suffix {e : Expr Unit} {stop : Nat} {ts : List Lexeme}
    (h : startsSuffix ts = false) : Yields (suffixes e stop ts) e stop ts := by
  rw [suffixes.eq_def]
  split
  · simp [startsSuffix] at h
  · simp [startsSuffix] at h
  · simp [startsSuffix] at h
  · exact yields_ok.2 ⟨rfl, rfl, rfl⟩

theorem skipName_named {k : List Lexeme} (hk : Named k) (p : Span) (r : List Lexeme) :
    (skipName (k ++ ⟨.symbol .leftParen, p⟩ :: r)).rest = ⟨.symbol .leftParen, p⟩ :: r := by
  cases hk <;> rfl

/-- The semicolon behind a statement belongs to it. -/
theorem yields_statement {make : Span → Statement Unit} {u t ts r : List Lexeme} (hne : u ≠ [])
    (ht : Ended t r) (hts : ts = u ++ (t ++ r))
    (h : Yields (plainStatement ts) make (stopOf u) (t ++ r)) :
    Yields (statement ts) (make ⟨startOf u, stopOf (u ++ t)⟩) (stopOf (u ++ t)) r := by
  have hstart : startOf ts = startOf u := by rw [hts, startOf_append hne]
  rw [statement]
  refine h.bind fun _ => ?_
  cases ht with
  | none hs =>
    obtain ⟨p, q, _, hq, -⟩ | ⟨-, _, ho⟩ := optional_cases .semicolon (stopOf u) ([] ++ r)
    · obtain rfl : r = _ := hq
      simp at hs
    · simp only [ho, hstart]
      exact yields_pure.2 ⟨by rw [List.append_nil], by rw [List.append_nil], rfl⟩
  | @semicolon p =>
    simp only [hstart]
    exact yields_pure.2 ⟨by simp [optional, expect], by simp [optional, expect],
      by simp [optional, expect]⟩

theorem plainStatement_of_declaration {k : Keyword} (hk : k ∈ [Keyword.constKey, .letKey, .varKey])
    (p : Span) {ts : List Lexeme} {make : Span → Statement Unit} {stop : Nat} {r : List Lexeme}
    (h : Yields (declaration ts) make stop r) :
    Yields (plainStatement (⟨.keyword k, p⟩ :: ts)) make stop r := by
  simp only [List.mem_cons, List.not_mem_nil, or_false] at hk
  rcases hk with rfl | rfl | rfl <;> rw [plainStatement] <;>
    exact h.bind fun _ => yields_pure.2 ⟨rfl, rfl, rfl⟩

/-! What a rule yields, from what the rules it calls yield. -/

section Rules

variable {ts q q₁ r : List Lexeme} {p p₁ p₂ p₃ : Span} {s s₁ stop : Nat}

theorem yields_lambda {u : List Lexeme} {ps : List Param} {e : Expr Unit}
    (hu : Heads u ps (⟨.symbol .arrow, p⟩ :: q)) (hts : ts = u ++ ⟨.symbol .arrow, p⟩ :: q)
    (hb : startsWith .leftBrace q = false) (h : Yields (expression q) e stop r) :
    Yields (expression ts) (.lambda (mark (startOf u) stop) ps e) stop r := by
  have hstart : startOf ts = startOf u := by rw [hts, startOf_append hu.ne_nil]
  rw [expression, if_pos (by rw [hts]; exact hu.atArrow), arrowFunction]
  refine (arrowParams_complete hu ts hts).bind fun _ => ?_
  refine (expect_cons .arrow p q).bind fun _ => ?_
  dsimp only
  split
  · simp at hb
  · exact h.bind fun _ => yields_pure.2 ⟨by rw [hstart], rfl, rfl⟩

theorem yields_arrow {u : List Lexeme} {ps : List Param} {ss : List (Statement Unit)}
    (hu : Heads u ps (⟨.symbol .arrow, p₁⟩ :: ⟨.symbol .leftBrace, p₂⟩ :: q))
    (hts : ts = u ++ ⟨.symbol .arrow, p₁⟩ :: ⟨.symbol .leftBrace, p₂⟩ :: q)
    (h : Yields (block q) ss stop r) :
    Yields (expression ts) (.function (mark (startOf u) stop) .arrow ps ss) stop r := by
  have hstart : startOf ts = startOf u := by rw [hts, startOf_append hu.ne_nil]
  rw [expression, if_pos (by rw [hts]; exact hu.atArrow), arrowFunction]
  refine (arrowParams_complete hu ts hts).bind fun _ => ?_
  refine (expect_cons .arrow p₁ _).bind fun _ => ?_
  exact h.bind fun _ => yields_pure.2 ⟨by rw [hstart], rfl, rfl⟩

theorem yields_conditional {e : Expr Unit} (hr : startsWith .question r = false)
    (h : Yields (binary .or ts) e stop r) : Yields (conditional ts) e stop r := by
  rw [conditional]
  refine h.bind fun _ => ?_
  dsimp only
  split
  · simp at hr
  · exact yields_pure.2 ⟨rfl, rfl, rfl⟩

theorem yields_choice {c y n : Expr Unit}
    (hc : Yields (binary .or ts) c s (⟨.symbol .question, p₁⟩ :: q))
    (hy : Yields (expression q) y s₁ (⟨.symbol .colon, p₂⟩ :: q₁))
    (hn : Yields (expression q₁) n stop r) :
    Yields (conditional ts) (.conditional (mark c.span.start stop) c y n) stop r := by
  rw [conditional]
  exact hc.bind fun _ => hy.bind fun _ => (expect_cons .colon p₂ q₁).bind fun _ =>
    hn.bind fun _ => yields_pure.2 ⟨rfl, rfl, rfl⟩

theorem yields_join {l : Level} {x : Lexeme} {op : BinaryOp} {a b e : Expr Unit}
    (hx : l.operator? x.token = some op) (hb : Yields (operand l q) b s q₁)
    (h : Yields (binaryTail l (.binary (mark a.span.start s) op a b) s q₁) e stop r) :
    Yields (binaryTail l a s₁ (x :: q)) e stop r := by
  rw [binaryTail.eq_def]
  simp only [hx]
  exact hb.bind fun _ => h.bind fun _ => yields_pure.2 ⟨rfl, rfl, rfl⟩

theorem yields_unary {x : Lexeme} {e : Expr Unit} (hx : startsPrimary x.token = true)
    (hts : ts = x :: q) (h : Yields (suffixed ts) e stop r) : Yields (unary ts) e stop r := by
  rw [unary.eq_def]
  split
  · obtain ⟨rfl, -⟩ := List.cons.inj hts
    cases hx
  · obtain ⟨rfl, -⟩ := List.cons.inj hts
    cases hx
  · exact h

theorem yields_element {e i v : Expr Unit}
    (hi : Yields (expression q) i s (⟨.symbol .rightBracket, p₂⟩ :: q₁))
    (h : Yields (suffixes (.element (mark e.span.start p₂.stop) e i) p₂.stop q₁) v stop r) :
    Yields (suffixes e s₁ (⟨.symbol .leftBracket, p₁⟩ :: q)) v stop r := by
  rw [suffixes]
  exact hi.bind fun _ => (expect_cons .rightBracket p₂ q₁).bind fun _ =>
    h.bind fun _ => yields_pure.2 ⟨rfl, rfl, rfl⟩

theorem yields_call {e v : Expr Unit} {es : List (Expr Unit)}
    (hes : Yields (arguments q) es s q₁)
    (h : Yields (suffixes (.call (mark e.span.start s) e es) s q₁) v stop r) :
    Yields (suffixes e s₁ (⟨.symbol .leftParen, p₁⟩ :: q)) v stop r := by
  rw [suffixes]
  exact hes.bind fun _ => h.bind fun _ => yields_pure.2 ⟨rfl, rfl, rfl⟩

theorem yields_function {k u w : List Lexeme} {ps : List Param} {a : Option TypeExpr}
    {ss : List (Statement Unit)} (hk : Named k)
    (hu : Declares u ps (⟨.symbol .rightParen, p₂⟩ :: (w ++ ⟨.symbol .leftBrace, p₃⟩ :: q)))
    (hw : Ascribes w a (⟨.symbol .leftBrace, p₃⟩ :: q)) (h : Yields (block q) ss stop r)
    (hts : ts = ⟨.keyword .functionKey, p⟩ :: (k ++ ⟨.symbol .leftParen, p₁⟩ :: (u ++
      ⟨.symbol .rightParen, p₂⟩ :: (w ++ ⟨.symbol .leftBrace, p₃⟩ :: q)))) :
    Yields (primary ts) (.function (mark p.start stop) .word ps ss) stop r := by
  subst hts
  rw [primary]
  have ho := skipName_named hk p₁ (u ++ ⟨.symbol .rightParen, p₂⟩ ::
    (w ++ ⟨.symbol .leftBrace, p₃⟩ :: q))
  generalize skipName (k ++ ⟨.symbol .leftParen, p₁⟩ :: (u ++ ⟨.symbol .rightParen, p₂⟩ ::
    (w ++ ⟨.symbol .leftBrace, p₃⟩ :: q))) = o at ho ⊢
  obtain ⟨_, _, q', _⟩ := o
  obtain rfl : q' = _ := ho
  refine (expect_cons .leftParen p₁ _).bind fun _ => ?_
  refine (params_complete hu _ rfl).bind fun _ => ?_
  refine (typeAfterColon_complete hw []).bind fun _ => ?_
  refine (expect_cons .leftBrace p₃ q).bind fun _ => ?_
  exact h.bind fun _ => yields_pure.2 ⟨rfl, rfl, rfl⟩

theorem yields_arguments_nil : Yields (arguments (⟨.symbol .rightParen, p⟩ :: r)) [] p.stop r := by
  rw [arguments]
  exact yields_ok.2 ⟨rfl, rfl, rfl⟩

theorem yields_arguments_cons {e : Expr Unit} {es : List (Expr Unit)} {x : Lexeme}
    {u : List Lexeme} (hx : x.token ≠ .symbol .rightParen) (hts : ts = x :: u)
    (h : Yields (expression ts) e s q) (hs : ∃ s, Yields (separator .rightParen q) () s q₁)
    (hes : Yields (arguments q₁) es stop r) : Yields (arguments ts) (e :: es) stop r := by
  obtain ⟨_, hs⟩ := hs
  rw [arguments.eq_def]
  split
  · obtain ⟨rfl, -⟩ := List.cons.inj hts
    exact absurd rfl hx
  · exact h.bind fun _ => hs.bind fun _ => hes.bind fun _ => yields_pure.2 ⟨rfl, rfl, rfl⟩

theorem yields_properties_nil :
    Yields (properties (⟨.symbol .rightBrace, p⟩ :: r)) [] p.stop r := by
  rw [properties]
  exact yields_ok.2 ⟨rfl, rfl, rfl⟩

theorem yields_properties_cons {v : Property Unit} {vs : List (Property Unit)} {x : Lexeme}
    {u : List Lexeme} (hx : x.token ≠ .symbol .rightBrace) (hts : ts = x :: u)
    (h : Yields (property ts) v s q) (hs : ∃ s, Yields (separator .rightBrace q) () s q₁)
    (hvs : Yields (properties q₁) vs stop r) : Yields (properties ts) (v :: vs) stop r := by
  obtain ⟨_, hs⟩ := hs
  rw [properties.eq_def]
  split
  · obtain ⟨rfl, -⟩ := List.cons.inj hts
    exact absurd rfl hx
  · exact h.bind fun _ => hs.bind fun _ => hvs.bind fun _ => yields_pure.2 ⟨rfl, rfl, rfl⟩

theorem yields_fieldValue {e : Expr Unit} (h : Yields (expression q) e stop r) :
    Yields (fieldValue (⟨.symbol .colon, p⟩ :: q)) e stop r := by
  rw [fieldValue]
  exact (expect_cons .colon p q).bind fun _ => h.bind fun _ => yields_pure.2 ⟨rfl, rfl, rfl⟩

theorem yields_field {x : Lexeme} {k : FieldName} {e : Expr Unit} (hx : fieldKey? x.token = some k)
    (h : Yields (expression q) e stop r) :
    Yields (property (x :: ⟨.symbol .colon, p⟩ :: q)) (.field ⟨x.span.start, stop⟩ k e) stop r := by
  obtain ⟨t, sp⟩ := x
  have hv : Yields (fieldValue (⟨.symbol .colon, p⟩ :: q)) e stop r := yields_fieldValue h
  cases t with
  | name n =>
    obtain rfl := Option.some.inj hx
    rw [property, if_neg (by simp)]
    exact hv.bind fun _ => yields_pure.2 ⟨rfl, rfl, rfl⟩
  | string n | integer n =>
    obtain rfl := Option.some.inj hx
    rw [property]
    exact hv.bind fun _ => yields_pure.2 ⟨rfl, rfl, rfl⟩
  | _ => cases hx

theorem yields_computed {k e : Expr Unit}
    (hk : Yields (expression q) k s (⟨.symbol .rightBracket, p₁⟩ :: ⟨.symbol .colon, p₂⟩ :: q₁))
    (h : Yields (expression q₁) e stop r) :
    Yields (property (⟨.symbol .leftBracket, p⟩ :: q)) (.computed ⟨p.start, stop⟩ k e) stop r := by
  rw [property]
  exact hk.bind fun _ => (expect_cons .rightBracket p₁ _).bind fun _ =>
    (yields_fieldValue h).bind fun _ => yields_pure.2 ⟨rfl, rfl, rfl⟩

theorem yields_definition {n : String} {w : List Lexeme} {a : Option TypeExpr} {e : Expr Unit}
    (hw : Ascribes w a (⟨.symbol .assign, p₁⟩ :: q)) (h : Yields (expression q) e stop r) :
    Yields (declaration (⟨.name n, p⟩ :: (w ++ ⟨.symbol .assign, p₁⟩ :: q)))
      (.declaration · n (some e)) stop r := by
  rw [declaration]
  refine (identifier_cons n p _).bind fun _ => ?_
  refine (typeAfterColon_complete hw [⟨.name n, p⟩]).bind fun _ => ?_
  exact h.bind fun _ => yields_pure.2 ⟨rfl, rfl, rfl⟩

theorem yields_declaration {n : String} {w : List Lexeme} {a : Option TypeExpr}
    (hw : Ascribes w a r) (hr : startsWith .assign r = false) :
    Yields (declaration (⟨.name n, p⟩ :: (w ++ r))) (.declaration · n none)
      (stopOf (⟨.name n, p⟩ :: w)) r := by
  rw [declaration]
  refine (identifier_cons n p _).bind fun _ => ?_
  refine (typeAfterColon_complete hw [⟨.name n, p⟩]).bind fun _ => ?_
  dsimp only
  split
  · simp at hr
  · exact yields_pure.2 ⟨rfl, rfl, rfl⟩

theorem yields_result {e : Expr Unit} {x : Lexeme} (hx : startsExpression x.token = true)
    (h : Yields (expression (x :: q)) e stop r) :
    Yields (plainStatement (⟨.keyword .returnKey, p⟩ :: x :: q)) (.result · (some e)) stop r := by
  have hends : ¬ ((x :: q).isEmpty || startsWith .semicolon (x :: q) ||
      startsWith .rightBrace (x :: q)) = true := by
    intro hends
    have : x.token = .symbol .semicolon ∨ x.token = .symbol .rightBrace := by simpa using hends
    rcases this with this | this <;> rw [this] at hx <;> cases hx
  rw [plainStatement, if_neg hends]
  exact h.bind fun _ => yields_pure.2 ⟨rfl, rfl, rfl⟩

theorem yields_evaluation {e : Expr Unit} {x : Lexeme} (hx : startsExpression x.token = true)
    (hts : ts = x :: q) (h : Yields (expression ts) e stop r) :
    Yields (plainStatement ts) (.expression · e) stop r := by
  rw [plainStatement.eq_def]
  split
  · obtain ⟨rfl, -⟩ := List.cons.inj hts
    cases hx
  · obtain ⟨rfl, -⟩ := List.cons.inj hts
    cases hx
  · obtain ⟨rfl, -⟩ := List.cons.inj hts
    cases hx
  · obtain ⟨rfl, -⟩ := List.cons.inj hts
    cases hx
  · exact h.bind fun _ => yields_pure.2 ⟨rfl, rfl, rfl⟩

end Rules

namespace Derives

/-- Phrases are what the rules for them read. -/
theorem reads {p : Phrase} {u : List Lexeme} {v : Piece} {r : List Lexeme}
    (h : Derives p u v r) : ReadsPhrase p u v r := by
  induction h with
  | @lambda u ps p w e r hu hb hw ih =>
    intro ts hts
    obtain ⟨x, w, rfl, -⟩ := hw.begins rfl
    rw [stopOf_append_cons, stopOf_cons_cons]
    exact yields_lambda hu (by simpa using hts) hb (ih _ rfl)
  | @arrow u ps p₁ p₂ w ss p₃ r hu _ ih =>
    intro ts hts
    rw [stopOf_append_cons, stopOf_singleton]
    exact yields_arrow hu (by simpa using hts) (ih p₃ r rfl _ rfl)
  | plain ha _ ih =>
    rintro ts rfl
    rw [expression, if_neg (by rw [ha]; decide)]
    exact ih _ rfl
  | condition _ hr ih => exact fun ts hts => yields_conditional hr (ih ts hts)
  | @choice u c p₁ v y p₂ w n r _ _ hw ihu ihv ihw =>
    intro ts hts
    rw [stopOf_append_cons, stopOf_cons _ hw.expr_ne_nil]
    have hc := ihu ts (by simpa using hts)
    exact yields_choice (by simpa using hc) (ihv _ rfl) (ihw _ rfl)
  | settled _ ho ih => exact fun ts hts => ih ts hts _ _ _ (binaryTail_of_not_operator ho)
  | first _ ih =>
    intro ts hts v stop q h
    rw [binary]
    exact (ih ts hts).bind fun _ => h.bind fun _ => yields_pure.2 ⟨rfl, rfl, rfl⟩
  | @join l u a x op w b r hx _ hw ihu ihw =>
    intro ts hts v stop q h
    rw [stopOf_append_cons, stopOf_cons _ hw.expr_ne_nil] at h
    exact ihu ts (by simpa using hts) v stop q (yields_join hx (ihw _ rfl) h)
  | tighter hl _ ih =>
    intro ts hts
    rw [Grammar.operand]
    split
    · next m hm =>
      obtain rfl := Option.some.inj (hl.symm.trans hm)
      exact ih ts hts
    · next hm => rw [hl] at hm; cases hm
  | tightest hl _ ih =>
    intro ts hts
    rw [Grammar.operand]
    split
    · next m hm => rw [hl] at hm; cases hm
    · exact ih ts hts
  | not hu ih =>
    rintro ts rfl
    rw [stopOf_cons _ hu.expr_ne_nil, List.cons_append, unary]
    exact (ih _ rfl).bind fun _ => yields_pure.2 ⟨rfl, rfl, rfl⟩
  | @negative p x v r hx hs =>
    intro ts hts
    obtain rfl : ts = ⟨.symbol .minus, p⟩ :: x :: r := hts
    rw [unary, negative?]
    rw [startsSuffix] at hs
    simp only [hs, hx]
    exact yields_ok.2 ⟨rfl, rfl, rfl⟩
  | negate hn hu ih =>
    rintro ts rfl
    rw [stopOf_cons _ hu.expr_ne_nil, List.cons_append, unary, hn]
    exact (ih _ rfl).bind fun _ => yields_pure.2 ⟨rfl, rfl, rfl⟩
  | operand hu ih =>
    intro ts hts
    obtain ⟨x, w, rfl, hx⟩ := hu.begins rfl
    exact yields_unary hx hts (ih ts hts)
  | suffixed _ hs ih => exact fun ts hts => ih ts hts _ _ _ (suffixes_of_not_suffix hs)
  | start _ ih =>
    intro ts hts v stop q h
    rw [Grammar.suffixed]
    exact (ih ts hts).bind fun _ => h.bind fun _ => yields_pure.2 ⟨rfl, rfl, rfl⟩
  | @property u e p₁ n p₂ r _ ih =>
    intro ts hts v stop q h
    rw [stopOf_append_cons, stopOf_cons_cons, stopOf_singleton] at h
    refine ih ts (by simpa using hts) v stop q ?_
    rw [suffixes]
    exact (identifier_cons n p₂ r).bind fun _ => h.bind fun _ => yields_pure.2 ⟨rfl, rfl, rfl⟩
  | @element u e p₁ w i p₂ r _ _ ihu ihw =>
    intro ts hts v stop q h
    rw [stopOf_append_cons, stopOf_singleton] at h
    exact ihu ts (by simpa using hts) v stop q (yields_element (ihw _ rfl) h)
  | @call u e p₁ w es p₂ r _ _ ihu ihw =>
    intro ts hts v stop q h
    rw [stopOf_append_cons, stopOf_singleton] at h
    exact ihu ts (by simpa using hts) v stop q (yields_call (ihw p₂ r rfl _ rfl) h)
  | @name n p r =>
    intro ts hts
    obtain rfl : ts = ⟨.name n, p⟩ :: r := hts
    rw [primary]
    exact yields_ok.2 ⟨rfl, rfl, rfl⟩
  | @literal x v r hx =>
    intro ts hts
    obtain ⟨t, p⟩ := x
    obtain rfl : ts = ⟨t, p⟩ :: r := hts
    cases t <;> simp [literal?] at hx <;> subst hx <;> simp only [primary, literal?] <;>
      exact yields_ok.2 ⟨rfl, rfl, rfl⟩
  | @paren p₁ u e p₂ r _ ih =>
    intro ts hts
    obtain rfl : ts = ⟨.symbol .leftParen, p₁⟩ :: (u ++ ⟨.symbol .rightParen, p₂⟩ :: r) := by
      simpa using hts
    rw [stopOf_append_cons, stopOf_singleton, primary]
    exact (ih _ rfl).bind fun _ => (expect_cons .rightParen p₂ r).bind fun _ =>
      yields_pure.2 ⟨rfl, rfl, rfl⟩
  | @object p₁ u ps p₂ r _ ih =>
    intro ts hts
    obtain rfl : ts = ⟨.symbol .leftBrace, p₁⟩ :: (u ++ ⟨.symbol .rightBrace, p₂⟩ :: r) := by
      simpa using hts
    rw [stopOf_append_cons, stopOf_singleton, primary]
    exact (ih p₂ r rfl _ rfl).bind fun _ => yields_pure.2 ⟨rfl, rfl, rfl⟩
  | @function p₁ k p₂ u ps p₃ w a p₄ b ss p₅ r hk hu hw _ ih =>
    intro ts hts
    rw [stopOf_append_cons, stopOf_singleton]
    exact yields_function hk (by simpa using hu) (by simpa using hw) (ih p₅ r rfl _ rfl)
      (by simpa using hts)
  | noArgument =>
    rintro p q rfl ts rfl
    exact yields_arguments_nil
  | lastArgument hu ih =>
    rintro p q rfl ts hts
    obtain ⟨x, w, rfl, hx⟩ := hu.begins rfl
    exact yields_arguments_cons (by rintro h; rw [h] at hx; cases hx) hts (ih ts hts)
      (yields_separator_close (by simp)) yields_arguments_nil
  | argument hu _ ihu ihw =>
    rintro p q rfl ts hts
    obtain ⟨x, w, rfl, hx⟩ := hu.begins rfl
    exact yields_arguments_cons (by rintro h; rw [h] at hx; cases hx) hts
      (ihu ts (by simpa using hts)) (yields_separator_comma (by decide) _ _) (ihw p q rfl _ rfl)
  | noEntry =>
    rintro p q rfl ts rfl
    exact yields_properties_nil
  | lastEntry hu ih =>
    rintro p q rfl ts hts
    obtain ⟨x, w, rfl, hx⟩ := hu.begins rfl
    exact yields_properties_cons (by rintro h; rw [h] at hx; cases hx) hts (ih (by simp) ts hts)
      (yields_separator_close (by simp)) yields_properties_nil
  | entry hu _ ihu ihw =>
    rintro p q rfl ts hts
    obtain ⟨x, w, rfl, hx⟩ := hu.begins rfl
    exact yields_properties_cons (by rintro h; rw [h] at hx; cases hx) hts
      (ihu (by simp) ts (by simpa using hts)) (yields_separator_comma (by decide) _ _)
      (ihw p q rfl _ rfl)
  | @shorthand n p r =>
    intro hr ts hts
    obtain rfl : ts = ⟨.name n, p⟩ :: r := hts
    rw [Grammar.property, if_pos hr]
    exact yields_ok.2 ⟨rfl, rfl, rfl⟩
  | field hx hu ih =>
    rintro - ts rfl
    rw [stopOf_cons_cons, stopOf_cons _ hu.expr_ne_nil]
    exact yields_field hx (ih _ rfl)
  | @computed p₁ u k p₂ p₃ w e r _ hw ihu ihw =>
    rintro - ts hts
    obtain rfl : ts = ⟨.symbol .leftBracket, p₁⟩ :: (u ++ ⟨.symbol .rightBracket, p₂⟩ ::
      ⟨.symbol .colon, p₃⟩ :: (w ++ r)) := by simpa using hts
    rw [stopOf_append_cons, stopOf_cons_cons, stopOf_cons _ hw.expr_ne_nil]
    exact yields_computed (ihu _ rfl) (ihw _ rfl)
  | @declaration k p₁ n p₂ w a t r hk hw hr ht =>
    intro ts hts
    obtain rfl : ts = ⟨.keyword k, p₁⟩ :: ⟨.name n, p₂⟩ :: (w ++ (t ++ r)) := by simpa using hts
    have hd := plainStatement_of_declaration hk p₁ (yields_declaration (n := n) (p := p₂) hw hr)
    exact yields_statement (u := ⟨.keyword k, p₁⟩ :: ⟨.name n, p₂⟩ :: w) (by simp) ht rfl hd
  | @definition k p₁ n p₂ w a p₃ u e t r hk hw hu ht ih =>
    intro ts hts
    obtain rfl : ts = ⟨.keyword k, p₁⟩ :: ⟨.name n, p₂⟩ :: (w ++ ⟨.symbol .assign, p₃⟩ ::
      (u ++ (t ++ r))) := by simpa using hts
    have hne : u ++ t ≠ [] := by simp [hu.expr_ne_nil]
    have hd := plainStatement_of_declaration hk p₁ (yields_definition (n := n) (p := p₂)
      (by simpa using hw) (ih _ rfl))
    have hstop : stopOf (⟨.keyword k, p₁⟩ :: ⟨.name n, p₂⟩ :: w ++ ⟨.symbol .assign, p₃⟩ :: u) =
        stopOf u := by
      rw [stopOf_append_cons, stopOf_cons _ hu.expr_ne_nil]
    rw [← hstop] at hd
    have := yields_statement (by simp) ht (by simp) hd
    simpa [startOf, stopOf_cons _ hne] using this
  | @finish p t r he ht =>
    intro ts hts
    obtain rfl : ts = ⟨.keyword .returnKey, p⟩ :: (t ++ r) := hts
    have hends : ((t ++ r).isEmpty || startsWith .semicolon (t ++ r) ||
        startsWith .rightBrace (t ++ r)) = true := by
      cases ht with
      | none => rcases he rfl with rfl | h <;> simp_all
      | semicolon => simp
    have hd : Yields (plainStatement (⟨.keyword .returnKey, p⟩ :: (t ++ r))) (.result · none)
        (stopOf [⟨.keyword .returnKey, p⟩]) (t ++ r) := by
      rw [plainStatement, if_pos hends]
      exact yields_ok.2 ⟨rfl, rfl, rfl⟩
    exact yields_statement (u := [⟨.keyword .returnKey, p⟩]) (by simp) ht rfl hd
  | @result p u e t r hu ht ih =>
    intro ts hts
    obtain ⟨x, w, rfl, hx⟩ := hu.begins rfl
    obtain rfl : ts = ⟨.keyword .returnKey, p⟩ :: x :: (w ++ (t ++ r)) := by simpa using hts
    have hd := yields_result (p := p) hx (ih _ rfl)
    exact yields_statement (u := ⟨.keyword .returnKey, p⟩ :: x :: w) (by simp) ht rfl hd
  | @evaluation u e t r hu ht ih =>
    intro ts hts
    obtain ⟨x, w, rfl, hx⟩ := hu.begins rfl
    rw [List.append_assoc] at hts
    exact yields_statement hu.expr_ne_nil ht hts (yields_evaluation hx hts (ih ts hts))
  | noStatement =>
    rintro p q rfl ts rfl
    rw [List.nil_append, block]
    exact yields_ok.2 ⟨rfl, rfl, rfl⟩
  | statement hu _ ihu ihw =>
    rintro p q rfl ts hts
    obtain ⟨x, w, rfl, hx⟩ := hu.begins rfl
    rw [block.eq_def]
    split
    · cases hts
    · obtain ⟨rfl, -⟩ := List.cons.inj hts
      cases hx
    · exact (ihu ts (by simpa using hts)).bind fun _ => (ihw p q rfl _ rfl).bind fun _ =>
        yields_pure.2 ⟨rfl, rfl, rfl⟩

end Derives

theorem expression_complete {u : List Lexeme} {e : Expr Unit} {r : List Lexeme}
    (h : Derives .expression u (.expr e) r) : Yields (expression (u ++ r)) e (stopOf u) r :=
  h.reads _ rfl

theorem statement_complete {u : List Lexeme} {s : Statement Unit} {r : List Lexeme}
    (h : Derives .statement u (.statement s) r) : Yields (statement (u ++ r)) s (stopOf u) r :=
  h.reads _ rfl

/-! ### Whole texts -/

/-- What comes behind a rule goes on from what the rule yields. -/
theorem bind_eq_ok_iff {α β : Type} {n : Nat} {x : Parse α n} {f : Read α n → Except ParseFault β}
    {w : β} :
    (x >>= f) = .ok w ↔ ∃ v s q h, Yields x v s q ∧ f ⟨v, s, q, h⟩ = .ok w := by
  constructor
  · intro h
    cases x with
    | error e => cases h
    | ok x => exact ⟨x.value, x.stop, x.rest, x.shorter, ⟨x.shorter, rfl⟩, h⟩
  · rintro ⟨v, s, q, h, ⟨_, rfl⟩, hf⟩
    exact hf

/-- Tokens are an expression by themselves if they are one followed by nothing but its end. -/
theorem wholeExpression_eq_ok_iff {ts : List Lexeme} {e : Expr Unit} :
    wholeExpression ts = .ok e ↔
      ∃ u t, ts = u ++ t ∧ Ended t [] ∧ Derives .expression u (.expr e) t := by
  rw [wholeExpression, bind_eq_ok_iff]
  constructor
  · rintro ⟨e', s, q, h, he, hf⟩
    obtain ⟨u, rfl, rfl, hu⟩ := expression_sound he
    obtain ⟨p, r, _, rfl, ho⟩ | ⟨hs, _, ho⟩ := optional_cases .semicolon (stopOf u) q
    · simp only [ho] at hf
      cases r with
      | nil =>
        obtain rfl := Except.ok.inj hf
        exact ⟨u, _, rfl, .semicolon, hu⟩
      | cons x r => cases hf
    · simp only [ho] at hf
      cases q with
      | nil =>
        obtain rfl := Except.ok.inj hf
        exact ⟨u, [], rfl, .none hs, hu⟩
      | cons x r => cases hf
  · rintro ⟨u, t, rfl, ht, hu⟩
    refine ⟨e, _, t, (expression_complete hu).1, expression_complete hu, ?_⟩
    cases ht <;> rfl

/-- Tokens are an annotation by themselves if they are one followed by nothing. -/
theorem wholeType_eq_ok_iff {ts : List Lexeme} {a : TypeExpr} :
    wholeType ts = .ok a ↔ Annotates .full ts (.one a) [] := by
  rw [wholeType, bind_eq_ok_iff]
  constructor
  · rintro ⟨a', s, q, h, ha, hf⟩
    obtain ⟨u, rfl, rfl, hu⟩ := typeExpr_sound ha
    cases q with
    | nil =>
      obtain rfl := Except.ok.inj hf
      rwa [List.append_nil]
    | cons x q => cases hf
  · intro h
    have := typeExpr_complete h
    rw [List.append_nil] at this
    exact ⟨a, _, [], this.1, this, rfl⟩

theorem derives_of_program {ts : List Lexeme} {ss : List (Statement Unit)}
    (h : program ts = .ok ss) : Derives .block ts (.statements ss) [] := by
  rw [program.eq_def] at h
  split at h
  · obtain rfl := Except.ok.inj h
    exact .noStatement
  · obtain ⟨s, _, q, hq, hs, h⟩ := bind_eq_ok_iff.1 h
    obtain ⟨u, hts, -, hu⟩ := statement_sound hs
    cases hp : program q with
    | error e => simp [hp, bind, Except.bind] at h
    | ok ss' =>
      simp only [hp, bind, Except.bind, pure, Except.pure, Except.ok.injEq] at h
      have hw := derives_of_program hp
      subst h hts
      exact .statement (by rwa [List.append_nil]) hw
termination_by ts.length

theorem program_of_derives {ts : List Lexeme} {ss : List (Statement Unit)}
    (h : Derives .block ts (.statements ss) []) : program ts = .ok ss := by
  generalize hp : Phrase.block = p at h
  generalize hv : Piece.statements ss = v at h
  generalize hr : [] = r at h
  induction h generalizing ss with
  | noStatement =>
    obtain rfl := Piece.statements.inj hv
    rw [program]
    rfl
  | @statement u s w ss' r hs _ _ ih =>
    obtain rfl := Piece.statements.inj hv
    subst hr
    have hs' := statement_complete hs
    rw [List.append_nil] at hs'
    obtain ⟨x, u, rfl, -⟩ := hs.begins rfl
    rw [List.cons_append, program.eq_def]
    refine bind_eq_ok_iff.2 ⟨s, _, w, hs'.1, hs', ?_⟩
    simp only [ih rfl rfl rfl]
    rfl
  | _ => cases hp

/-- Tokens are a program if they are a block followed by nothing. -/
theorem program_eq_ok_iff {ts : List Lexeme} {ss : List (Statement Unit)} :
    program ts = .ok ss ↔ Derives .block ts (.statements ss) [] :=
  ⟨derives_of_program, program_of_derives⟩

end Aggregation.Grammar
