import Aggregation.Proofs.Lookahead

/-! Which tokens are a type annotation, and which are a list of parameters.

`Annotates p u v r` says that the tokens `u`, followed by `r`, are a phrase `p` that denotes `v`.
The tokens behind a phrase matter only in that they must not continue it. Brackets that enclose a
phrase belong to what is around it, so a phrase by itself is always balanced.

The rules of the grammar read just these phrases (`typeExpr_sound`, `typeExpr_complete` and their
like for parameters). -/
namespace Aggregation.Grammar

/-- The phrases of annotations: whole ones, those behind which brackets may go on, those without
brackets, and what stands between the brackets of a named type and the braces of an object type. -/
inductive TypePhrase
  | full
  | bracketed
  | plain
  | args
  | members

/-- What the phrases of annotations denote. -/
inductive TypePiece
  | one (a : TypeExpr)
  | many (as : List TypeExpr)
  | fields (fs : List (String × TypeExpr))

/-- The name of a member that a token is. -/
def memberKey? : Token → Option String
  | .string name => some name
  | .name name => some name
  | _ => none

/-- A question mark, or nothing. -/
inductive Questioned : List Lexeme → Prop
  | nil : Questioned []
  | mark (p : Span) : Questioned [⟨.symbol .question, p⟩]

/-- The tokens are a phrase of an annotation, followed by the given ones. -/
inductive Annotates : TypePhrase → List Lexeme → TypePiece → List Lexeme → Prop
  | name {n p r} (hr : startsWith .lt r = false) :
      Annotates .plain [⟨.name n, p⟩] (.one (namedType n [])) r
  | null {p r} : Annotates .plain [⟨.null, p⟩] (.one (.named "null" [])) r
  | applied {n p₁ p₂ p₃ u as r} (hu : Annotates .args u (.many as) (⟨.symbol .gt, p₃⟩ :: r)) :
      Annotates .plain (⟨.name n, p₁⟩ :: ⟨.symbol .lt, p₂⟩ :: u ++ [⟨.symbol .gt, p₃⟩])
        (.one (namedType n as)) r
  | object {p₁ p₂ u fs r} (hu : Annotates .members u (.fields fs) (⟨.symbol .rightBrace, p₂⟩ :: r)) :
      Annotates .plain (⟨.symbol .leftBrace, p₁⟩ :: u ++ [⟨.symbol .rightBrace, p₂⟩])
        (.one (.object fs)) r
  | start {u a r} (hu : Annotates .plain u (.one a) r) : Annotates .bracketed u (.one a) r
  | array {u a p₁ p₂ r}
      (hu : Annotates .bracketed u (.one a)
        (⟨.symbol .leftBracket, p₁⟩ :: ⟨.symbol .rightBracket, p₂⟩ :: r)) :
      Annotates .bracketed (u ++ [⟨.symbol .leftBracket, p₁⟩, ⟨.symbol .rightBracket, p₂⟩])
        (.one (.array a)) r
  | full {u a r} (hu : Annotates .bracketed u (.one a) r) (hr : startsWithPair r = false) :
      Annotates .full u (.one a) r
  | lastArg {u a r} (hu : Annotates .full u (.one a) r) : Annotates .args u (.many [a]) r
  | arg {u a p w as r} (hu : Annotates .full u (.one a) (⟨.symbol .comma, p⟩ :: w ++ r))
      (hw : Annotates .args w (.many as) r) :
      Annotates .args (u ++ ⟨.symbol .comma, p⟩ :: w) (.many (a :: as)) r
  | noMember {r} : Annotates .members [] (.fields []) r
  | lastMember {x n q p u a r} (hx : memberKey? x.token = some n) (hq : Questioned q)
      (hu : Annotates .full u (.one a) r) :
      Annotates .members (x :: q ++ ⟨.symbol .colon, p⟩ :: u) (.fields [(n, a)]) r
  | member {x n q p u a y w fs r} (hx : memberKey? x.token = some n) (hq : Questioned q)
      (hy : y.token = .symbol .semicolon ∨ y.token = .symbol .comma)
      (hu : Annotates .full u (.one a) (y :: w ++ r)) (hw : Annotates .members w (.fields fs) r) :
      Annotates .members (x :: q ++ ⟨.symbol .colon, p⟩ :: u ++ y :: w) (.fields ((n, a) :: fs)) r

namespace Annotates

/-- An annotation has a token. -/
theorem ne_nil {p : TypePhrase} {u : List Lexeme} {a : TypeExpr} {r : List Lexeme}
    (h : Annotates p u (.one a) r) : u ≠ [] := by
  generalize hv : TypePiece.one a = v at h
  induction h generalizing a with
  | start _ ih | full _ _ ih => exact ih hv
  | array _ ih => simp
  | _ => simp_all

theorem balanced_member {x : Lexeme} {n : String} {q u : List Lexeme} {p : Span}
    (hx : memberKey? x.token = some n) (hq : Questioned q) (hu : Balanced u) :
    Balanced (x :: q ++ ⟨.symbol .colon, p⟩ :: u) := by
  have hx' : opens x.token = false ∧ closes x.token = false := by
    obtain ⟨t, s⟩ := x
    cases t <;> simp [memberKey?] at hx <;> exact ⟨rfl, rfl⟩
  refine .append (.plain hx'.1 hx'.2 ?_) (.plain rfl rfl hu)
  cases hq with
  | nil => exact .nil
  | mark p => exact .singleton rfl rfl

/-- Annotations are balanced. -/
theorem balanced {p : TypePhrase} {u : List Lexeme} {v : TypePiece} {r : List Lexeme}
    (h : Annotates p u v r) : Balanced u := by
  induction h with
  | name | null => exact .singleton rfl rfl
  | applied _ ih => exact .plain rfl rfl (.plain rfl rfl (ih.append (.singleton rfl rfl)))
  | object _ ih => exact .bracketed rfl ih rfl
  | start _ ih | full _ _ ih | lastArg _ ih => exact ih
  | array _ ih => exact ih.append (.group rfl .nil rfl .nil)
  | arg _ _ ih ihw => exact ih.append (.plain rfl rfl ihw)
  | noMember => exact .nil
  | lastMember hx hq _ ih => exact balanced_member hx hq ih
  | member hx hq hy _ _ ih ihw =>
    refine (balanced_member hx hq ih).append (.plain ?_ ?_ ihw) <;>
      rcases hy with hy | hy <;> rw [hy] <;> rfl

/-- An annotation stays one when what follows it shows nothing new. -/
theorem looks {p : TypePhrase} {u : List Lexeme} {v : TypePiece} {r r' : List Lexeme}
    (h : Annotates p u v r) (hr : Looks r r') : Annotates p u v r' := by
  induction h generalizing r' with
  | name hlt => exact .name (hr.symbol _ (by decide) (by decide) hlt)
  | null => exact .null
  | applied _ ih => exact .applied (ih (hr.append [_]))
  | object _ ih => exact .object (ih (hr.append [_]))
  | start _ ih => exact .start (ih hr)
  | array _ ih => exact .array (ih (hr.append [_, _]))
  | full _ hp ih => exact .full (ih hr) (hr.pair hp)
  | lastArg _ ih => exact .lastArg (ih hr)
  | @arg _ _ _ w _ _ _ _ ih ihw => exact .arg (ih (hr.append (_ :: w))) (ihw hr)
  | noMember => exact .noMember
  | lastMember hx hq _ ih => exact .lastMember hx hq (ih hr)
  | @member _ _ _ _ _ _ _ w _ _ hx hq hy _ _ ih ihw =>
    exact .member hx hq hy (ih (hr.append (_ :: w))) (ihw hr)

end Annotates

/-! ### The rules read annotations -/

/-- Brackets behind an annotation are read as long as there are any. -/
theorem brackets_sound {a : TypeExpr} {u ts : List Lexeme}
    (h : Annotates .bracketed u (.one a) ts) :
    ∃ w b q hq, brackets a (stopOf u) ts = ⟨b, stopOf (u ++ w), q, hq⟩ ∧ ts = w ++ q ∧
      Annotates .full (u ++ w) (.one b) q := by
  rw [brackets.eq_def]
  split
  · next p₁ p₂ r =>
    obtain ⟨w, b, q, hq, hb, rfl, hw⟩ := brackets_sound h.array
    rw [stopOf_append_cons, stopOf_cons_cons, stopOf_singleton] at hb
    refine ⟨_ :: _ :: w, b, q, ?_, ?_, rfl, by simpa using hw⟩
    · simp only [List.length_cons]
      omega
    · simp only [hb]
      simp
  · next hts =>
    refine ⟨[], a, ts, length_lt ts, by rw [List.append_nil], rfl, ?_⟩
    rw [List.append_nil]
    refine .full h (Bool.eq_false_iff.2 fun hp => ?_)
    obtain ⟨h₁, h₂⟩ := Bool.and_eq_true_iff.1 hp
    obtain ⟨p₁, r, rfl⟩ := startsWith_iff.1 h₁
    obtain ⟨p₂, r, rfl⟩ := startsWith_iff.1 h₂
    exact hts _ _ _ rfl
termination_by ts.length

/-- What the rule for member names reads. -/
theorem yields_memberName {ts : List Lexeme} {name : String} {stop : Nat} {r : List Lexeme} :
    Yields (memberName ts) name stop r ↔
      ∃ x, ts = x :: r ∧ memberKey? x.token = some name ∧ x.span.stop = stop := by
  unfold memberName
  split
  · next n p q =>
    constructor
    · intro h
      obtain ⟨rfl, rfl, rfl⟩ := yields_ok.1 h
      exact ⟨_, rfl, rfl, rfl⟩
    · rintro ⟨x, hx, hk, rfl⟩
      obtain ⟨rfl, rfl⟩ := List.cons.inj hx
      exact yields_ok.2 ⟨Option.some.inj hk, rfl, rfl⟩
  · next hts =>
    rw [yields_identifier]
    constructor
    · rintro ⟨p, rfl, rfl⟩
      exact ⟨_, rfl, rfl, rfl⟩
    · rintro ⟨⟨t, p⟩, rfl, hk, rfl⟩
      cases t <;> simp [memberKey?] at hk
      · exact absurd rfl (hts _ _ _)
      · exact ⟨p, by rw [hk], rfl⟩

/-- A question mark that may be left out. -/
theorem questioned_optional (ts : List Lexeme) :
    ∃ w, Questioned w ∧ ts = w ++ (optional .question 0 ts).rest := by
  obtain ⟨p, r, h, rfl, ho⟩ | ⟨-, h, ho⟩ := optional_cases .question 0 ts
  · exact ⟨_, .mark p, by rw [ho]; rfl⟩
  · exact ⟨[], .nil, by rw [ho]; rfl⟩

mutual

theorem typeExpr_sound {ts : List Lexeme} {a : TypeExpr} {stop : Nat} {r : List Lexeme}
    (h : Yields (typeExpr ts) a stop r) :
    ∃ u, ts = u ++ r ∧ stop = stopOf u ∧ Annotates .full u (.one a) r := by
  rw [typeExpr] at h
  obtain ⟨b, s, q, hq, hb, h⟩ := yields_bind.1 h
  obtain ⟨u, hu, rfl, hu'⟩ := plainType_sound hb
  obtain ⟨w, c, r', hr, hw, rfl, hc⟩ := brackets_sound hu'.start
  simp only [hw] at h
  obtain ⟨rfl, rfl, rfl⟩ := yields_pure.1 h
  exact ⟨u ++ w, by rw [hu, List.append_assoc], rfl, hc⟩
termination_by 4 * ts.length + 1

theorem plainType_sound {ts : List Lexeme} {a : TypeExpr} {stop : Nat} {r : List Lexeme}
    (h : Yields (plainType ts) a stop r) :
    ∃ u, ts = u ++ r ∧ stop = stopOf u ∧ Annotates .plain u (.one a) r := by
  rw [plainType.eq_def] at h
  split at h
  · next p q =>
    obtain ⟨fs, s, q, hq, hf, h⟩ := yields_bind.1 h
    obtain ⟨rfl, rfl, rfl⟩ := yields_pure.1 h
    obtain ⟨u, p', rfl, rfl, hu⟩ := members_sound hf
    exact ⟨⟨_, p⟩ :: u ++ [_], by simp, by simp, .object hu⟩
  · next n p₁ p₂ q =>
    obtain ⟨as, s, q, hq, hf, h⟩ := yields_bind.1 h
    obtain ⟨rfl, rfl, rfl⟩ := yields_pure.1 h
    obtain ⟨u, p', rfl, rfl, hu⟩ := typeArgs_sound hf
    exact ⟨⟨_, p₁⟩ :: ⟨_, p₂⟩ :: u ++ [_], by simp, by simp, .applied hu⟩
  · next hlt =>
    obtain ⟨rfl, rfl, rfl⟩ := yields_ok.1 h
    refine ⟨[_], rfl, rfl, .name (Bool.eq_false_iff.2 fun hs => ?_)⟩
    obtain ⟨p, r, rfl⟩ := startsWith_iff.1 hs
    exact hlt _ _ rfl
  · obtain ⟨rfl, rfl, rfl⟩ := yields_ok.1 h
    exact ⟨[_], rfl, rfl, .null⟩
  · exact absurd h not_yields_error
termination_by 4 * ts.length

theorem typeArgs_sound {ts : List Lexeme} {as : List TypeExpr} {stop : Nat} {r : List Lexeme}
    (h : Yields (typeArgs ts) as stop r) :
    ∃ u p, ts = u ++ ⟨.symbol .gt, p⟩ :: r ∧ stop = p.stop ∧
      Annotates .args u (.many as) (⟨.symbol .gt, p⟩ :: r) := by
  rw [typeArgs] at h
  obtain ⟨a, s, q, hq, ha, h⟩ := yields_bind.1 h
  obtain ⟨u, hu, rfl, hu'⟩ := typeExpr_sound ha
  dsimp only at h
  split at h
  · next p q _ =>
    obtain ⟨as, s, q', hq', has, h⟩ := yields_bind.1 h
    obtain ⟨rfl, rfl, rfl⟩ := yields_pure.1 h
    obtain ⟨w, p', rfl, rfl, hw⟩ := typeArgs_sound has
    exact ⟨u ++ ⟨_, p⟩ :: w, p', by simp [hu], rfl, .arg (by simpa using hu') hw⟩
  · obtain ⟨_, s, q', hq', hg, h⟩ := yields_bind.1 h
    obtain ⟨rfl, rfl, rfl⟩ := yields_pure.1 h
    obtain ⟨p, rfl, rfl⟩ := yields_expect.1 hg
    exact ⟨u, p, hu, rfl, .lastArg hu'⟩
termination_by 4 * ts.length + 2

theorem members_sound {ts : List Lexeme} {fs : List (String × TypeExpr)} {stop : Nat}
    {r : List Lexeme} (h : Yields (members ts) fs stop r) :
    ∃ u p, ts = u ++ ⟨.symbol .rightBrace, p⟩ :: r ∧ stop = p.stop ∧
      Annotates .members u (.fields fs) (⟨.symbol .rightBrace, p⟩ :: r) := by
  rw [members.eq_def] at h
  split at h
  · obtain ⟨rfl, rfl, rfl⟩ := yields_ok.1 h
    exact ⟨[], _, rfl, rfl, .noMember⟩
  · obtain ⟨n, _, q, hq, hn, h⟩ := yields_bind.1 h
    obtain ⟨x, rfl, hx, -⟩ := yields_memberName.1 hn
    obtain ⟨w, hw, ho⟩ := questioned_optional q
    dsimp only at h
    generalize optional .question 0 q = o at h ho
    obtain ⟨_, _, q₁, hq₁⟩ := o
    obtain ⟨_, _, q₂, hq₂, hc, h⟩ := yields_bind.1 h
    obtain ⟨p, hp, -⟩ := yields_expect.1 hc
    obtain ⟨a, _, q₃, hq₃, ha, h⟩ := yields_bind.1 h
    obtain ⟨u, hu, -, hu'⟩ := typeExpr_sound ha
    dsimp only at h ho hp
    split at h
    · next hs =>
      obtain ⟨fs, _, q₄, hq₄, hf, h⟩ := yields_bind.1 h
      obtain ⟨rfl, rfl, rfl⟩ := yields_pure.1 h
      obtain ⟨v, p', hv, rfl, hv'⟩ := members_sound hf
      obtain ⟨y, hy, rfl⟩ : ∃ y, (y.token = .symbol .semicolon ∨ y.token = .symbol .comma) ∧
          q₃ = y :: (v ++ ⟨.symbol .rightBrace, p'⟩ :: q₄) := by
        match q₃ with
        | [] => simp at hs
        | y :: q₃ => exact ⟨y, by simpa using hs, by rw [← hv]; rfl⟩
      subst ho hp hu
      exact ⟨x :: w ++ ⟨_, p⟩ :: u ++ y :: v, p', by simp, rfl,
        .member hx hw hy (by simpa using hu') hv'⟩
    · obtain ⟨_, s, q₄, hq₄, hg, h⟩ := yields_bind.1 h
      obtain ⟨rfl, rfl, rfl⟩ := yields_pure.1 h
      obtain ⟨p', rfl, rfl⟩ := yields_expect.1 hg
      subst ho hp hu
      exact ⟨x :: w ++ ⟨_, p⟩ :: u, p', by simp, rfl, .lastMember hx hw hu'⟩
termination_by 4 * ts.length + 3
decreasing_by all_goals grind

end

/-! ### Annotations are read by the rules -/

/-- The rule of a phrase reads it. The rule for what stands between brackets reads the closing one
too, and behind an annotation that may go on its rule is still to read the brackets. -/
def ReadsType : TypePhrase → List Lexeme → TypePiece → List Lexeme → Prop
  | .full, u, .one a, r => ∀ ts, ts = u ++ r → Yields (typeExpr ts) a (stopOf u) r
  | .bracketed, u, .one a, r => ∀ ts, ts = u ++ r →
    ∀ b stop q h, brackets a (stopOf u) r = ⟨b, stop, q, h⟩ → Yields (typeExpr ts) b stop q
  | .plain, u, .one a, r => ∀ ts, ts = u ++ r → Yields (plainType ts) a (stopOf u) r
  | .args, u, .many as, r => ∀ p q, r = ⟨.symbol .gt, p⟩ :: q →
    ∀ ts, ts = u ++ r → Yields (typeArgs ts) as p.stop q
  | .members, u, .fields fs, r => ∀ p q, r = ⟨.symbol .rightBrace, p⟩ :: q →
    ∀ ts, ts = u ++ r → Yields (members ts) fs p.stop q
  | _, _, _, _ => True

theorem brackets_of_not_pair {a : TypeExpr} {stop : Nat} {ts : List Lexeme}
    (h : startsWithPair ts = false) : brackets a stop ts = ⟨a, stop, ts, length_lt ts⟩ := by
  unfold brackets
  split
  · simp [startsWithPair] at h
  · rfl

theorem optional_questioned {w : List Lexeme} (hw : Questioned w) (p : Span) (r : List Lexeme) :
    (optional .question 0 (w ++ ⟨.symbol .colon, p⟩ :: r)).rest = ⟨.symbol .colon, p⟩ :: r := by
  cases hw <;> simp [optional, expect]

/-- The rule for members reads the name, the colon and the type of the first, and then decides by
the next token whether there are more. -/
theorem yields_members {x : Lexeme} {n : String} {w : List Lexeme} {p : Span}
    {us q : List Lexeme} {a : TypeExpr} {s stop : Nat} {fs : List (String × TypeExpr)}
    {r : List Lexeme} (hx : memberKey? x.token = some n) (hw : Questioned w)
    (ha : Yields (typeExpr us) a s q)
    (hfs : (startsWith .semicolon q || startsWith .comma q) = true ∧
        (∃ gs, Yields (members q.tail) gs stop r ∧ (n, a) :: gs = fs) ∨
      (startsWith .semicolon q || startsWith .comma q) = false ∧
        Yields (expect .rightBrace q) () stop r ∧ [(n, a)] = fs) (ts : List Lexeme)
    (hts : ts = x :: (w ++ ⟨.symbol .colon, p⟩ :: us)) : Yields (members ts) fs stop r := by
  rw [members.eq_def]
  split
  · obtain ⟨rfl, -⟩ := List.cons.inj hts
    cases hx
  · subst hts
    refine (yields_memberName.2 ⟨x, rfl, hx, rfl⟩).bind fun h => ?_
    have ho := optional_questioned hw p us
    dsimp only
    generalize optional .question 0 (w ++ ⟨.symbol .colon, p⟩ :: us) = o at ho ⊢
    obtain ⟨_, _, q₁, h₁⟩ := o
    obtain rfl : q₁ = _ := ho
    refine (expect_cons .colon p us).bind fun h₂ => ?_
    refine ha.bind fun h₃ => ?_
    obtain ⟨hq, gs, hgs, rfl⟩ | ⟨hq, hg, rfl⟩ := hfs
    · rw [if_pos hq]
      exact hgs.bind fun _ => yields_pure.2 ⟨rfl, rfl, rfl⟩
    · simp only [hq]
      exact hg.bind fun _ => yields_pure.2 ⟨rfl, rfl, rfl⟩

namespace Annotates

/-- Annotations are what the rules for them read. -/
theorem reads {p : TypePhrase} {u : List Lexeme} {v : TypePiece} {r : List Lexeme}
    (h : Annotates p u v r) : ReadsType p u v r := by
  induction h with
  | @name n p r hlt =>
    intro ts hts
    rw [plainType.eq_def]
    split
    · cases hts
    · cases hts
      simp at hlt
    · cases hts
      exact yields_ok.2 ⟨rfl, rfl, rfl⟩
    · cases hts
    · next h _ => exact (h _ _ _ hts).elim
  | @null p r =>
    rintro ts hts
    obtain rfl : ts = ⟨.null, p⟩ :: r := hts
    rw [plainType]
    exact yields_ok.2 ⟨rfl, rfl, rfl⟩
  | @applied n p₁ p₂ p₃ u as r _ ih =>
    rintro ts hts
    obtain rfl : ts = ⟨.name n, p₁⟩ :: ⟨.symbol .lt, p₂⟩ :: (u ++ ⟨.symbol .gt, p₃⟩ :: r) := by
      simpa using hts
    rw [plainType]
    exact (ih p₃ r rfl _ rfl).bind fun _ => yields_pure.2 ⟨rfl, by simp, rfl⟩
  | @object p₁ p₂ u fs r _ ih =>
    rintro ts hts
    obtain rfl : ts = ⟨.symbol .leftBrace, p₁⟩ :: (u ++ ⟨.symbol .rightBrace, p₂⟩ :: r) := by
      simpa using hts
    rw [plainType]
    exact (ih p₂ r rfl _ rfl).bind fun _ => yields_pure.2 ⟨rfl, by simp, rfl⟩
  | start _ ih =>
    rintro ts rfl b stop q h hb
    rw [typeExpr]
    refine (ih _ rfl).bind fun _ => ?_
    simp only [hb]
    exact yields_pure.2 ⟨rfl, rfl, rfl⟩
  | @array u a p₁ p₂ r _ ih =>
    -- Behind `u` the rule reads this pair of brackets first, and then goes on as it does here.
    rintro ts hts b stop q h hb
    rw [stopOf_append_cons, stopOf_cons_cons, stopOf_singleton] at hb
    refine ih ts (by simp [hts]) b stop q (by simp only [List.length_cons]; omega) ?_
    simp only [brackets, hb]
  | full _ hp ih => exact fun ts hts => ih ts hts _ _ _ _ (brackets_of_not_pair hp)
  | @lastArg u a r _ ih =>
    rintro p q rfl ts hts
    rw [typeArgs]
    exact (ih ts hts).bind fun _ => (expect_cons .gt p q).bind fun _ => yields_pure.2 ⟨rfl, rfl, rfl⟩
  | @arg u a p w as r _ _ ih ihw =>
    rintro p' q rfl ts hts
    rw [typeArgs]
    refine (ih ts (by simp [hts])).bind fun _ => ?_
    exact (ihw p' q rfl _ rfl).bind fun _ => yields_pure.2 ⟨rfl, rfl, rfl⟩
  | noMember =>
    rintro p q rfl ts rfl
    simp [members]
  | @lastMember x n w p u a r hx hw _ ih =>
    rintro p' q rfl ts hts
    exact yields_members hx hw (ih _ rfl) (.inr ⟨rfl, expect_cons _ _ _, rfl⟩) ts (by simpa using hts)
  | @member x n w p u a y v fs r hx hw hy _ _ ih ihv =>
    rintro p' q rfl ts hts
    refine yields_members hx hw (ih _ rfl) (.inl ⟨?_, fs, ihv p' q rfl _ rfl, rfl⟩) ts
      (by simpa using hts)
    rcases hy with hy | hy <;> simp [hy]

end Annotates

/-- Whole annotations are what `typeExpr` reads. -/
theorem typeExpr_complete {u : List Lexeme} {a : TypeExpr} {r : List Lexeme}
    (h : Annotates .full u (.one a) r) : Yields (typeExpr (u ++ r)) a (stopOf u) r :=
  h.reads _ rfl

/-! ### Annotations behind a colon -/

/-- The tokens are an annotation with the colon before it, or nothing. -/
inductive Ascribes : List Lexeme → Option TypeExpr → List Lexeme → Prop
  | none {r} (hr : startsWith .colon r = false) : Ascribes [] none r
  | some {p u a r} (hu : Annotates .full u (.one a) r) :
      Ascribes (⟨.symbol .colon, p⟩ :: u) (some a) r

namespace Ascribes

variable {u : List Lexeme} {a : Option TypeExpr} {r r' : List Lexeme}

theorem balanced (h : Ascribes u a r) : Balanced u := by
  cases h with
  | none => exact .nil
  | some hu => exact .plain rfl rfl hu.balanced

theorem looks (h : Ascribes u a r) (hr : Looks r r') : Ascribes u a r' := by
  cases h with
  | none hc => exact .none (hr.symbol _ (by decide) (by decide) hc)
  | some hu => exact .some (hu.looks hr)

end Ascribes

theorem typeAfterColon_sound {w ts : List Lexeme} {a : Option TypeExpr} {stop : Nat}
    {r : List Lexeme} (h : Yields (typeAfterColon (stopOf w) ts) a stop r) :
    ∃ u, ts = u ++ r ∧ stop = stopOf (w ++ u) ∧ Ascribes u a r := by
  unfold typeAfterColon at h
  split at h
  · next p q =>
    obtain ⟨a, s, q, _, ha, h⟩ := yields_bind.1 h
    obtain ⟨rfl, rfl, rfl⟩ := yields_pure.1 h
    obtain ⟨u, rfl, rfl, hu⟩ := typeExpr_sound ha
    refine ⟨⟨_, p⟩ :: u, rfl, ?_, .some hu⟩
    rw [stopOf_append_cons, stopOf_cons _ hu.ne_nil]
  · next hc =>
    obtain ⟨rfl, rfl, rfl⟩ := yields_ok.1 h
    refine ⟨[], rfl, by rw [List.append_nil], .none (Bool.eq_false_iff.2 fun hs => ?_)⟩
    obtain ⟨p, q, rfl⟩ := startsWith_iff.1 hs
    exact hc _ _ rfl

theorem typeAfterColon_complete {u : List Lexeme} {a : Option TypeExpr} {r : List Lexeme}
    (h : Ascribes u a r) (w : List Lexeme) :
    Yields (typeAfterColon (stopOf w) (u ++ r)) a (stopOf (w ++ u)) r := by
  cases h with
  | none hr =>
    rw [List.append_nil, List.nil_append, typeAfterColon]
    · exact yields_ok.2 ⟨rfl, rfl, rfl⟩
    · rintro p q rfl
      simp at hr
  | @some p u a _ hu =>
    rw [stopOf_append_cons, stopOf_cons _ hu.ne_nil, List.cons_append, typeAfterColon]
    exact (typeExpr_complete hu).bind fun _ => yields_pure.2 ⟨rfl, rfl, rfl⟩

/-! ### Parameters -/

/-- The tokens are the parameters of a function, up to the closing parenthesis. -/
inductive Declares : List Lexeme → List Param → List Lexeme → Prop
  | none {r} : Declares [] [] r
  | last {n p w a r} (hw : Ascribes w a r) : Declares (⟨.name n, p⟩ :: w) [⟨n, p, a⟩] r
  | more {n p w a p' u ps r} (hw : Ascribes w a (⟨.symbol .comma, p'⟩ :: u ++ r))
      (hu : Declares u ps r) :
      Declares (⟨.name n, p⟩ :: w ++ ⟨.symbol .comma, p'⟩ :: u) (⟨n, p, a⟩ :: ps) r

namespace Declares

variable {u : List Lexeme} {ps : List Param} {r r' : List Lexeme}

theorem balanced (h : Declares u ps r) : Balanced u := by
  induction h with
  | none => exact .nil
  | last hw => exact .plain rfl rfl hw.balanced
  | more hw _ ih => exact .append (.plain rfl rfl hw.balanced) (.plain rfl rfl ih)

theorem looks (h : Declares u ps r) (hr : Looks r r') : Declares u ps r' := by
  induction h with
  | none => exact .none
  | last hw => exact .last (hw.looks hr)
  | @more _ _ _ _ _ u _ _ hw _ ih => exact .more (hw.looks (hr.append (_ :: u))) (ih hr)

end Declares

theorem param_sound {ts : List Lexeme} {v : Param} {stop : Nat} {r : List Lexeme}
    (h : Yields (param ts) v stop r) :
    ∃ n p w a, ts = ⟨.name n, p⟩ :: w ++ r ∧ v = ⟨n, p, a⟩ ∧ Ascribes w a r := by
  rw [param] at h
  obtain ⟨n, s, q, _, hn, h⟩ := yields_bind.1 h
  obtain ⟨p, rfl, rfl⟩ := yields_identifier.1 hn
  obtain ⟨a, s, q, _, ha, h⟩ := yields_bind.1 h
  obtain ⟨rfl, rfl, rfl⟩ := yields_pure.1 h
  obtain ⟨w, hw, -, hw'⟩ := typeAfterColon_sound (w := [⟨.name n, p⟩]) ha
  exact ⟨n, p, w, a, congrArg (_ :: ·) hw, rfl, hw'⟩

theorem params_sound {ts : List Lexeme} {ps : List Param} {stop : Nat} {r : List Lexeme}
    (h : Yields (params ts) ps stop r) :
    ∃ u p, ts = u ++ ⟨.symbol .rightParen, p⟩ :: r ∧ stop = p.stop ∧
      Declares u ps (⟨.symbol .rightParen, p⟩ :: r) := by
  rw [params.eq_def] at h
  split at h
  · obtain ⟨rfl, rfl, rfl⟩ := yields_ok.1 h
    exact ⟨[], _, rfl, rfl, .none⟩
  · obtain ⟨v, _, q, hq, hv, h⟩ := yields_bind.1 h
    obtain ⟨n, p, w, a, hts, rfl, hw⟩ := param_sound hv
    obtain ⟨_, _, q₁, hq₁, hs, h⟩ := yields_bind.1 h
    obtain ⟨ps, _, q₂, hq₂, hps, h⟩ := yields_bind.1 h
    obtain ⟨rfl, rfl, rfl⟩ := yields_pure.1 h
    obtain ⟨hc, rfl⟩ | ⟨-, p', rfl⟩ := yields_separator hs
    · obtain ⟨p', q, rfl⟩ := startsWith_iff.1 hc
      rw [params] at hps
      obtain ⟨rfl, rfl, rfl⟩ := yields_ok.1 hps
      exact ⟨⟨_, p⟩ :: w, p', hts, rfl, .last hw⟩
    · obtain ⟨u, p'', rfl, rfl, hu⟩ := params_sound hps
      exact ⟨⟨_, p⟩ :: w ++ ⟨_, p'⟩ :: u, p'', by simp [hts], rfl, .more (by simpa using hw) hu⟩
termination_by ts.length
decreasing_by all_goals grind

theorem param_complete {n : String} {p : Span} {w : List Lexeme} {a : Option TypeExpr}
    {r : List Lexeme} (h : Ascribes w a r) :
    ∃ stop, Yields (param (⟨.name n, p⟩ :: (w ++ r))) ⟨n, p, a⟩ stop r := by
  refine ⟨stopOf (⟨.name n, p⟩ :: w), ?_⟩
  rw [param]
  exact (identifier_cons n p _).bind fun _ =>
    (typeAfterColon_complete h [⟨.name n, p⟩]).bind fun _ => yields_pure.2 ⟨rfl, rfl, rfl⟩

theorem params_complete {u : List Lexeme} {ps : List Param} {p : Span} {r : List Lexeme}
    (h : Declares u ps (⟨.symbol .rightParen, p⟩ :: r)) :
    ∀ ts, ts = u ++ ⟨.symbol .rightParen, p⟩ :: r → Yields (params ts) ps p.stop r := by
  have hnil : Yields (params (⟨.symbol .rightParen, p⟩ :: r)) [] p.stop r := by
    rw [params]
    exact yields_ok.2 ⟨rfl, rfl, rfl⟩
  generalize hq : ⟨.symbol .rightParen, p⟩ :: r = q at h hnil
  induction h with
  | none =>
    rintro ts rfl
    exact hnil
  | @last n p' w a q hw =>
    rintro ts hts
    obtain rfl : ts = ⟨.name n, p'⟩ :: (w ++ q) := hts
    obtain ⟨_, hp⟩ := param_complete (n := n) (p := p') hw
    obtain ⟨_, hs⟩ : ∃ s, Yields (separator .rightParen q) () s q :=
      yields_separator_close (by simp [← hq])
    rw [params]
    · exact hp.bind fun _ => hs.bind fun _ => hnil.bind fun _ => yields_pure.2 ⟨rfl, rfl, rfl⟩
    · simp
  | @more n p₁ w a p₂ v ps q hw hv ih =>
    rintro ts hts
    obtain rfl : ts = ⟨.name n, p₁⟩ :: (w ++ ⟨.symbol .comma, p₂⟩ :: (v ++ q)) := by
      simpa using hts
    obtain ⟨_, hp⟩ := param_complete (n := n) (p := p₁) hw
    obtain ⟨_, hs⟩ : ∃ s, Yields (separator .rightParen (⟨.symbol .comma, p₂⟩ :: (v ++ q))) () s _ :=
      yields_separator_comma (by decide) p₂ (v ++ q)
    rw [params]
    · exact hp.bind fun _ => hs.bind fun _ => (ih hq hnil _ rfl).bind fun _ =>
        yields_pure.2 ⟨rfl, rfl, rfl⟩
    · simp

/-- What stands before an arrow. -/
inductive Heads : List Lexeme → List Param → List Lexeme → Prop
  | name {n p r} : Heads [⟨.name n, p⟩] [⟨n, p, none⟩] r
  | group {p u ps p' r} (hu : Declares u ps (⟨.symbol .rightParen, p'⟩ :: r)) :
      Heads (⟨.symbol .leftParen, p⟩ :: u ++ [⟨.symbol .rightParen, p'⟩]) ps r

namespace Heads

variable {u : List Lexeme} {ps : List Param} {r r' : List Lexeme}

theorem ne_nil (h : Heads u ps r) : u ≠ [] := by
  cases h <;> simp

theorem balanced (h : Heads u ps r) : Balanced u := by
  cases h with
  | name => exact .singleton rfl rfl
  | group hu => exact .bracketed rfl hu.balanced rfl

theorem looks (h : Heads u ps r) (hr : Looks r r') : Heads u ps r' := by
  cases h with
  | name => exact .name
  | group hu => exact .group (hu.looks (hr.append [_]))

/-- An arrow behind parameters is seen from the first of them. -/
theorem atArrow (h : Heads u ps (⟨.symbol .arrow, p⟩ :: r)) :
    atArrow (u ++ ⟨.symbol .arrow, p⟩ :: r) = true := by
  cases h with
  | name => simp [Grammar.atArrow]
  | @group p' v _ p'' _ hu =>
    have := hu.balanced.arrowAfter_close (y := ⟨.symbol .rightParen, p''⟩) rfl
      (⟨.symbol .arrow, p⟩ :: r)
    simpa [Grammar.atArrow] using this

end Heads

theorem arrowParams_sound {ts : List Lexeme} {ps : List Param} {stop : Nat} {r : List Lexeme}
    (h : Yields (arrowParams ts) ps stop r) : ∃ u, ts = u ++ r ∧ Heads u ps r := by
  rw [arrowParams.eq_def] at h
  split at h
  · next p q =>
    obtain ⟨ps, _, q, _, hps, h⟩ := yields_bind.1 h
    obtain ⟨rfl, rfl, rfl⟩ := yields_pure.1 h
    obtain ⟨u, p', rfl, rfl, hu⟩ := params_sound hps
    exact ⟨⟨_, p⟩ :: u ++ [_], by simp, .group hu⟩
  · obtain ⟨n, _, q, _, hn, h⟩ := yields_bind.1 h
    obtain ⟨p, rfl, rfl⟩ := yields_identifier.1 hn
    obtain ⟨rfl, rfl, rfl⟩ := yields_pure.1 h
    exact ⟨[⟨_, p⟩], rfl, .name⟩

theorem arrowParams_complete {u : List Lexeme} {ps : List Param} {r : List Lexeme}
    (h : Heads u ps r) : ∀ ts, ts = u ++ r → Yields (arrowParams ts) ps (stopOf u) r := by
  cases h with
  | @name n p =>
    rintro ts rfl
    exact (identifier_cons n p _).bind fun _ => yields_pure.2 ⟨rfl, rfl, rfl⟩
  | @group p v _ p' _ hv =>
    rintro ts hts
    obtain rfl : ts = ⟨.symbol .leftParen, p⟩ :: (v ++ ⟨.symbol .rightParen, p'⟩ :: r) := by
      simpa using hts
    exact (params_complete hv _ rfl).bind fun _ => yields_pure.2 ⟨rfl, by simp, rfl⟩

end Aggregation.Grammar
