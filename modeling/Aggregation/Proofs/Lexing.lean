import Aggregation.Proofs.Displacement
import Aggregation.Script.Parse

/-! Tokens of a text that stands in another text.

`Lexes offset cs ts` says that a text which begins at a place is cut into tokens. The place matters
only for those of the tokens (`Lexes.shift`). What follows a text matters if it could go on with the
last token or with a gap. A blank goes on with no token (`Token.scan_append`), and behind a line feed no
comment goes on either, so a text, a line feed and another text are cut into the tokens of both
(`Lexes.append`). -/
namespace Aggregation

/-! ### Blanks -/

theorem CodeRanges.exists_of_covers {ranges : CodeRanges} {n : Nat} (h : ranges.covers n = true) :
    ∃ r ∈ ranges, ∃ i < r.2 + 1 - r.1, n = r.1 + i := by
  induction ranges with
  | nil => cases h
  | cons r rest ih =>
    rw [covers] at h
    split at h
    · next hlast =>
      have hfirst := of_decide_eq_true h
      exact ⟨r, List.mem_cons_self, n - r.1, by omega, by omega⟩
    · obtain ⟨r', hr', hi⟩ := ih h
      exact ⟨r', List.mem_cons_of_mem r hr', hi⟩

/-- The blanks are few enough to look at each of them. -/
theorem forall_isBlank {p : Char → Prop}
    (h : ∀ r ∈ blankRanges, ∀ i < r.2 + 1 - r.1, p (Char.ofNat (r.1 + i))) {c : Char}
    (hc : isBlank c = true) : p c := by
  obtain ⟨r, hr, i, hi, hn⟩ := CodeRanges.exists_of_covers hc
  rw [← Char.ofNat_toNat c, hn]
  exact h r hr i hi

/-- No blank is part of a name. -/
theorem not_isNamePart_of_isBlank {c : Char} (h : isBlank c = true) : isNamePart c = false :=
  forall_isBlank (p := fun c => isNamePart c = false) (by decide +kernel) h

/-- No name begins with a blank. -/
theorem not_isBlank_of_isNameStart {c : Char} (h : isNameStart c = true) : isBlank c = false := by
  by_contra hblank
  have hpart := not_isNamePart_of_isBlank (Bool.of_not_eq_false hblank)
  rw [Token.isNamePart_of_isNameStart h] at hpart
  cases hpart

theorem notMem_of_isBlank {b : Char} (h : isBlank b = true) : b ∉ ['/', '*'] :=
  forall_isBlank (p := fun b => b ∉ ['/', '*']) (by decide) h

/-! ### Gaps -/

namespace Gap

/-- The cut of a text when a line feed and another text follow it: the gap goes on if it has reached
the end. -/
def extend (ds : List Char) (c : Cut) : Cut :=
  if c.rest = [] then (split ds).push (c.taken ++ ['\n']) else ⟨c.taken, c.rest ++ '\n' :: ds⟩

theorem extend_push (cs ds : List Char) (c : Cut) :
    extend ds (c.push cs) = (extend ds c).push cs := by
  unfold extend
  by_cases h : c.rest = []
  · simp [Cut.push, h]
  · simp [Cut.push, h]

/-- A text begins with a line comment, with a block comment, or with no comment. -/
theorem comment_cases (c : Char) (cs : List Char) :
    (∃ r, c = '/' ∧ cs = '/' :: r) ∨ (∃ r, c = '/' ∧ cs = '*' :: r) ∨
      (c = '/' → cs.head? ≠ some '/' ∧ cs.head? ≠ some '*') := by
  cases cs with
  | nil => simp
  | cons d r => by_cases hl : d = '/' <;> by_cases hb : d = '*' <;> by_cases hc : c = '/' <;> simp_all

theorem split_cons {c : Char} {cs : List Char}
    (h : c = '/' → cs.head? ≠ some '/' ∧ cs.head? ≠ some '*') :
    split (c :: cs) = if isBlank c then (split cs).push [c] else .none (c :: cs) := by
  rw [split]
  · rintro ds rfl rfl
    exact (h rfl).1 rfl
  · rintro ds rfl rfl
    exact (h rfl).2 rfl

/-- Blanks go on with the gap behind them. -/
theorem split_blanks {bs : List Char} (h : ∀ b ∈ bs, isBlank b = true) (cs : List Char) :
    split (bs ++ cs) = (split cs).push bs := by
  induction bs with
  | nil => rfl
  | cons b bs ih =>
    obtain ⟨hb, hbs⟩ := List.forall_mem_cons.1 h
    have hslash : b ≠ '/' := List.ne_of_not_mem_cons (notMem_of_isBlank hb)
    rw [List.cons_append, split_cons fun hs => absurd hs hslash, if_pos hb, ih hbs]
    rfl

theorem split_newline (ds : List Char) : split ('\n' :: ds) = (split ds).push ['\n'] :=
  split_blanks (List.forall_mem_singleton.2 (show isBlank '\n' = true by decide)) ds

theorem block_cons {c : Char} {cs : List Char} (h : c = '*' → cs.head? ≠ some '/') :
    block (c :: cs) = (block cs).map (·.push [c]) := by
  rw [block]
  rintro ds rfl rfl
  exact h rfl rfl

theorem head?_append_cons_ne {cs : List Char} {b d : Char} (hd : d ≠ b) (ds : List Char)
    (h : cs.head? ≠ some d) : (cs ++ b :: ds).head? ≠ some d := by
  cases cs with
  | nil => simpa using hd.symm
  | cons c cs => exact h

mutual

/-- A line feed behind a text goes on with a gap, but not with anything else. A comment that is not
closed could end behind it. -/
theorem split_append (cs ds : List Char) (h : ¬ ['/', '*'] <+: (split cs).rest) :
    split (cs ++ '\n' :: ds) = extend ds (split cs) := by
  match cs with
  | [] => exact split_newline ds
  | c :: cs =>
    rcases comment_cases c cs with ⟨r, rfl, rfl⟩ | ⟨r, rfl, rfl⟩ | hc
    · simp only [List.cons_append, split] at h ⊢
      rw [line_append r ds h, extend_push]
    · simp only [List.cons_append, split] at h ⊢
      cases hb : block r with
      | none =>
        -- A comment that is not closed is no gap, so the rest would begin with it.
        simp [hb, Cut.none] at h
      | some b =>
        simp only [hb] at h ⊢
        rw [block_append ds hb h, extend_push]
    · rw [split_cons hc] at h ⊢
      rw [List.cons_append, split_cons fun hs => ⟨head?_append_cons_ne (by decide) ds (hc hs).1,
        head?_append_cons_ne (by decide) ds (hc hs).2⟩]
      split
      · next hblank =>
        rw [if_pos hblank] at h
        rw [split_append cs ds h, extend_push]
      · simp [extend, Cut.none]
termination_by cs.length

theorem line_append (cs ds : List Char) (h : ¬ ['/', '*'] <+: (line cs).rest) :
    line (cs ++ '\n' :: ds) = extend ds (line cs) := by
  match cs with
  | [] => rfl
  | c :: cs =>
    simp only [List.cons_append, line] at h ⊢
    split
    · next hc =>
      rw [if_pos hc] at h
      rw [split_append cs ds h, extend_push]
    · next hc =>
      rw [if_neg hc] at h
      rw [line_append cs ds h, extend_push]
termination_by cs.length

theorem block_append {cs : List Char} {r : Cut} (ds : List Char) (hr : block cs = some r)
    (h : ¬ ['/', '*'] <+: r.rest) : block (cs ++ '\n' :: ds) = some (extend ds r) := by
  match cs with
  | [] => cases hr
  | c :: cs =>
    by_cases hc : c = '*' → cs.head? ≠ some '/'
    · rw [block_cons hc] at hr
      obtain ⟨b, hb, rfl⟩ := Option.map_eq_some_iff.1 hr
      rw [List.cons_append, block_cons fun hs => head?_append_cons_ne (by decide) ds (hc hs),
        block_append ds hb h, extend_push]
      rfl
    · push Not at hc
      obtain ⟨rfl, hs⟩ := hc
      obtain ⟨s, rfl⟩ := List.head?_eq_some_iff.1 hs
      obtain rfl := Option.some.inj hr
      simp only [List.cons_append, block]
      rw [split_append s ds h, extend_push]
termination_by cs.length

end

end Gap

/-! ### Single tokens -/

/-- The cut of a text when another text follows what is left of it. -/
def Cut.before (ds : List Char) (c : Cut) : Cut :=
  ⟨c.taken, c.rest ++ ds⟩

theorem Cut.before_push (cs ds : List Char) (c : Cut) :
    (c.push cs).before ds = (c.before ds).push cs := rfl

theorem Number.startsWithDigit_append {b : Char} (hb : isBlank b = true) (cs ds : List Char) :
    startsWithDigit (cs ++ b :: ds) = startsWithDigit cs := by
  cases cs with
  | nil => exact forall_isBlank (p := fun b => b.isDigit = false) (by decide) hb
  | cons c cs => rfl

/-- No blank is part of a number, not even as a sign. -/
theorem Number.run_blank {b : Char} (hb : isBlank b = true) (whole : Bool) (ds : List Char) :
    run whole (b :: ds) = ⟨[], b :: ds⟩ ∧ (b == '+' || b == '-') = false := by
  obtain ⟨hdigit, hpoint, hletter, hsign⟩ : b.isDigit = false ∧ (b == '.') = false ∧
      (b == 'e' || b == 'E') = false ∧ (b == '+' || b == '-') = false :=
    forall_isBlank (p := fun b => b.isDigit = false ∧ (b == '.') = false ∧
      (b == 'e' || b == 'E') = false ∧ (b == '+' || b == '-') = false) (by decide) hb
  refine ⟨?_, hsign⟩
  rw [run.eq_def]
  simp only [hdigit, hpoint, hletter, Bool.false_and]
  rfl

theorem Number.run_append {b : Char} (hb : isBlank b = true) (whole : Bool) (cs ds : List Char) :
    run whole (cs ++ b :: ds) = (run whole cs).before (b :: ds) := by
  fun_induction run whole cs with
  | case1 whole => exact (run_blank hb whole ds).1
  | case2 whole c cs hc ih =>
    rw [List.cons_append, run.eq_def]
    simp only [if_pos hc, ih, Cut.before_push]
  | case3 whole c cs hc hp ih =>
    rw [List.cons_append, run.eq_def]
    simp only [if_neg hc, startsWithDigit_append hb, if_pos hp, ih, Cut.before_push]
  | case4 whole c hc he hp =>
    -- The exponent has no digit yet, and a blank is none.
    rw [← startsWithDigit_append hb [] ds, List.nil_append] at hp
    obtain ⟨hrun, hsign⟩ := run_blank hb false ds
    rw [List.cons_append, run.eq_def]
    simp only [if_neg hc, if_neg hp, if_pos he, List.nil_append, hsign, hrun]
    rfl
  | case5 whole c hc he d cs hd hp ih =>
    rw [← startsWithDigit_append hb _ ds, List.cons_append] at hp
    rw [List.cons_append, run.eq_def]
    simp only [if_neg hc, if_neg hp, if_pos he, List.cons_append, if_pos hd, ih, Cut.before_push]
  | case6 whole c hc he d cs hd hp ih =>
    rw [← startsWithDigit_append hb _ ds, List.cons_append] at hp
    rw [List.cons_append, run.eq_def]
    simp only [if_neg hc, if_neg hp, if_pos he, List.cons_append, if_neg hd, Cut.before_push]
    rw [← ih, List.cons_append]
  | case7 whole c cs hc hp he =>
    rw [List.cons_append, run.eq_def]
    simp only [if_neg hc, startsWithDigit_append hb, if_neg hp, if_neg he]
    rfl

theorem Quotation.Ending.push_eq_closed {c : Char} {e : Ending} {v : List Char}
    (h : e.push c = .closed v) : ∃ w, e = .closed w ∧ v = c :: w := by
  cases e with
  | closed w =>
    injection h with h
    exact ⟨w, rfl, h.symm⟩
  | unterminated | badEscape => cases h

theorem Quotation.body_append {quote : Char} {cs v : List Char} (ds : List Char)
    (h : (body quote cs).ending = .closed v) :
    body quote (cs ++ ds) = ⟨.closed v, (body quote cs).cut.before ds⟩ := by
  fun_induction body quote cs generalizing v with
  | case1 | case3 | case4 | case6 => cases h
  | case2 cs =>
    injection h with h
    subst h
    rw [List.cons_append, body.eq_def]
    simp only [if_true]
    rfl
  | case5 c cs d hd hq hn ih =>
    obtain ⟨w, hw, rfl⟩ := Ending.push_eq_closed h
    rw [List.cons_append, body.eq_def]
    simp only [if_neg hq, if_neg hn, if_true, List.cons_append, hd, ih hw]
    rfl
  | case7 c cs hq hn hb ih =>
    obtain ⟨w, hw, rfl⟩ := Ending.push_eq_closed h
    rw [List.cons_append, body.eq_def]
    simp only [if_neg hq, if_neg hn, if_neg hb, ih hw]
    rfl

theorem Cut.span_append {p : Char → Bool} {d : Char} (hd : p d = false) (cs ds : List Char) :
    Cut.span p (cs ++ d :: ds) = (Cut.span p cs).before (d :: ds) := by
  induction cs with
  | nil => simp [Cut.span, Cut.before, hd]
  | cons c cs ih =>
    simp only [Cut.span, Cut.before, Cut.mk.injEq] at ih ⊢
    by_cases hc : p c = true
    · simp [hc, ih]
    · simp [hc]

namespace Token

theorem not_isBlank_of_mem_text {s : Symbol} : ∀ c ∈ s.text.toList, isBlank c = false := by
  have hall : (s.text.toList.all fun c => !isBlank c) = true := by
    cases s <;> decide
  intro c hc
  simpa using List.all_eq_true.1 hall c hc

theorem isPrefixOf_append_cons {w : List Char} {b : Char} (h : b ∉ w) (cs ds : List Char) :
    w.isPrefixOf (cs ++ b :: ds) = w.isPrefixOf cs := by
  induction w generalizing cs with
  | nil => simp
  | cons x w ih =>
    obtain ⟨hx, hw⟩ := not_or.1 (mt List.mem_cons.2 h)
    cases cs with
    | nil => simpa [List.isPrefixOf] using fun hx' => absurd hx'.symm hx
    | cons c cs => simp only [List.cons_append, List.isPrefixOf, ih hw]

theorem symbol?_append {b : Char} (hb : isBlank b = true) (cs ds : List Char) :
    symbol? (cs ++ b :: ds) = symbol? cs := by
  have hnot (s : Symbol) : b ∉ s.text.toList := by
    intro hmem
    rw [not_isBlank_of_mem_text b hmem] at hb
    cases hb
  simp only [symbol?, isPrefixOf_append_cons (hnot _)]

theorem length_le_of_symbol? {cs : List Char} {s : Symbol} (h : symbol? cs = some s) :
    s.text.toList.length ≤ cs.length := by
  rw [symbol?] at h
  have hprefix := List.find?_some h
  exact (List.isPrefixOf_iff_prefix.1 hprefix).length_le

theorem scanString_append {quote : Char} {cs : List Char} {t : Token}
    (h : (scanString quote cs).result = .ok t) (ds : List Char) :
    scanString quote (cs ++ ds) = ⟨.ok t, (scanString quote cs).cut.before ds⟩ := by
  simp only [scanString] at h ⊢
  cases hv : (Quotation.body quote cs).ending with
  | closed v =>
    rw [hv] at h
    simp only [Quotation.body_append ds hv, Cut.before_push, ← h]
  | unterminated | badEscape =>
    rw [hv] at h
    cases h

theorem scanNumber_append {b : Char} (hb : isBlank b = true) {cs : List Char} {t : Token}
    (h : (scanNumber cs).result = .ok t) (ds : List Char) :
    scanNumber (cs ++ b :: ds) = ⟨.ok t, (scanNumber cs).cut.before (b :: ds)⟩ := by
  have hglued : ((Number.run true cs).rest ++ b :: ds).head?.any isNameStart =
      (Number.run true cs).rest.head?.any isNameStart := by
    cases (Number.run true cs).rest with
    | nil =>
      by_contra hname
      rw [not_isBlank_of_isNameStart (by simpa using hname)] at hb
      cases hb
    | cons c rest => rfl
  simp only [scanNumber, Number.run_append hb, Cut.before, hglued] at h ⊢
  split
  · next hg =>
    rw [if_pos hg] at h
    cases h
  · next hg =>
    rw [if_neg hg] at h
    cases ht : Number.token? (Number.run true cs).taken with
    | none =>
      rw [ht] at h
      cases h
    | some t' =>
      rw [ht] at h
      injection h with h
      subst h
      rfl

theorem not_prefix_of_scan {c : Char} {cs : List Char} {t : Token}
    (h : (scan c cs).result = .ok t) : ¬ ['/', '*'] <+: c :: cs := by
  intro hopen
  rw [scan, if_pos (List.isPrefixOf_iff_prefix.2 hopen)] at h
  cases h

/-- A blank does not go on with a token. -/
theorem scan_append {b : Char} (hb : isBlank b = true) {c : Char} {cs : List Char} {t : Token}
    (h : (scan c cs).result = .ok t) (ds : List Char) :
    scan c (cs ++ b :: ds) = ⟨.ok t, (scan c cs).cut.before (b :: ds)⟩ := by
  have hopen : ['/', '*'].isPrefixOf (c :: (cs ++ b :: ds)) = ['/', '*'].isPrefixOf (c :: cs) := by
    exact isPrefixOf_append_cons (notMem_of_isBlank hb) (c :: cs) ds
  have hsymbol : symbol? (c :: (cs ++ b :: ds)) = symbol? (c :: cs) := symbol?_append hb (c :: cs) ds
  unfold scan at h ⊢
  rw [hopen, hsymbol]
  split
  · next hc =>
    rw [if_pos hc] at h
    cases h
  · next hc =>
    rw [if_neg hc] at h
    cases hs : symbol? (c :: cs) with
    | some s =>
      have hlen := length_le_of_symbol? hs
      simp only [hs, Cut.before] at h ⊢
      rw [← List.cons_append, List.take_append_of_le_length hlen,
        List.drop_append_of_le_length hlen, h]
    | none =>
      simp only [hs] at h ⊢
      split
      · next hq =>
        rw [if_pos hq] at h
        exact scanString_append h _
      · next hq =>
        rw [if_neg hq] at h
        split
        · next hd =>
          rw [if_pos hd] at h
          exact scanNumber_append hb h ds
        · next hd =>
          rw [if_neg hd] at h
          split
          · next hn =>
            rw [if_pos hn] at h
            simp only [scanWord, ← List.cons_append,
              Cut.span_append (not_isNamePart_of_isBlank hb)] at h ⊢
            rw [← h]
            rfl
          · next hn =>
            rw [if_neg hn] at h
            cases h

end Token

/-! ### Whole texts -/

/-- The text that begins at a place is cut into the tokens. -/
inductive Lexes : Nat → List Char → List Lexeme → Prop
  | done {offset cs gap} (hgap : Gap.split cs = ⟨gap, []⟩) : Lexes offset cs []
  | token {offset cs gap c ds t taken rest p ts} (hgap : Gap.split cs = ⟨gap, c :: ds⟩)
      (hscan : Token.scan c ds = ⟨.ok t, ⟨taken, rest⟩⟩) (hstart : p.start = offset + byteLength gap)
      (hstop : p.stop = p.start + byteLength taken) (hrest : Lexes p.stop rest ts) :
      Lexes offset cs (⟨t, p⟩ :: ts)

namespace Lexes

variable {offset : Nat} {cs ds : List Char} {ts us : List Lexeme}

theorem of_next_none {l after : Lexer} (h : l.next = (.ok none, after)) :
    Lexes l.offset l.rest [] := by
  simp only [Lexer.next] at h
  cases hr : (Gap.split l.rest).rest with
  | nil =>
    have hgap : Gap.split l.rest = ⟨(Gap.split l.rest).taken, []⟩ := by rw [← hr]
    exact .done hgap
  | cons c ds =>
    rw [hr] at h
    cases hs : (Token.scan c ds).result <;> simp [hs] at h

theorem of_next_some {l after : Lexer} {x : Lexeme} (h : l.next = (.ok (some x), after))
    (hrest : Lexes after.offset after.rest ts) : Lexes l.offset l.rest (x :: ts) := by
  simp only [Lexer.next] at h
  cases hr : (Gap.split l.rest).rest with
  | nil => simp [hr] at h
  | cons c ds =>
    have hgap : Gap.split l.rest = ⟨(Gap.split l.rest).taken, c :: ds⟩ := by rw [← hr]
    rw [hr] at h
    cases hs : (Token.scan c ds).result with
    | error e => simp [hs] at h
    | ok t =>
      have hscan : Token.scan c ds = ⟨.ok t, (Token.scan c ds).cut⟩ := by rw [← hs]
      simp only [hs, Prod.mk.injEq, Except.ok.injEq, Option.some.injEq] at h
      obtain ⟨rfl, rfl⟩ := h
      exact .token hgap hscan rfl rfl hrest

theorem next_done {gap : List Char} (hgap : Gap.split cs = ⟨gap, []⟩) (source : List Char)
    (offset : Nat) :
    (⟨source, offset, cs⟩ : Lexer).next = (.ok none, ⟨source, offset + byteLength gap, []⟩) := by
  simp [Lexer.next, hgap]

theorem next_token {gap taken rest : List Char} {c : Char} {t : Token} {p : Span}
    (hgap : Gap.split cs = ⟨gap, c :: ds⟩) (hscan : Token.scan c ds = ⟨.ok t, ⟨taken, rest⟩⟩)
    (hstart : p.start = offset + byteLength gap) (hstop : p.stop = p.start + byteLength taken)
    (source : List Char) :
    (⟨source, offset, cs⟩ : Lexer).next = (.ok (some ⟨t, p⟩), ⟨source, p.stop, rest⟩) := by
  obtain ⟨start, stop⟩ := p
  simp_all [Lexer.next]

theorem eq_of_split {gap rest : List Char} (h : Gap.split cs = ⟨gap, rest⟩) : cs = gap ++ rest := by
  rw [← Gap.whole_split cs, h, Cut.whole]

theorem eq_of_scan {c : Char} {taken rest : List Char} {t : Token}
    (h : Token.scan c ds = ⟨.ok t, ⟨taken, rest⟩⟩) : c :: ds = taken ++ rest := by
  rw [← Token.whole_scan c ds, h, Cut.whole]

/-- A gap, a token and what is left make up the text. -/
theorem byteLength_eq {c : Char} {gap taken rest : List Char} {t : Token}
    (hgap : Gap.split cs = ⟨gap, c :: ds⟩) (hscan : Token.scan c ds = ⟨.ok t, ⟨taken, rest⟩⟩) :
    byteLength cs = byteLength gap + byteLength taken + byteLength rest := by
  rw [eq_of_split hgap, eq_of_scan hscan]
  simp only [byteLength_append, Nat.add_assoc]

/-- A text that is cut into tokens is read as these, and its end stands behind its last character. -/
theorem items (h : Lexes offset cs ts) (source : List Char) :
    (⟨source, offset, cs⟩ : Lexer).items =
      .ok (ts.map Lexeme.item ++ [.ending (offset + byteLength cs)]) := by
  induction h with
  | @done offset cs gap hgap =>
    have hcs : cs = gap := by simpa using eq_of_split hgap
    rw [Lexer.items_eq, next_done hgap source offset, ← hcs]
    rfl
  | @token offset cs gap c ds t taken rest p ts hgap hscan hstart hstop _ ih =>
    have hlength := byteLength_eq hgap hscan
    have hoffset : p.stop + byteLength rest = offset + byteLength cs := by omega
    rw [Lexer.items_eq, next_token hgap hscan hstart hstop source]
    show Except.map _ (⟨source, p.stop, rest⟩ : Lexer).items = _
    rw [ih, hoffset]
    rfl

theorem tokens (h : Lexes offset cs ts) (source : List Char) :
    (⟨source, offset, cs⟩ : Lexer).tokens = .ok ts := by
  rw [Lexer.tokens, h.items source]
  exact congrArg Except.ok (filterMap_lexeme? ts _)

/-- Reading tokens comes to an end just on the texts that are cut into tokens. -/
theorem tokens_eq_ok_iff {l : Lexer} : l.tokens = .ok ts ↔ Lexes l.offset l.rest ts := by
  constructor
  · intro h
    obtain ⟨items, hitems, rfl⟩ := exists_of_map_eq_ok h
    clear h
    fun_induction Lexer.items l generalizing items with
    | case1 => cases hitems
    | case2 l after hnext =>
      obtain rfl := Except.ok.inj hitems
      exact of_next_none hnext
    | case3 l x after hnext ih =>
      obtain ⟨us, hus, rfl⟩ := exists_of_map_eq_ok hitems
      exact of_next_some hnext (ih us hus)
  · intro h
    exact h.tokens l.source

/-- The place of a text does not matter but for the places of its tokens. -/
theorem shift (h : Lexes offset cs ts) (k : Nat) :
    Lexes (offset + k) cs (ts.map (Lexeme.relocate (· + k))) := by
  induction h with
  | done hgap => exact .done hgap
  | token hgap hscan hstart hstop _ ih =>
    refine .token hgap hscan ?_ ?_ ih
    · simp only [Span.relocate]
      omega
    · simp only [Span.relocate]
      omega

/-- What is cut into tokens behind a gap is cut into the same with the gap before it. -/
theorem behind_gap {gap : List Char} (hgap : Gap.split cs = (Gap.split ds).push gap)
    (h : Lexes (offset + byteLength gap) ds ts) : Lexes offset cs ts := by
  cases h with
  | done hgap' =>
    rw [hgap'] at hgap
    exact .done hgap
  | token hgap' hscan hstart hstop hrest =>
    rw [hgap'] at hgap
    refine .token hgap hscan ?_ hstop hrest
    rw [hstart, byteLength_append, Nat.add_assoc]

/-- A text, a line feed and another text are cut into the tokens of both texts. -/
theorem append (h : Lexes offset cs ts) (h' : Lexes (offset + byteLength cs + 1) ds us) :
    Lexes offset (cs ++ '\n' :: ds) (ts ++ us) := by
  induction h with
  | @done offset cs gap hgap =>
    have hcs : cs = gap := by simpa using eq_of_split hgap
    have hsplit : Gap.split (cs ++ '\n' :: ds) = (Gap.split ds).push (gap ++ ['\n']) := by
      rw [Gap.split_append cs ds (by simp [hgap]), hgap]
      rfl
    refine behind_gap hsplit ?_
    rw [hcs] at h'
    rwa [byteLength_append, ← Nat.add_assoc]
  | @token offset cs gap c es t taken rest p ts hgap hscan hstart hstop _ ih =>
    have hopen : ¬ ['/', '*'] <+: c :: es := Token.not_prefix_of_scan (t := t) (by rw [hscan])
    have hsplit : Gap.split (cs ++ '\n' :: ds) = ⟨gap, c :: (es ++ '\n' :: ds)⟩ := by
      rw [Gap.split_append cs ds (by rwa [hgap]), hgap]
      rfl
    have hscan' : Token.scan c (es ++ '\n' :: ds) = ⟨.ok t, ⟨taken, rest ++ '\n' :: ds⟩⟩ := by
      rw [Token.scan_append (by decide) (by rw [hscan]), hscan]
      rfl
    have hlength := byteLength_eq hgap hscan
    have hoffset : offset + byteLength cs + 1 = p.stop + byteLength rest + 1 := by omega
    exact .token hsplit hscan' hstart hstop (ih (hoffset ▸ h'))

/-- The tokens of a text stand in it. -/
theorem within (h : Lexes offset cs ts) {x : Lexeme} (hx : x ∈ ts) :
    x.span.start ≤ offset + byteLength cs ∧ x.span.stop ≤ offset + byteLength cs := by
  induction h with
  | done => cases hx
  | token hgap hscan hstart hstop _ ih =>
    have hlength := byteLength_eq hgap hscan
    rcases List.mem_cons.1 hx with rfl | hx
    · simp only
      omega
    · have := ih hx
      omega

end Lexes

/-! ### Trees -/

theorem tokenize_eq_ok_iff {source : String} {ts : List Lexeme} :
    tokenize source = .ok ts ↔ Lexes 0 source.toList ts :=
  Lexes.tokens_eq_ok_iff (l := Lexer.start source.toList)

/-- A text is read by a rule if the rule reads its tokens. -/
theorem readWith_eq_ok_iff {α : Type} {rule : List Lexeme → Except ParseFault α} {source : String}
    {a : α} : readWith rule source = .ok a ↔ ∃ ts, Lexes 0 source.toList ts ∧ rule ts = .ok a := by
  constructor
  · intro h
    unfold readWith at h
    split at h
    · cases h
    · next ts hts =>
      refine ⟨ts, tokenize_eq_ok_iff.1 hts, ?_⟩
      cases hrule : rule ts with
      | error e =>
        rw [hrule] at h
        cases h
      | ok b =>
        rw [hrule] at h
        exact congrArg Except.ok (Except.ok.inj h)
  · rintro ⟨ts, hts, ha⟩
    rw [readWith, tokenize_eq_ok_iff.2 hts]
    simp only [ha]
    rfl

/-- What leaves the places of a text alone leaves its tokens alone. -/
theorem Lexes.map_eq {cs : List Char} {ts : List Lexeme} (h : Lexes 0 cs ts) {c : Nat → Nat}
    (hc : ∀ n ≤ byteLength cs, c n = n) : ts.map (Lexeme.relocate c) = ts := by
  refine (List.map_congr_left fun x hx => ?_).trans (List.map_id ts)
  obtain ⟨hstart, hstop⟩ := h.within hx
  rw [Nat.zero_add] at hstart hstop
  rw [Lexeme.relocate, Span.relocate, hc _ hstart, hc _ hstop]
  rfl

/-- What leaves the places of a text alone leaves its program alone. -/
theorem parseProgram_fixed {source : String} {ss : List (Statement Nat)}
    (h : parseProgram source = .ok ss) {c : Nat → Nat}
    (hc : ∀ n ≤ byteLength source.toList, c n = n) : relocateStatements id c ss = ss := by
  obtain ⟨ss, hss, rfl⟩ := exists_of_map_eq_ok h
  obtain ⟨ts, hts, hss⟩ := readWith_eq_ok_iff.1 hss
  have hnumber := numberStatements_relocate ss c 0 0
  rw [Grammar.program_fixed hss (hts.map_eq hc)] at hnumber
  exact (congrArg Prod.fst hnumber).symm

/-- What leaves the places of a text alone leaves its expression alone. -/
theorem parseExpression_fixed {source : String} {e : Expr Nat}
    (h : parseExpression source = .ok e) {c : Nat → Nat}
    (hc : ∀ n ≤ byteLength source.toList, c n = n) : e.relocate id c = e := by
  obtain ⟨e, he, rfl⟩ := exists_of_map_eq_ok h
  obtain ⟨ts, hts, he⟩ := readWith_eq_ok_iff.1 he
  have hnumber := e.number_relocate c 0 0
  rw [Grammar.wholeExpression_fixed he (hts.map_eq hc)] at hnumber
  exact (congrArg Prod.fst hnumber).symm

end Aggregation
