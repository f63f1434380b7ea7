import Aggregation.Proofs.Lexing

/-! Tokens of a part of a text.

Reading a gap or a token looks at no more of the text behind it than its first characters, and only
to find that it does not go on. So a text that is cut off behind a token is cut into the tokens before
the cut (`Lexes.take`), and one that is cut off before a token into the tokens behind it
(`Lexes.drop`). The text from the first of some neighbouring tokens to the last is cut into just
these (`Lexes.slice`). -/
namespace Aggregation

variable {r s : List Char}

theorem Cut.push_eq {c : Cut} {cs taken rest : List Char} (h : c.push cs = ⟨taken, rest⟩) :
    ∃ ds, c = ⟨ds, rest⟩ ∧ taken = cs ++ ds := by
  injection h with htaken hrest
  exact ⟨c.taken, by rw [← hrest], htaken.symm⟩

theorem head?_ne_of_append {d : Char} (h : (r ++ s).head? ≠ some d) : r.head? ≠ some d := by
  cases r with
  | nil => simp
  | cons c r => exact h

/-! ### Gaps -/

namespace Gap

mutual

/-- A text that is cut off behind a gap has the same gap. -/
theorem split_take {cs gap : List Char} (h : split cs = ⟨gap, r ++ s⟩) (hr : ¬ ['/', '*'] <+: r ++ s) :
    split (gap ++ r) = ⟨gap, r⟩ := by
  match cs with
  | [] =>
    injection h with hgap hrest
    obtain ⟨rfl, rfl⟩ := List.append_eq_nil_iff.1 hrest.symm
    rw [← hgap]
    rfl
  | c :: cs =>
    rcases comment_cases c cs with ⟨ds, rfl, rfl⟩ | ⟨ds, rfl, rfl⟩ | hc
    · rw [split] at h
      obtain ⟨gap, hline, rfl⟩ := Cut.push_eq h
      simp only [List.cons_append, List.nil_append, split, line_take hline hr]
      rfl
    · rw [split] at h
      cases hb : block ds with
      | none =>
        rw [hb] at h
        injection h with _ hrest
        exact absurd ⟨ds, hrest⟩ hr
      | some b =>
        rw [hb] at h
        obtain ⟨gap, rfl, rfl⟩ := Cut.push_eq h
        simp only [List.cons_append, List.nil_append, split, block_take hb hr]
        rfl
    · rw [split_cons hc] at h
      by_cases hblank : isBlank c = true
      · rw [if_pos hblank] at h
        obtain ⟨gap, hsplit, rfl⟩ := Cut.push_eq h
        have hslash : c ≠ '/' := by
          rintro rfl
          revert hblank
          decide
        rw [List.append_assoc, List.singleton_append, split_cons fun h => absurd h hslash,
          if_pos hblank, split_take hsplit hr]
        rfl
      · rw [if_neg hblank] at h
        injection h with hgap hrest
        subst hgap
        cases r with
        | nil => rfl
        | cons d r =>
          obtain ⟨rfl, rfl⟩ := List.cons.inj hrest
          rw [List.nil_append, split_cons, if_neg hblank]
          · rfl
          · exact fun hs => ⟨head?_ne_of_append (hc hs).1, head?_ne_of_append (hc hs).2⟩
termination_by cs.length

theorem line_take {cs gap : List Char} (h : line cs = ⟨gap, r ++ s⟩) (hr : ¬ ['/', '*'] <+: r ++ s) :
    line (gap ++ r) = ⟨gap, r⟩ := by
  match cs with
  | [] =>
    injection h with hgap hrest
    obtain ⟨rfl, rfl⟩ := List.append_eq_nil_iff.1 hrest.symm
    rw [← hgap]
    rfl
  | c :: cs =>
    rw [line] at h
    by_cases hc : c = '\n'
    · rw [if_pos hc] at h
      obtain ⟨gap, hsplit, rfl⟩ := Cut.push_eq h
      simp only [List.cons_append, List.nil_append, line, if_pos hc, split_take hsplit hr]
      rfl
    · rw [if_neg hc] at h
      obtain ⟨gap, hline, rfl⟩ := Cut.push_eq h
      simp only [List.cons_append, List.nil_append, line, if_neg hc, line_take hline hr]
      rfl
termination_by cs.length

theorem block_take {cs gap : List Char} (h : block cs = some ⟨gap, r ++ s⟩)
    (hr : ¬ ['/', '*'] <+: r ++ s) : block (gap ++ r) = some ⟨gap, r⟩ := by
  match cs with
  | [] => cases h
  | c :: cs =>
    by_cases hc : c = '*' → cs.head? ≠ some '/'
    · rw [block_cons hc] at h
      obtain ⟨b, hb, hpush⟩ := Option.map_eq_some_iff.1 h
      obtain ⟨gap, rfl, rfl⟩ := Cut.push_eq hpush
      have hcs : gap ++ r ++ s = cs := by
        rw [List.append_assoc]
        exact whole_block hb
      rw [← hcs] at hc
      rw [List.append_assoc, List.singleton_append,
        block_cons fun hs => head?_ne_of_append (hc hs), block_take hb hr]
      rfl
    · push Not at hc
      obtain ⟨rfl, hs⟩ := hc
      obtain ⟨cs, rfl⟩ := List.head?_eq_some_iff.1 hs
      rw [block] at h
      obtain ⟨gap, hsplit, rfl⟩ := Cut.push_eq (Option.some.inj h)
      simp only [List.cons_append, List.nil_append, block, split_take hsplit hr]
      rfl
termination_by cs.length

end

mutual

/-- What is left behind a gap begins with none. -/
theorem split_rest (cs : List Char) : split (split cs).rest = .none (split cs).rest := by
  match cs with
  | [] => rfl
  | c :: cs =>
    rcases comment_cases c cs with ⟨ds, rfl, rfl⟩ | ⟨ds, rfl, rfl⟩ | hc
    · rw [split]
      exact split_line_rest ds
    · cases hb : block ds with
      | some b =>
        rw [split, hb]
        show split b.rest = .none b.rest
        exact split_block_rest hb
      | none =>
        have hopen : split ('/' :: '*' :: ds) = .none ('/' :: '*' :: ds) := by rw [split, hb]
        rw [hopen]
        exact hopen
    · rw [split_cons hc]
      by_cases hblank : isBlank c = true
      · rw [if_pos hblank]
        exact split_rest cs
      · rw [if_neg hblank]
        show split (c :: cs) = _
        rw [split_cons hc, if_neg hblank]
        rfl
termination_by cs.length

theorem split_line_rest (cs : List Char) : split (line cs).rest = .none (line cs).rest := by
  match cs with
  | [] => rfl
  | c :: cs =>
    rw [line]
    split
    · exact split_rest cs
    · exact split_line_rest cs
termination_by cs.length

theorem split_block_rest {cs : List Char} {b : Cut} (h : block cs = some b) :
    split b.rest = .none b.rest := by
  match cs with
  | [] => cases h
  | c :: cs =>
    by_cases hc : c = '*' → cs.head? ≠ some '/'
    · rw [block_cons hc] at h
      obtain ⟨b, hb, rfl⟩ := Option.map_eq_some_iff.1 h
      show split b.rest = .none b.rest
      exact split_block_rest hb
    · push Not at hc
      obtain ⟨rfl, hs⟩ := hc
      obtain ⟨cs, rfl⟩ := List.head?_eq_some_iff.1 hs
      rw [block] at h
      obtain rfl := Option.some.inj h
      exact split_rest cs
termination_by cs.length

end

end Gap

/-! ### Single tokens -/

namespace Number

theorem startsWithDigit_of_take (h : startsWithDigit r = true) : startsWithDigit (r ++ s) = true := by
  cases r with
  | nil => cases h
  | cons c r => exact h

/-- A point that a digit does not follow in a text has none behind it where the text is cut off. -/
theorem not_fraction_take {c : Char} {whole : Bool}
    (h : ¬ (c == '.' && whole && startsWithDigit (r ++ s)) = true) :
    ¬ (c == '.' && whole && startsWithDigit r) = true := by
  intro hpoint
  obtain ⟨hc, hdigit⟩ := Bool.and_eq_true_iff.1 hpoint
  exact h (Bool.and_eq_true_iff.2 ⟨hc, startsWithDigit_of_take hdigit⟩)

/-- Whether a point belongs to a number is seen from the digit behind it. -/
theorem startsWithDigit_take {whole : Bool} {cs taken : List Char} (h : startsWithDigit cs = true)
    (hrun : run whole cs = ⟨taken, r ++ s⟩) : startsWithDigit (taken ++ r) = true := by
  match cs with
  | c :: cs =>
    have hwhole := whole_run whole (c :: cs)
    have hne := taken_run_ne_nil whole cs (c := c) h
    rw [hrun] at hwhole hne
    obtain ⟨d, taken, rfl⟩ := List.exists_cons_of_ne_nil hne
    obtain ⟨rfl, -⟩ := List.cons.inj hwhole
    exact h

/-- A text that is cut off behind a number has the same number. -/
theorem run_take {whole : Bool} {cs taken : List Char} (h : run whole cs = ⟨taken, r ++ s⟩) :
    run whole (taken ++ r) = ⟨taken, r⟩ := by
  fun_induction run whole cs generalizing taken with
  | case1 whole =>
    injection h with htaken hrest
    obtain ⟨rfl, rfl⟩ := List.append_eq_nil_iff.1 hrest.symm
    rw [← htaken, List.nil_append, run]
    rfl
  | case2 whole c cs hc ih =>
    obtain ⟨taken, hrun, rfl⟩ := Cut.push_eq h
    rw [List.append_assoc, List.singleton_append, run.eq_def]
    simp only [if_pos hc, ih hrun]
    rfl
  | case3 whole c cs hc hp ih =>
    obtain ⟨taken, hrun, rfl⟩ := Cut.push_eq h
    simp only [Bool.and_eq_true] at hp
    have hdigit := startsWithDigit_take hp.2 hrun
    rw [List.append_assoc, List.singleton_append, run.eq_def]
    simp only [if_neg hc, hp.1.1, hp.1.2, hdigit, Bool.and_self, if_true, ih hrun]
    rfl
  | case4 whole c hc he hp =>
    injection h with htaken hrest
    obtain ⟨rfl, rfl⟩ := List.append_eq_nil_iff.1 hrest.symm
    rw [← htaken, List.append_nil, run.eq_def]
    simp only [if_neg hc, if_neg hp, if_pos he]
  | case5 whole c hc he d cs hd hp ih =>
    obtain ⟨taken, hrun, rfl⟩ := Cut.push_eq h
    rw [List.append_assoc, List.cons_append, List.singleton_append, run.eq_def]
    have hp' : ¬ (c == '.' && whole && startsWithDigit (d :: (taken ++ r))) = true := hp
    simp only [if_neg hc, if_neg hp', if_pos he, if_pos hd, ih hrun]
    rfl
  | case6 whole c hc he d cs hd hp ih =>
    obtain ⟨taken, hrun, rfl⟩ := Cut.push_eq h
    have hcs : taken ++ r ++ s = d :: cs := by
      have hwhole := whole_run false (d :: cs)
      rwa [hrun, Cut.whole, ← List.append_assoc] at hwhole
    have hrun' := ih hrun
    have hp' : ¬ (c == '.' && whole && startsWithDigit (taken ++ r)) = true := by
      rw [← hcs] at hp
      exact not_fraction_take hp
    rw [List.append_assoc, List.singleton_append, run.eq_def]
    simp only [if_neg hc, if_neg hp', if_pos he]
    cases htr : taken ++ r with
    | nil =>
      obtain ⟨rfl, rfl⟩ := List.append_eq_nil_iff.1 htr
      rfl
    | cons d' cs' =>
      rw [htr] at hcs hrun'
      obtain ⟨rfl, -⟩ := List.cons.inj hcs
      simp only [if_neg hd, hrun']
      rfl
  | case7 whole c cs hc hp he =>
    injection h with htaken hrest
    subst htaken
    cases r with
    | nil =>
      rw [List.nil_append, run]
      rfl
    | cons d r =>
      obtain ⟨rfl, rfl⟩ := List.cons.inj hrest
      rw [List.nil_append, run.eq_def]
      simp only [if_neg hc, if_neg (not_fraction_take hp), if_neg he]
      rfl

end Number

namespace Quotation

theorem Outcome.push_eq {c : Char} {spelled : List Char} {o : Outcome} {v taken rest : List Char}
    (h : o.push c spelled = ⟨.closed v, ⟨taken, rest⟩⟩) :
    ∃ w ds, o = ⟨.closed w, ⟨ds, rest⟩⟩ ∧ v = c :: w ∧ taken = spelled ++ ds := by
  injection h with hending hcut
  obtain ⟨w, hw, rfl⟩ := Ending.push_eq_closed hending
  obtain ⟨ds, hds, rfl⟩ := Cut.push_eq hcut
  exact ⟨w, ds, by rw [← hw, ← hds], rfl, rfl⟩

/-- A text that is cut off behind a string has the same string. -/
theorem body_take {quote : Char} {cs v taken : List Char}
    (h : body quote cs = ⟨.closed v, ⟨taken, r ++ s⟩⟩) :
    body quote (taken ++ r) = ⟨.closed v, ⟨taken, r⟩⟩ := by
  fun_induction body quote cs generalizing v taken with
  | case1 | case3 | case4 | case6 => cases h
  | case2 cs =>
    cases h
    rw [List.singleton_append, body.eq_def]
    simp only [if_true]
  | case5 c cs d hd hq hn ih =>
    obtain ⟨w, ds, hbody, rfl, rfl⟩ := Outcome.push_eq h
    rw [List.append_assoc, List.cons_append, List.singleton_append, body.eq_def]
    simp only [if_neg hq, if_neg hn, if_true, hd, ih hbody]
    rfl
  | case7 c cs hq hn hb ih =>
    obtain ⟨w, ds, hbody, rfl, rfl⟩ := Outcome.push_eq h
    rw [List.append_assoc, List.singleton_append, body.eq_def]
    simp only [if_neg hq, if_neg hn, if_neg hb, ih hbody]
    rfl

end Quotation

theorem Cut.span_cons (p : Char → Bool) (c : Char) (cs : List Char) :
    Cut.span p (c :: cs) = if p c then (Cut.span p cs).push [c] else .none (c :: cs) := by
  unfold Cut.span
  rw [List.takeWhile_cons, List.dropWhile_cons]
  split <;> rfl

theorem Cut.span_take {p : Char → Bool} {cs taken : List Char}
    (h : Cut.span p cs = ⟨taken, r ++ s⟩) : Cut.span p (taken ++ r) = ⟨taken, r⟩ := by
  induction cs generalizing taken with
  | nil =>
    injection h with htaken hrest
    obtain ⟨rfl, rfl⟩ := List.append_eq_nil_iff.1 hrest.symm
    rw [← htaken]
    rfl
  | cons c cs ih =>
    rw [span_cons] at h
    by_cases hc : p c = true
    · rw [if_pos hc] at h
      obtain ⟨taken, hspan, rfl⟩ := push_eq h
      rw [List.append_assoc, List.singleton_append, span_cons, if_pos hc, ih hspan]
      rfl
    · rw [if_neg hc] at h
      injection h with htaken hrest
      subst htaken
      cases r with
      | nil => rfl
      | cons d r =>
        obtain ⟨rfl, -⟩ := List.cons.inj hrest
        rw [List.nil_append, span_cons, if_neg hc]
        rfl

namespace Token

/-- No symbol begins a text that is cut off, if it does not begin the text. -/
theorem isPrefixOf_take {w : List Char} (h : w.isPrefixOf (r ++ s) = false) :
    w.isPrefixOf r = false := by
  rw [← Bool.not_eq_true, List.isPrefixOf_iff_prefix] at h ⊢
  exact fun hw => h (hw.trans (List.prefix_append r s))

theorem symbol?_take_of_none (h : symbol? (r ++ s) = none) : symbol? r = none := by
  rw [symbol?, List.find?_eq_none] at h ⊢
  intro x hx
  rw [Bool.not_eq_true]
  exact isPrefixOf_take (Bool.not_eq_true _ ▸ h x hx)

/-- The longest symbol of a text is that of the text cut off behind it. -/
theorem symbol?_take {x : Symbol} (h : symbol? (r ++ s) = some x) (hx : x.text.toList <+: r) :
    symbol? r = some x := by
  rw [symbol?, List.find?_eq_some_iff_append] at h ⊢
  obtain ⟨-, before, after, hsymbols, hbefore⟩ := h
  refine ⟨List.isPrefixOf_iff_prefix.2 hx, before, after, hsymbols, fun y hy => ?_⟩
  have hy := hbefore y hy
  rw [Bool.not_eq_true'] at hy ⊢
  exact isPrefixOf_take hy

theorem scanString_take {quote : Char} {cs taken : List Char} {t : Token}
    (h : scanString quote cs = ⟨.ok t, ⟨quote :: taken, r ++ s⟩⟩) :
    scanString quote (taken ++ r) = ⟨.ok t, ⟨quote :: taken, r⟩⟩ := by
  simp only [scanString, Scan.mk.injEq] at h ⊢
  obtain ⟨hresult, hcut⟩ := h
  obtain ⟨ds, hds, htaken⟩ := Cut.push_eq hcut
  obtain rfl : taken = ds := (List.cons.inj htaken).2
  cases hending : (Quotation.body quote cs).ending with
  | closed v =>
    have hbody : Quotation.body quote cs = ⟨.closed v, ⟨taken, r ++ s⟩⟩ := by rw [← hending, ← hds]
    rw [hending] at hresult
    rw [Quotation.body_take hbody]
    exact ⟨hresult, rfl⟩
  | unterminated | badEscape =>
    rw [hending] at hresult
    cases hresult

theorem scanNumber_take {cs taken : List Char} {t : Token}
    (h : scanNumber cs = ⟨.ok t, ⟨taken, r ++ s⟩⟩) : scanNumber (taken ++ r) = ⟨.ok t, ⟨taken, r⟩⟩ := by
  unfold scanNumber at h
  simp only at h
  split at h
  · cases h
  · next hglued =>
    split at h
    · next t' ht =>
      injection h with hresult hrun
      have hglued' : ¬ r.head?.any isNameStart = true := by
        rw [hrun] at hglued
        cases r with
        | nil => simp
        | cons c r => exact hglued
      rw [hrun] at ht
      simp only [scanNumber, Number.run_take hrun, if_neg hglued', ht, hresult]
    · cases h

theorem text_of_symbol? {cs : List Char} {x : Symbol} (h : symbol? cs = some x) :
    cs.take x.text.toList.length = x.text.toList := by
  rw [symbol?] at h
  have hprefix := List.find?_some h
  exact (List.prefix_iff_eq_take.1 (List.isPrefixOf_iff_prefix.1 hprefix)).symm

theorem scanWord_take {cs taken : List Char} {t : Token}
    (h : scanWord cs = ⟨.ok t, ⟨taken, r ++ s⟩⟩) : scanWord (taken ++ r) = ⟨.ok t, ⟨taken, r⟩⟩ := by
  unfold scanWord at h
  injection h with hresult hcut
  rw [hcut] at hresult
  simp only [scanWord, Cut.span_take hcut, hresult]

/-- A text that is cut off behind a token has the same token. -/
theorem scan_take {c : Char} {cs ds : List Char} {t : Token}
    (h : scan c cs = ⟨.ok t, ⟨c :: ds, r ++ s⟩⟩) : scan c (ds ++ r) = ⟨.ok t, ⟨c :: ds, r⟩⟩ := by
  obtain rfl : cs = ds ++ r ++ s := by
    have hwhole := whole_scan c cs
    rw [h, Cut.whole, List.cons_append] at hwhole
    rw [List.append_assoc]
    exact (List.cons.inj hwhole).2.symm
  unfold scan at h ⊢
  split at h
  · cases h
  · next hopen =>
    have hopen' : ¬ ['/', '*'].isPrefixOf (c :: (ds ++ r)) = true := by
      rw [Bool.not_eq_true] at hopen ⊢
      exact isPrefixOf_take (s := s) hopen
    rw [if_neg hopen']
    cases hs : symbol? (c :: (ds ++ r ++ s)) with
    | some x =>
      rw [hs] at h
      injection h with hresult hcut
      injection hcut with htaken hrest
      have htext : x.text.toList = c :: ds := by rw [← htaken, text_of_symbol? hs]
      have hs' : symbol? (c :: (ds ++ r)) = some x := by
        refine symbol?_take (s := s) hs ?_
        rw [htext]
        exact List.prefix_append (c :: ds) r
      simp only [hs', htext]
      rw [← hresult, ← List.cons_append, List.take_left, List.drop_left]
    | none =>
      have hs' : symbol? (c :: (ds ++ r)) = none := symbol?_take_of_none (s := s) hs
      simp only [hs] at h
      simp only [hs']
      split at h
      · next hq =>
        rw [if_pos hq]
        exact scanString_take h
      · next hq =>
        rw [if_neg hq]
        split at h
        · next hd =>
          rw [if_pos hd]
          exact scanNumber_take h
        · next hd =>
          rw [if_neg hd]
          split at h
          · next hn =>
            rw [if_pos hn]
            exact scanWord_take h
          · cases h

end Token

/-! ### Whole texts -/

namespace Lexes

variable {offset : Nat} {cs : List Char} {ts us : List Lexeme}

/-- A text that is cut off behind the first of its tokens is cut into the others. -/
theorem drop (h : Lexes offset cs (ts ++ us)) :
    ∃ before rest, cs = before ++ rest ∧ Lexes (offset + byteLength before) rest us := by
  induction ts generalizing offset cs with
  | nil => exact ⟨[], cs, rfl, h⟩
  | cons x ts ih =>
    cases h with
    | @token _ _ gap c ds t taken rest p _ hgap hscan hstart hstop hrest =>
      obtain ⟨before, after, rfl, hafter⟩ := ih hrest
      refine ⟨gap ++ taken ++ before, after, ?_, ?_⟩
      · rw [eq_of_split hgap, eq_of_scan hscan]
        simp only [List.append_assoc]
      · have hoffset : offset + byteLength (gap ++ taken ++ before) = p.stop + byteLength before := by
          simp only [byteLength_append]
          omega
        rwa [hoffset]

/-- The gap before the first token does not matter. -/
theorem skip_gap {x : Lexeme} (h : Lexes offset cs (x :: ts)) :
    ∃ gap rest, cs = gap ++ rest ∧ x.span.start = offset + byteLength gap ∧
      Lexes x.span.start rest (x :: ts) := by
  cases h with
  | @token _ _ gap c ds _ _ _ p _ hgap hscan hstart hstop hrest =>
    have hsplit := Gap.split_rest cs
    rw [hgap] at hsplit
    exact ⟨gap, c :: ds, eq_of_split hgap, hstart, .token hsplit hscan rfl hstop hrest⟩

/-- A text that is cut off behind some of its tokens is cut into these. -/
theorem take (h : Lexes offset cs (ts ++ us)) :
    ∃ inside after, cs = inside ++ after ∧ Lexes offset inside ts ∧ (ts = [] → inside = []) ∧
      (ts ≠ [] → Grammar.stopOf ts = offset + byteLength inside) := by
  induction ts generalizing offset cs with
  | nil => exact ⟨[], cs, rfl, .done rfl, fun _ => rfl, fun h => absurd rfl h⟩
  | cons x ts ih =>
    cases h with
    | @token _ _ gap c ds t taken rest p _ hgap hscan hstart hstop hrest =>
      obtain ⟨inside, after, rfl, hinside, hnil, hstopOf⟩ := ih hrest
      have hopen : ¬ ['/', '*'] <+: c :: ds := Token.not_prefix_of_scan (t := t) (by rw [hscan])
      have hwhole : taken ++ (inside ++ after) = c :: ds := (eq_of_scan hscan).symm
      obtain ⟨es, rfl⟩ : ∃ es, taken = c :: es := by
        have hok : (Token.scan c ds).result = .ok t := by rw [hscan]
        have hne := Token.taken_scan_ne_nil hok
        rw [hscan] at hne
        obtain ⟨d, es, rfl⟩ := List.exists_cons_of_ne_nil hne
        exact ⟨es, by rw [(List.cons.inj hwhole).1]⟩
      have hgap' : Gap.split (gap ++ (c :: es ++ inside)) = ⟨gap, c :: (es ++ inside)⟩ := by
        rw [← hwhole, ← List.append_assoc] at hgap hopen
        exact Gap.split_take hgap hopen
      refine ⟨gap ++ (c :: es ++ inside), after, ?_, ?_, by simp, fun _ => ?_⟩
      · rw [eq_of_split hgap, ← hwhole]
        simp only [List.append_assoc]
      · exact .token hgap' (Token.scan_take hscan) hstart hstop hinside
      · simp only [byteLength_append] at hstopOf ⊢
        by_cases hts : ts = []
        · subst hts
          obtain rfl := hnil rfl
          show p.stop = _
          rw [byteLength_nil]
          omega
        · rw [Grammar.stopOf_cons _ hts, hstopOf hts]
          omega

/-- The tokens of a text stand behind its beginning. -/
theorem behind (h : Lexes offset cs ts) {x : Lexeme} (hx : x ∈ ts) :
    offset ≤ x.span.start ∧ offset ≤ x.span.stop := by
  induction h with
  | done => cases hx
  | token hgap hscan hstart hstop _ ih =>
    rcases List.mem_cons.1 hx with rfl | hx
    · simp only
      omega
    · have hbehind := ih hx
      omega

/-- A text can be moved back as far as it stands from the beginning. -/
theorem unshift (h : Lexes offset cs ts) {k : Nat} (hk : k ≤ offset) :
    Lexes (offset - k) cs (ts.map (Lexeme.relocate (· - k))) := by
  induction h with
  | done hgap => exact .done hgap
  | token hgap hscan hstart hstop _ ih =>
    refine .token hgap hscan ?_ ?_ (ih (by omega))
    · simp only [Span.relocate]
      omega
    · simp only [Span.relocate]
      omega

/-- Neighbouring tokens are all tokens of the text from the first of them to the last. -/
theorem cut {ws : List Lexeme} (h : Lexes 0 cs ts) (hws : ws <:+: ts) (hne : ws ≠ []) :
    ∃ before inside after, cs = before ++ (inside ++ after) ∧ byteLength before = startOf ws ∧
      byteLength before + byteLength inside = Grammar.stopOf ws ∧ Lexes (startOf ws) inside ws := by
  obtain ⟨us, vs, rfl⟩ := hws
  rw [List.append_assoc] at h
  obtain ⟨before, rest, rfl, hrest⟩ := h.drop
  obtain ⟨x, ws, rfl⟩ := List.exists_cons_of_ne_nil hne
  obtain ⟨gap, rest, rfl, hstart, hrest⟩ := hrest.skip_gap
  have hparts : Lexes x.span.start rest (x :: ws ++ vs) := hrest
  obtain ⟨inside, after, rfl, hinside, -, hstop⟩ := hparts.take
  have hbefore : byteLength (before ++ gap) = startOf (x :: ws) := by
    show _ = x.span.start
    rw [byteLength_append]
    omega
  refine ⟨before ++ gap, inside, after, (List.append_assoc ..).symm, hbefore, ?_, hinside⟩
  rw [hstop hne, hbefore]
  rfl

/-- The text from the first of neighbouring tokens to the last is cut into just these. -/
theorem slice {ws : List Lexeme} (h : Lexes 0 cs ts) (hws : ws <:+: ts) (hne : ws ≠ []) :
    Lexes (startOf ws) ((Span.mk (startOf ws) (Grammar.stopOf ws)).slice cs) ws := by
  obtain ⟨before, inside, after, rfl, hstart, hstop, hinside⟩ := h.cut hws hne
  rwa [← hstop, ← hstart, Span.slice_append, hstart]

end Lexes

end Aggregation
