import Aggregation.Proofs.Separation

/-! String constants and their grammar.

Between two quotes every character of a string is written as itself or by an escape (`Quotation.Decodes`).
Reading goes over such a text and then depends on what follows it alone (`Quotation.body_append_decodes`).
What follows is the quote that closes the string, a backslash that begins no escape, or a place where the
string breaks off (`Quotation.body_cases`). So the strings that are read are just those of the grammar, and
a text that begins none is refused for the first of these that it comes to. -/
namespace Aggregation

/-! ### Spellings -/

namespace Quotation

/-- The quotes that a string may stand between. -/
def quotes : List Char := ['"', '\'']

/-- The escapes: what stands behind the backslash, and what is meant. -/
def escapes : List (Char × Char) :=
  [('n', '\n'), ('t', '\t'), ('r', '\r'), ('0', '\x00'), ('"', '"'), ('\'', '\''), ('\\', '\\')]

/-- The text, between two quotes, spells the value: each character as itself, unless it is the quote, a
backslash or a line feed, or by an escape. -/
inductive Decodes (quote : Char) : List Char → List Char → Prop
  | nil : Decodes quote [] []
  | plain {c text value} (hquote : c ≠ quote) (hslash : c ≠ '\\') (hfeed : c ≠ '\n')
      (h : Decodes quote text value) : Decodes quote (c :: text) (c :: value)
  | escaped {e c text value} (he : (e, c) ∈ escapes) (h : Decodes quote text value) :
      Decodes quote ('\\' :: e :: text) (c :: value)

theorem ne_of_mem_quotes {quote : Char} (h : quote ∈ quotes) : quote ≠ '\\' ∧ quote ≠ '\n' := by
  simp only [quotes, List.mem_cons, List.not_mem_nil, or_false] at h
  rcases h with rfl | rfl <;> decide

theorem escaped?_eq_some_iff {e c : Char} : escaped? e = some c ↔ (e, c) ∈ escapes := by
  unfold escaped?
  split <;> simp_all [escapes, eq_comm]

theorem escaped?_eq_none_iff {e : Char} : escaped? e = none ↔ ∀ c, (e, c) ∉ escapes := by
  rw [Option.eq_none_iff_forall_ne_some]
  exact forall_congr' fun c => not_congr escaped?_eq_some_iff

/-- Every string has a spelling between either quotes. -/
theorem exists_decodes {quote : Char} (hquote : quote ∈ quotes) (value : List Char) :
    ∃ text, Decodes quote text value := by
  induction value with
  | nil => exact ⟨[], .nil⟩
  | cons c value ih =>
    obtain ⟨text, htext⟩ := ih
    by_cases hc : c ∈ ['"', '\'', '\\', '\n']
    · obtain ⟨e, he⟩ : ∃ e, (e, c) ∈ escapes := by
        simp only [List.mem_cons, List.not_mem_nil, or_false] at hc
        rcases hc with rfl | rfl | rfl | rfl
        · exact ⟨'"', by decide⟩
        · exact ⟨'\'', by decide⟩
        · exact ⟨'\\', by decide⟩
        · exact ⟨'n', by decide⟩
      exact ⟨_, .escaped he htext⟩
    · have hq : c ≠ quote := by
        rintro rfl
        exact hc (List.mem_append_left ['\\', '\n'] hquote)
      simp only [List.mem_cons, not_or] at hc
      exact ⟨_, .plain hq hc.2.2.1 hc.2.2.2.1 htext⟩

/-! ### Reading a spelling -/

/-- Puts characters in front of the value, if there is one. -/
def Ending.prepend (value : List Char) : Ending → Ending
  | closed v => closed (value ++ v)
  | e => e

theorem Ending.prepend_nil (e : Ending) : e.prepend [] = e := by
  cases e <;> rfl

theorem Ending.push_prepend (c : Char) (value : List Char) (e : Ending) :
    (e.prepend value).push c = e.prepend (c :: value) := by
  cases e <;> rfl

/-- Reading goes over what is spelled and on from there. -/
theorem body_append_decodes {quote : Char} (hquote : quote ∈ quotes) {text value : List Char}
    (h : Decodes quote text value) (rest : List Char) :
    body quote (text ++ rest) =
      ⟨(body quote rest).ending.prepend value, (body quote rest).cut.push text⟩ := by
  obtain ⟨hslash', hfeed'⟩ := ne_of_mem_quotes hquote
  induction h with
  | nil =>
    rw [Ending.prepend_nil]
    rfl
  | @plain c text value hq hslash hfeed _ ih =>
    rw [List.cons_append, body.eq_def]
    simp only [hq, hslash, hfeed, if_false, ih, Outcome.push, Ending.push_prepend]
    rfl
  | @escaped e c text value he _ ih =>
    rw [List.cons_append, List.cons_append, body.eq_def]
    simp only [hslash'.symm, (by decide : '\\' ≠ '\n'), if_false, if_true,
      escaped?_eq_some_iff.2 he, ih, Outcome.push, Ending.push_prepend]
    rfl

theorem body_closed {quote : Char} (hquote : quote ∈ quotes) {text value : List Char}
    (h : Decodes quote text value) (rest : List Char) :
    body quote (text ++ quote :: rest) = ⟨.closed value, ⟨text ++ [quote], rest⟩⟩ := by
  have hbody : body quote (quote :: rest) = ⟨.closed [], ⟨[quote], rest⟩⟩ := by
    rw [body.eq_def]
    simp only [if_true]
  rw [body_append_decodes hquote h, hbody, Ending.prepend, List.append_nil]
  rfl

theorem body_badEscape {quote : Char} (hquote : quote ∈ quotes) {text value : List Char}
    (h : Decodes quote text value) {e : Char} (he : ∀ c, (e, c) ∉ escapes) (rest : List Char) :
    body quote (text ++ '\\' :: e :: rest) = ⟨.badEscape e, ⟨text ++ ['\\'], e :: rest⟩⟩ := by
  have hbody : body quote ('\\' :: e :: rest) = ⟨.badEscape e, ⟨['\\'], e :: rest⟩⟩ := by
    rw [body.eq_def]
    simp only [(ne_of_mem_quotes hquote).1.symm, (by decide : '\\' ≠ '\n'), if_false, if_true,
      escaped?_eq_none_iff.2 he]
  rw [body_append_decodes hquote h, hbody]
  rfl

/-- A text that begins with a string is read to the end of the string. -/
theorem not_prefix_of_body {quote : Char} (hquote : quote ∈ quotes) {cs : List Char}
    (h : ∀ value, (body quote cs).ending ≠ .closed value) (text value : List Char)
    (htext : Decodes quote text value) : ¬ text ++ [quote] <+: cs := by
  rintro ⟨rest, rfl⟩
  refine h value ?_
  rw [List.append_assoc, List.singleton_append, body_closed hquote htext]

/-- What is spelled goes on to the quote that closes it, to a backslash that begins no escape, or to a
place where the string breaks off. -/
theorem body_cases (quote : Char) (cs : List Char) :
    ∃ text value, Decodes quote text value ∧
      ((∃ rest, cs = text ++ quote :: rest ∧
          body quote cs = ⟨.closed value, ⟨text ++ [quote], rest⟩⟩) ∨
        (∃ e rest, cs = text ++ '\\' :: e :: rest ∧ ∀ c, (e, c) ∉ escapes) ∨
        (body quote cs).ending = .unterminated) := by
  fun_induction body quote cs with
  | case1 | case3 | case4 => exact ⟨[], [], .nil, .inr (.inr rfl)⟩
  | case2 cs => exact ⟨[], [], .nil, .inl ⟨cs, rfl, rfl⟩⟩
  | case5 e cs c he _ _ ih =>
    obtain ⟨text, value, hdecodes, h⟩ := ih
    refine ⟨_, _, .escaped (escaped?_eq_some_iff.1 he) hdecodes, ?_⟩
    rcases h with ⟨rest, rfl, hbody⟩ | ⟨d, rest, rfl, hd⟩ | hend
    · exact .inl ⟨rest, rfl, by rw [hbody]; rfl⟩
    · exact .inr (.inl ⟨d, rest, rfl, hd⟩)
    · exact .inr (.inr (by rw [Outcome.push, hend]; rfl))
  | case6 e cs he =>
    exact ⟨[], [], .nil, .inr (.inl ⟨e, cs, rfl, escaped?_eq_none_iff.1 he⟩)⟩
  | case7 c cs hquote hfeed hslash ih =>
    obtain ⟨text, value, hdecodes, h⟩ := ih
    refine ⟨_, _, .plain hquote hslash hfeed hdecodes, ?_⟩
    rcases h with ⟨rest, rfl, hbody⟩ | ⟨d, rest, rfl, hd⟩ | hend
    · exact .inl ⟨rest, rfl, by rw [hbody]; rfl⟩
    · exact .inr (.inl ⟨d, rest, rfl, hd⟩)
    · exact .inr (.inr (by rw [Outcome.push, hend]; rfl))

end Quotation

/-! ### Tokens -/

open Quotation

namespace Token

/-- A string is read from a quote on. -/
theorem scan_quote {q : Char} (h : q ∈ quotes) (cs : List Char) :
    Gap.split (q :: cs) = ⟨[], q :: cs⟩ ∧ scan q cs = scanString q cs := by
  simp only [quotes, List.mem_cons, List.not_mem_nil, or_false] at h
  rcases h with rfl | rfl <;> exact ⟨split_eq_none (by decide) (by decide) cs, rfl⟩

theorem reads_decodes {q : Char} (hq : q ∈ quotes) {text value : List Char} (h : Decodes q text value) :
    Reads (.string (String.ofList value)) (q :: text ++ [q]) := by
  obtain ⟨hgap, hscan⟩ := scan_quote hq (text ++ [q])
  refine ⟨q, text ++ [q], rfl, hgap, ?_⟩
  rw [hscan, scanString, body_closed hq h []]
  rfl

/-- A word is a keyword, a constant or a name. -/
theorem ofWord_cases (w : String) :
    (∃ k, ofWord w = .keyword k) ∨ (∃ b, ofWord w = .boolean b) ∨ (ofWord w = .null ∧ w = "null") ∨
      ofWord w = .name w := by
  unfold ofWord
  split
  · exact .inl ⟨_, rfl⟩
  · split
    · exact .inr (.inl ⟨true, rfl⟩)
    · split
      · exact .inr (.inl ⟨false, rfl⟩)
      · split
        · next hnull => exact .inr (.inr (.inl ⟨rfl, eq_of_beq hnull⟩))
        · exact .inr (.inr (.inr rfl))

/-- What is read as a string spells it between two quotes. -/
theorem decodes_of_scanString {q : Char} (hq : q ∈ quotes) {cs taken rest : List Char} {t : Token}
    (h : scanString q cs = ⟨.ok t, ⟨taken, rest⟩⟩) :
    ∃ s text, t = .string s ∧ Decodes q text s.toList ∧ taken = q :: text ++ [q] := by
  rw [scanString] at h
  obtain ⟨text, value, hdecodes, ⟨after, -, hbody⟩ | ⟨e, after, rfl, he⟩ | hend⟩ := body_cases q cs
  · rw [hbody] at h
    simp only [Scan.mk.injEq, Except.ok.injEq, Cut.push, Cut.mk.injEq] at h
    obtain ⟨rfl, rfl, -⟩ := h
    exact ⟨_, text, rfl, by rwa [String.toList_ofList], rfl⟩
  · rw [body_badEscape hq hdecodes he] at h
    simp at h
  · rw [hend] at h
    simp at h

theorem token?_of_scanNumber {cs taken rest : List Char} {t : Token}
    (h : scanNumber cs = ⟨.ok t, ⟨taken, rest⟩⟩) : Number.token? taken = some t := by
  simp only [scanNumber] at h
  split at h
  · cases h
  · split at h
    · next t' ht =>
      obtain ⟨rfl, hcut⟩ : t' = t ∧ Number.run true cs = ⟨taken, rest⟩ := by simpa using h
      rwa [hcut] at ht
    · cases h

/-- A token is read as a symbol, as a string, as a number or as a word. -/
theorem scan_kinds {c : Char} {cs taken rest : List Char} {t : Token}
    (h : scan c cs = ⟨.ok t, ⟨taken, rest⟩⟩) :
    (∃ s, t = .symbol s ∧ taken = s.text.toList) ∨
    (∃ q ∈ quotes, ∃ s text, t = .string s ∧ Decodes q text s.toList ∧ taken = q :: text ++ [q]) ∨
    Number.token? taken = some t ∨ isWord taken = true ∧ t = ofWord (String.ofList taken) := by
  unfold scan at h
  split at h
  · cases h
  · cases hs : symbol? (c :: cs) with
    | some s =>
      simp only [hs, Scan.mk.injEq, Except.ok.injEq, Cut.mk.injEq] at h
      obtain ⟨rfl, rfl, -⟩ := h
      rw [symbol?] at hs
      have hprefix := List.find?_some hs
      rw [List.isPrefixOf_iff_prefix] at hprefix
      exact .inl ⟨s, rfl, (List.prefix_iff_eq_take.1 hprefix).symm⟩
    | none =>
      simp only [hs] at h
      split at h
      · next hq =>
        have hq' : c ∈ quotes := by simpa [quotes] using hq
        exact .inr (.inl ⟨c, hq', decodes_of_scanString hq' h⟩)
      · split at h
        · exact .inr (.inr (.inl (token?_of_scanNumber h)))
        · split at h
          · next hc =>
            simp only [scanWord, Cut.span, Scan.mk.injEq, Except.ok.injEq, Cut.mk.injEq] at h
            obtain ⟨rfl, rfl, -⟩ := h
            refine .inr (.inr (.inr ⟨?_, rfl⟩))
            rw [List.takeWhile_cons_of_pos (isNamePart_of_isNameStart hc), isWord, hc, Bool.true_and,
              List.all_eq_true]
            exact fun x hx => List.mem_takeWhile_imp hx
          · cases h

/-- The text of a string spells it between two quotes. -/
theorem decodes_of_scan {c : Char} {cs taken rest : List Char} {s : String}
    (h : scan c cs = ⟨.ok (.string s), ⟨taken, rest⟩⟩) :
    ∃ q ∈ quotes, ∃ text, Decodes q text s.toList ∧ taken = q :: text ++ [q] := by
  rcases scan_kinds h with ⟨_, hs, -⟩ | ⟨q, hq, s, text, hs, htext, htaken⟩ | hnumber | ⟨-, hword⟩
  · cases hs
  · cases hs
    exact ⟨q, hq, text, htext, htaken⟩
  · unfold Number.token? at hnumber
    split at hnumber <;> simp at hnumber
  · rcases ofWord_cases (String.ofList taken) with ⟨_, h⟩ | ⟨_, h⟩ | ⟨h, -⟩ | h <;>
      rw [h] at hword <;> cases hword

end Token

namespace Lexer

/-- The next call answers the error, and so does reading to the end. -/
def Fails (l : Lexer) (e : LexError) : Prop :=
  l.next.1 = .error e ∧ l.tokens = .error e

theorem Fails.of_next {l : Lexer} {e : LexError} (h : l.next.1 = .error e) : l.Fails e := by
  refine ⟨h, ?_⟩
  rw [tokens, items_eq, h]
  rfl

/-- A bad escape is reported where it is found. -/
theorem fails_of_badEscape {e c : Char} {cs taken rest : List Char}
    (hgap : Gap.split (c :: cs) = ⟨[], c :: cs⟩)
    (hscan : Token.scan c cs = ⟨.error (.invalidEscape e), ⟨taken, rest⟩⟩) (source : List Char)
    (offset : Nat) :
    (⟨source, offset, c :: cs⟩ : Lexer).Fails
      ⟨.invalidEscape e, Position.of source (offset + byteLength taken)⟩ := by
  refine .of_next ?_
  simp only [next, hgap, hscan, byteLength_nil, Nat.add_zero]

/-- Any other fault is reported where the token would have begun. -/
theorem fails_of_scan {f : LexFault} {c : Char} {cs taken rest : List Char}
    (hgap : Gap.split (c :: cs) = ⟨[], c :: cs⟩)
    (hscan : Token.scan c cs = ⟨.error f, ⟨taken, rest⟩⟩) (hf : ∀ e, f ≠ .invalidEscape e)
    (source : List Char) (offset : Nat) :
    (⟨source, offset, c :: cs⟩ : Lexer).Fails ⟨f, Position.of source offset⟩ := by
  refine .of_next ?_
  cases f with
  | invalidEscape e => exact absurd rfl (hf e)
  | _ => simp only [next, hgap, hscan, byteLength_nil, Nat.add_zero]

/-- A call that answers a token has passed a gap and read the token. -/
theorem exists_of_next {l : Lexer} {x : Lexeme} (h : l.next.1 = .ok (some x)) :
    ∃ gap c cs taken rest, Gap.split l.rest = ⟨gap, c :: cs⟩ ∧
      Token.scan c cs = ⟨.ok x.token, ⟨taken, rest⟩⟩ ∧
      x.span = ⟨l.offset + byteLength gap, l.offset + byteLength gap + byteLength taken⟩ := by
  simp only [next] at h
  cases hr : (Gap.split l.rest).rest with
  | nil => simp [hr] at h
  | cons c cs =>
    rw [hr] at h
    cases hs : (Token.scan c cs).result with
    | error f => simp [hs] at h
    | ok t =>
      simp only [hs, Except.ok.injEq, Option.some.injEq] at h
      subst h
      exact ⟨_, c, cs, _, _, by rw [← hr], by rw [← hs], rfl⟩

/-- The text of a string that a lexer answers spells it between two quotes. -/
theorem decodes_of_answer {source : List Char} {n : Nat} {s : String} {p : Span}
    (h : (start source).answer n = .ok (some ⟨.string s, p⟩)) :
    ∃ q ∈ quotes, ∃ text, Decodes q text s.toList ∧ p.slice source = q :: text ++ [q] := by
  obtain ⟨gap, c, cs, taken, rest, hgap, hscan, rfl⟩ := exists_of_next h
  obtain ⟨q, hq, text, hdecodes, htaken⟩ := Token.decodes_of_scan hscan
  obtain ⟨read, hsource, hoffset⟩ := sound_after source n
  refine ⟨q, hq, text, hdecodes, ?_⟩
  have hsource' : source = read ++ gap ++ (taken ++ rest) := by
    rw [List.append_assoc, ← Lexes.eq_of_scan hscan, ← Lexes.eq_of_split hgap, ← hsource]
  have hslice := Span.slice_append (read ++ gap) taken rest
  rw [← hsource', byteLength_append, hoffset] at hslice
  rw [hslice, htaken]

end Lexer

/-- String constants are read by their grammar. A text that spells a string, between two quotes, is read as
that string and nothing else, and every string has such a text. The text of every string that a lexer
answers, however often it was called, is of this form. A text that begins with a quote, but with no
such string, is refused for the first character that stands behind a backslash and makes no escape,
if there is one before a line feed and the end, and else for the quote that is not closed. -/
theorem strings_follow_grammar :
    (∀ q ∈ quotes, ∀ value, (∃ text, Decodes q text value) ∧ ∀ text, Decodes q text value →
      tokenize (String.ofList (q :: text ++ [q])) =
        .ok [⟨.string (String.ofList value), ⟨0, byteLength (q :: text ++ [q])⟩⟩]) ∧
    (∀ source n s p, (Lexer.start source).answer n = .ok (some ⟨.string s, p⟩) →
      ∃ q ∈ quotes, ∃ text, Decodes q text s.toList ∧ p.slice source = q :: text ++ [q]) ∧
    (∀ before, ∀ q ∈ quotes, ∀ cs, (∀ text value, Decodes q text value → ¬ text ++ [q] <+: cs) →
      let source := before ++ q :: cs
      let l : Lexer := ⟨source, byteLength before, q :: cs⟩
      let bad (text : List Char) (e : Char) := (∃ value, Decodes q text value) ∧
        text ++ ['\\', e] <+: cs ∧ ∀ c, (e, c) ∉ escapes
      (∀ text e, bad text e → l.Fails
        ⟨.invalidEscape e, Position.of source (byteLength (before ++ q :: text ++ ['\\']))⟩) ∧
      ((∀ text e, ¬ bad text e) →
        l.Fails ⟨.unterminatedString, Position.of source (byteLength before)⟩)) := by
  refine ⟨fun q hq value => ⟨exists_decodes hq value, fun text htext => ?_⟩,
    fun source n s p => Lexer.decodes_of_answer, ?_⟩
  · have hread := Lexes.reads (Token.reads_decodes hq htext) 0
    rw [Nat.zero_add] at hread
    rw [tokenize_eq_ok_iff, String.toList_ofList]
    exact hread
  intro before q hq cs hopen source l bad
  obtain ⟨hgap, hscan⟩ := Token.scan_quote hq cs
  constructor
  · rintro text e ⟨⟨value, htext⟩, ⟨rest, hcs⟩, he⟩
    have hbody : body q cs = ⟨.badEscape e, ⟨text ++ ['\\'], e :: rest⟩⟩ := by
      rw [← body_badEscape hq htext he rest, ← hcs, List.append_assoc]
      rfl
    rw [Token.scanString, hbody] at hscan
    rw [List.append_assoc, byteLength_append]
    exact Lexer.fails_of_badEscape hgap hscan source (byteLength before)
  · intro hnone
    have hend : (body q cs).ending = .unterminated := by
      obtain ⟨text, value, htext, ⟨rest, hcs, -⟩ | ⟨e, rest, hcs, he⟩ | hend⟩ := body_cases q cs
      · exact absurd ⟨rest, by rw [hcs, List.append_assoc]; rfl⟩ (hopen text value htext)
      · exact absurd ⟨⟨value, htext⟩, ⟨rest, by rw [hcs, List.append_assoc]; rfl⟩, he⟩ (hnone text e)
      · exact hend
    rw [Token.scanString, hend] at hscan
    exact Lexer.fails_of_scan hgap hscan (fun e => by simp) source (byteLength before)

/-- Both quotes, plain and escaped, in one string; a string behind a bad number; a backslash before a line
feed; and an escaped quote at the end. -/
theorem strings_follow_grammar_quotes :
    let text := "a\\'\\n\"é".toList
    let source := "1x \"b\\\\\"".toList
    let broken : Lexer := ⟨"é'x\\\n'".toList, 2, "'x\\\n'".toList⟩
    let cutOff : Lexer := ⟨"é'x\\'".toList, 2, "'x\\'".toList⟩
    (Decodes '\'' text "a'\n\"é".toList ∧
      tokenize (String.ofList ('\'' :: text ++ ['\''])) = .ok [⟨.string "a'\n\"é", ⟨0, 10⟩⟩]) ∧
    ((Lexer.start source).answer 1 = .ok (some ⟨.string "b\\", ⟨3, 8⟩⟩) ∧
      ∃ q ∈ quotes, ∃ text, Decodes q text "b\\".toList ∧
        (Span.mk 3 8).slice source = q :: text ++ [q]) ∧
    broken.Fails ⟨.invalidEscape '\n', ⟨1, 5⟩⟩ ∧ cutOff.Fails ⟨.unterminatedString, ⟨1, 2⟩⟩ := by
  intro text source broken cutOff
  obtain ⟨hread, hsound, hfault⟩ := strings_follow_grammar
  have htext : Decodes '\'' text "a'\n\"é".toList :=
    .plain (by decide) (by decide) (by decide) <| .escaped (by decide) <| .escaped (by decide) <|
      .plain (by decide) (by decide) (by decide) <| .plain (by decide) (by decide) (by decide) .nil
  have hanswer : (Lexer.start source).answer 1 = .ok (some ⟨.string "b\\", ⟨3, 8⟩⟩) := by
    decide +kernel
  have hquote : '\'' ∈ quotes := by decide
  have hx : Decodes '\'' ['x'] ['x'] := .plain (by decide) (by decide) (by decide) .nil
  refine ⟨⟨htext, (hread '\'' hquote _).2 text htext⟩, ⟨hanswer, hsound _ _ _ _ hanswer⟩, ?_, ?_⟩
  · have hopen := @not_prefix_of_body _ hquote "x\\\n'".toList fun value h => by cases h
    refine (hfault ['é'] '\'' hquote _ hopen).1 ['x'] '\n' ⟨⟨_, hx⟩, ⟨['\''], rfl⟩, fun c hc => ?_⟩
    simp [escapes] at hc
  · have hopen := @not_prefix_of_body _ hquote "x\\'".toList fun value h => by cases h
    refine (hfault ['é'] '\'' hquote _ hopen).2 ?_
    rintro text e ⟨⟨value, htext⟩, ⟨rest, hcs⟩, he⟩
    have hbody := body_badEscape hquote htext he rest
    have hcs' : text ++ '\\' :: e :: rest = "x\\'".toList := by
      rw [← hcs, List.append_assoc]
      rfl
    rw [hcs'] at hbody
    cases hbody

end Aggregation
