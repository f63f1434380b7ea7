import Mathlib.Data.List.Infix
import Aggregation.Proofs.Nesting
import Aggregation.Proofs.Progress

/-! What stands between tokens.

`IsGap` is the grammar of gaps, and what is cut off as a gap is one (`Gap.isGap_split`). So a text that is
cut into tokens is made of gaps and the texts of the tokens in turn (`Lexes.accounts`): nothing is passed
over that is neither, and nothing is read twice. A lexer reads the tokens call by call and
then stands at the end of the text (`Lexes.answers`). -/
namespace Aggregation

/-! ### Gaps -/

/-- The text is a gap where the given text stands behind it: blanks, line comments, which run to a line
feed or to the end, and block comments, which run to the first `*/`. -/
inductive IsGap (behind : List Char) : List Char → Prop
  | nothing : IsGap behind []
  | blank {c gap} (hc : isBlank c = true) (h : IsGap behind gap) : IsGap behind (c :: gap)
  | line {body gap} (hbody : '\n' ∉ body) (hend : (gap ++ behind).head? ∈ [none, some '\n'])
      (h : IsGap behind gap) : IsGap behind ('/' :: '/' :: (body ++ gap))
  | block {body gap} (hbody : ¬ ['*', '/'] <:+: body ++ ['*']) (h : IsGap behind gap) :
      IsGap behind ('/' :: '*' :: (body ++ '*' :: '/' :: gap))

namespace Gap

mutual

/-- What is cut off as a gap is one. -/
theorem isGap_split (cs : List Char) : IsGap (split cs).rest (split cs).taken := by
  match cs with
  | [] => exact .nothing
  | c :: cs =>
    rcases comment_cases c cs with ⟨r, rfl, rfl⟩ | ⟨r, rfl, rfl⟩ | hc
    · obtain ⟨body, gap, htaken, hbody, hend, hgap⟩ := isGap_line r
      rw [split]
      show IsGap (line r).rest ('/' :: '/' :: (line r).taken)
      rw [htaken]
      exact .line hbody hend hgap
    · cases hb : block r with
      | none =>
        simp only [split, hb]
        exact .nothing
      | some b =>
        obtain ⟨body, gap, htaken, hbody, hgap⟩ := isGap_block hb
        simp only [split, hb]
        show IsGap b.rest ('/' :: '*' :: b.taken)
        rw [htaken]
        exact .block hbody hgap
    · rw [split_cons hc]
      split
      · next hblank => exact .blank hblank (isGap_split cs)
      · exact .nothing
termination_by cs.length

/-- A line comment runs to a line feed or to the end of the text, and a gap goes on from there. -/
theorem isGap_line (cs : List Char) : ∃ body gap, (line cs).taken = body ++ gap ∧ '\n' ∉ body ∧
    (gap ++ (line cs).rest).head? ∈ [none, some '\n'] ∧ IsGap (line cs).rest gap := by
  match cs with
  | [] => exact ⟨[], [], rfl, List.not_mem_nil, List.mem_cons_self, .nothing⟩
  | c :: cs =>
    rw [line]
    split
    · next hc =>
      subst hc
      exact ⟨[], '\n' :: (split cs).taken, rfl, List.not_mem_nil, by simp,
        .blank (by decide) (isGap_split cs)⟩
    · next hc =>
      obtain ⟨body, gap, htaken, hbody, hend, hgap⟩ := isGap_line cs
      refine ⟨c :: body, gap, congrArg (c :: ·) htaken, ?_, hend, hgap⟩
      exact List.not_mem_cons_of_ne_of_not_mem (Ne.symm hc) hbody
termination_by cs.length

/-- A block comment runs to the first `*/`, and a gap goes on from there. -/
theorem isGap_block {cs : List Char} {b : Cut} (h : block cs = some b) :
    ∃ body gap, b.taken = body ++ '*' :: '/' :: gap ∧ ¬ ['*', '/'] <:+: body ++ ['*'] ∧
      IsGap b.rest gap := by
  match cs with
  | [] => cases h
  | c :: cs =>
    by_cases hc : c = '*' → cs.head? ≠ some '/'
    · rw [block_cons hc] at h
      obtain ⟨b, hb, rfl⟩ := Option.map_eq_some_iff.1 h
      obtain ⟨body, gap, htaken, hbody, hgap⟩ := isGap_block hb
      refine ⟨c :: body, gap, congrArg (c :: ·) htaken, ?_, hgap⟩
      rw [List.cons_append, List.infix_cons_iff, not_or]
      refine ⟨?_, hbody⟩
      -- The character behind the first one is the same in the comment and in the text.
      have hhead : (body ++ ['*']).head? = cs.head? := by
        rw [← whole_block hb, Cut.whole, htaken]
        cases body <;> rfl
      intro hprefix
      obtain ⟨rfl, htail⟩ := List.cons_prefix_cons.1 hprefix
      obtain ⟨tail, htail⟩ := htail
      refine hc rfl ?_
      rw [← hhead, ← htail]
      rfl
    · push Not at hc
      obtain ⟨rfl, hs⟩ := hc
      obtain ⟨cs, rfl⟩ := List.head?_eq_some_iff.1 hs
      rw [block] at h
      obtain rfl := Option.some.inj h
      exact ⟨[], (split cs).taken, rfl, by decide, isGap_split cs⟩
termination_by cs.length

end

end Gap

/-! ### Gaps and tokens in turn -/

/-- The stretches of a text from `start` to `stop` that stand before, between and behind the tokens. -/
def gapsOf (start stop : Nat) : List Lexeme → List Span
  | [] => [⟨start, stop⟩]
  | x :: ts => ⟨start, x.span.start⟩ :: gapsOf x.span.stop stop ts

/-- The stretches of a text from `start` to `stop`, those of the tokens and those between them. -/
def stretches (start stop : Nat) : List Lexeme → List Span
  | [] => [⟨start, stop⟩]
  | x :: ts => ⟨start, x.span.start⟩ :: x.span :: stretches x.span.stop stop ts

/-- Behind a text `before`, gaps and the tokens in turn make up the text `cs`. -/
structure Accounts (before cs : List Char) (ts : List Lexeme) : Prop where
  boundary : ∀ x ∈ ts, IsBoundary (before ++ cs) x.span.start ∧ IsBoundary (before ++ cs) x.span.stop
  gaps : ∀ g ∈ gapsOf (byteLength before) (byteLength (before ++ cs)) ts,
    IsGap ((Span.mk g.stop (byteLength (before ++ cs))).slice (before ++ cs)) (g.slice (before ++ cs))
  whole : (stretches (byteLength before) (byteLength (before ++ cs)) ts).flatMap
    (·.slice (before ++ cs)) = cs

theorem Span.slice_between_texts (before inside behind : List Char) :
    (Span.mk (byteLength before) (byteLength (before ++ inside))).slice
      (before ++ (inside ++ behind)) = inside := by
  rw [byteLength_append, slice_append]

theorem Span.slice_behind_text (before inside : List Char) :
    (Span.mk (byteLength before) (byteLength (before ++ inside))).slice (before ++ inside) = inside := by
  have h := slice_between_texts before inside []
  rwa [List.append_nil] at h

namespace Accounts

variable {before gap : List Char}

/-- A gap accounts for itself. -/
theorem nil (h : IsGap [] gap) : Accounts before gap [] := by
  refine ⟨List.forall_mem_nil _, List.forall_mem_singleton.2 ?_, ?_⟩
  · have hend := Span.slice_behind_text (before ++ gap) []
    rw [List.append_nil] at hend
    rw [Span.slice_behind_text, hend]
    exact h
  · rw [stretches, List.flatMap_singleton, Span.slice_behind_text]

/-- A gap and a token in front of a text that is accounted for. -/
theorem cons {taken rest : List Char} {x : Lexeme} {ts : List Lexeme}
    (hgap : IsGap (taken ++ rest) gap) (hstart : x.span.start = byteLength (before ++ gap))
    (hstop : x.span.stop = byteLength (before ++ gap ++ taken))
    (h : Accounts (before ++ gap ++ taken) rest ts) :
    Accounts before (gap ++ (taken ++ rest)) (x :: ts) := by
  -- The whole text, cut before the token and behind it.
  have hfront : before ++ (gap ++ (taken ++ rest)) = before ++ gap ++ (taken ++ rest) :=
    (List.append_assoc _ _ _).symm
  have hback : before ++ (gap ++ (taken ++ rest)) = before ++ gap ++ taken ++ rest := by
    rw [hfront, List.append_assoc (before ++ gap)]
  obtain ⟨hboundary, hgaps, hwhole⟩ := h
  rw [← hback] at hboundary hgaps hwhole
  have hgapText : (Span.mk (byteLength before) x.span.start).slice
      (before ++ (gap ++ (taken ++ rest))) = gap := by
    rw [hstart, Span.slice_between_texts]
  have htokenText : x.span.slice (before ++ (gap ++ (taken ++ rest))) = taken := by
    have hslice := Span.slice_between_texts (before ++ gap) taken rest
    rwa [← hstart, ← hstop, ← hfront] at hslice
  refine ⟨List.forall_mem_cons.2 ⟨⟨?_, ?_⟩, hboundary⟩, List.forall_mem_cons.2 ⟨?_, ?_⟩, ?_⟩
  · exact ⟨before ++ gap, taken ++ rest, hfront, hstart.symm⟩
  · exact ⟨before ++ gap ++ taken, rest, hback, hstop.symm⟩
  · have hbehind := Span.slice_behind_text (before ++ gap) (taken ++ rest)
    rw [← hstart, ← hfront] at hbehind
    rw [hgapText, hbehind]
    exact hgap
  · rw [hstop]
    exact hgaps
  · rw [stretches, List.flatMap_cons, List.flatMap_cons, hgapText, htokenText, hstop, hwhole]

end Accounts

namespace Lexes

variable {before cs : List Char} {ts : List Lexeme}

/-- A text that is cut into tokens is made of gaps and the texts of the tokens in turn. -/
theorem accounts (h : Lexes (byteLength before) cs ts) : Accounts before cs ts := by
  induction ts generalizing before cs with
  | nil =>
    cases h with
    | done hgap =>
      have hisGap := Gap.isGap_split cs
      rw [hgap] at hisGap
      rw [eq_of_split hgap, List.append_nil]
      exact .nil hisGap
  | cons x ts ih =>
    cases h with
    | @token _ _ gap c ds t taken rest p _ hgap hscan hstart hstop hrest =>
      have hisGap := Gap.isGap_split cs
      rw [hgap, eq_of_scan hscan] at hisGap
      rw [← byteLength_append] at hstart
      rw [hstart, ← byteLength_append] at hstop
      rw [hstop] at hrest
      rw [eq_of_split hgap, eq_of_scan hscan]
      exact .cons hisGap hstart hstop (ih hrest)

/-- Call by call a lexer answers the tokens and then that the text is at its end. -/
theorem answers {offset : Nat} (h : Lexes offset cs ts) (source : List Char) :
    let l : Lexer := ⟨source, offset, cs⟩
    (List.range (ts.length + 1)).map l.answer = ts.map (fun x => .ok (some x)) ++ [.ok none] ∧
      l.after (ts.length + 1) = ⟨source, offset + byteLength cs, []⟩ := by
  induction h with
  | @done offset cs gap hgap =>
    have hnext := next_done hgap source offset
    have hcs : cs = gap := by simpa using eq_of_split hgap
    constructor
    · rw [List.length_nil, Lexer.map_answer_succ, hnext]
      rfl
    · rw [List.length_nil, Lexer.after, hnext, ← hcs]
      rfl
  | @token offset cs gap c ds t taken rest p ts hgap hscan hstart hstop _ ih =>
    obtain ⟨hanswers, hafter⟩ := ih
    have hnext := next_token hgap hscan hstart hstop source
    have hlength := byteLength_eq hgap hscan
    constructor
    · rw [List.length_cons, Lexer.map_answer_succ, hnext, hanswers]
      rfl
    · have hoffset : p.stop + byteLength rest = offset + byteLength cs := by omega
      rw [List.length_cons, Lexer.after, hnext, hafter, hoffset]

end Lexes

/-- A text that is cut into tokens is accounted for to the last character. Its items are the tokens and
behind them, once, its end, which is empty and stands behind the last character. Call by call a lexer
answers the tokens and then, standing at the end, that there is no other. The tokens are not empty, begin
and end between characters, and stand in a row. What stands before, between and behind them is made of
blanks, of line comments up to the end of the line or of the text, and of block comments up to the first
`*/`. These gaps and the texts of the tokens, in turn, make up the text. -/
theorem tokenize_accounts {source : String} {ts : List Lexeme} (h : tokenize source = .ok ts) :
    let cs := source.toList
    let l := Lexer.start cs
    itemize source = .ok (ts.map Lexeme.item ++ [.ending (byteLength cs)]) ∧
    ((List.range (ts.length + 1)).map l.answer = ts.map (fun x => .ok (some x)) ++ [.ok none] ∧
      l.after (ts.length + 1) = ⟨cs, byteLength cs, []⟩) ∧
    InRow Lexeme.span 0 (byteLength cs) ts ∧ Accounts [] cs ts := by
  intro cs l
  have hts := tokenize_eq_ok_iff.1 h
  have hitems := hts.items cs
  obtain ⟨hanswers, hafter⟩ := hts.answers cs
  have hrow := hts.inRow
  rw [Nat.zero_add] at hitems hafter hrow
  exact ⟨hitems, ⟨hanswers, hafter⟩, hrow, Lexes.accounts hts⟩

/-- A division behind a comment with stars in it, characters of two bytes, and a line comment at the end. -/
theorem tokenize_accounts_comments :
    let source := "é /*a*b**/ /2 // ü\n<= 'x' //"
    let cs := source.toList
    let words := ["é", "/", "2", "<=", "'x'"]
    let gaps := ["", " /*a*b**/ ", "", " // ü\n", " ", " //"]
    ∃ ts, tokenize source = .ok ts ∧
      ts.map (fun x => String.ofList (x.span.slice cs)) = words ∧
      (gapsOf 0 (byteLength cs) ts).map (fun g => String.ofList (g.slice cs)) = gaps ∧
      itemize source = .ok (ts.map Lexeme.item ++ [⟨none, ⟨30, 30⟩⟩]) ∧
      (Lexer.start cs).answer ts.length = .ok none ∧
      (Lexer.start cs).after (ts.length + 1) = ⟨cs, byteLength cs, []⟩ ∧
      InRow Lexeme.span 0 (byteLength cs) ts ∧ Accounts [] cs ts := by
  intro source cs words gaps
  have htexts : ((tokenize source).toOption.map fun ts =>
      (ts.map (fun x => String.ofList (x.span.slice cs)),
        (gapsOf 0 (byteLength cs) ts).map fun g => String.ofList (g.slice cs))) =
      some (words, gaps) := by
    decide +kernel
  cases hts : tokenize source with
  | error e =>
    rw [hts] at htexts
    cases htexts
  | ok ts =>
    rw [hts] at htexts
    obtain ⟨hwords, hgaps⟩ := Prod.mk.inj (Option.some.inj htexts)
    obtain ⟨hitems, ⟨hanswers, hafter⟩, hrow, haccounts⟩ := tokenize_accounts hts
    rw [show byteLength source.toList = 30 by decide +kernel] at hitems
    have hend : (Lexer.start cs).answer ts.length = .ok none := by
      have hlast := congrArg List.getLast? hanswers
      rw [List.getLast?_map, List.getLast?_range, List.getLast?_concat] at hlast
      exact Option.some.inj hlast
    exact ⟨ts, rfl, hwords, hgaps, hitems, hend, hafter, hrow, haccounts⟩

end Aggregation
