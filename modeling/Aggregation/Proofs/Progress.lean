import Aggregation.Proofs.Truncation

/-! A lexer that is called again and again.

A call passes a gap and then finds the end of the text, a character that begins no token, a token or
another fault (`Lexer.Step`). It reads on and never back (`Lexer.Step.reads`). At the end of the text, and
before a character that begins no token, the lexer stands still: every further call answers the same
(`Lexer.Step.next_eq`). Every other call takes a character at least, so there are no more of these
than characters (`Lexer.exists_isFinal`). -/
namespace Aggregation

/-! ### Places between characters -/

/-- A place of a text where a character begins, or where the text ends. -/
def IsBoundary (cs : List Char) (n : Nat) : Prop :=
  ∃ before behind, cs = before ++ behind ∧ byteLength before = n

theorem IsBoundary.le {cs : List Char} {n : Nat} (h : IsBoundary cs n) : n ≤ byteLength cs := by
  obtain ⟨before, behind, rfl, rfl⟩ := h
  rw [byteLength_append]
  exact Nat.le_add_right _ _

/-! ### One token -/

namespace Token

/-- A character that begins no token is left where it is. Whatever else is found, some character is
read. -/
theorem scan_cases (c : Char) (cs : List Char) :
    scan c cs = ⟨.error (.unexpectedChar c), ⟨[], c :: cs⟩⟩ ∨
      (scan c cs).cut.taken ≠ [] ∧ ∀ d, (scan c cs).result ≠ .error (.unexpectedChar d) := by
  unfold scan
  split
  · exact .inr ⟨List.cons_ne_nil c cs, fun d => by simp⟩
  · split
    · next s _ =>
      refine .inr ⟨?_, fun d => by simp⟩
      simpa using s.text_ne_nil
    · split
      · refine .inr ⟨List.cons_ne_nil _ _, fun d => ?_⟩
        simp only [scanString]
        split <;> simp
      · split
        · next hc =>
          refine .inr ⟨taken_scanNumber_ne_nil cs hc, fun d => ?_⟩
          simp only [scanNumber]
          split
          · simp
          · split <;> simp
        · split
          · next hc =>
            refine .inr ⟨?_, fun d => by simp [scanWord]⟩
            simp [scanWord, Cut.span, isNamePart_of_isNameStart hc]
          · exact .inl rfl

end Token

instance decidableEqExcept {ε α : Type} [DecidableEq ε] [DecidableEq α] : DecidableEq (Except ε α)
  | .ok _, .ok _ => decidable_of_iff _ ⟨congrArg Except.ok, Except.ok.inj⟩
  | .error _, .error _ => decidable_of_iff _ ⟨congrArg Except.error, Except.error.inj⟩
  | .ok _, .error _ => .isFalse (by simp)
  | .error _, .ok _ => .isFalse (by simp)

namespace Lexer

variable {l l' : Lexer} {a : Except LexError (Option Lexeme)}

/-! ### One call -/

/-- What a call can answer, and the lexer that it leaves. -/
inductive Step (l : Lexer) : Except LexError (Option Lexeme) → Lexer → Prop
  | finish {gap} (hgap : Gap.split l.rest = ⟨gap, []⟩) :
      Step l (.ok none) ⟨l.source, l.offset + byteLength gap, []⟩
  | stuck {gap c cs} (hgap : Gap.split l.rest = ⟨gap, c :: cs⟩)
      (hscan : Token.scan c cs = ⟨.error (.unexpectedChar c), ⟨[], c :: cs⟩⟩) :
      Step l (.error ⟨.unexpectedChar c, Position.of l.source (l.offset + byteLength gap)⟩)
        ⟨l.source, l.offset + byteLength gap, c :: cs⟩
  | token {gap taken rest t} (hgap : Gap.split l.rest = ⟨gap, taken ++ rest⟩) (htaken : taken ≠ []) :
      Step l
        (.ok (some ⟨t, ⟨l.offset + byteLength gap, l.offset + byteLength gap + byteLength taken⟩⟩))
        ⟨l.source, l.offset + byteLength gap + byteLength taken, rest⟩
  | fault {gap taken rest f p} (hgap : Gap.split l.rest = ⟨gap, taken ++ rest⟩) (htaken : taken ≠ [])
      (hf : ∀ c, f ≠ .unexpectedChar c) :
      Step l (.error ⟨f, p⟩) ⟨l.source, l.offset + byteLength gap + byteLength taken, rest⟩

theorem step (l : Lexer) : l.Step l.next.1 l.next.2 := by
  cases hr : (Gap.split l.rest).rest with
  | nil =>
    have hgap : Gap.split l.rest = ⟨(Gap.split l.rest).taken, []⟩ := by rw [← hr]
    simp only [next, hr]
    exact .finish hgap
  | cons c cs =>
    have hgap : Gap.split l.rest = ⟨(Gap.split l.rest).taken, c :: cs⟩ := by rw [← hr]
    rcases Token.scan_cases c cs with hscan | ⟨htaken, hf⟩
    · simp only [next, hr, hscan, byteLength_nil, Nat.add_zero]
      exact .stuck hgap hscan
    · have hread := hgap
      rw [← Token.whole_scan c cs, Cut.whole] at hread
      simp only [next, hr]
      cases hresult : (Token.scan c cs).result with
      | ok t => exact .token hread htaken
      | error f =>
        refine .fault hread htaken fun d hd => hf d ?_
        rw [hresult, hd]

/-- The answers after which a lexer stands still. -/
def isFinal : Except LexError (Option Lexeme) → Bool
  | .ok none => true
  | .ok (some _) => false
  | .error e => e.fault matches .unexpectedChar _

/-- A call reads on in the text, and unless it answers that it stands still it reads something. -/
theorem Step.reads (h : l.Step a l') : ∃ read, l.rest = read ++ l'.rest ∧
    l'.offset = l.offset + byteLength read ∧ l'.source = l.source ∧
      (isFinal a = false → read ≠ []) := by
  cases h with
  | @finish gap hgap | @stuck gap _ _ hgap =>
    exact ⟨gap, Lexes.eq_of_split hgap, rfl, rfl, fun h => by cases h⟩
  | @token gap taken rest _ hgap htaken | @fault gap taken rest _ _ hgap htaken =>
    refine ⟨gap ++ taken, ?_, ?_, rfl, fun _ => List.append_ne_nil_of_right_ne_nil gap htaken⟩
    · rw [Lexes.eq_of_split hgap, List.append_assoc]
    · rw [byteLength_append, Nat.add_assoc]

/-- A lexer that stands still answers the same to the next call. -/
theorem Step.next_eq (h : l.Step a l') (ha : isFinal a = true) : l'.next = (a, l') := by
  cases h with
  | finish => rfl
  | @stuck gap c cs hgap hscan =>
    -- What is left behind a gap begins with none, so the same character is found again.
    have hnone := Gap.split_rest l.rest
    rw [hgap] at hnone
    simp only [next, hnone, Cut.none, hscan, byteLength_nil, Nat.add_zero]
  | token => cases ha
  | @fault gap taken rest f p hgap htaken hf =>
    cases f with
    | unexpectedChar c => exact absurd rfl (hf c)
    | _ => cases ha

/-- A call that reads a token ends with the token, behind the place where it began. -/
theorem Step.span {x : Lexeme} (h : l.Step (.ok (some x)) l') :
    l.offset ≤ x.span.start ∧ x.span.start < l'.offset ∧ x.span.stop = l'.offset := by
  cases h with
  | token hgap htaken =>
    exact ⟨Nat.le_add_right _ _, Nat.lt_add_of_pos_right (byteLength_pos htaken), rfl⟩

/-- A call that does not end at a standstill moves forward. -/
theorem Step.offset_lt (h : l.Step a l') (ha : isFinal a = false) : l.offset < l'.offset := by
  obtain ⟨read, -, hoffset, -, hread⟩ := h.reads
  rw [hoffset]
  exact Nat.lt_add_of_pos_right (byteLength_pos (hread ha))

/-! ### Any number of calls -/

/-- The lexer after so many calls, going on after errors and at the end of the text. -/
def after (l : Lexer) : Nat → Lexer
  | 0 => l
  | n + 1 => l.next.2.after n

/-- What the call after so many others answers. -/
def answer (l : Lexer) (n : Nat) : Except LexError (Option Lexeme) :=
  (l.after n).next.1

theorem after_succ (l : Lexer) (n : Nat) : l.after (n + 1) = (l.after n).next.2 := by
  induction n generalizing l with
  | zero => rfl
  | succ n ih => exact ih l.next.2

/-- The answers to a call and those behind it. -/
theorem map_answer_succ (l : Lexer) (n : Nat) :
    (List.range (n + 1)).map l.answer = l.next.1 :: (List.range n).map l.next.2.answer := by
  rw [List.range_succ_eq_map, List.map_cons, List.map_map]
  rfl

theorem step_after (l : Lexer) (n : Nat) : (l.after n).Step (l.answer n) (l.after (n + 1)) := by
  rw [after_succ]
  exact (l.after n).step

/-- What is left of the text is what stands behind the place that the lexer has reached. -/
def Sound (source : List Char) (l : Lexer) : Prop :=
  ∃ read, source = read ++ l.rest ∧ byteLength read = l.offset

theorem Step.sound {source : List Char} (h : l.Step a l') (hl : l.Sound source) : l'.Sound source := by
  obtain ⟨before, hsource, hoffset⟩ := hl
  obtain ⟨read, hrest, hoffset', -, -⟩ := h.reads
  refine ⟨before ++ read, ?_, ?_⟩
  · rw [hsource, hrest, List.append_assoc]
  · rw [byteLength_append, hoffset, hoffset']

theorem sound_after (source : List Char) (n : Nat) : ((start source).after n).Sound source := by
  induction n with
  | zero => exact ⟨[], rfl, rfl⟩
  | succ n ih => exact ((start source).step_after n).sound ih

theorem Sound.isBoundary {source : List Char} (h : l.Sound source) : IsBoundary source l.offset := by
  obtain ⟨read, hsource, hoffset⟩ := h
  exact ⟨read, l.rest, hsource, hoffset⟩

/-- From a standstill on all calls answer the same, and the lexer does not move. -/
theorem answer_of_isFinal {n m : Nat} (h : isFinal (l.answer n) = true) (hm : n ≤ m) :
    l.answer m = l.answer n ∧ l.after (m + 1) = l.after (n + 1) := by
  induction hm with
  | refl => exact ⟨rfl, rfl⟩
  | @step m _ ih =>
    obtain ⟨hanswer, hafter⟩ := ih
    have hnext := (l.step_after n).next_eq h
    have hsame : l.answer (m + 1) = l.answer n := by
      rw [answer, hafter, hnext]
    refine ⟨hsame, ?_⟩
    rw [after_succ, hafter, hnext]

/-- A lexer stands still after no more calls than characters are left. -/
theorem exists_isFinal (l : Lexer) : ∃ n ≤ l.rest.length, isFinal (l.answer n) = true := by
  cases ha : isFinal l.next.1 with
  | true => exact ⟨0, Nat.zero_le _, ha⟩
  | false =>
    obtain ⟨read, hrest, -, -, hread⟩ := l.step.reads
    have hpos := List.length_pos_iff.2 (hread ha)
    have hlength : l.rest.length = read.length + l.next.2.rest.length := by
      rw [hrest, List.length_append]
    obtain ⟨n, hn, hfinal⟩ := exists_isFinal l.next.2
    exact ⟨n + 1, by omega, hfinal⟩
termination_by l.rest.length
decreasing_by omega

/-- At the end of the text nothing is left. -/
theorem Step.offset_of_finish {source : List Char} (h : l.Step (.ok none) l') (hl : l.Sound source) :
    l'.offset = byteLength source := by
  obtain ⟨read, hsource, hoffset⟩ := h.sound hl
  cases h with
  | finish hgap =>
    rw [hsource, List.append_nil, hoffset]

theorem nextItem_of_answer {n place : Nat} (h : l.answer n = .ok none)
    (hplace : (l.after (n + 1)).offset = place) :
    (l.after n).nextItem.1 = .ok (.ending place) := by
  show (l.answer n).map (fun x => (x.map Lexeme.item).getD (.ending (l.after n).next.2.offset)) = _
  rw [h, ← after_succ, hplace]
  rfl

/-- A lexer that is called any number of times, also after errors and at the end of its text, reads on
in the text or stands still for good. No call moves it back, past the end or into a character. A call
that answers a token moves it from where it was, or behind that, to the end of the token, which is not
empty. An error moves it forward too, unless a character begins no token: then all further calls answer
this error. At the end of the text they all answer that it is the end, which is empty and stands behind
the last character. So after as many calls as there are characters all calls answer the same. -/
theorem reads_on_or_stands_still (source : List Char) (n : Nat) :
    let l : Lexer := start source
    let place := (l.after n).offset
    let next := (l.after (n + 1)).offset
    (place ≤ next ∧ next ≤ byteLength source ∧ IsBoundary source place ∧ IsBoundary source next) ∧
    (∀ x, l.answer n = .ok (some x) →
      place ≤ x.span.start ∧ x.span.start < next ∧ x.span.stop = next) ∧
    (∀ e, l.answer n = .error e → (∀ c, e.fault ≠ .unexpectedChar c) → place < next) ∧
    (l.answer n = .ok none → ∀ m ≥ n,
      l.answer m = .ok none ∧ (l.after (m + 1)).offset = byteLength source ∧
        (l.after m).nextItem.1 = .ok (.ending (byteLength source))) ∧
    (∀ e c, l.answer n = .error e → e.fault = .unexpectedChar c → ∀ m ≥ n, l.answer m = .error e) ∧
    (source.length ≤ n → l.answer n = l.answer source.length) := by
  intro l place next
  have hstep := l.step_after n
  have hsound := sound_after source n
  have hboundary : IsBoundary source next := (sound_after source (n + 1)).isBoundary
  refine ⟨⟨?_, hboundary.le, hsound.isBoundary, hboundary⟩, ?_, ?_, ?_, ?_, ?_⟩
  · obtain ⟨read, -, hoffset, -, -⟩ := hstep.reads
    exact Nat.le_of_add_right_le (Nat.le_of_eq hoffset.symm)
  · intro x hx
    rw [hx] at hstep
    exact hstep.span
  · intro e he hf
    refine hstep.offset_lt ?_
    rw [he]
    obtain ⟨f, p⟩ := e
    cases f with
    | unexpectedChar c => exact absurd rfl (hf c)
    | _ => rfl
  · intro hend m hm
    obtain ⟨hanswer, hafter⟩ := answer_of_isFinal (l := l) (n := n) (by rw [hend]; rfl) hm
    rw [hend] at hanswer hstep
    have hoffset : (l.after (m + 1)).offset = byteLength source := by
      rw [hafter, hstep.offset_of_finish hsound]
    exact ⟨hanswer, hoffset, nextItem_of_answer hanswer hoffset⟩
  · intro e c he hc m hm
    have hfinal : isFinal (l.answer n) = true := by
      rw [he, isFinal, hc]
    exact (answer_of_isFinal hfinal hm).1.trans he
  · intro hn
    obtain ⟨k, hk, hfinal⟩ := exists_isFinal l
    exact (answer_of_isFinal hfinal (Nat.le_trans hk hn)).1.trans
      (answer_of_isFinal hfinal hk).1.symm

/-- A bad escape, a name, a bad number, a string and a comment that are not closed, and the end of the
text. In the other text a character begins no token. -/
theorem reads_on_or_stands_still_faults :
    let source := "'é\\q 1x \"b\n /* ü".toList
    let l := start source
    let k := start "é # 1".toList
    (l.answer 0 = .error ⟨.invalidEscape 'q', ⟨1, 4⟩⟩ ∧ l.offset < (l.after 1).offset) ∧
    (l.answer 1 = .ok (some ⟨.name "q", ⟨4, 5⟩⟩) ∧ (l.after 1).offset ≤ 4 ∧ (l.after 2).offset = 5) ∧
    (l.answer 5 = .ok none ∧ ∀ m ≥ 5, l.answer m = .ok none ∧ (l.after (m + 1)).offset = 18 ∧
      (l.after m).nextItem.1 = .ok ⟨none, ⟨18, 18⟩⟩) ∧
    (k.answer 1 = .error ⟨.unexpectedChar '#', ⟨1, 3⟩⟩ ∧ ∀ m ≥ 1, k.answer m = k.answer 1) ∧
    l.answer 100 = l.answer 16 := by
  intro source l k
  have hescape : l.answer 0 = .error ⟨.invalidEscape 'q', ⟨1, 4⟩⟩ := by decide +kernel
  have hname : l.answer 1 = .ok (some ⟨.name "q", ⟨4, 5⟩⟩) := by decide +kernel
  have hend : l.answer 5 = .ok none := by decide +kernel
  have hstuck : k.answer 1 = .error ⟨.unexpectedChar '#', ⟨1, 3⟩⟩ := by decide +kernel
  obtain ⟨-, -, hforward, -, -, -⟩ := reads_on_or_stands_still source 0
  obtain ⟨-, htoken, -, -, -, -⟩ := reads_on_or_stands_still source 1
  obtain ⟨-, -, -, hstill, -, -⟩ := reads_on_or_stands_still source 5
  obtain ⟨-, -, -, -, hsame, -⟩ := reads_on_or_stands_still "é # 1".toList 1
  obtain ⟨-, -, -, -, -, hsettled⟩ := reads_on_or_stands_still source 100
  obtain ⟨hstart, -, hstop⟩ := htoken _ hname
  refine ⟨⟨hescape, hforward _ hescape fun c hc => by cases hc⟩, ⟨hname, hstart, hstop.symm⟩,
    ⟨hend, hstill hend⟩, ⟨hstuck, fun m hm => ?_⟩, hsettled (by decide)⟩
  exact (hsame _ '#' hstuck rfl m hm).trans hstuck.symm

end Lexer

end Aggregation
