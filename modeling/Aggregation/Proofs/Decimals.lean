import Aggregation.Proofs.Numerals
import Aggregation.Proofs.Strings

/-! Number constants and their grammar.

A decimal is digits, perhaps a fraction and perhaps an exponent (`Number.IsDecimal`). The characters taken
for a number go on over every decimal at the start of the text (`Number.run_append_decimal`), and may
go further: over an exponent without digits, and over one exponent behind another. What is taken denotes a
number only if it is a decimal (`Number.isDecimal_of_token?`), and then it is the longest at the start of
the text. Where it is longer than that, the rest of the longest decimal begins with the letter of an
exponent, which is also the first of a name. So a number is read just where no name follows the longest
decimal. -/
namespace Aggregation

/-! ### The grammar -/

namespace Number

def AllDigits (ds : List Char) : Prop := ∀ d ∈ ds, d.isDigit = true

/-- A point and digits behind it, or nothing. -/
inductive IsFraction : List Char → Prop
  | none : IsFraction []
  | digits {ds} (hne : ds ≠ []) (hds : AllDigits ds) : IsFraction ('.' :: ds)

/-- A letter, perhaps a sign, and digits, or nothing. -/
inductive IsExponent : List Char → Prop
  | none : IsExponent []
  | digits {letter sign ds} (hletter : letter ∈ ['e', 'E']) (hsign : sign ∈ [[], ['+'], ['-']])
      (hne : ds ≠ []) (hds : AllDigits ds) : IsExponent (letter :: (sign ++ ds))

/-- Digits, perhaps a fraction, and perhaps an exponent. -/
inductive IsDecimal : List Char → Prop
  | parts {whole fraction exponent} (hne : whole ≠ []) (hwhole : AllDigits whole)
      (hfraction : IsFraction fraction) (hexponent : IsExponent exponent) :
      IsDecimal (whole ++ (fraction ++ exponent))

/-- The text is the longest decimal that it begins with, and a rest. -/
structure IsLongest (cs m r : List Char) : Prop where
  whole : cs = m ++ r
  decimal : IsDecimal m
  longest : ∀ m', m' <+: cs → IsDecimal m' → m'.length ≤ m.length

/-- The token is of the kind that a decimal denotes, and if it is an integer it has its value. -/
def Denotes (m : List Char) : Token → Prop
  | .integer n => AllDigits m ∧ Nat.ofDigitChars 10 m 0 = n ∧ n < 2 ^ 63
  | .float _ => ¬ (AllDigits m ∧ Nat.ofDigitChars 10 m 0 < 2 ^ 63)
  | _ => False

theorem IsExponent.head? {exponent : List Char} (h : IsExponent exponent) :
    exponent = [] ∨ ∃ letter ∈ ['e', 'E'], exponent.head? = some letter := by
  cases h with
  | none => exact .inl rfl
  | digits hletter => exact .inr ⟨_, hletter, rfl⟩

/-- One digit more behind a decimal. -/
theorem IsDecimal.concat {m : List Char} (h : IsDecimal m) {d : Char} (hd : d.isDigit = true) :
    IsDecimal (m ++ [d]) := by
  have hconcat {ds : List Char} (hds : AllDigits ds) : AllDigits (ds ++ [d]) :=
    List.forall_mem_append.2 ⟨hds, List.forall_mem_singleton.2 hd⟩
  obtain ⟨hne, hwhole, hfraction, hexponent⟩ := h
  cases hexponent with
  | none =>
    cases hfraction with
    | none =>
      have hdecimal := IsDecimal.parts (List.concat_ne_nil d _) (hconcat hwhole) .none .none
      simpa using hdecimal
    | digits hne' hds =>
      have hdecimal :=
        IsDecimal.parts hne hwhole (.digits (List.concat_ne_nil d _) (hconcat hds)) .none
      simpa using hdecimal
  | digits hletter hsign hne' hds =>
    have hdecimal := IsDecimal.parts hne hwhole hfraction
      (.digits hletter hsign (List.concat_ne_nil d _) (hconcat hds))
    simpa using hdecimal

/-! ### What is taken for a number -/

theorem isDigit_of_letter {c : Char} (h : c ∈ ['e', 'E']) : c.isDigit = false := by
  simp only [List.mem_cons, List.not_mem_nil, or_false] at h
  rcases h with rfl | rfl <;> decide

theorem startsWithDigit_append_of_digits {ds : List Char} (hne : ds ≠ []) (hds : AllDigits ds)
    (s : List Char) : startsWithDigit (ds ++ s) = true := by
  cases ds with
  | nil => exact absurd rfl hne
  | cons d ds => exact hds d List.mem_cons_self

/-- A fraction is taken whole. -/
theorem run_fraction {ds : List Char} (hne : ds ≠ []) (hds : AllDigits ds) (s : List Char) :
    run true ('.' :: (ds ++ s)) = (run false s).push ('.' :: ds) := by
  rw [run.eq_def]
  simp only [show '.'.isDigit = false by decide, startsWithDigit_append_of_digits hne hds,
    run_digits false hds]
  rfl

/-- An exponent is taken whole. -/
theorem run_exponent (whole : Bool) {letter : Char} {sign ds : List Char}
    (hletter : letter ∈ ['e', 'E']) (hsign : sign ∈ [[], ['+'], ['-']]) (hne : ds ≠ [])
    (hds : AllDigits ds) (s : List Char) :
    run whole (letter :: (sign ++ (ds ++ s))) = (run false s).push (letter :: (sign ++ ds)) := by
  have hpoint : (letter == '.') = false := by
    simp only [List.mem_cons, List.not_mem_nil, or_false] at hletter
    rcases hletter with rfl | rfl <;> decide
  have he : (letter == 'e' || letter == 'E') = true := by simpa using hletter
  rw [run.eq_def]
  simp only [isDigit_of_letter hletter, hpoint, he, Bool.false_and, Bool.false_eq_true, if_false,
    if_true]
  simp only [List.mem_cons, List.not_mem_nil, or_false] at hsign
  rcases hsign with rfl | rfl | rfl
  · obtain ⟨d, ds, rfl⟩ := List.exists_cons_of_ne_nil hne
    have hd : (d == '+' || d == '-') = false := by
      have hdigit := hds d List.mem_cons_self
      by_contra hsign
      simp only [Bool.not_eq_false, Bool.or_eq_true, beq_iff_eq] at hsign
      rcases hsign with rfl | rfl <;> revert hdigit <;> decide
    have hrun := run_digits false hds s
    simp only [List.nil_append, List.cons_append, hd, Bool.false_eq_true, if_false] at hrun ⊢
    rw [hrun]
    rfl
  · simp only [List.cons_append, List.nil_append, run_digits false hds]
    rfl
  · simp only [List.cons_append, List.nil_append, run_digits false hds]
    rfl

/-- A decimal is taken whole. A point can go on with it only if it is all digits. -/
theorem run_append_decimal {m : List Char} (h : IsDecimal m) (s : List Char) :
    ∃ whole, run true (m ++ s) = (run whole s).push m ∧ (whole = true → AllDigits m) := by
  have hpush (cs ds : List Char) (c : Cut) : (c.push ds).push cs = c.push (cs ++ ds) := by
    simp [Cut.push]
  obtain ⟨hne, hwhole, hfraction, hexponent⟩ := h
  cases hfraction with
  | none =>
    cases hexponent with
    | none =>
      refine ⟨true, ?_, fun _ => by simpa using hwhole⟩
      simp only [List.append_nil]
      exact run_digits true hwhole s
    | digits hletter hsign hne' hds =>
      refine ⟨false, ?_, fun h => by cases h⟩
      simp only [List.nil_append, List.append_assoc, List.cons_append, run_digits true hwhole,
        run_exponent true hletter hsign hne' hds, hpush]
  | digits hne₁ hds₁ =>
    cases hexponent with
    | none =>
      refine ⟨false, ?_, fun h => by cases h⟩
      simp only [List.append_nil, List.append_assoc, List.cons_append, run_digits true hwhole,
        run_fraction hne₁ hds₁, hpush]
    | digits hletter hsign hne₂ hds₂ =>
      refine ⟨false, ?_, fun h => by cases h⟩
      simp only [List.append_assoc, List.cons_append, run_digits true hwhole,
        run_fraction hne₁ hds₁, run_exponent false hletter hsign hne₂ hds₂, hpush]

/-- No decimal at the start of a text is longer than what is taken for a number. -/
theorem length_le_run {cs m : List Char} (h : IsDecimal m) (hm : m <+: cs) :
    m.length ≤ (run true cs).taken.length := by
  obtain ⟨s, rfl⟩ := hm
  obtain ⟨whole, hrun, -⟩ := run_append_decimal h s
  rw [hrun, Cut.push, List.length_append]
  exact Nat.le_add_right _ _

/-- What is taken for a number is the longest decimal, if it is one. -/
theorem isLongest_of_run {cs m r : List Char} (hrun : run true cs = ⟨m, r⟩) (hm : IsDecimal m) :
    IsLongest cs m r := by
  have hwhole := whole_run true cs
  have hlength (m' : List Char) (hbegins : m' <+: cs) (hm' : IsDecimal m') :=
    length_le_run hm' hbegins
  rw [hrun] at hwhole hlength
  exact ⟨hwhole.symm, hm, hlength⟩

theorem isNameStart_of_letter {c : Char} (h : c ∈ ['e', 'E']) : isNameStart c = true := by
  simp only [List.mem_cons, List.not_mem_nil, or_false] at h
  rcases h with rfl | rfl <;> decide

/-- The longest decimal is what is taken for a number, if no name follows it. -/
theorem run_of_isLongest {cs m r : List Char} (h : IsLongest cs m r)
    (hr : r.head?.any isNameStart = false) : run true cs = ⟨m, r⟩ := by
  obtain ⟨rfl, hm, hlongest⟩ := h
  have hshort (c : Char) (ds ds' : List Char) (hds : r = c :: ds ++ ds') :
      ¬ IsDecimal (m ++ c :: ds) := by
    intro hdecimal
    have hle := hlongest _ ⟨ds', by rw [hds, List.append_assoc]⟩ hdecimal
    rw [List.length_append, List.length_cons] at hle
    omega
  obtain ⟨whole, hrun, hall⟩ := run_append_decimal hm r
  have hstop : run whole r = ⟨[], r⟩ := by
    cases r with
    | nil =>
      rw [run]
      rfl
    | cons c r =>
      have hdigit : c.isDigit = false := by
        by_contra hc
        exact hshort c [] r rfl (hm.concat (by simpa using hc))
      have hpoint : (c == '.' && whole && startsWithDigit r) = false := by
        by_contra hc
        simp only [Bool.not_eq_false, Bool.and_eq_true, beq_iff_eq] at hc
        obtain ⟨⟨rfl, hwhole⟩, hd⟩ := hc
        obtain ⟨d, r, rfl⟩ : ∃ d r', r = d :: r' :=
          List.exists_cons_of_ne_nil (by rintro rfl; cases hd)
        refine hshort '.' [d] r rfl ?_
        have hne : m ≠ [] := by
          obtain ⟨hne, -, -, -⟩ := hm
          exact List.append_ne_nil_of_left_ne_nil hne _
        have hdecimal := IsDecimal.parts hne (hall hwhole)
          (.digits (List.cons_ne_nil d []) (List.forall_mem_singleton.2 hd)) .none
        simpa using hdecimal
      have hletter : (c == 'e' || c == 'E') = false := by
        by_contra hc
        have hstart : isNameStart c = true :=
          isNameStart_of_letter (by simpa [or_iff_not_imp_left] using hc)
        simp [hstart] at hr
      rw [run.eq_def]
      simp only [hdigit, hpoint, hletter, Bool.false_eq_true, if_false]
      rfl
  rw [hrun, hstop, Cut.push, List.append_nil]

/-! ### What denotes a number -/

theorem head?_run (whole : Bool) {cs : List Char} (h : startsWithDigit cs = true) :
    ∃ d, d.isDigit = true ∧ (run whole cs).taken.head? = some d := by
  cases cs with
  | nil => cases h
  | cons d cs =>
    have hd : d.isDigit = true := h
    refine ⟨d, hd, ?_⟩
    rw [run.eq_def]
    simp only [hd, if_true]
    rfl

/-- What follows the digits of a number begins with none. -/
theorem eq_nil_or_head? {fraction tail : List Char} (hfraction : IsFraction fraction)
    (htail : tail = [] ∨ ∃ letter ∈ ['e', 'E'], tail.head? = some letter) :
    fraction ++ tail = [] ∨ ∃ c, (fraction ++ tail).head? = some c ∧ c.isDigit = false := by
  cases hfraction with
  | none =>
    rcases htail with rfl | ⟨letter, hletter, hhead⟩
    · exact .inl rfl
    · exact .inr ⟨letter, hhead, isDigit_of_letter hletter⟩
  | digits => exact .inr ⟨'.', rfl, by decide⟩

/-- A number that begins with a digit has digits before its fraction. -/
theorem digits_ne_nil {ds fraction tail : List Char} {d : Char} (hd : d.isDigit = true)
    (hfraction : IsFraction fraction)
    (htail : tail = [] ∨ ∃ letter ∈ ['e', 'E'], tail.head? = some letter)
    (hhead : (ds ++ (fraction ++ tail)).head? = some d) : ds ≠ [] := by
  rintro rfl
  rw [List.nil_append] at hhead
  rcases eq_nil_or_head? hfraction htail with hnil | ⟨c, hc, hdigit⟩
  · rw [hnil] at hhead
    cases hhead
  · obtain rfl := Option.some.inj (hc.symm.trans hhead)
    rw [hd] at hdigit
    cases hdigit

/-- What is taken for a number: digits, a fraction, and whatever begins with the letter of an exponent. -/
theorem exists_of_run (whole : Bool) (cs : List Char) :
    ∃ ds fraction tail, (run whole cs).taken = ds ++ (fraction ++ tail) ∧ AllDigits ds ∧
      IsFraction fraction ∧ (whole = false → fraction = []) ∧
      (tail = [] ∨ ∃ letter ∈ ['e', 'E'], tail.head? = some letter) := by
  have hnone : AllDigits [] := List.forall_mem_nil _
  fun_induction run whole cs with
  | case1 => exact ⟨[], [], [], rfl, hnone, .none, fun _ => rfl, .inl rfl⟩
  | case2 whole c cs hc ih =>
    obtain ⟨ds, fraction, tail, htaken, hds, hfraction, hwhole, htail⟩ := ih
    exact ⟨c :: ds, fraction, tail, by rw [Cut.push, htaken]; rfl,
      List.forall_mem_cons.2 ⟨hc, hds⟩, hfraction, hwhole, htail⟩
  | case3 whole c cs hc hpoint ih =>
    obtain ⟨ds, fraction, tail, htaken, hds, -, hfraction, htail⟩ := ih
    obtain rfl := hfraction rfl
    simp only [Bool.and_eq_true, beq_iff_eq] at hpoint
    obtain ⟨⟨rfl, hwhole⟩, hdigit⟩ := hpoint
    -- The digit behind the point is one of the digits that are taken.
    obtain ⟨d, hd, hhead⟩ := head?_run false hdigit
    rw [htaken] at hhead
    have hne := digits_ne_nil hd .none htail hhead
    refine ⟨[], '.' :: ds, tail, by rw [Cut.push, htaken]; rfl, hnone, .digits hne hds, ?_, htail⟩
    intro hfalse
    rw [hwhole] at hfalse
    cases hfalse
  | case4 whole c hc hletter =>
    exact ⟨[], [], [c], rfl, hnone, .none, fun _ => rfl, .inr ⟨c, by simpa using hletter, rfl⟩⟩
  | case5 whole c hc hletter =>
    exact ⟨[], [], _, rfl, hnone, .none, fun _ => rfl, .inr ⟨c, by simpa using hletter, rfl⟩⟩
  | case6 whole c hc hletter =>
    exact ⟨[], [], _, rfl, hnone, .none, fun _ => rfl, .inr ⟨c, by simpa using hletter, rfl⟩⟩
  | case7 => exact ⟨[], [], [], rfl, hnone, .none, fun _ => rfl, .inl rfl⟩

theorem isSome_exponent?_cons (letter : Char) (cs : List Char) :
    (exponent? (letter :: cs)).isSome = true ↔ letter ∈ ['e', 'E'] ∧
      ∃ ds, ds = (if cs.head? = some '-' ∨ cs.head? = some '+' then cs.tail else cs) ∧ ds ≠ [] ∧
        AllDigits ds := by
  simp only [exponent?, AllDigits]
  by_cases hletter : letter = 'e' ∨ letter = 'E'
  · by_cases hsign : cs.head? = some '-' ∨ cs.head? = some '+' <;> simp [hletter, hsign]
  · simp [hletter]

/-- Just the exponents of the grammar denote one. -/
theorem isSome_exponent?_iff {tail : List Char} : (exponent? tail).isSome = true ↔ IsExponent tail := by
  constructor
  · intro h
    cases tail with
    | nil => exact .none
    | cons letter cs =>
      obtain ⟨hletter, ds, hds, hne, hall⟩ := (isSome_exponent?_cons letter cs).1 h
      split at hds
      · next hsign =>
        cases cs with
        | nil => simp at hsign
        | cons sign cs =>
          subst hds
          have hsign' : [sign] ∈ [[], ['+'], ['-']] := by simpa [or_comm] using hsign
          exact .digits hletter hsign' hne hall
      · subst hds
        have hsign' : [] ∈ [[], ['+'], ['-']] := List.mem_cons_self
        exact .digits hletter hsign' hne hall
  · intro h
    cases h with
    | none => rfl
    | @digits letter sign ds hletter hsign hne hds =>
      refine (isSome_exponent?_cons _ _).2 ⟨hletter, ds, ?_, hne, hds⟩
      simp only [List.mem_cons, List.not_mem_nil, or_false] at hsign
      rcases hsign with rfl | rfl | rfl
      · obtain ⟨d, ds, rfl⟩ := List.exists_cons_of_ne_nil hne
        have hd : d ≠ '-' ∧ d ≠ '+' := by
          have hdigit := hds d List.mem_cons_self
          constructor <;> rintro rfl <;> revert hdigit <;> decide
        simp [hd]
      · rfl
      · rfl

/-- Digits, a fraction and what begins as an exponent denote a number of double precision if the last
is an exponent. -/
theorem isSome_decimal? {ds fraction tail : List Char} (hds : AllDigits ds)
    (hfraction : IsFraction fraction)
    (htail : tail = [] ∨ ∃ letter ∈ ['e', 'E'], tail.head? = some letter) :
    (decimal? (ds ++ (fraction ++ tail))).isSome = (exponent? tail).isSome := by
  have hnone : tail.takeWhile Char.isDigit = [] ∧ tail.dropWhile Char.isDigit = tail ∧
      (tail.head? == some '.') = false := by
    rcases htail with rfl | ⟨letter, hletter, hhead⟩
    · exact ⟨rfl, rfl, rfl⟩
    · obtain ⟨tail, rfl⟩ := List.head?_eq_some_iff.1 hhead
      have hdigit := isDigit_of_letter hletter
      have hpoint : letter ≠ '.' := by
        rintro rfl
        simp at hletter
      simp [hdigit, hpoint]
  obtain ⟨htake, hdrop, hhead⟩ := hnone
  unfold decimal?
  rw [List.takeWhile_append_of_pos hds, List.dropWhile_append_of_pos hds]
  cases hfraction with
  | none => simp [htake, hdrop, hhead]
  | digits _ hfs =>
    simp [List.takeWhile_append_of_pos hfs, List.dropWhile_append_of_pos hfs, htake, hdrop,
      show '.'.isDigit = false by decide]

theorem ofDigits_eq (ds : List Char) : ofDigits ds = Nat.ofDigitChars 10 ds 0 :=
  (Nat.ofDigitChars_eq_foldl ..).symm

/-- A decimal denotes a number. -/
theorem exists_token?_of_isDecimal {m : List Char} (h : IsDecimal m) :
    ∃ t, token? m = some t ∧ Denotes m t := by
  have hdecimal : (decimal? m).isSome = true := by
    obtain ⟨-, hwhole, hfraction, hexponent⟩ := h
    rw [isSome_decimal? hwhole hfraction hexponent.head?]
    exact isSome_exponent?_iff.2 hexponent
  obtain ⟨x, hx⟩ := Option.isSome_iff_exists.1 hdecimal
  unfold token?
  split
  · next hinteger =>
    obtain ⟨hall, hlt⟩ := Bool.and_eq_true_iff.1 hinteger
    refine ⟨_, rfl, List.all_eq_true.1 hall, (ofDigits_eq m).symm, ?_⟩
    exact of_decide_eq_true hlt
  · next hinteger =>
    refine ⟨.float x, by rw [hx]; rfl, ?_⟩
    rintro ⟨hall, hlt⟩
    refine hinteger (Bool.and_eq_true_iff.2 ⟨List.all_eq_true.2 hall, decide_eq_true ?_⟩)
    rw [ofDigits_eq]
    exact hlt

/-- What is taken for a number denotes one only if it is a decimal. -/
theorem isDecimal_of_token? {cs : List Char} (hcs : startsWithDigit cs = true) {t : Token}
    (h : token? (run true cs).taken = some t) : IsDecimal (run true cs).taken := by
  obtain ⟨d, hd, hhead⟩ := head?_run true hcs
  obtain ⟨ds, fraction, tail, htaken, hds, hfraction, -, htail⟩ := exists_of_run true cs
  rw [htaken] at h hhead ⊢
  refine .parts (digits_ne_nil hd hfraction htail hhead) hds hfraction ?_
  unfold token? at h
  split at h
  · next hinteger =>
    -- All are digits, so there is neither a fraction nor an exponent.
    have hall := List.all_eq_true.1 (Bool.and_eq_true_iff.1 hinteger).1
    rcases eq_nil_or_head? hfraction htail with hnil | ⟨c, hc, hdigit⟩
    · rw [(List.append_eq_nil_iff.1 hnil).2]
      exact .none
    · rw [hall c (List.mem_append_right ds (List.mem_of_head? hc))] at hdigit
      cases hdigit
  · obtain ⟨x, hx, -⟩ := Option.map_eq_some_iff.1 h
    rw [← isSome_exponent?_iff, ← isSome_decimal? hds hfraction htail, hx]
    rfl

end Number

/-! ### Tokens -/

open Number

namespace Token

def isNumber : Token → Bool
  | integer _ | float _ => true
  | _ => false

theorem isNumber_of_denotes {m : List Char} {t : Token} (h : Denotes m t) : t.isNumber = true := by
  cases t with
  | integer | float => rfl
  | _ => cases h

/-- The longest decimal is read as a number if no name follows it. -/
theorem scanNumber_of_isLongest {cs m r : List Char} (h : IsLongest cs m r)
    (hr : r.head?.any isNameStart = false) :
    ∃ t, scanNumber cs = ⟨.ok t, ⟨m, r⟩⟩ ∧ Denotes m t := by
  obtain ⟨t, ht, hdenotes⟩ := exists_token?_of_isDecimal h.decimal
  refine ⟨t, ?_, hdenotes⟩
  simp only [scanNumber, run_of_isLongest h hr, hr, ht]
  rfl

/-- What is read as a number is the longest decimal, and no name follows it. -/
theorem isLongest_of_scanNumber {cs : List Char} (hcs : startsWithDigit cs = true) {t : Token}
    (h : (scanNumber cs).result = .ok t) :
    ∃ m r, IsLongest cs m r ∧ r.head?.any isNameStart = false := by
  unfold scanNumber at h
  dsimp only at h
  split at h
  · cases h
  · next hname =>
    split at h
    · next t' ht =>
      exact ⟨_, _, isLongest_of_run rfl (isDecimal_of_token? hcs ht), by simpa using hname⟩
    · cases h

theorem exists_of_scanNumber_error {cs : List Char} {f : LexFault}
    (h : (scanNumber cs).result = .error f) : ∃ text, f = .invalidNumber text := by
  unfold scanNumber at h
  dsimp only at h
  split at h
  · exact ⟨_, (Except.error.inj h).symm⟩
  · split at h
    · cases h
    · exact ⟨_, (Except.error.inj h).symm⟩

end Token

/-- Numbers are read by the grammar of decimals. Where a digit stands, a number is answered just if the
text goes on with a longest decimal and then with no name. The text of the token is this decimal; it is
an integer if it is all digits for a number below `2^63`, and else of double precision. In every
other case the answer is that the number is faulty, at the first digit. -/
theorem numbers_follow_grammar (before : List Char) {d : Char} (hd : d.isDigit = true)
    (cs : List Char) :
    let l : Lexer := ⟨before ++ d :: cs, byteLength before, d :: cs⟩
    let splits (m r : List Char) := IsLongest (d :: cs) m r ∧ r.head?.any isNameStart = false
    ((∃ x, l.next.1 = .ok (some x) ∧ x.token.isNumber = true) ↔ ∃ m r, splits m r) ∧
    (∀ m r, splits m r → ∃ x, l.next.1 = .ok (some x) ∧ Denotes m x.token ∧
      x.span = ⟨byteLength before, byteLength (before ++ m)⟩ ∧ x.span.slice l.source = m) ∧
    ((¬ ∃ m r, splits m r) →
      ∃ text, l.Fails ⟨.invalidNumber text, Position.of l.source (byteLength before)⟩) := by
  intro l splits
  have hstarts : startsWithDigit (d :: cs) = true := hd
  obtain ⟨hgap, hscan⟩ := Token.scan_digit hd cs
  have hread (m r : List Char) (h : splits m r) : ∃ x, l.next.1 = .ok (some x) ∧
      Denotes m x.token ∧ x.span = ⟨byteLength before, byteLength (before ++ m)⟩ ∧
      x.span.slice l.source = m := by
    obtain ⟨t, ht, hdenotes⟩ := Token.scanNumber_of_isLongest h.1 h.2
    rw [ht] at hscan
    have hspan : (Span.mk (byteLength before) (byteLength (before ++ m))).slice l.source = m := by
      simp only [l, h.1.whole, byteLength_append]
      exact Span.slice_append before m r
    have hstart : byteLength before = byteLength before + byteLength [] := rfl
    have hnext := Lexes.next_token (p := ⟨_, byteLength (before ++ m)⟩) hgap hscan hstart
      (byteLength_append ..) l.source
    exact ⟨_, congrArg Prod.fst hnext, hdenotes, rfl, hspan⟩
  refine ⟨⟨?_, ?_⟩, hread, ?_⟩
  · rintro ⟨x, hx, -⟩
    obtain ⟨gap, c, rest, taken, left, hgap', hscan', -⟩ := Lexer.exists_of_next hx
    obtain ⟨-, rfl, rfl⟩ : [] = gap ∧ d = c ∧ cs = rest := by
      simpa only [Cut.mk.injEq, List.cons.injEq] using hgap.symm.trans hgap'
    exact Token.isLongest_of_scanNumber hstarts (by rw [← hscan, hscan'])
  · rintro ⟨m, r, h⟩
    obtain ⟨x, hx, hdenotes, -⟩ := hread m r h
    exact ⟨x, hx, Token.isNumber_of_denotes hdenotes⟩
  · intro hnone
    cases hresult : (Token.scanNumber (d :: cs)).result with
    | ok t => exact absurd (Token.isLongest_of_scanNumber hstarts hresult) hnone
    | error f =>
      obtain ⟨text, rfl⟩ := Token.exists_of_scanNumber_error hresult
      have hscan' :
          Token.scan d cs = ⟨.error (.invalidNumber text), (Token.scanNumber (d :: cs)).cut⟩ := by
        rw [hscan, ← hresult]
      exact ⟨text, Lexer.fails_of_scan hgap hscan' (fun e => by simp) _ _⟩

/-- Leading zeros, a signed exponent and a point behind it; then two exponents. -/
theorem numbers_follow_grammar_exponents :
    let l : Lexer := ⟨"é 007e+1.x".toList, 3, "007e+1.x".toList⟩
    let broken : Lexer := ⟨"é1e5e3".toList, 2, "1e5e3".toList⟩
    ('0'.isDigit = true ∧ IsLongest "007e+1.x".toList "007e+1".toList ".x".toList ∧
      ∃ x, l.next.1 = .ok (some x) ∧ Denotes "007e+1".toList x.token ∧
        x.span = ⟨3, 9⟩ ∧ x.span.slice l.source = "007e+1".toList) ∧
    '1'.isDigit = true ∧ ∃ text, broken.Fails ⟨.invalidNumber text, ⟨1, 2⟩⟩ := by
  have hdigits (ds : List Char) (h : ds.all Char.isDigit = true) : AllDigits ds :=
    List.all_eq_true.1 h
  have hletter : 'e' ∈ ['e', 'E'] := by decide
  have hsign : ['+'] ∈ [[], ['+'], ['-']] := by decide
  have hdecimal : IsDecimal "007e+1".toList :=
    .parts (by decide) (hdigits ['0', '0', '7'] rfl) .none
      (.digits hletter hsign (by decide) (hdigits ['1'] rfl))
  have hlongest := @isLongest_of_run "007e+1.x".toList _ ".x".toList (by decide +kernel) hdecimal
  obtain ⟨-, hread, -⟩ := numbers_follow_grammar "é ".toList (d := '0') rfl "07e+1.x".toList
  obtain ⟨hiff, -, hfault⟩ := numbers_follow_grammar ['é'] (d := '1') rfl "e5e3".toList
  refine ⟨⟨rfl, hlongest, hread _ _ ⟨hlongest, by decide +kernel⟩⟩, rfl, hfault fun hsplits => ?_⟩
  obtain ⟨x, hx, -⟩ := hiff.2 hsplits
  cases hx

end Aggregation
