import Mathlib.Data.List.TakeWhile
import Aggregation.Proofs.Lexing

/-! Texts that spell given tokens.

A word is a character that may begin a name and characters that may go on with one. No such character
is a blank, a digit or the first of a symbol, so a word is read whole, up to the first character that
is no part of a name (`Lexes.word`). The symbols that are one character, and begin no longer symbol,
are read by themselves (`Lexes.symbol`). -/
namespace Aggregation

/-! ### Characters -/

/-- No name begins with a digit. -/
theorem not_isDigit_of_isNameStart {c : Char} (h : isNameStart c = true) : c.isDigit = false := by
  have hall : ∀ i < 10, isNameStart (Char.ofNat (48 + i)) = false := by decide +kernel
  by_contra hdigit
  obtain ⟨hlow, hhigh⟩ : 48 ≤ c.val ∧ c.val ≤ 57 := by simpa [Char.isDigit] using hdigit
  have hlow' : 48 ≤ c.toNat := UInt32.le_iff_toNat_le.1 hlow
  have hhigh' : c.toNat ≤ 57 := UInt32.le_iff_toNat_le.1 hhigh
  obtain ⟨i, hi⟩ := Nat.exists_eq_add_of_le hlow'
  rw [← Char.ofNat_toNat c, hi, hall i (by omega)] at h
  cases h

namespace Token

theorem exists_text_eq (s : Symbol) : ∃ c cs, s.text.toList = c :: cs ∧ isNameStart c = false := by
  cases s <;> exact ⟨_, _, rfl, by decide⟩

/-- No symbol begins as a name does. -/
theorem symbol?_eq_none {c : Char} (h : isNameStart c = true) (cs : List Char) :
    symbol? (c :: cs) = none := by
  refine List.find?_eq_none.2 fun s _ hprefix => ?_
  obtain ⟨d, ds, hs, hd⟩ := exists_text_eq s
  rw [hs, List.isPrefixOf_cons_cons] at hprefix
  obtain rfl : d = c := by simpa using (Bool.and_eq_true_iff.1 hprefix).1
  rw [hd] at h
  cases h

/-- A word is read up to the first character that is no part of a name. -/
theorem scan_word {c : Char} {cs : List Char} (hc : isNameStart c = true)
    (hcs : cs.all isNamePart = true) {d : Char} (hd : isNamePart d = false) (ds : List Char) :
    scan c (cs ++ d :: ds) =
      ⟨.ok (ofWord (String.ofList (c :: cs))), ⟨c :: cs, d :: ds⟩⟩ := by
  have hne {x : Char} (hx : isNameStart x = false) : c ≠ x := by
    rintro rfl
    rw [hx] at hc
    cases hc
  have hspan : Cut.span isNamePart (c :: (cs ++ d :: ds)) = ⟨c :: cs, d :: ds⟩ := by
    have hword : ∀ x ∈ c :: cs, isNamePart x = true :=
      List.forall_mem_cons.2 ⟨isNamePart_of_isNameStart hc, List.all_eq_true.1 hcs⟩
    rw [← List.cons_append, Cut.span_append hd, Cut.span, List.takeWhile_eq_self_iff.2 hword,
      List.dropWhile_eq_nil_iff.2 hword]
    rfl
  have hopen : ['/', '*'].isPrefixOf (c :: (cs ++ d :: ds)) = false := by
    rw [List.isPrefixOf_cons_cons, beq_eq_false_iff_ne.2 (hne (by decide)).symm, Bool.false_and]
  have hquote : (c = '"' || c = '\'') = false := by
    rw [decide_eq_false (hne (by decide)), decide_eq_false (hne (by decide)), Bool.or_self]
  rw [scan, if_neg (by simp [hopen]), symbol?_eq_none hc]
  simp only [hquote, not_isDigit_of_isNameStart hc, hc, scanWord, hspan]
  rfl

end Token

/-- Whether a text is a word: a name, a keyword or a constant. -/
def isWord : List Char → Bool
  | [] => false
  | c :: cs => isNameStart c && cs.all isNamePart

/-- Symbols of one character that begin no longer symbol. -/
def singles : List (Char × Symbol) :=
  [('(', .leftParen), (')', .rightParen), ('\x7b', .leftBrace), ('\x7d', .rightBrace), (':', .colon)]

namespace Lexes

variable {offset : Nat} {cs : List Char} {ts : List Lexeme}

/-- A word in front of what is no part of a name. -/
theorem word {w : List Char} (hw : isWord w = true) {t : Token}
    (ht : Token.ofWord (String.ofList w) = t) {d : Char} (hd : isNamePart d = false)
    (h : Lexes (offset + byteLength w) (d :: cs) ts) :
    Lexes offset (w ++ d :: cs) (⟨t, ⟨offset, offset + byteLength w⟩⟩ :: ts) := by
  subst ht
  cases w with
  | nil => cases hw
  | cons c w =>
    obtain ⟨hc, hall⟩ := Bool.and_eq_true_iff.1 hw
    have hslash : c ≠ '/' := by
      rintro rfl
      exact absurd hc (by decide)
    have hgap : Gap.split (c :: (w ++ d :: cs)) = ⟨[], c :: (w ++ d :: cs)⟩ := by
      rw [Gap.split_cons fun hs => absurd hs hslash,
        if_neg (by simp [not_isBlank_of_isNameStart hc])]
      rfl
    exact .token hgap (Token.scan_word hc hall hd cs) rfl rfl h

/-- A blank in front. -/
theorem blank (h : Lexes (offset + 1) cs ts) : Lexes offset (' ' :: cs) ts :=
  behind_gap (Gap.split_blanks (List.forall_mem_singleton.2 (show isBlank ' ' = true by decide)) cs) h

/-- A symbol of one character in front. -/
theorem symbol (s : Symbol) {c : Char} (hs : (c, s) ∈ singles) (h : Lexes (offset + 1) cs ts) :
    Lexes offset (c :: cs) (⟨.symbol s, ⟨offset, offset + 1⟩⟩ :: ts) := by
  have hscan : Token.scan c cs = ⟨.ok (.symbol s), ⟨[c], cs⟩⟩ := by
    simp only [singles, List.mem_cons, Prod.mk.injEq, List.not_mem_nil, or_false] at hs
    rcases hs with ⟨rfl, rfl⟩ | ⟨rfl, rfl⟩ | ⟨rfl, rfl⟩ | ⟨rfl, rfl⟩ | ⟨rfl, rfl⟩ <;> rfl
  have hc : ∀ x ∈ singles, isBlank x.1 = false ∧ x.1 ≠ '/' ∧ x.1.utf8Size = 1 := by decide
  obtain ⟨hblank, hslash, hsize⟩ := hc _ hs
  have hgap : Gap.split (c :: cs) = ⟨[], c :: cs⟩ := by
    rw [Gap.split_cons fun hc => absurd hc hslash, if_neg (by simp [hblank])]
    rfl
  refine .token hgap hscan rfl ?_ h
  simp [hsize]

end Lexes

end Aggregation
