import Aggregation.Proofs.Numerals
import Aggregation.Proofs.Precedence
import Aggregation.Proofs.Wrapping

/-! How tokens are written.

Every token that a text can have is written by `Token.spelling`, and read from there again. That
leaves out integers from `2^63` on, numbers with a sign, which are written behind a minus sign, those
that are no numbers, and names that are no words (`Token.isSpellable`). A list of tokens is written
one token to a line (`Lexes.spellAll`). -/
namespace Aggregation

/-! ### Strings -/

namespace Quotation

/-- How a character is written between double quotes. -/
def escape (c : Char) : List Char :=
  if c = '"' then ['\\', '"']
  else if c = '\\' then ['\\', '\\']
  else if c = '\n' then ['\\', 'n']
  else [c]

theorem body_escape (c : Char) (cs : List Char) :
    body '"' (escape c ++ cs) = (body '"' cs).push c (escape c) := by
  by_cases hquote : c = '"'
  · subst hquote
    rfl
  by_cases hslash : c = '\\'
  · subst hslash
    rfl
  by_cases hfeed : c = '\n'
  · subst hfeed
    rfl
  have hescape : escape c = [c] := by simp [escape, hquote, hslash, hfeed]
  rw [hescape, List.singleton_append, body.eq_def]
  simp only [hquote, hslash, hfeed, if_false]

/-- A string is read back from between its quotes. -/
theorem body_flatMap_escape (s : List Char) :
    body '"' (s.flatMap escape ++ ['"']) = ⟨.closed s, ⟨s.flatMap escape ++ ['"'], []⟩⟩ := by
  induction s with
  | nil => rfl
  | cons c s ih =>
    rw [List.flatMap_cons, List.append_assoc, body_escape, ih]
    rfl

end Quotation

/-! ### Tokens -/

namespace Token

/-- How the token is written. -/
def spelling : Token → List Char
  | integer n => Nat.toDigits 10 n
  | float x => x.numeral
  | string s => '"' :: (s.toList.flatMap Quotation.escape ++ ['"'])
  | boolean true => "true".toList
  | boolean false => "false".toList
  | null => "null".toList
  | name s => s.toList
  | keyword k => k.text.toList
  | symbol s => s.text.toList

/-- Whether a text can have the token. -/
def isSpellable : Token → Bool
  | name s => isIdentifier s
  | t => t.isReadable

@[simp] theorem isSpellable_symbol (s : Symbol) : (symbol s).isSpellable = true := rfl

@[simp] theorem isSpellable_string (s : String) : (string s).isSpellable = true := rfl

@[simp] theorem isSpellable_name (s : String) : (name s).isSpellable = isIdentifier s := rfl

/-- The text is that of one token. -/
def Reads (t : Token) (cs : List Char) : Prop :=
  ∃ c ds, cs = c :: ds ∧ Gap.split (c :: ds) = ⟨[], c :: ds⟩ ∧ scan c ds = ⟨.ok t, ⟨c :: ds, []⟩⟩

theorem split_eq_none {c : Char} (hblank : isBlank c = false) (hslash : c ≠ '/') (cs : List Char) :
    Gap.split (c :: cs) = ⟨[], c :: cs⟩ := by
  rw [Gap.split_cons fun h => absurd h hslash, if_neg (by simp [hblank])]
  rfl

theorem reads_symbol (s : Symbol) : Reads (.symbol s) s.text.toList := by
  cases s <;> exact ⟨_, _, rfl, rfl, rfl⟩

theorem reads_word {w : List Char} (hw : isWord w = true) :
    Reads (ofWord (String.ofList w)) w := by
  cases w with
  | nil => cases hw
  | cons c w =>
    obtain ⟨hc, hall⟩ := Bool.and_eq_true_iff.1 hw
    have hslash : c ≠ '/' := by
      rintro rfl
      exact absurd hc (by decide)
    have hscan := scan_take (r := []) (scan_word hc hall (d := '\n') (by decide) [])
    rw [List.append_nil] at hscan
    exact ⟨c, w, rfl, split_eq_none (not_isBlank_of_isNameStart hc) hslash w, hscan⟩

theorem reads_string (s : String) :
    Reads (.string s) ('"' :: (s.toList.flatMap Quotation.escape ++ ['"'])) := by
  refine ⟨_, _, rfl, split_eq_none (by decide) (by decide) _, ?_⟩
  generalize hcs : s.toList.flatMap Quotation.escape ++ ['"'] = cs
  have hbody := Quotation.body_flatMap_escape s.toList
  rw [hcs] at hbody
  have hsymbol : symbol? ('"' :: cs) = none := rfl
  have hopen : ['/', '*'].isPrefixOf ('"' :: cs) = false := rfl
  simp only [scan, hopen, hsymbol, scanString, hbody]
  simp [Cut.push]

theorem mem_of_isDigit {d : Char} (h : d.isDigit = true) :
    d ∈ ['0', '1', '2', '3', '4', '5', '6', '7', '8', '9'] := by
  obtain ⟨hlow, hhigh⟩ : 48 ≤ d.val ∧ d.val ≤ 57 := by simpa [Char.isDigit] using h
  have hlow' : 48 ≤ d.toNat := UInt32.le_iff_toNat_le.1 hlow
  have hhigh' : d.toNat ≤ 57 := UInt32.le_iff_toNat_le.1 hhigh
  have hall : ∀ i < 10, Char.ofNat (48 + i) ∈ ['0', '1', '2', '3', '4', '5', '6', '7', '8', '9'] := by
    decide
  obtain ⟨i, hi⟩ := Nat.exists_eq_add_of_le hlow'
  rw [← Char.ofNat_toNat d, hi]
  exact hall i (by omega)

/-- A number is read from a digit on. -/
theorem scan_digit {d : Char} (h : d.isDigit = true) (cs : List Char) :
    Gap.split (d :: cs) = ⟨[], d :: cs⟩ ∧ scan d cs = scanNumber (d :: cs) := by
  have hmem := mem_of_isDigit h
  simp only [List.mem_cons, List.not_mem_nil, or_false] at hmem
  rcases hmem with rfl | rfl | rfl | rfl | rfl | rfl | rfl | rfl | rfl | rfl <;>
    exact ⟨split_eq_none (by decide) (by decide) cs, rfl⟩

theorem reads_number {t : Token} {cs : List Char} (hdigit : Number.startsWithDigit cs = true)
    (hrun : Number.run true cs = ⟨cs, []⟩) (ht : Number.token? cs = some t) : Reads t cs := by
  cases cs with
  | nil => cases hdigit
  | cons d ds =>
    obtain ⟨hgap, hscan⟩ := scan_digit hdigit ds
    refine ⟨d, ds, rfl, hgap, ?_⟩
    simp only [hscan, scanNumber, hrun, ht]
    rfl

theorem startsWithDigit_toDigits (n : Nat) (cs : List Char) :
    Number.startsWithDigit (Nat.toDigits 10 n ++ cs) = true := by
  cases hn : Nat.toDigits 10 n with
  | nil => exact absurd hn Nat.toDigits_ne_nil
  | cons d ds => exact Number.isDigit_toDigits n d (by simp [hn])

/-- A token that a text can have is read from its spelling. -/
theorem reads_spelling {t : Token} (h : t.isSpellable = true) : Reads t t.spelling := by
  cases t with
  | integer n =>
    have hdigit := startsWithDigit_toDigits n []
    rw [List.append_nil] at hdigit
    exact reads_number hdigit (Number.run_toDigits true n) (Number.token?_toDigits (of_decide_eq_true h))
  | float x =>
    obtain ⟨hneg, hnan⟩ := isReadable_float.1 h
    exact reads_number (startsWithDigit_toDigits _ _) (Number.run_scientific _ _)
      (Number.token?_numeral hneg hnan)
  | string s => exact reads_string s
  | boolean b => cases b <;> exact reads_word (by decide)
  | null => exact reads_word (w := "null".toList) (by decide)
  | name s =>
    obtain ⟨hword, hname⟩ := Bool.and_eq_true_iff.1 h
    have hreads := reads_word hword
    rwa [String.ofList_toList, eq_of_beq hname] at hreads
  | keyword k => cases k <;> exact reads_word (by decide)
  | symbol s => exact reads_symbol s

end Token

/-! ### Texts -/

/-- Tokens written one to a line. -/
def spellAll : List Token → List Char
  | [] => []
  | t :: ts => t.spelling ++ '\n' :: spellAll ts

namespace Lexes

theorem reads {t : Token} {cs : List Char} (h : t.Reads cs) (offset : Nat) :
    Lexes offset cs [⟨t, ⟨offset, offset + byteLength cs⟩⟩] := by
  obtain ⟨c, ds, rfl, hgap, hscan⟩ := h
  exact .token hgap hscan rfl rfl (.done rfl)

/-- Tokens are read back from the lines on which they are written. -/
theorem spellAll {ts : List Token} (h : ∀ t ∈ ts, t.isSpellable = true) (offset : Nat) :
    ∃ us, Lexes offset (spellAll ts) us ∧ us.map Lexeme.token = ts := by
  induction ts generalizing offset with
  | nil => exact ⟨[], .done rfl, rfl⟩
  | cons t ts ih =>
    obtain ⟨ht, hts⟩ := List.forall_mem_cons.1 h
    obtain ⟨us, hus, rfl⟩ := ih hts (offset + byteLength t.spelling + 1)
    exact ⟨_, (reads (Token.reads_spelling ht) offset).append hus, rfl⟩

end Lexes

end Aggregation
