import Mathlib.Data.List.Chain
import Aggregation.Proofs.Gaps
import Aggregation.Proofs.Strings

/-! Texts made of gaps and tokens.

A text that is made of gaps and of the texts of tokens in turn (`Typeset`) is cut into these tokens again if
none of them goes on into the next. For the tokens of annotations that means that of two neighbours one is
a symbol: no symbol of an annotation is the beginning of two, also where several stand without a gap.
The other way round, every text that is cut into tokens of annotations is made in this way
(`Lexes.typeset`). -/
namespace Aggregation

/-! ### Gaps -/

namespace Gap

/-- A line comment ends before the line feed or the end that a gap goes on with. -/
theorem line_comment {body cs : List Char} (hbody : '\n' ∉ body)
    (hcs : cs.head? ∈ [none, some '\n']) : line (body ++ cs) = (split cs).push body := by
  induction body with
  | nil =>
    cases cs with
    | nil => rfl
    | cons c cs =>
      obtain rfl : c = '\n' := by simpa using hcs
      rw [split_newline, List.nil_append, line, if_pos rfl]
      rfl
  | cons c body ih =>
    obtain ⟨hc, hbody⟩ := not_or.1 (List.mem_cons.not.1 hbody)
    rw [List.cons_append, line, if_neg (Ne.symm hc), ih hbody]
    rfl

/-- A block comment ends with the first `*/`. -/
theorem block_comment {body : List Char} (hbody : ¬ ['*', '/'] <:+: body ++ ['*']) (cs : List Char) :
    block (body ++ '*' :: '/' :: cs) = some ((split cs).push (body ++ ['*', '/'])) := by
  induction body with
  | nil => rfl
  | cons c body ih =>
    rw [List.cons_append, List.infix_cons_iff, not_or] at hbody
    have hc : c = '*' → (body ++ '*' :: '/' :: cs).head? ≠ some '/' := by
      rintro rfl hhead
      refine hbody.1 ?_
      cases body with
      | nil => simp at hhead
      | cons d body =>
        obtain rfl : d = '/' := by simpa using hhead
        exact ⟨body ++ ['*'], rfl⟩
    rw [List.cons_append, block_cons hc, ih hbody.2]
    rfl

/-- A gap is cut off whole before a text that does not begin with one. -/
theorem split_of_isGap {behind gap : List Char} (h : IsGap behind gap)
    (hbehind : split behind = ⟨[], behind⟩) : split (gap ++ behind) = ⟨gap, behind⟩ := by
  induction h with
  | nothing => exact hbehind
  | @blank c gap hc _ ih =>
    rw [List.cons_append, ← List.singleton_append, split_blanks (List.forall_mem_singleton.2 hc), ih]
    rfl
  | @line body gap hbody hend _ ih =>
    rw [List.cons_append, List.cons_append, List.append_assoc, split, line_comment hbody hend, ih]
    rfl
  | @block body gap hbody _ ih =>
    rw [List.cons_append, List.cons_append, List.append_assoc, List.cons_append, List.cons_append, split,
      block_comment hbody, ih]
    simp [Cut.push]

end Gap

/-- A gap begins with a blank or a slash. -/
theorem IsGap.head {behind gap : List Char} {c : Char} (h : IsGap behind (c :: gap)) :
    isBlank c = true ∨ c = '/' := by
  cases h with
  | blank hc => exact .inl hc
  | line | block => exact .inr rfl

/-! ### Tokens of annotations -/

namespace Token

/-- The symbols of annotations, which are all of one character. -/
def marks : List (Char × Symbol) :=
  [(',', .comma), (':', .colon), (';', .semicolon), ('?', .question), ('\x7b', .leftBrace),
    ('\x7d', .rightBrace), ('[', .leftBracket), (']', .rightBracket), ('<', .lt), ('>', .gt)]

/-- Whether an annotation can have the token. -/
def isTyped : Token → Bool
  | symbol s => s ∈ marks.map Prod.snd
  | null | name _ | string _ => true
  | _ => false

def isSymbol : Token → Bool
  | symbol _ => true
  | _ => false

/-- The text is one of the texts of the token. A string has many. -/
inductive Spelled : Token → List Char → Prop
  | symbol (s : Symbol) : Spelled (.symbol s) s.text.toList
  | null : Spelled .null "null".toList
  | name {n : String} (hn : isIdentifier n = true) : Spelled (.name n) n.toList
  | string {q : Char} {text : List Char} {s : String} (hq : q ∈ Quotation.quotes)
      (htext : Quotation.Decodes q text s.toList) : Spelled (.string s) (q :: text ++ [q])

/-- The text does not go on with the token: no equality sign behind a symbol, and nothing that is part of a
name behind a word. -/
structure Stops (t : Token) (rest : List Char) : Prop where
  equal : rest.head? ≠ some '='
  word : t.isSymbol = false → rest.head?.any isNamePart = false

/-- An angle bracket is a symbol by itself unless an equality sign follows. -/
theorem symbol?_angle {c : Char} {s : Symbol} (hs : (c, s) ∈ [('<', .lt), ('>', .gt)])
    {rest : List Char} (h : rest.head? ≠ some '=') : symbol? (c :: rest) = some s := by
  have honly : (fun a : Symbol => a.text.toList.isPrefixOf (c :: rest)) = (· == s) := by
    simp only [List.mem_cons, Prod.mk.injEq, List.not_mem_nil, or_false] at hs
    cases rest with
    | nil => rcases hs with ⟨rfl, rfl⟩ | ⟨rfl, rfl⟩ <;> exact funext fun a => by cases a <;> rfl
    | cons d rest =>
      have hd : ('=' == d) = false := beq_eq_false_iff_ne.2 fun hd => h (congrArg some hd.symm)
      refine funext fun a => ?_
      rcases hs with ⟨rfl, rfl⟩ | ⟨rfl, rfl⟩
      · cases a with
        | le => exact congrArg (· && true) hd
        | _ => rfl
      · cases a with
        | ge => exact congrArg (· && true) hd
        | _ => rfl
  rw [symbol?, honly]
  cases s <;> rfl

theorem scan_mark {c : Char} {s : Symbol} (hs : (c, s) ∈ marks) {rest : List Char}
    (h : rest.head? ≠ some '=') :
    s.text.toList = [c] ∧ scan c rest = ⟨.ok (.symbol s), ⟨[c], rest⟩⟩ := by
  simp only [marks, List.mem_cons, Prod.mk.injEq, List.not_mem_nil, or_false] at hs
  rcases hs with ⟨rfl, rfl⟩ | ⟨rfl, rfl⟩ | ⟨rfl, rfl⟩ | ⟨rfl, rfl⟩ | ⟨rfl, rfl⟩ | ⟨rfl, rfl⟩ | ⟨rfl, rfl⟩ |
    ⟨rfl, rfl⟩ | ⟨rfl, rfl⟩ | ⟨rfl, rfl⟩
  iterate 8 exact ⟨rfl, rfl⟩
  · rw [scan, symbol?_angle (s := .lt) (by decide) h]
    exact ⟨rfl, rfl⟩
  · rw [scan, symbol?_angle (s := .gt) (by decide) h]
    exact ⟨rfl, rfl⟩

/-- A word is read up to what is no part of a name. -/
theorem scan_isWord {w : List Char} (hw : isWord w = true) {rest : List Char}
    (h : rest.head?.any isNamePart = false) :
    ∃ c ds, w = c :: ds ∧ isNameStart c = true ∧
      scan c (ds ++ rest) = ⟨.ok (ofWord (String.ofList w)), ⟨w, rest⟩⟩ := by
  cases w with
  | nil => cases hw
  | cons c w =>
    obtain ⟨hc, hall⟩ := Bool.and_eq_true_iff.1 hw
    refine ⟨c, w, rfl, hc, ?_⟩
    cases rest with
    | nil => exact scan_take (r := []) (scan_word hc hall (d := '\n') (by decide) [])
    | cons d rest => exact scan_word hc hall h rest

/-- The first character of a token is that of no gap, and that of a symbol is no part of a name. -/
theorem Spelled.head {t : Token} {w : List Char} (h : Spelled t w) (ht : t.isTyped = true) :
    ∃ c ds, w = c :: ds ∧ isBlank c = false ∧ c ≠ '/' ∧ c ≠ '=' ∧
      (t.isSymbol = true → isNamePart c = false) := by
  cases h with
  | symbol s =>
    obtain ⟨⟨c, s⟩, hs, rfl⟩ := List.mem_map.1 (of_decide_eq_true ht)
    have hall : ∀ x ∈ marks, isBlank x.1 = false ∧ x.1 ≠ '/' ∧ x.1 ≠ '=' ∧ isNamePart x.1 = false := by
      decide +kernel
    obtain ⟨hblank, hslash, hequal, hpart⟩ := hall _ hs
    exact ⟨c, [], (@scan_mark _ _ hs [] (by simp)).1, hblank, hslash, hequal, fun _ => hpart⟩
  | null => exact ⟨'n', _, rfl, by decide, by decide, by decide, fun h => by cases h⟩
  | name hn =>
    obtain ⟨c, ds, heq, hc, -⟩ := @scan_isWord _ (Bool.and_eq_true_iff.1 hn).1 [] rfl
    refine ⟨c, ds, heq, not_isBlank_of_isNameStart hc, ?_, ?_, fun h => by cases h⟩ <;>
      rintro rfl <;> exact absurd hc (by decide)
  | @string q text s hq htext =>
    simp only [Quotation.quotes, List.mem_cons, List.not_mem_nil, or_false] at hq
    refine ⟨q, text ++ [q], rfl, ?_, ?_, ?_, fun h => by cases h⟩ <;>
      rcases hq with rfl | rfl <;> decide

/-- The text of a token is read as the token, with any text behind it that does not go on with it. -/
theorem Spelled.scan {t : Token} {w : List Char} (h : Spelled t w) (ht : t.isTyped = true)
    {rest : List Char} (hrest : t.Stops rest) :
    ∃ c ds, w ++ rest = c :: ds ∧ Gap.split (c :: ds) = ⟨[], c :: ds⟩ ∧
      Token.scan c ds = ⟨.ok t, ⟨w, rest⟩⟩ := by
  obtain ⟨c, ds, hw, hblank, hslash, -⟩ := h.head ht
  refine ⟨c, ds ++ rest, by rw [hw]; rfl, split_eq_none hblank hslash _, ?_⟩
  cases h with
  | symbol s =>
    obtain ⟨⟨d, s⟩, hs, rfl⟩ := List.mem_map.1 (of_decide_eq_true ht)
    obtain ⟨htext, hscan⟩ := scan_mark hs hrest.equal
    rw [htext] at hw ⊢
    obtain ⟨rfl, rfl⟩ := List.cons.inj hw
    exact hscan
  | null =>
    obtain ⟨c', ds', hw', -, hscan⟩ := scan_isWord (w := "null".toList) (by decide) (hrest.word rfl)
    obtain ⟨rfl, rfl⟩ := List.cons.inj (hw.symm.trans hw')
    exact hscan
  | @name n hn =>
    obtain ⟨hword, hname⟩ := Bool.and_eq_true_iff.1 hn
    obtain ⟨c', ds', hw', -, hscan⟩ := scan_isWord hword (hrest.word rfl)
    obtain ⟨rfl, rfl⟩ := List.cons.inj (hw.symm.trans hw')
    rwa [String.ofList_toList, eq_of_beq hname] at hscan
  | @string q text s hq htext =>
    obtain ⟨rfl, rfl⟩ : q = c ∧ text ++ [q] = ds := List.cons.inj hw
    rw [(scan_quote hq _).2, scanString, List.append_assoc, List.singleton_append,
      Quotation.body_closed hq htext]
    simp only [String.ofList_toList]
    rfl

/-- What is read as a token of an annotation is one of its texts. -/
theorem spelled_of_scan {c : Char} {cs taken rest : List Char} {t : Token}
    (h : scan c cs = ⟨.ok t, ⟨taken, rest⟩⟩) (ht : t.isTyped = true) : Spelled t taken := by
  rcases scan_kinds h with ⟨s, rfl, rfl⟩ | ⟨q, hq, s, text, rfl, htext, rfl⟩ | hnumber | ⟨hword, rfl⟩
  · exact .symbol s
  · exact .string hq htext
  · unfold Number.token? at hnumber
    split at hnumber
    · obtain rfl := Option.some.inj hnumber
      cases ht
    · obtain ⟨x, -, rfl⟩ := Option.map_eq_some_iff.1 hnumber
      cases ht
  · rcases ofWord_cases (String.ofList taken) with ⟨k, hk⟩ | ⟨b, hb⟩ | ⟨hnull, htext⟩ | hname
    · rw [hk] at ht
      cases ht
    · rw [hb] at ht
      cases ht
    · rw [hnull, ← String.toList_ofList (l := taken), htext]
      exact .null
    · rw [hname]
      have hspelled := @Spelled.name (String.ofList taken)
        (by rw [isIdentifier, String.toList_ofList, hword, hname]; simp)
      rwa [String.toList_ofList] at hspelled

end Token

/-! ### Gaps and tokens in turn -/

/-- The text is made of gaps and of texts of the tokens in turn. -/
inductive Typeset : List Token → List Char → Prop
  | done {gap} (hgap : IsGap [] gap) : Typeset [] gap
  | token {gap t w u rest} (hgap : IsGap (w ++ rest) gap) (hw : t.Spelled w) (h : Typeset u rest) :
      Typeset (t :: u) (gap ++ (w ++ rest))

/-- One of two neighbours is a symbol. -/
def Apart (t t' : Token) : Prop := t.isSymbol = true ∨ t'.isSymbol = true

/-- Tokens of annotations, every two neighbours of which are apart. -/
structure Separable (u : List Token) : Prop where
  typed : ∀ t ∈ u, t.isTyped = true
  apart : u.IsChain Apart

namespace Separable

theorem nil : Separable [] := ⟨List.forall_mem_nil _, .nil⟩

theorem singleton {t : Token} (ht : t.isTyped = true) : Separable [t] :=
  ⟨List.forall_mem_singleton.2 ht, .singleton t⟩

/-- A symbol may stand between any two. -/
theorem join {u w : List Token} (hu : Separable u) {s : Symbol} (hs : (Token.symbol s).isTyped = true)
    (hw : Separable w) : Separable (u ++ .symbol s :: w) := by
  refine ⟨List.forall_mem_append.2 ⟨hu.typed, List.forall_mem_cons.2 ⟨hs, hw.typed⟩⟩, ?_⟩
  refine List.isChain_append.2 ⟨hu.apart, List.isChain_cons.2 ⟨fun _ _ => .inl rfl, hw.apart⟩, ?_⟩
  intro t _ t' ht'
  obtain rfl : Token.symbol s = t' := Option.some.inj ht'
  exact .inr rfl

end Separable

/-- No token goes on into a gap. -/
theorem IsGap.stops {behind gap : List Char} (h : IsGap behind gap) (hne : gap ≠ [])
    (t : Token) (rest : List Char) : t.Stops (gap ++ rest) := by
  obtain ⟨c, gap, rfl⟩ := List.exists_cons_of_ne_nil hne
  rcases h.head with hblank | rfl
  · refine ⟨fun hequal => ?_, fun _ => not_isNamePart_of_isBlank hblank⟩
    obtain rfl : c = '=' := Option.some.inj hequal
    exact absurd hblank (by decide)
  · have hslash : isNamePart '/' = false := by decide
    exact ⟨by simp, fun _ => hslash⟩

namespace Typeset

variable {u : List Token} {cs : List Char}

/-- No token goes on into a text of tokens that it is apart from. -/
theorem stops (h : Typeset u cs) (hu : ∀ t ∈ u, t.isTyped = true) {t : Token}
    (ht : ∀ t' ∈ u.head?, Apart t t') : t.Stops cs := by
  cases h with
  | done hgap =>
    by_cases hne : cs = []
    · subst hne
      exact ⟨by simp, fun _ => rfl⟩
    · simpa using hgap.stops hne t []
  | @token gap t' w u rest hgap hw =>
    by_cases hne : gap = []
    · subst hne
      obtain ⟨c, ds, rfl, -, -, hequal, hpart⟩ := hw.head (hu t' List.mem_cons_self)
      refine ⟨by simpa using hequal, fun hword => hpart ?_⟩
      exact (ht t' rfl).resolve_left (by simp [hword])
    · exact hgap.stops hne t _

/-- A text made of gaps and tokens is cut into these tokens. -/
theorem lexes (h : Typeset u cs) (hu : Separable u) (offset : Nat) :
    ∃ ts, Lexes offset cs ts ∧ ts.map Lexeme.token = u := by
  induction h generalizing offset with
  | @done gap hgap =>
    have hsplit := Gap.split_of_isGap hgap rfl
    rw [List.append_nil] at hsplit
    exact ⟨[], .done hsplit, rfl⟩
  | @token gap t w u rest hgap hw h ih =>
    obtain ⟨ht, htyped⟩ := List.forall_mem_cons.1 hu.typed
    obtain ⟨hnext, hapart⟩ := List.isChain_cons.1 hu.apart
    obtain ⟨c, ds, heq, hsplit, hscan⟩ := hw.scan ht (h.stops htyped hnext)
    obtain ⟨ts, hts, rfl⟩ := ih ⟨htyped, hapart⟩ (offset + byteLength gap + byteLength w)
    rw [heq] at hgap ⊢
    exact ⟨⟨t, ⟨offset + byteLength gap, _⟩⟩ :: ts,
      .token (Gap.split_of_isGap hgap hsplit) hscan rfl rfl hts, rfl⟩

/-- Every token of the text has a text. -/
theorem exists_spelled (h : Typeset u cs) : ∀ t ∈ u, ∃ w, t.Spelled w := by
  induction h with
  | done => exact List.forall_mem_nil _
  | token _ hw _ ih => exact List.forall_mem_cons.2 ⟨⟨_, hw⟩, ih⟩

/-- Tokens that have texts have a text together. -/
theorem exists_of_spelled (h : ∀ t ∈ u, ∃ w, t.Spelled w) : ∃ cs, Typeset u cs := by
  induction u with
  | nil => exact ⟨[], .done .nothing⟩
  | cons t u ih =>
    obtain ⟨⟨w, hw⟩, hu⟩ := List.forall_mem_cons.1 h
    obtain ⟨cs, hcs⟩ := ih hu
    exact ⟨_, .token .nothing hw hcs⟩

end Typeset

/-- A text that is cut into tokens of annotations is made of gaps and these tokens. -/
theorem Lexes.typeset {offset : Nat} {cs : List Char} {ts : List Lexeme} (h : Lexes offset cs ts)
    (hts : ∀ x ∈ ts, x.token.isTyped = true) : Typeset (ts.map Lexeme.token) cs := by
  induction h with
  | @done offset cs gap hgap =>
    have hisGap := Gap.isGap_split cs
    rw [hgap] at hisGap
    rw [eq_of_split hgap, List.append_nil]
    exact .done hisGap
  | @token offset cs gap c ds t taken rest p ts hgap hscan _ _ _ ih =>
    obtain ⟨ht, hts⟩ := List.forall_mem_cons.1 hts
    have hisGap := Gap.isGap_split cs
    rw [hgap] at hisGap
    rw [eq_of_split hgap]
    rw [eq_of_scan hscan] at hisGap ⊢
    exact .token hisGap (Token.spelled_of_scan hscan ht) (ih hts)

end Aggregation
