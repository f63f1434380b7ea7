import Aggregation.Proofs.Progress
import Aggregation.Proofs.Wording

/-! Tokens by themselves and between blanks.

The text of a token is cut off at places where the token begins and ends, so by itself it is read as the
token (`Lexes.reads_slice`). A blank goes on neither with a token nor with what could be the beginning of
a comment, so the texts of tokens with blanks between them are read as these tokens (`Lexes.spaced`). -/
namespace Aggregation

/-! ### Blanks -/

/-- One blank or more. -/
structure Spacing where
  text : List Char
  ne_nil : text ≠ []
  blank : ∀ c ∈ text, isBlank c = true

/-- Texts in their order, with blanks between neighbours. -/
def spaced (between : Nat → Spacing) : List (List Char) → List Char
  | [] => []
  | [w] => w
  | w :: v :: ws => w ++ ((between 0).text ++ spaced (between ∘ Nat.succ) (v :: ws))

/-- No gap begins where a token does, also if a blank follows the token. -/
theorem Token.Reads.split_append {t : Token} {w : List Char} (h : t.Reads w) {b : Char}
    (hb : isBlank b = true) (cs : List Char) : Gap.split (w ++ b :: cs) = ⟨[], w ++ b :: cs⟩ := by
  obtain ⟨c, ds, rfl, hgap, hscan⟩ := h
  rcases Gap.comment_cases c ds with ⟨r, rfl, rfl⟩ | ⟨r, rfl, rfl⟩ | hc
  · rw [Gap.split] at hgap
    injection hgap with htaken
    cases htaken
  · have hok : (Token.scan '/' ('*' :: r)).result = .ok t := by rw [hscan]
    exact absurd (List.prefix_append ['/', '*'] r) (Token.not_prefix_of_scan hok)
  · have hblank : ¬ isBlank c = true := by
      intro hblank
      rw [Gap.split_cons hc, if_pos hblank] at hgap
      injection hgap with htaken
      cases htaken
    have hfirst (d : Char) (hd : d ∈ ['/', '*']) : d ≠ b :=
      ne_of_mem_of_not_mem hd (notMem_of_isBlank hb)
    rw [List.cons_append, Gap.split_cons, if_neg hblank]
    · rfl
    · exact fun hs => ⟨Gap.head?_append_cons_ne (hfirst '/' (by simp)) cs (hc hs).1,
        Gap.head?_append_cons_ne (hfirst '*' (by simp)) cs (hc hs).2⟩

namespace Lexes

variable {offset : Nat} {cs : List Char} {ts us : List Lexeme}

/-- A token in front of a blank. -/
theorem reads_append {t : Token} {w : List Char} (h : t.Reads w) {b : Char} (hb : isBlank b = true)
    (hrest : Lexes (offset + byteLength w) (b :: cs) us) :
    Lexes offset (w ++ b :: cs) (⟨t, ⟨offset, offset + byteLength w⟩⟩ :: us) := by
  have hgap := h.split_append hb cs
  obtain ⟨c, ds, rfl, -, hscan⟩ := h
  have hscan' : Token.scan c (ds ++ b :: cs) = ⟨.ok t, ⟨c :: ds, b :: cs⟩⟩ := by
    rw [Token.scan_append hb (by rw [hscan]), hscan]
    rfl
  exact .token hgap hscan' rfl rfl hrest

/-- Texts of tokens with blanks between them are read as the tokens. -/
theorem spaced {tokens : List Token} {ws : List (List Char)}
    (h : List.Forall₂ Token.Reads tokens ws) (between : Nat → Spacing) (offset : Nat) :
    ∃ us, Lexes offset (spaced between ws) us ∧ us.map Lexeme.token = tokens := by
  induction h generalizing between offset with
  | nil => exact ⟨[], .done rfl, rfl⟩
  | @cons t w tokens ws hw hws ih =>
    cases hws with
    | nil => exact ⟨_, reads hw offset, rfl⟩
    | @cons t' v tokens ws hv hws =>
      obtain ⟨b, bs, htext⟩ := List.exists_cons_of_ne_nil (between 0).ne_nil
      have hblank := (between 0).blank
      rw [Aggregation.spaced]
      rw [htext] at hblank ⊢
      obtain ⟨us, hus, htokens⟩ :=
        ih (between ∘ Nat.succ) (offset + byteLength w + byteLength (b :: bs))
      have hrest := behind_gap (Gap.split_blanks hblank _) hus
      exact ⟨_, reads_append hw (hblank b List.mem_cons_self) hrest, congrArg (t :: ·) htokens⟩

/-- A text that is a token, and nothing more, is read as the token. -/
theorem reads_of_singleton {x : Lexeme} (h : Lexes x.span.start cs [x])
    (hstop : x.span.start + byteLength cs = x.span.stop) : x.token.Reads cs := by
  cases h with
  | @token _ _ gap c ds t taken rest p _ hgap hscan hstart hend _ =>
    have hlength := byteLength_eq hgap hscan
    have hnil {es : List Char} (hes : byteLength es = 0) : es = [] := by
      by_contra hne
      exact absurd hes (Nat.ne_of_gt (byteLength_pos hne))
    simp only at hstart hstop
    obtain rfl : gap = [] := hnil (by omega)
    obtain rfl : rest = [] := hnil (by omega)
    have htaken : c :: ds = taken := by rw [eq_of_scan hscan, List.append_nil]
    have hcs : cs = c :: ds := eq_of_split hgap
    rw [← htaken] at hscan
    rw [hcs] at hgap
    exact ⟨c, ds, hcs, hgap, hscan⟩

/-- The text of each token is that of one token. -/
theorem reads_slice (h : Lexes 0 cs ts) {x : Lexeme} (hx : x ∈ ts) :
    x.token.Reads (x.span.slice cs) := by
  obtain ⟨us, vs, hts⟩ := List.append_of_mem hx
  have hinfix : [x] <:+: ts := ⟨us, vs, by rw [hts, List.append_assoc, List.singleton_append]⟩
  obtain ⟨before, inside, after, rfl, hstart, hstop, hinside⟩ := h.cut hinfix (List.cons_ne_nil x [])
  replace hstart : byteLength before = x.span.start := hstart
  replace hstop : byteLength before + byteLength inside = x.span.stop := hstop
  have hslice : x.span.slice (before ++ (inside ++ after)) = inside := by
    have hbetween := Span.slice_append before inside after
    rwa [hstop, hstart] at hbetween
  rw [hslice]
  exact hinside.reads_of_singleton (by rw [← hstart, hstop])

end Lexes

/-- Tokens do not depend on what stands around them. The text of each token of a text, by itself, is read
as that token and nothing else; and the texts of all its tokens, in their order and with any blanks
between neighbours, are read as the same tokens. -/
theorem tokens_stand_alone {source : String} {ts : List Lexeme} (h : tokenize source = .ok ts) :
    let word (x : Lexeme) := x.span.slice source.toList
    (∀ x ∈ ts, tokenize (String.ofList (word x)) = .ok [⟨x.token, ⟨0, byteLength (word x)⟩⟩]) ∧
    ∀ between : Nat → Spacing, ∃ us,
      tokenize (String.ofList (spaced between (ts.map word))) = .ok us ∧
      us.map Lexeme.token = ts.map Lexeme.token := by
  intro word
  have hts := tokenize_eq_ok_iff.1 h
  constructor
  · intro x hx
    have hread := Lexes.reads (hts.reads_slice hx) 0
    rw [Nat.zero_add] at hread
    rw [tokenize_eq_ok_iff, String.toList_ofList]
    exact hread
  · intro between
    have hreads : List.Forall₂ Token.Reads (ts.map Lexeme.token) (ts.map word) := by
      rw [List.forall₂_map_left_iff, List.forall₂_map_right_iff]
      exact List.forall₂_same.2 fun x hx => hts.reads_slice hx
    obtain ⟨us, hus, htokens⟩ := Lexes.spaced hreads between 0
    refine ⟨us, ?_, htokens⟩
    rwa [tokenize_eq_ok_iff, String.toList_ofList]

/-- A number before a point that is not its own, a number with a signed exponent, symbols of one to three
characters, and divisions right behind a comment. -/
theorem tokens_stand_alone_glued :
    let source := "a=>1.b!==1.5e+2/**//'é'/**//-2"
    let words := ["a", "=>", "1", ".", "b", "!==", "1.5e+2", "/", "'é'", "/", "-", "2"]
    let word (x : Lexeme) := x.span.slice source.toList
    let between (_ : Nat) : Spacing := ⟨['\u00a0', '\n'], by decide, List.all_eq_true.1 (by decide)⟩
    ∃ ts, tokenize source = .ok ts ∧ ts.map (fun x => String.ofList (word x)) = words ∧
      (∀ x ∈ ts, tokenize (String.ofList (word x)) = .ok [⟨x.token, ⟨0, byteLength (word x)⟩⟩]) ∧
      ∃ us, tokenize (String.ofList (spaced between (ts.map word))) = .ok us ∧
        us.map Lexeme.token = ts.map Lexeme.token := by
  intro source words word between
  have hwords : ((tokenize source).toOption.map fun ts =>
      ts.map fun x => String.ofList (word x)) = some words := by
    decide +kernel
  cases hts : tokenize source with
  | error e =>
    rw [hts] at hwords
    cases hwords
  | ok ts =>
    rw [hts] at hwords
    obtain ⟨halone, hspaced⟩ := tokens_stand_alone hts
    exact ⟨ts, rfl, Option.some.inj hwords, halone, hspaced between⟩

end Aggregation
