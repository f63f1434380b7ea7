import Aggregation.Proofs.Formatting
import Aggregation.Proofs.Wording
import Aggregation.Proofs.Writing

/-! Expressions read back from their texts.

A tree is written as a text by writing its tokens, and every text with those tokens is read as the tree
(`Expr.parseExpression_of_tokens`). The tokens of some trees are in no text: the constants that a text
can have are the integers of 64 bits but the least of them, and the numbers of double precision
(`Literal.isSpellable`, `NodeOf.spellable`). -/
namespace Aggregation

variable {ν : Type}

/-! ### Tokens that a text can have -/

/-- Whether a text can have the constant. -/
def Literal.isSpellable : Literal → Bool
  | .integer n => n.natAbs < Number.integerBound
  | .float x => !x.isNaN
  | _ => true

/-- The constant, if the node is one, can be written. -/
def Expr.Spellable : Expr ν → Prop
  | .literal _ c => c.isSpellable = true
  | _ => True

instance : (e : Expr ν) → Decidable e.Spellable
  | .literal _ c => inferInstanceAs (Decidable (c.isSpellable = true))
  | .name .. | .paren .. | .property .. | .element .. | .binary .. | .unary .. | .conditional ..
  | .call .. | .lambda .. | .function .. | .object .. => .isTrue trivial

section Texts

open Grammar

variable {style : Style}

theorem Binary64.isNaN_neg (x : Binary64) : (-x).isNaN = x.isNaN := by
  have hbits : (-x).bits.toNat = x.bits.toNat ^^^ 2 ^ 63 := UInt64.toNat_xor ..
  have hexponent : (-x).exponentField = x.exponentField := by
    rw [exponentField, exponentField, hbits, Nat.shiftRight_xor_distrib,
      show 2048 = 2 ^ 11 from rfl, Nat.xor_mod_two_pow]
    exact Nat.xor_zero _
  have hfraction : (-x).fractionField = x.fractionField := by
    rw [fractionField, fractionField, hbits, Nat.one_shiftLeft, Nat.xor_mod_two_pow]
    exact Nat.xor_zero _
  rw [isNaN, isNaN, hexponent, hfraction]

/-- The tokens of a constant that a text can have are tokens that a text can have. -/
theorem Literal.isSpellable_tokens {c : Literal} (h : c.isSpellable = true) :
    c.tokens.all Token.isSpellable = true := by
  have hmagnitude : c.magnitude.isSpellable = true := by
    cases c with
    | integer n => exact h
    | float x =>
      have hnan : x.isNaN = false := by simpa [isSpellable] using h
      refine Token.isReadable_float.2 ?_
      cases hx : x.isNegative <;> simp [hx, hnan, Binary64.isNegative_neg, Binary64.isNaN_neg]
    | _ => rfl
  unfold tokens
  split <;> simp [hmagnitude]

theorem Style.isSpellable_listed (style : Style) {tss : List (List Token)}
    (h : tss.all (·.all Token.isSpellable) = true) :
    (style.listed tss).all Token.isSpellable = true := by
  fun_induction listed style tss with
  | case1 => rfl
  | case2 | case3 => simpa using h
  | case4 ts tss _ ih =>
    rw [List.all_cons, Bool.and_eq_true] at h
    simp [h.1, ih h.2]

theorem Style.isSpellable_params (style : Style) {ps : List Param}
    (h : ∀ p ∈ ps, isIdentifier p.name = true) :
    (style.params ps).all Token.isSpellable = true := by
  have hgroup : (style.group ps).all Token.isSpellable = true := by
    have hnames : (ps.map fun p => [Token.name p.name]).all (·.all Token.isSpellable) = true := by
      simpa using h
    simp [group, style.isSpellable_listed hnames]
  unfold params
  split
  · split
    · simpa using h
    · exact hgroup
  · exact hgroup

mutual

/-- The tokens of a tree whose names and constants a text can have are tokens that a text can have. -/
theorem Expr.isSpellable_tokens (e : Expr ν) (h : ∀ n ∈ e.nodes, n.Plain style ∧ n.Spellable) :
    (e.tokens style).all Token.isSpellable = true := by
  match e, h with
  | .name m s, h =>
    have hs : isIdentifier s = true := (h _ (Expr.mem_nodes_self _)).1
    simpa [Expr.tokens] using hs
  | .literal m v, h => exact Literal.isSpellable_tokens (h _ (Expr.mem_nodes_self _)).2
  | .paren m e, h =>
    obtain ⟨he, -⟩ := List.forall_mem_append.1 h
    simp [Expr.tokens, e.isSpellable_tokens he]
  | .property m e x, h =>
    obtain ⟨he, hself⟩ := List.forall_mem_append.1 h
    have hx : isIdentifier x = true := (List.forall_mem_singleton.1 hself).1
    simp [Expr.tokens, e.isSpellable_tokens he, hx]
  | .element m e i, h =>
    obtain ⟨hparts, -⟩ := List.forall_mem_append.1 h
    obtain ⟨he, hi⟩ := List.forall_mem_append.1 hparts
    simp [Expr.tokens, e.isSpellable_tokens he, i.isSpellable_tokens hi]
  | .binary m op a b, h =>
    obtain ⟨hparts, -⟩ := List.forall_mem_append.1 h
    obtain ⟨ha, hb⟩ := List.forall_mem_append.1 hparts
    simp [Expr.tokens, a.isSpellable_tokens ha, b.isSpellable_tokens hb]
  | .unary m op e, h =>
    obtain ⟨he, -⟩ := List.forall_mem_append.1 h
    simp [Expr.tokens, e.isSpellable_tokens he]
  | .conditional m c y n, h =>
    obtain ⟨hparts, -⟩ := List.forall_mem_append.1 h
    obtain ⟨hparts, hn⟩ := List.forall_mem_append.1 hparts
    obtain ⟨hc, hy⟩ := List.forall_mem_append.1 hparts
    simp [Expr.tokens, c.isSpellable_tokens hc, y.isSpellable_tokens hy, n.isSpellable_tokens hn]
  | .call m e es, h =>
    obtain ⟨hparts, -⟩ := List.forall_mem_append.1 h
    obtain ⟨he, hes⟩ := List.forall_mem_append.1 hparts
    simp [Expr.tokens, e.isSpellable_tokens he,
      style.isSpellable_listed (isSpellable_tokensAll es hes)]
  | .lambda m ps e, h =>
    obtain ⟨he, hself⟩ := List.forall_mem_append.1 h
    obtain ⟨⟨hps, -⟩, -⟩ := List.forall_mem_singleton.1 hself
    simp [Expr.tokens, e.isSpellable_tokens he,
      style.isSpellable_params fun p hp => (hps p hp).1]
  | .function m st ps ss, h => rfl
  | .object m ps, h =>
    obtain ⟨hparts, hself⟩ := List.forall_mem_append.1 h
    simp [Expr.tokens, style.isSpellable_listed
      (isSpellable_tokensProperties ps hparts (List.forall_mem_singleton.1 hself).1)]

theorem isSpellable_tokensAll (es : List (Expr ν))
    (h : ∀ n ∈ nodesAll es, n.Plain style ∧ n.Spellable) :
    (tokensAll style es).all (·.all Token.isSpellable) = true := by
  match es, h with
  | [], _ => rfl
  | e :: es, h =>
    obtain ⟨he, hes⟩ := List.forall_mem_append.1 h
    simp [tokensAll, e.isSpellable_tokens he, isSpellable_tokensAll es hes]

theorem isSpellable_tokensProperties (ps : List (Property ν))
    (h : ∀ n ∈ nodesProperties ps, n.Plain style ∧ n.Spellable) (hps : ∀ p ∈ ps, p.Plain) :
    (tokensProperties style ps).all (·.all Token.isSpellable) = true := by
  match ps, h, hps with
  | [], _, _ => rfl
  | .field s k e :: ps, h, hps =>
    obtain ⟨he, hrest⟩ := List.forall_mem_append.1 h
    obtain ⟨hkey, hps⟩ := List.forall_mem_cons.1 hps
    have hk : k.token.isSpellable = true := by
      cases k with
      | bare n => exact hkey
      | quoted n => rfl
    simp [tokensProperties, hk, e.isSpellable_tokens he, isSpellable_tokensProperties ps hrest hps]
  | .shorthand s k e :: ps, h, hps =>
    obtain ⟨he, hrest⟩ := List.forall_mem_append.1 h
    obtain ⟨hname, hps⟩ := List.forall_mem_cons.1 hps
    have hk : isIdentifier k = true := by
      cases e with
      | name m x =>
        obtain rfl := Option.some.inj hname
        exact (he _ (Expr.mem_nodes_self _)).1
      | _ => cases hname
    simp [tokensProperties, hk, isSpellable_tokensProperties ps hrest hps]
  | .computed s k e :: ps, h, hps =>
    obtain ⟨hparts, hrest⟩ := List.forall_mem_append.1 h
    obtain ⟨hk, he⟩ := List.forall_mem_append.1 hparts
    obtain ⟨-, hps⟩ := List.forall_mem_cons.1 hps
    simp [tokensProperties, k.isSpellable_tokens hk, e.isSpellable_tokens he,
      isSpellable_tokensProperties ps hrest hps]

end

/-- The text of an expression: its tokens, one to a line. -/
def Expr.text (style : Style) (e : Expr ν) : String := String.ofList (spellAll (e.tokens style))

theorem Expr.tokenize_text {e : Expr ν} (h : ∀ n ∈ e.nodes, n.Plain style ∧ n.Spellable) :
    ∃ ts, tokenize (e.text style) = .ok ts ∧ ts.map Lexeme.token = e.tokens style := by
  obtain ⟨ts, hts, htokens⟩ := Lexes.spellAll (List.all_eq_true.1 (e.isSpellable_tokens h)) 0
  refine ⟨ts, tokenize_eq_ok_iff.2 ?_, htokens⟩
  rwa [text, String.toList_ofList]

theorem wholeExpression_laid {e : Expr ν} (h : e.Written style) :
    wholeExpression (laid (e.tokens style)) = .ok e.shape :=
  wholeExpression_eq_ok_iff.2
    ⟨_, [], (List.append_nil _).symm, .none rfl, (e.stands h).expression (.nil 0)⟩

/-- In whatever layout they stand, the tokens of a tree are read as the tree. -/
theorem Expr.parseExpression_of_tokens {e : Expr ν} (h : e.Written style) {w : String}
    {ts : List Lexeme} (hts : tokenize w = .ok ts) (htokens : ts.map Lexeme.token = e.tokens style) :
    ∃ e', parseExpression w = .ok e' ∧ e'.shape = e.shape := by
  have hlaid : unplacedTokens ts = laid (e.tokens style) := by
    rw [← htokens, laid, List.map_map]
    rfl
  have hread := parseExpression_unplaced hts
  rw [hlaid, wholeExpression_laid h] at hread
  cases hw : parseExpression w with
  | error error =>
    rw [hw] at hread
    cases hread
  | ok e' =>
    rw [hw] at hread
    have hnumber : e'.unplaced = (e.shape.number.run 0).1 := Except.ok.inj hread
    refine ⟨e', rfl, ?_⟩
    calc e'.shape = e'.unplaced.shape := (relocate_relocate id (fun _ => ()) nowhere nowhere e').symm
      _ = (e.shape.number.run 0).1.shape := congrArg shape hnumber
      _ = e.shape.relocate id nowhere := relocate_number e.shape 0 nowhere
      _ = e.shape := relocate_relocate (fun _ => ()) id nowhere nowhere e

/-- A tree that is written as its parts hold together has a text, and every text with its tokens is
read as the tree, apart from labels and places. -/
theorem parseExpression_text {e : Expr ν} (h : e.Written style) (hs : ∀ n ∈ e.nodes, n.Spellable) :
    (∃ ts, tokenize (e.text style) = .ok ts ∧ ts.map Lexeme.token = e.tokens style) ∧
      ∀ w ts, tokenize w = .ok ts → ts.map Lexeme.token = e.tokens style →
        ∃ e', parseExpression w = .ok e' ∧ e'.shape = e.shape :=
  ⟨e.tokenize_text fun n hn => ⟨(h n hn).2, hs n hn⟩,
    fun _ _ hts htokens => e.parseExpression_of_tokens h hts htokens⟩

end Texts

/-- An arrow function with a bare parameter, whose body is a conditional. -/
theorem parseExpression_text_arrow :
    let m : Mark Unit := ⟨(), ⟨0, 0⟩⟩
    let x : Expr Unit := .name m "x"
    let style : Style := ⟨true, false⟩
    -- The difference of a property and a negative constant, compared with a fraction.
    let test : Expr Unit := .binary m .lt
      (.binary m .subtract (.property m x "a") (.literal m (.integer (-1))))
      (.literal m (.float ⟨0x3FE0000000000000⟩))
    let entries : List (Property Unit) := [.field ⟨0, 0⟩ (.bare "b") (.unary m .not x),
      .field ⟨0, 0⟩ (.quoted "c") (.unary m .negate (.paren m (.literal m (.integer 2)))),
      .computed ⟨0, 0⟩ (.element m x (.literal m (.string "k"))) (.literal m .null),
      .shorthand ⟨0, 0⟩ "x" x]
    let e : Expr Unit := .lambda m [⟨"x", ⟨0, 0⟩, none⟩]
      (.conditional m test (.call m (.property m x "f") [x, .lambda m [] x]) (.object m entries))
    let w := "x => x.a - -1 < 0.5 ? x.f(x, () => x) : \x7bb: !x, 'c': -(2), [x['k']]: null, x\x7d"
    e.Written style ∧ (∀ n ∈ e.nodes, n.Spellable) ∧ SameTokens (e.text style) w ∧
      ∃ e', parseExpression w = .ok e' ∧ e'.shape = e.shape := by
  intro m x style test entries e w
  have hwritten : e.Written style := by decide +kernel
  have hspellable : ∀ n ∈ e.nodes, n.Spellable := by decide +kernel
  have hsame : SameTokens (e.text style) w := by decide +kernel
  obtain ⟨⟨ts, hts, htokens⟩, hread⟩ := parseExpression_text hwritten hspellable
  refine ⟨hwritten, hspellable, hsame, ?_⟩
  obtain ⟨us, us', hus, hus', heq⟩ := hsame
  obtain rfl := Except.ok.inj (hts.symm.trans hus)
  exact hread w us' hus' (heq.symm.trans htokens)

/-! ### Trees that no text is read as -/

namespace Grammar

theorem isSpellable_of_literal? {t : Token} {c : Literal} (h : literal? t = some c)
    (ht : t.isReadable = true) : c.isSpellable = true := by
  cases t <;> simp only [literal?, Option.some.injEq, reduceCtorEq] at h <;> subst h
  · exact ht
  · simp [Literal.isSpellable, (Token.isReadable_float.1 ht).2]
  all_goals rfl

theorem isSpellable_of_negated? {t : Token} {c : Literal} (h : negated? t = some c)
    (ht : t.isReadable = true) : c.isSpellable = true := by
  cases t <;> simp only [negated?, Option.some.injEq, reduceCtorEq] at h <;> subst h
  · simpa [Literal.isSpellable, Token.isReadable] using ht
  · simp [Literal.isSpellable, Binary64.isNaN_neg, (Token.isReadable_float.1 ht).2]

/-- The constants that tokens denote can be written. -/
theorem Derives.spellable {p : Phrase} {u r : List Lexeme} {e : Expr Unit}
    (h : Derives p u (.expr e) r) (hu : ∀ x ∈ u, x.token.isReadable = true) : e.Spellable := by
  generalize hv : Piece.expr e = v at h
  induction h generalizing e with
  | plain _ _ ih | condition _ _ ih | settled _ _ ih | first _ ih | tighter _ _ ih
  | tightest _ _ ih | operand _ ih | suffixed _ _ ih | start _ ih => exact ih hu hv
  | negative hx _ =>
    cases hv
    exact isSpellable_of_negated? hx (hu _ (by simp))
  | literal hx =>
    cases hv
    exact isSpellable_of_literal? hx (hu _ (by simp))
  | _ => cases hv <;> trivial

end Grammar

theorem Expr.spellable_relocate {μ : Type} {f : ν → μ} {g : Nat → Nat} {e : Expr ν} :
    (e.relocate f g).Spellable ↔ e.Spellable := by
  cases e <;> rfl

/-- The constants in what a text is read as can be written. -/
theorem NodeOf.spellable {source : String} {x : Expr Nat} (h : NodeOf source x) : x.Spellable := by
  obtain ⟨ts, hts, p, u, r, hu, hx⟩ := h.holds
  exact Expr.spellable_relocate.1 (hx.spellable fun y hy => hts.isReadable y (hu.subset hy))

/-- The least integer of 64 bits cannot be written: its digits are too large for an integer, and with
the minus sign before them they are a number of double precision. -/
theorem parseExpression_least_integer :
    let e : Expr Unit := .literal ⟨(), ⟨0, 20⟩⟩ (.integer (-2 ^ 63))
    e.Written ⟨false, false⟩ ∧ (∀ w e', parseExpression w = .ok e' → e'.shape ≠ e.shape) ∧
      ∃ e', parseExpression "-9223372036854775808" = .ok e' ∧
        e'.shape = .literal ⟨(), ⟨0, 0⟩⟩ (.float ⟨0xC3E0000000000000⟩) := by
  intro e
  let x : Expr Unit := .literal ⟨(), ⟨0, 20⟩⟩ (.float ⟨0xC3E0000000000000⟩)
  have htokens : tokenize "-9223372036854775808" =
      .ok [⟨.symbol .minus, ⟨0, 1⟩⟩, ⟨.float ⟨0x43E0000000000000⟩, ⟨1, 20⟩⟩] := by decide +kernel
  have hwritten : x.Written ⟨false, false⟩ := by decide +kernel
  have hspellable : ¬ e.Spellable := by decide +kernel
  refine ⟨by decide +kernel, fun w e' hread hshape => hspellable ?_,
    x.parseExpression_of_tokens hwritten htokens (by decide +kernel)⟩
  rw [← Expr.spellable_relocate (f := fun _ => ()) (g := nowhere), ← Expr.shape, ← hshape]
  exact Expr.spellable_relocate.2 (NodeOf.expression hread e'.mem_nodes_self).spellable

end Aggregation
