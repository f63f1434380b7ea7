import Aggregation.Proofs.Annotation

/-! Which tokens are an expression, a statement, or a part of one.

`Derives p u v r` says that the tokens `u`, followed by `r`, are a phrase `p` that denotes `v`. As
for annotations, the tokens behind a phrase matter only in that they must not continue it, and
closing brackets belong to what is around a phrase. Operands joined by operators, and what is read
from an expression or called on it, group to the left; a phrase `joined` or `chain` is one that may
still go on. -/
namespace Aggregation.Grammar

/-- The phrases of expressions and statements. -/
inductive Phrase
  | expression
  | conditional
  | binary (l : Level)
  | joined (l : Level)
  | operand (l : Level)
  | unary
  | suffixed
  | chain
  | primary
  | arguments
  | properties
  | property
  | statement
  | block

/-- What the phrases of expressions and statements denote. -/
inductive Piece
  | expr (e : Expr Unit)
  | exprs (es : List (Expr Unit))
  | entry (p : Property Unit)
  | entries (ps : List (Property Unit))
  | statement (s : Statement Unit)
  | statements (ss : List (Statement Unit))

/-- Whether tokens begin with what is read from an expression or called on it. -/
def startsSuffix (ts : List Lexeme) : Bool :=
  startsWith .dot ts || startsWith .leftBracket ts || startsWith .leftParen ts

def startsOperator (l : Level) (ts : List Lexeme) : Bool :=
  ts.head?.any fun x => (l.operator? x.token).isSome

/-- The written-out key that a token is. -/
def fieldKey? : Token → Option FieldName
  | .name n => some (.bare n)
  | .string s => some (.quoted s)
  | .integer n => some (.quoted (toString n))
  | _ => none

/-- The name of a function, or nothing. -/
inductive Named : List Lexeme → Prop
  | none : Named []
  | name (n : String) (p : Span) : Named [⟨.name n, p⟩]

/-- The end of a statement that is followed by the given tokens: a semicolon, or nothing. -/
inductive Ended : List Lexeme → List Lexeme → Prop
  | none {r} (hr : startsWith .semicolon r = false) : Ended [] r
  | semicolon {p r} : Ended [⟨.symbol .semicolon, p⟩] r

/-- The tokens are a phrase, followed by the given ones. -/
inductive Derives : Phrase → List Lexeme → Piece → List Lexeme → Prop
  | lambda {u ps p w e r} (hu : Heads u ps (⟨.symbol .arrow, p⟩ :: w ++ r))
      (hb : startsWith .leftBrace w = false) (hw : Derives .expression w (.expr e) r) :
      Derives .expression (u ++ ⟨.symbol .arrow, p⟩ :: w)
        (.expr (.lambda (mark (startOf u) (stopOf w)) ps e)) r
  | arrow {u ps p₁ p₂ w ss p₃ r}
      (hu : Heads u ps
        (⟨.symbol .arrow, p₁⟩ :: ⟨.symbol .leftBrace, p₂⟩ :: w ++ ⟨.symbol .rightBrace, p₃⟩ :: r))
      (hw : Derives .block w (.statements ss) (⟨.symbol .rightBrace, p₃⟩ :: r)) :
      Derives .expression
        (u ++ ⟨.symbol .arrow, p₁⟩ :: ⟨.symbol .leftBrace, p₂⟩ :: w ++ [⟨.symbol .rightBrace, p₃⟩])
        (.expr (.function (mark (startOf u) p₃.stop) .arrow ps ss)) r
  | plain {u e r} (ha : atArrow (u ++ r) = false) (hu : Derives .conditional u (.expr e) r) :
      Derives .expression u (.expr e) r
  | condition {u e r} (hu : Derives (.binary .or) u (.expr e) r)
      (hr : startsWith .question r = false) : Derives .conditional u (.expr e) r
  | choice {u c p₁ v y p₂ w n r}
      (hu : Derives (.binary .or) u (.expr c)
        (⟨.symbol .question, p₁⟩ :: v ++ ⟨.symbol .colon, p₂⟩ :: w ++ r))
      (hv : Derives .expression v (.expr y) (⟨.symbol .colon, p₂⟩ :: w ++ r))
      (hw : Derives .expression w (.expr n) r) :
      Derives .conditional (u ++ ⟨.symbol .question, p₁⟩ :: v ++ ⟨.symbol .colon, p₂⟩ :: w)
        (.expr (.conditional (mark c.span.start (stopOf w)) c y n)) r
  | settled {l u e r} (hu : Derives (.joined l) u (.expr e) r) (hr : startsOperator l r = false) :
      Derives (.binary l) u (.expr e) r
  | first {l u e r} (hu : Derives (.operand l) u (.expr e) r) : Derives (.joined l) u (.expr e) r
  | join {l u a x op w b r} (hx : l.operator? x.token = some op)
      (hu : Derives (.joined l) u (.expr a) (x :: w ++ r))
      (hw : Derives (.operand l) w (.expr b) r) :
      Derives (.joined l) (u ++ x :: w)
        (.expr (.binary (mark a.span.start (stopOf w)) op a b)) r
  | tighter {l m u e r} (hl : l.tighter = some m) (hu : Derives (.binary m) u (.expr e) r) :
      Derives (.operand l) u (.expr e) r
  | tightest {l u e r} (hl : l.tighter = none) (hu : Derives .unary u (.expr e) r) :
      Derives (.operand l) u (.expr e) r
  | not {p u e r} (hu : Derives .unary u (.expr e) r) :
      Derives .unary (⟨.symbol .not, p⟩ :: u) (.expr (.unary (mark p.start (stopOf u)) .not e)) r
  | negative {p x v r} (hx : negated? x.token = some v) (hr : startsSuffix r = false) :
      Derives .unary [⟨.symbol .minus, p⟩, x] (.expr (.literal (mark p.start x.span.stop) v)) r
  | negate {p u e r} (hn : negative? (u ++ r) = none) (hu : Derives .unary u (.expr e) r) :
      Derives .unary (⟨.symbol .minus, p⟩ :: u)
        (.expr (.unary (mark p.start (stopOf u)) .negate e)) r
  | operand {u e r} (hu : Derives .suffixed u (.expr e) r) : Derives .unary u (.expr e) r
  | suffixed {u e r} (hu : Derives .chain u (.expr e) r) (hr : startsSuffix r = false) :
      Derives .suffixed u (.expr e) r
  | start {u e r} (hu : Derives .primary u (.expr e) r) : Derives .chain u (.expr e) r
  | property {u e p₁ n p₂ r}
      (hu : Derives .chain u (.expr e) (⟨.symbol .dot, p₁⟩ :: ⟨.name n, p₂⟩ :: r)) :
      Derives .chain (u ++ [⟨.symbol .dot, p₁⟩, ⟨.name n, p₂⟩])
        (.expr (.property (mark e.span.start p₂.stop) e n)) r
  | element {u e p₁ w i p₂ r}
      (hu : Derives .chain u (.expr e)
        (⟨.symbol .leftBracket, p₁⟩ :: w ++ ⟨.symbol .rightBracket, p₂⟩ :: r))
      (hw : Derives .expression w (.expr i) (⟨.symbol .rightBracket, p₂⟩ :: r)) :
      Derives .chain (u ++ ⟨.symbol .leftBracket, p₁⟩ :: w ++ [⟨.symbol .rightBracket, p₂⟩])
        (.expr (.element (mark e.span.start p₂.stop) e i)) r
  | call {u e p₁ w es p₂ r}
      (hu : Derives .chain u (.expr e)
        (⟨.symbol .leftParen, p₁⟩ :: w ++ ⟨.symbol .rightParen, p₂⟩ :: r))
      (hw : Derives .arguments w (.exprs es) (⟨.symbol .rightParen, p₂⟩ :: r)) :
      Derives .chain (u ++ ⟨.symbol .leftParen, p₁⟩ :: w ++ [⟨.symbol .rightParen, p₂⟩])
        (.expr (.call (mark e.span.start p₂.stop) e es)) r
  | name {n p r} : Derives .primary [⟨.name n, p⟩] (.expr (.name (mark p.start p.stop) n)) r
  | literal {x v r} (hx : literal? x.token = some v) :
      Derives .primary [x] (.expr (.literal (mark x.span.start x.span.stop) v)) r
  | paren {p₁ u e p₂ r} (hu : Derives .expression u (.expr e) (⟨.symbol .rightParen, p₂⟩ :: r)) :
      Derives .primary (⟨.symbol .leftParen, p₁⟩ :: u ++ [⟨.symbol .rightParen, p₂⟩])
        (.expr (.paren (mark p₁.start p₂.stop) e)) r
  | object {p₁ u ps p₂ r}
      (hu : Derives .properties u (.entries ps) (⟨.symbol .rightBrace, p₂⟩ :: r)) :
      Derives .primary (⟨.symbol .leftBrace, p₁⟩ :: u ++ [⟨.symbol .rightBrace, p₂⟩])
        (.expr (.object (mark p₁.start p₂.stop) ps)) r
  | function {p₁ k p₂ u ps p₃ w a p₄ b ss p₅ r} (hk : Named k)
      (hu : Declares u ps (⟨.symbol .rightParen, p₃⟩ :: w ++ ⟨.symbol .leftBrace, p₄⟩ :: b ++
        ⟨.symbol .rightBrace, p₅⟩ :: r))
      (hw : Ascribes w a (⟨.symbol .leftBrace, p₄⟩ :: b ++ ⟨.symbol .rightBrace, p₅⟩ :: r))
      (hb : Derives .block b (.statements ss) (⟨.symbol .rightBrace, p₅⟩ :: r)) :
      Derives .primary
        (⟨.keyword .functionKey, p₁⟩ :: k ++ ⟨.symbol .leftParen, p₂⟩ :: u ++
          ⟨.symbol .rightParen, p₃⟩ :: w ++ ⟨.symbol .leftBrace, p₄⟩ :: b ++
          [⟨.symbol .rightBrace, p₅⟩])
        (.expr (.function (mark p₁.start p₅.stop) .word ps ss)) r
  | noArgument {r} : Derives .arguments [] (.exprs []) r
  | lastArgument {u e r} (hu : Derives .expression u (.expr e) r) :
      Derives .arguments u (.exprs [e]) r
  | argument {u e p w es r} (hu : Derives .expression u (.expr e) (⟨.symbol .comma, p⟩ :: w ++ r))
      (hw : Derives .arguments w (.exprs es) r) :
      Derives .arguments (u ++ ⟨.symbol .comma, p⟩ :: w) (.exprs (e :: es)) r
  | noEntry {r} : Derives .properties [] (.entries []) r
  | lastEntry {u v r} (hu : Derives .property u (.entry v) r) :
      Derives .properties u (.entries [v]) r
  | entry {u v p w vs r} (hu : Derives .property u (.entry v) (⟨.symbol .comma, p⟩ :: w ++ r))
      (hw : Derives .properties w (.entries vs) r) :
      Derives .properties (u ++ ⟨.symbol .comma, p⟩ :: w) (.entries (v :: vs)) r
  | shorthand {n p r} :
      Derives .property [⟨.name n, p⟩]
        (.entry (.shorthand p n (.name (mark p.start p.stop) n))) r
  | field {x k p u e r} (hx : fieldKey? x.token = some k) (hu : Derives .expression u (.expr e) r) :
      Derives .property (x :: ⟨.symbol .colon, p⟩ :: u)
        (.entry (.field ⟨x.span.start, stopOf u⟩ k e)) r
  | computed {p₁ u k p₂ p₃ w e r}
      (hu : Derives .expression u (.expr k)
        (⟨.symbol .rightBracket, p₂⟩ :: ⟨.symbol .colon, p₃⟩ :: w ++ r))
      (hw : Derives .expression w (.expr e) r) :
      Derives .property
        (⟨.symbol .leftBracket, p₁⟩ :: u ++
          ⟨.symbol .rightBracket, p₂⟩ :: ⟨.symbol .colon, p₃⟩ :: w)
        (.entry (.computed ⟨p₁.start, stopOf w⟩ k e)) r
  | declaration {k : Keyword} {p₁ n p₂ w a t r} (hk : k ∈ [Keyword.constKey, .letKey, .varKey])
      (hw : Ascribes w a (t ++ r)) (hr : startsWith .assign (t ++ r) = false) (ht : Ended t r) :
      Derives .statement (⟨.keyword k, p₁⟩ :: ⟨.name n, p₂⟩ :: w ++ t)
        (.statement (.declaration ⟨p₁.start, stopOf (⟨.name n, p₂⟩ :: w ++ t)⟩ n none)) r
  | definition {k : Keyword} {p₁ n p₂ w a p₃ u e t r} (hk : k ∈ [Keyword.constKey, .letKey, .varKey])
      (hw : Ascribes w a (⟨.symbol .assign, p₃⟩ :: u ++ t ++ r))
      (hu : Derives .expression u (.expr e) (t ++ r)) (ht : Ended t r) :
      Derives .statement
        (⟨.keyword k, p₁⟩ :: ⟨.name n, p₂⟩ :: w ++ ⟨.symbol .assign, p₃⟩ :: u ++ t)
        (.statement (.declaration ⟨p₁.start, stopOf (u ++ t)⟩ n (some e))) r
  | finish {p t r} (hr : t = [] → r = [] ∨ startsWith .rightBrace r = true) (ht : Ended t r) :
      Derives .statement (⟨.keyword .returnKey, p⟩ :: t)
        (.statement (.result ⟨p.start, stopOf (⟨.keyword .returnKey, p⟩ :: t)⟩ none)) r
  | result {p u e t r} (hu : Derives .expression u (.expr e) (t ++ r)) (ht : Ended t r) :
      Derives .statement (⟨.keyword .returnKey, p⟩ :: u ++ t)
        (.statement (.result ⟨p.start, stopOf (u ++ t)⟩ (some e))) r
  | evaluation {u e t r} (hu : Derives .expression u (.expr e) (t ++ r)) (ht : Ended t r) :
      Derives .statement (u ++ t) (.statement (.expression ⟨startOf u, stopOf (u ++ t)⟩ e)) r
  | noStatement {r} : Derives .block [] (.statements []) r
  | statement {u s w ss r} (hu : Derives .statement u (.statement s) (w ++ r))
      (hw : Derives .block w (.statements ss) r) :
      Derives .block (u ++ w) (.statements (s :: ss)) r

/-- Phrases that are any number of other phrases, also none. -/
def Phrase.isList : Phrase → Bool
  | .arguments | .properties | .block => true
  | _ => false

/-- The tokens that can begin what no operator stands before. -/
def startsPrimary (t : Token) : Bool :=
  (literal? t).isSome || match t with
    | .name _ | .keyword .functionKey | .symbol .leftParen | .symbol .leftBrace => true
    | _ => false

/-- The tokens that can begin an expression. -/
def startsExpression (t : Token) : Bool :=
  startsPrimary t || t == .symbol .not || t == .symbol .minus

/-- The tokens that can begin a phrase. -/
def Phrase.begins : Phrase → Token → Bool
  | .suffixed, t | .chain, t | .primary, t => startsPrimary t
  | .property, t => (fieldKey? t).isSome || t == .symbol .leftBracket
  | .statement, t => (t matches .keyword _) || startsExpression t
  | _, t => startsExpression t

theorem Heads.begins {u : List Lexeme} {ps : List Param} {r : List Lexeme} (h : Heads u ps r) :
    ∃ x w, u = x :: w ∧ startsExpression x.token = true := by
  cases h with
  | name => exact ⟨_, _, rfl, rfl⟩
  | group => exact ⟨_, _, rfl, rfl⟩

namespace Derives

variable {p : Phrase} {u : List Lexeme} {v : Piece} {r r' : List Lexeme}

/-- What is not a list of phrases has a first token, of a kind that begins the phrase. -/
theorem begins (h : Derives p u v r) (hp : p.isList = false) :
    ∃ x w, u = x :: w ∧ p.begins x.token = true := by
  induction h with
  | lambda hu _ _ _ | arrow hu _ _ =>
    obtain ⟨x, w, rfl, hx⟩ := hu.begins
    exact ⟨x, _, rfl, hx⟩
  | plain _ _ ih | condition _ _ ih | settled _ _ ih | first _ ih | tighter _ _ ih
  | tightest _ _ ih | suffixed _ _ ih | start _ ih => exact ih rfl
  | choice _ _ _ ih | join _ _ _ ih | property _ ih | element _ _ ih | call _ _ ih =>
    obtain ⟨x, w, rfl, hx⟩ := ih rfl
    exact ⟨x, _, rfl, hx⟩
  | operand _ ih =>
    obtain ⟨x, w, rfl, hx⟩ := ih rfl
    exact ⟨x, w, rfl, by simp_all [Phrase.begins, startsExpression]⟩
  | literal hx => exact ⟨_, _, rfl, by simp [Phrase.begins, startsPrimary, hx]⟩
  | field hx => exact ⟨_, _, rfl, by simp [Phrase.begins, hx]⟩
  | evaluation _ _ ih =>
    obtain ⟨x, w, rfl, hx⟩ := ih rfl
    exact ⟨x, _, rfl, by simp_all [Phrase.begins]⟩
  | noArgument | lastArgument | argument | noEntry | lastEntry | entry | noStatement
  | statement => cases hp
  | _ => exact ⟨_, _, rfl, rfl⟩

theorem ne_nil (h : Derives p u v r) (hp : p.isList = false) : u ≠ [] := by
  obtain ⟨x, w, rfl, -⟩ := h.begins hp
  exact List.cons_ne_nil x w

theorem expr_ne_nil {e : Expr Unit} (h : Derives p u (.expr e) r) : u ≠ [] :=
  h.ne_nil (by cases h <;> rfl)

end Derives

theorem Named.balanced {k : List Lexeme} (h : Named k) : Balanced k := by
  cases h with
  | none => exact .nil
  | name n p => exact .singleton rfl rfl

namespace Ended

variable {t r r' : List Lexeme}

theorem balanced (h : Ended t r) : Balanced t := by
  cases h with
  | none => exact .nil
  | semicolon => exact .singleton rfl rfl

theorem looks (h : Ended t r) (hr : Looks r r') : Ended t r' := by
  cases h with
  | none hs => exact .none (hr.symbol _ (by decide) (by decide) hs)
  | semicolon => exact .semicolon

end Ended

namespace Derives

variable {p : Phrase} {u : List Lexeme} {v : Piece} {r r' : List Lexeme}

theorem balanced_of_operator {l : Level} {x : Lexeme} {op : BinaryOp}
    (h : l.operator? x.token = some op) : opens x.token = false ∧ closes x.token = false := by
  have hx : x.token = .symbol op.symbol := by simpa using List.find?_some h
  rw [hx]
  cases op <;> exact ⟨rfl, rfl⟩

theorem balanced_of_key {x : Lexeme} {k : FieldName} (h : fieldKey? x.token = some k) :
    opens x.token = false ∧ closes x.token = false := by
  obtain ⟨t, s⟩ := x
  cases t <;> simp [fieldKey?] at h <;> exact ⟨rfl, rfl⟩

theorem balanced_of_literal {t : Token} {c : Literal} (h : literal? t = some c) :
    opens t = false ∧ closes t = false := by
  cases t <;> simp [literal?] at h <;> exact ⟨rfl, rfl⟩

theorem balanced_of_negated {t : Token} {c : Literal} (h : negated? t = some c) :
    opens t = false ∧ closes t = false := by
  cases t <;> simp [negated?] at h <;> exact ⟨rfl, rfl⟩

/-- Phrases are balanced. -/
theorem balanced (h : Derives p u v r) : Balanced u := by
  induction h with
  | lambda hu _ _ ih => exact hu.balanced.append (.plain rfl rfl ih)
  | arrow hu _ ih => simpa using hu.balanced.append (.plain rfl rfl (.bracketed rfl ih rfl))
  | plain _ _ ih | condition _ _ ih | settled _ _ ih | first _ ih | tighter _ _ ih
  | tightest _ _ ih | operand _ ih | suffixed _ _ ih | start _ ih | lastArgument _ ih
  | lastEntry _ ih => exact ih
  | choice _ _ _ ihu ihv ihw => exact (ihu.append (.plain rfl rfl ihv)).append (.plain rfl rfl ihw)
  | join hx _ _ ihu ihw =>
    obtain ⟨ho, hc⟩ := balanced_of_operator hx
    exact ihu.append (.plain ho hc ihw)
  | not _ ih | negate _ _ ih => exact .plain rfl rfl ih
  | negative hx _ =>
    obtain ⟨ho, hc⟩ := balanced_of_negated hx
    exact .plain rfl rfl (.singleton ho hc)
  | property _ ih => exact ih.append (.plain rfl rfl (.singleton rfl rfl))
  | element _ _ ihu ihw | call _ _ ihu ihw => simpa using ihu.append (.bracketed rfl ihw rfl)
  | name | shorthand => exact .singleton rfl rfl
  | literal hx =>
    obtain ⟨ho, hc⟩ := balanced_of_literal hx
    exact .singleton ho hc
  | paren _ ih | object _ ih => exact .bracketed rfl ih rfl
  | @function p₁ k p₂ u _ p₃ w _ p₄ b _ p₅ _ hk hu hw _ ih =>
    have hparams : Balanced (⟨.symbol .leftParen, p₂⟩ :: u ++ [⟨.symbol .rightParen, p₃⟩]) :=
      .bracketed rfl hu.balanced rfl
    have hbody : Balanced (⟨.symbol .leftBrace, p₄⟩ :: b ++ [⟨.symbol .rightBrace, p₅⟩]) :=
      .bracketed rfl ih rfl
    have hall := hk.balanced.append (hparams.append (hw.balanced.append hbody))
    simpa using Balanced.plain (x := ⟨.keyword .functionKey, p₁⟩) rfl rfl hall
  | noArgument | noEntry | noStatement => exact .nil
  | argument _ _ ihu ihw | entry _ _ ihu ihw => exact ihu.append (.plain rfl rfl ihw)
  | field hx _ ih =>
    obtain ⟨ho, hc⟩ := balanced_of_key hx
    exact .plain ho hc (.plain rfl rfl ih)
  | computed _ _ ihu ihw => exact .group rfl ihu rfl (.plain rfl rfl ihw)
  | declaration _ hw _ ht =>
    exact .append (.plain rfl rfl (.plain rfl rfl hw.balanced)) ht.balanced
  | definition _ hw _ ht ih =>
    exact .append (.append (.plain rfl rfl (.plain rfl rfl hw.balanced)) (.plain rfl rfl ih))
      ht.balanced
  | finish _ ht => exact .plain rfl rfl ht.balanced
  | result _ ht ih => exact .append (.plain rfl rfl ih) ht.balanced
  | evaluation _ ht ih => exact ih.append ht.balanced
  | statement _ _ ihu ihw => exact ihu.append ihw

/-- Nothing is read from a prefix expression, nor is it called. -/
theorem unary_stops (h : Derives .unary u v r) : startsSuffix r = false := by
  generalize hp : Phrase.unary = p at h
  induction h with
  | not _ ih | negate _ _ ih => exact ih hp
  | negative _ hr => exact hr
  | operand hu =>
    cases hu with
    | suffixed _ hr => exact hr
  | _ => cases hp

end Derives

theorem Looks.startsSuffix {r r' : List Lexeme} (h : Looks r r') (hr : startsSuffix r = false) :
    startsSuffix r' = false := by
  simp only [Grammar.startsSuffix, Bool.or_eq_false_iff] at hr ⊢
  exact ⟨⟨h.symbol _ (by decide) (by decide) hr.1.1, h.symbol _ (by decide) (by decide) hr.1.2⟩,
    h.symbol _ (by decide) (by decide) hr.2⟩

theorem Looks.startsOperator {r r' : List Lexeme} (h : Looks r r') {l : Level}
    (hr : startsOperator l r = false) : startsOperator l r' = false := by
  match r' with
  | [] => rfl
  | x :: q =>
    refine Bool.eq_false_iff.2 fun hx => ?_
    obtain ⟨op, hop⟩ := Option.isSome_iff_exists.1 (hx : (l.operator? x.token).isSome = true)
    have hx : x.token = .symbol op.symbol := by simpa using List.find?_some hop
    have hs : op.symbol ≠ .rightParen ∧ op.symbol ≠ .rightBrace := by cases op <;> decide
    cases hw : startsWith op.symbol r with
    | false =>
      have := h.symbol _ hs.1 hs.2 hw
      simp [hx] at this
    | true =>
      obtain ⟨p, q, rfl⟩ := startsWith_iff.1 hw
      rw [← hx] at hr
      simp [Grammar.startsOperator, hop] at hr

namespace Derives

variable {p : Phrase} {u : List Lexeme} {v : Piece} {r r' : List Lexeme}

theorem negative?_eq_none_iff {x : Lexeme} {ts : List Lexeme} :
    negative? (x :: ts) = none ↔ startsSuffix ts = true ∨ negated? x.token = none := by
  simp only [negative?, startsSuffix]
  split
  · next h => simp [h]
  · next h => simp [h]

/-- Whether a minus sign makes a negative constant does not depend on what follows the operand. -/
theorem negative?_eq_none {e : Expr Unit} (h : Derives .unary u (.expr e) r)
    (hn : negative? (u ++ r) = none) (r' : List Lexeme) : negative? (u ++ r') = none := by
  have hstop := h.unary_stops
  match u, h.expr_ne_nil with
  | [x], _ =>
    have hx : negated? x.token = none := by
      simpa [hstop] using negative?_eq_none_iff.1 hn
    exact negative?_eq_none_iff.2 (.inr hx)
  | x :: y :: w, _ =>
    have hx : startsSuffix (y :: (w ++ r)) = true ∨ negated? x.token = none :=
      negative?_eq_none_iff.1 hn
    exact negative?_eq_none_iff.2 hx

/-- A phrase stays one when what follows it shows nothing new. -/
theorem follows (h : Derives p u v r) (hr : Follows r r') : Derives p u v r' := by
  induction h generalizing r' with
  | @lambda _ _ _ w _ _ hu hb _ ih => exact .lambda (hu.looks (hr.append (_ :: w)).toLooks) hb (ih hr)
  | @arrow _ _ _ _ w _ _ _ hu _ ih =>
    exact .arrow (hu.looks ((hr.append [_]).append (_ :: _ :: w)).toLooks) (ih (hr.append [_]))
  | plain ha hu ih =>
    exact .plain (atArrow_of_looks hu.balanced hu.expr_ne_nil hr.toLooks ha) (ih hr)
  | condition _ hq ih => exact .condition (ih hr) (hr.symbol _ (by decide) (by decide) hq)
  | @choice _ _ _ v _ _ w _ _ _ _ _ ihu ihv ihw =>
    exact .choice (ihu (hr.append ((_ :: v) ++ _ :: w))) (ihv (hr.append (_ :: w))) (ihw hr)
  | settled _ ho ih => exact .settled (ih hr) (hr.startsOperator ho)
  | first _ ih => exact .first (ih hr)
  | @join _ _ _ x _ w _ _ hx _ _ ihu ihw => exact .join hx (ihu (hr.append (x :: w))) (ihw hr)
  | tighter hl _ ih => exact .tighter hl (ih hr)
  | tightest hl _ ih => exact .tightest hl (ih hr)
  | not _ ih => exact .not (ih hr)
  | negative hx hs => exact .negative hx (hr.startsSuffix hs)
  | negate hn hu ih => exact .negate (hu.negative?_eq_none hn _) (ih hr)
  | operand _ ih => exact .operand (ih hr)
  | suffixed _ hs ih => exact .suffixed (ih hr) (hr.startsSuffix hs)
  | start _ ih => exact .start (ih hr)
  | property _ ih => exact .property (ih (hr.append [_, _]))
  | @element _ _ _ w _ _ _ _ _ ihu ihw =>
    exact .element (ihu ((hr.append [_]).append (_ :: w))) (ihw (hr.append [_]))
  | @call _ _ _ w _ _ _ _ _ ihu ihw =>
    exact .call (ihu ((hr.append [_]).append (_ :: w))) (ihw (hr.append [_]))
  | name => exact .name
  | literal hx => exact .literal hx
  | paren _ ih => exact .paren (ih (hr.append [_]))
  | object _ ih => exact .object (ih (hr.append [_]))
  | @function _ _ _ _ _ _ w _ p₄ b _ p₅ _ hk hu hw _ ih =>
    have hb := hr.append [⟨.symbol .rightBrace, p₅⟩]
    exact .function hk (hu.looks (hb.append ((_ :: w) ++ _ :: b)).toLooks)
      (hw.looks (hb.append (_ :: b)).toLooks) (ih hb)
  | noArgument => exact .noArgument
  | lastArgument _ ih => exact .lastArgument (ih hr)
  | @argument _ _ _ w _ _ _ _ ihu ihw => exact .argument (ihu (hr.append (_ :: w))) (ihw hr)
  | noEntry => exact .noEntry
  | lastEntry _ ih => exact .lastEntry (ih hr)
  | @entry _ _ _ w _ _ _ _ ihu ihw => exact .entry (ihu (hr.append (_ :: w))) (ihw hr)
  | shorthand => exact .shorthand
  | field hx _ ih => exact .field hx (ih hr)
  | @computed _ _ _ _ _ w _ _ _ _ ihu ihw =>
    exact .computed (ihu (hr.append (_ :: _ :: w))) (ihw hr)
  | @declaration _ _ _ _ _ _ t _ hk hw ha ht =>
    have htr := (hr.append t).toLooks
    exact .declaration hk (hw.looks htr) (htr.symbol _ (by decide) (by decide) ha)
      (ht.looks hr.toLooks)
  | @definition _ _ _ _ _ _ _ u _ t _ hk hw _ ht ih =>
    exact .definition hk (hw.looks (hr.append ((_ :: u) ++ t)).toLooks) (ih (hr.append t))
      (ht.looks hr.toLooks)
  | finish he ht => exact .finish (fun h => hr.ends (he h)) (ht.looks hr.toLooks)
  | @result _ _ _ t _ _ ht ih => exact .result (ih (hr.append t)) (ht.looks hr.toLooks)
  | @evaluation _ _ t _ _ ht ih => exact .evaluation (ih (hr.append t)) (ht.looks hr.toLooks)
  | noStatement => exact .noStatement
  | @statement _ _ w _ _ _ _ ihu ihw => exact .statement (ihu (hr.append w)) (ihw hr)

end Derives

/-! ### Statements that are closed -/

/-- The tokens end with one that is no semicolon. -/
def EndsOpen (u : List Lexeme) : Prop :=
  ∃ w x, u = w ++ [x] ∧ x.token ≠ .symbol .semicolon

namespace EndsOpen

theorem singleton {x : Lexeme} (h : x.token ≠ .symbol .semicolon) : EndsOpen [x] :=
  ⟨[], x, rfl, h⟩

theorem append (u : List Lexeme) {w : List Lexeme} (h : EndsOpen w) : EndsOpen (u ++ w) := by
  obtain ⟨v, x, rfl, hx⟩ := h
  exact ⟨u ++ v, x, by rw [List.append_assoc], hx⟩

theorem cons (x : Lexeme) {w : List Lexeme} (h : EndsOpen w) : EndsOpen (x :: w) :=
  h.append [x]

end EndsOpen

theorem Annotates.endsOpen {p : TypePhrase} {u : List Lexeme} {a : TypeExpr} {r : List Lexeme}
    (h : Annotates p u (.one a) r) : EndsOpen u := by
  generalize hv : TypePiece.one a = v at h
  induction h generalizing a with
  | name | null => exact .singleton (by simp)
  | applied | object => exact .append _ (.singleton (by simp))
  | array => exact .append _ (.cons _ (.singleton (by simp)))
  | start _ ih | full _ _ ih => exact ih hv
  | _ => cases hv

namespace Derives

variable {p : Phrase} {u : List Lexeme} {v : Piece} {r : List Lexeme}

theorem endsOpen {e : Expr Unit} (h : Derives p u (.expr e) r) : EndsOpen u := by
  generalize hv : Piece.expr e = v at h
  induction h generalizing e with
  | lambda _ _ _ ih => exact .append _ (.cons _ (ih rfl))
  | arrow | element | call | paren | object | function => exact .append _ (.singleton (by simp))
  | plain _ _ ih | condition _ _ ih | settled _ _ ih | first _ ih | tighter _ _ ih
  | tightest _ _ ih | operand _ ih | suffixed _ _ ih | start _ ih => exact ih rfl
  | choice _ _ _ _ _ ih | join _ _ _ _ ih => exact .append _ (.cons _ (ih rfl))
  | not _ ih | negate _ _ ih => exact .cons _ (ih rfl)
  | negative hx => exact .cons _ (.singleton fun h => by simp [h, negated?] at hx)
  | property => exact .append _ (.cons _ (.singleton (by simp)))
  | name => exact .singleton (by simp)
  | literal hx => exact .singleton fun h => by simp [h, literal?] at hx
  | _ => cases hv

end Derives

theorem EndsOpen.ne_concat {u w : List Lexeme} {q : Span} (h : EndsOpen u) :
    u ≠ w ++ [⟨.symbol .semicolon, q⟩] := by
  obtain ⟨v, x, rfl, hx⟩ := h
  intro h
  obtain ⟨-, h⟩ := List.append_inj' h rfl
  obtain ⟨rfl, -⟩ := List.cons.inj h
  exact hx rfl

theorem Ascribes.endsOpen {x : Lexeme} {w : List Lexeme} {a : Option TypeExpr} {r : List Lexeme}
    (hx : x.token ≠ .symbol .semicolon) (h : Ascribes w a r) : EndsOpen (x :: w) := by
  cases h with
  | none => exact .singleton hx
  | some hu => exact .cons _ (.cons _ hu.endsOpen)

/-- Only a semicolon can be the end of tokens that end with one. -/
theorem Ended.eq_semicolon {u t w r : List Lexeme} {q : Span} (ht : Ended t r) (hu : EndsOpen u)
    (h : u ++ t = w ++ [⟨.symbol .semicolon, q⟩]) : ∃ q, t = [⟨.symbol .semicolon, q⟩] := by
  cases ht with
  | none =>
    rw [List.append_nil] at h
    exact absurd h hu.ne_concat
  | @semicolon q => exact ⟨q, rfl⟩

namespace Derives

variable {p : Phrase} {u : List Lexeme} {v : Piece} {r : List Lexeme}

/-- A statement that ends with a semicolon is one whatever follows it. -/
theorem closed_statement {w : List Lexeme} {q : Span} (h : Derives .statement u v r)
    (hu : u = w ++ [⟨.symbol .semicolon, q⟩]) (r' : List Lexeme) : Derives .statement u v r' := by
  have hf : ∀ q, Follows (⟨.symbol .semicolon, q⟩ :: r) (⟨.symbol .semicolon, q⟩ :: r') :=
    fun q => .cons (by simp) r r'
  cases h with
  | declaration hk hw ha ht =>
    obtain ⟨q, rfl⟩ := ht.eq_semicolon (.cons _ (hw.endsOpen (by simp))) hu
    exact .declaration hk (hw.looks (hf q).toLooks) rfl .semicolon
  | @definition _ _ _ _ _ _ _ u _ _ _ hk hw he ht =>
    obtain ⟨q, rfl⟩ := ht.eq_semicolon (.append _ (.cons _ he.endsOpen)) hu
    refine .definition hk (hw.looks ?_) (he.follows (hf q)) .semicolon
    simpa using ((hf q).append (_ :: u)).toLooks
  | finish he ht =>
    obtain ⟨q, rfl⟩ := ht.eq_semicolon (u := [_]) (.singleton (by simp)) hu
    exact .finish (by simp) .semicolon
  | result he ht =>
    obtain ⟨q, rfl⟩ := ht.eq_semicolon (.cons _ he.endsOpen) hu
    exact .result (he.follows (hf q)) .semicolon
  | evaluation he ht =>
    obtain ⟨q, rfl⟩ := ht.eq_semicolon he.endsOpen hu
    exact .evaluation (he.follows (hf q)) .semicolon

/-- Statements of which the last ends with a semicolon are a block whatever follows them. -/
theorem closed_block (h : Derives .block u v r)
    (hu : u = [] ∨ ∃ w q, u = w ++ [⟨.symbol .semicolon, q⟩]) (r' : List Lexeme) :
    Derives .block u v r' := by
  generalize hp : Phrase.block = p at h
  induction h with
  | noStatement => exact .noStatement
  | @statement u s w ss r hs _ _ ih =>
    rcases hu with hu | ⟨v, q, hv⟩
    · obtain ⟨x, u', rfl, -⟩ := hs.begins rfl
      simp at hu
    · obtain rfl | ⟨w, x, rfl⟩ := List.eq_nil_or_concat w
      · exact .statement (closed_statement hs (by simpa using hv) _) (ih (.inl rfl) rfl)
      · rw [List.concat_eq_append] at *
        rw [← List.append_assoc] at hv
        obtain ⟨-, hx⟩ := List.append_inj' hv rfl
        obtain ⟨rfl, -⟩ := List.cons.inj hx
        -- The semicolon is behind a later statement, and what follows it is not seen from here.
        have hf := (Follows.cons (x := ⟨.symbol .semicolon, q⟩) (by simp) r r').append w
        exact .statement (hs.follows (by simpa using hf)) (ih (.inr ⟨w, q, rfl⟩) rfl)
  | _ => cases hp

/-- Two blocks, one behind the other, are a block. -/
theorem append_block {ss : List (Statement Unit)} {w : List Lexeme} {ss' : List (Statement Unit)}
    (h : Derives .block u (.statements ss) (w ++ r)) (hw : Derives .block w (.statements ss') r) :
    Derives .block (u ++ w) (.statements (ss ++ ss')) r := by
  generalize hp : Phrase.block = p at h
  generalize hv : Piece.statements ss = v at h
  generalize hq : w ++ r = q at h
  induction h generalizing ss with
  | noStatement =>
    obtain rfl := Piece.statements.inj hv
    exact hw
  | @statement u s x ss₁ _ hs _ _ ih =>
    obtain rfl := Piece.statements.inj hv
    rw [List.append_assoc]
    refine .statement ?_ (ih rfl rfl hq)
    rwa [List.append_assoc, hq]
  | _ => cases hp

end Derives

end Aggregation.Grammar
