import Aggregation.Proofs.Sequence
import Aggregation.Proofs.Spelling

/-! Expressions that a builder function returns.

An expression and an annotation that are texts of their own stay what they are inside a call of a
builder, as the result of its function and as the type of its parameter. The tokens around them end
them where their texts did, and only their numbers and places move. So the entry of such a program
compiles as the expression does by itself (`compileSource_wrapped`). -/
namespace Aggregation

/-! ### Phrases -/

namespace Grammar

variable {u ts t r : List Lexeme} {e : Expr Unit} {a : TypeExpr}

/-- What no operator follows is an operand of every level. -/
theorem Derives.binary_of_suffixed (h : Derives .suffixed u (.expr e) r)
    (hr : ∀ l, startsOperator l r = false) (l : Level) : Derives (.binary l) u (.expr e) r := by
  refine .settled (.first ?_) (hr l)
  cases hl : l.tighter with
  | none => exact .tightest hl (.operand h)
  | some m => exact .tighter hl (h.binary_of_suffixed hr m)
termination_by l.rank
decreasing_by exact Level.rank_tighter hl

/-- What nothing goes on with is an expression. -/
theorem Derives.expression_of_suffixed (h : Derives .suffixed u (.expr e) r)
    (ha : atArrow (u ++ r) = false) (ho : ∀ l, startsOperator l r = false)
    (hq : startsWith .question r = false) : Derives .expression u (.expr e) r :=
  .plain ha (.condition (h.binary_of_suffixed ho .or) hq)

/-- An expression that is a whole text can be returned by a block. -/
theorem derives_return (hu : Derives .expression u (.expr e) t) (ht : Ended t []) (p q : Span)
    (r : List Lexeme) :
    Derives .block (⟨.keyword .returnKey, p⟩ :: u ++ t)
      (.statements [.result ⟨p.start, stopOf (u ++ t)⟩ (some e)])
      (⟨.symbol .rightBrace, q⟩ :: r) := by
  have hfollows : Follows t (t ++ ⟨.symbol .rightBrace, q⟩ :: r) := by
    cases ht with
    | none => exact .close q [] r
    | semicolon => exact .cons (by simp) [] _
  have hended : Ended t (⟨.symbol .rightBrace, q⟩ :: r) := by
    cases ht with
    | none => exact .none (by simp)
    | semicolon => exact .semicolon
  have hstatement := Derives.statement (w := []) (.result (p := p) (hu.follows hfollows) hended)
    .noStatement
  rwa [List.append_nil] at hstatement

/-- A function with one parameter that returns an expression, as the argument of a call. -/
theorem derives_function (ht : Annotates .full ts (.one a) []) (n : String)
    {b : List Lexeme} {ss : List (Statement Unit)} {p₅ : Span}
    (hb : Derives .block b (.statements ss) (⟨.symbol .rightBrace, p₅⟩ :: r))
    (p₁ p₂ q q' p₃ p₄ : Span) :
    Derives .primary
      (⟨.keyword .functionKey, p₁⟩ :: ⟨.symbol .leftParen, p₂⟩ :: ⟨.name n, q⟩ ::
        ⟨.symbol .colon, q'⟩ :: (ts ++ ⟨.symbol .rightParen, p₃⟩ :: ⟨.symbol .leftBrace, p₄⟩ ::
        (b ++ [⟨.symbol .rightBrace, p₅⟩])))
      (.expr (.function (mark p₁.start p₅.stop) .word [⟨n, q, some a⟩] ss)) r := by
  have hparam : Declares (⟨.name n, q⟩ :: ⟨.symbol .colon, q'⟩ :: ts) [⟨n, q, some a⟩]
      (⟨.symbol .rightParen, p₃⟩ :: [] ++ ⟨.symbol .leftBrace, p₄⟩ :: b ++
        ⟨.symbol .rightBrace, p₅⟩ :: r) :=
    .last (.some (ht.looks (.close (.inl rfl) p₃ [] _)))
  have hfunction : Derives .primary
      (⟨.keyword .functionKey, p₁⟩ :: [] ++ ⟨.symbol .leftParen, p₂⟩ :: (⟨.name n, q⟩ ::
        ⟨.symbol .colon, q'⟩ :: ts) ++ ⟨.symbol .rightParen, p₃⟩ :: [] ++
        ⟨.symbol .leftBrace, p₄⟩ :: b ++ [⟨.symbol .rightBrace, p₅⟩]) _ r :=
    .function .none hparam (.none (by simp)) hb
  simpa using hfunction

theorem startsOperator_nil (l : Level) : startsOperator l [] = false := rfl

theorem startsOperator_close (l : Level) (p : Span) (r : List Lexeme) :
    startsOperator l (⟨.symbol .rightParen, p⟩ :: r) = false := by
  cases l <;> rfl

/-- A call of a name with one argument, as a program. -/
theorem derives_call (n : String) (p₁ p₂ p₃ : Span)
    (hu : Derives .primary u (.expr e) [⟨.symbol .rightParen, p₃⟩])
    (ha : atArrow (u ++ [⟨.symbol .rightParen, p₃⟩]) = false) :
    Derives .block (⟨.name n, p₁⟩ :: ⟨.symbol .leftParen, p₂⟩ :: (u ++ [⟨.symbol .rightParen, p₃⟩]))
      (.statements [.expression ⟨p₁.start, p₃.stop⟩
        (.call (mark p₁.start p₃.stop) (.name (mark p₁.start p₁.stop) n) [e])]) [] := by
  have hargument : Derives .expression u (.expr e) [⟨.symbol .rightParen, p₃⟩] :=
    Derives.expression_of_suffixed (.suffixed (.start hu) rfl) ha
      (fun l => startsOperator_close l p₃ []) rfl
  have hcall : Derives .chain
      ([⟨.name n, p₁⟩] ++ ⟨.symbol .leftParen, p₂⟩ :: u ++ [⟨.symbol .rightParen, p₃⟩]) _ [] :=
    .call (.start .name) (.lastArgument hargument)
  have hexpression := Derives.expression_of_suffixed (.suffixed hcall rfl) rfl startsOperator_nil rfl
  have hstatement := Derives.statement (w := []) (.evaluation hexpression (.none rfl)) .noStatement
  simpa [startOf, Expr.span, Expr.mark, mark] using hstatement

end Grammar

/-! ### Programs -/

def isIdentifier (name : String) : Bool :=
  isWord name.toList && Token.ofWord name == .name name

/-- The name of the builder of a kind. -/
def Config.builderName (config : Config) : BuilderKind → String
  | .pipeline => config.pipelineBuilder
  | .operator => config.operatorBuilder

/-- The text before the expression that a builder function returns. -/
def opening (kind : BuilderKind) (placeholder type : String) : String :=
  Config.standard.builderName kind ++ "(function (" ++ placeholder ++ ": " ++ type ++
    "\n) \x7b return "

/-- The program that hands a function to a builder, which returns an expression. -/
def wrapped (kind : BuilderKind) (placeholder type source : String) : String :=
  opening kind placeholder type ++ source ++ "\n\x7d)"

/-- Where a place of the expression is in the program. -/
def byteInside (kind : BuilderKind) (placeholder type : String) (n : Nat) : Nat :=
  n + byteLength (opening kind placeholder type).toList

/-- Where a position of the expression is in the program. -/
def positionInside (kind : BuilderKind) (placeholder type : String) : Position → Position :=
  (Position.endOf (opening kind placeholder type).toList).after

example : wrapped .operator "x" "T" "x.a" =
    "aggregateOp(function (x: T\n) \x7b return x.a\n\x7d)" := by decide

theorem toList_wrapped (kind : BuilderKind) (p t s : String) :
    (wrapped kind p t s).toList = (Config.standard.builderName kind).toList ++ '(' ::
      ("function".toList ++ ' ' :: '(' :: (p.toList ++ ':' :: ' ' :: (t.toList ++ '\n' :: ')' ::
      ' ' :: '\x7b' :: ' ' :: ("return".toList ++ ' ' :: (s.toList ++ '\n' :: ['\x7d', ')']))))) := by
  simp [wrapped, opening]

theorem Lexes.moved {cs : List Char} {ts : List Lexeme} (h : Lexes 0 cs ts) (k : Nat) :
    Lexes k cs (ts.map (Lexeme.relocate (· + k))) := by
  simpa using h.shift k

theorem byteLength_opening (kind : BuilderKind) (p t : String) :
    byteLength (opening kind p t).toList =
      byteLength (Config.standard.builderName kind).toList + byteLength p.toList +
        byteLength t.toList + 25 := by
  have hlength : byteLength "(function (".toList = 11 ∧ byteLength ": ".toList = 2 ∧
      byteLength "\n) \x7b return ".toList = 12 := by decide
  obtain ⟨h₁, h₂, h₃⟩ := hlength
  simp only [opening, String.toList_append, byteLength_append, h₁, h₂, h₃]
  omega

theorem byteLength_wrapped (kind : BuilderKind) (p t s : String) :
    byteLength (wrapped kind p t s).toList =
      byteLength (opening kind p t).toList + byteLength s.toList + 3 := by
  have hlength : byteLength "\n\x7d)".toList = 3 := by decide
  simp only [wrapped, String.toList_append, byteLength_append, hlength]

/-- The tokens of the program are those of the annotation and of the expression, moved, and those
around them. -/
theorem lexes_wrapped (kind : BuilderKind) {p t s : String} {ts us : List Lexeme}
    (hp : isIdentifier p = true) (ht : Lexes 0 t.toList ts) (hs : Lexes 0 s.toList us) :
    ∃ p₁ p₂ p₃ p₄ p₅ p₆ p₇ p₈ p₉ p₁₀ p₁₁ j k, p₁.start = 0 ∧
      p₁₁.stop = byteLength (wrapped kind p t s).toList ∧
      k = byteLength (opening kind p t).toList ∧
      Lexes 0 (wrapped kind p t s).toList
        (⟨.name (Config.standard.builderName kind), p₁⟩ :: ⟨.symbol .leftParen, p₂⟩ ::
          ⟨.keyword .functionKey, p₃⟩ :: ⟨.symbol .leftParen, p₄⟩ :: ⟨.name p, p₅⟩ ::
          ⟨.symbol .colon, p₆⟩ :: (ts.map (Lexeme.relocate (· + j)) ++
          ⟨.symbol .rightParen, p₇⟩ :: ⟨.symbol .leftBrace, p₈⟩ :: ⟨.keyword .returnKey, p₉⟩ ::
          (us.map (Lexeme.relocate (· + k)) ++
          [⟨.symbol .rightBrace, p₁₀⟩, ⟨.symbol .rightParen, p₁₁⟩]))) := by
  obtain ⟨hword, hname⟩ := Bool.and_eq_true_iff.1 hp
  have hname' : Token.ofWord (String.ofList p.toList) = .name p := by
    rw [String.ofList_toList]
    exact eq_of_beq hname
  have hbuilder : isWord (Config.standard.builderName kind).toList = true ∧
      Token.ofWord (String.ofList (Config.standard.builderName kind).toList) =
        .name (Config.standard.builderName kind) := by
    cases kind <;> decide
  have hfunction : byteLength "function".toList = 8 := by decide
  have hreturn : byteLength "return".toList = 6 := by decide
  rw [byteLength_wrapped, byteLength_opening, toList_wrapped]
  -- One step for each token and each blank; the places of the tokens are what the steps count.
  refine ⟨_, _, _, _, _, _, _, _, _, _, _, _, _, rfl, ?_, ?_,
    .word hbuilder.1 hbuilder.2 (by decide) <| .symbol .leftParen (by decide) <|
    .word (by decide) (by decide) (by decide) <| .blank <| .symbol .leftParen (by decide) <|
    .word hword hname' (by decide) <| .symbol .colon (by decide) <| .blank <|
    (ht.moved _).append <| .symbol .rightParen (by decide) <| .blank <|
    .symbol .leftBrace (by decide) <| .blank <| .word (by decide) (by decide) (by decide) <|
    .blank <| (hs.moved _).append <| .symbol .rightBrace (by decide) <|
    .symbol .rightParen (by decide) <| .done rfl⟩
  · simp only [hfunction, hreturn]
    omega
  · simp only [hfunction, hreturn]
    omega

/-- The program is a call of the builder with a function that returns the expression, moved. -/
theorem program_wrapped (kind : BuilderKind) {p t s : String} {a : TypeExpr} {e : Expr Unit}
    (hp : isIdentifier p = true) (ht : readWith Grammar.wholeType t = .ok a)
    (hs : readWith Grammar.wholeExpression s = .ok e) :
    ∃ q q₁ q₂ q₃ q₄,
      readWith Grammar.program (wrapped kind p t s) = .ok [.expression q
        (.call ⟨(), ⟨0, byteLength (wrapped kind p t s).toList⟩⟩
          (.name q₁ (Config.standard.builderName kind))
          [.function q₂ .word [⟨p, q₃, some a⟩] [.result q₄
            (some (e.relocate id (byteInside kind p t)))]])] := by
  obtain ⟨ts, hts, ha⟩ := readWith_eq_ok_iff.1 ht
  obtain ⟨us, hus, he⟩ := readWith_eq_ok_iff.1 hs
  obtain ⟨p₁, p₂, p₃, p₄, p₅, p₆, p₇, p₈, p₉, p₁₀, p₁₁, j, k, hstart, hstop, hk, hlexes⟩ :=
    lexes_wrapped kind hp hts hus
  obtain ⟨u, r, rfl, hr, he⟩ := Grammar.wholeExpression_eq_ok_iff.1 he
  have htype := (Grammar.wholeType_eq_ok_iff.1 ha).relocate (g := (· + j))
  have hbody := Grammar.derives_return (he.relocate (g := (· + k))) hr.relocate p₉ p₁₀
    [⟨.symbol .rightParen, p₁₁⟩]
  have hcall := Grammar.derives_call (Config.standard.builderName kind) p₁ p₂ p₁₁
    (Grammar.derives_function htype p hbody p₃ p₄ p₅ p₆ p₇ p₈) rfl
  rw [hstart, hstop, hk] at hcall
  rw [hk, List.map_append] at hlexes
  simp only [List.cons_append, List.append_assoc, List.nil_append] at hcall hlexes
  exact ⟨_, _, _, _, _, readWith_eq_ok_iff.2 ⟨_, hlexes, Grammar.program_eq_ok_iff.2 hcall⟩⟩

theorem run_numberStatements_call (q : Span) (m m₁ m₂ : Mark Unit) (n : String) (ps : List Param)
    (q' : Span) (e : Expr Unit) :
    ∃ l l', ((numberStatements [.expression q (.call m (.name m₁ n)
        [.function m₂ .word ps [.result q' (some e)]])]).run 0).1 =
      [.expression q (.call ⟨l, m.span⟩ (.name ⟨0, m₁.span⟩ n)
        [.function ⟨l', m₂.span⟩ .word ps [.result q' (some (e.number.run 1).1)]])] :=
  ⟨_, _, rfl⟩

/-- The program is numbered from the builder on, so the numbers of the expression move by one. -/
theorem parseProgram_wrapped (kind : BuilderKind) {p t s : String} {a : TypeExpr} {e : Expr Nat}
    (hp : isIdentifier p = true) (ht : parseType t = .ok a) (hs : parseExpression s = .ok e) :
    ∃ q m₀ m₁ m₂ q₁ q₂,
      m₀.span = ⟨0, byteLength (wrapped kind p t s).toList⟩ ∧
      parseProgram (wrapped kind p t s) = .ok [.expression q
        (.call m₀ (.name m₁ (Config.standard.builderName kind))
          [.function m₂ .word [⟨p, q₁, some a⟩] [.result q₂
            (some (e.relocate (· + 1) (byteInside kind p t)))]])] := by
  obtain ⟨e, he, rfl⟩ := exists_of_map_eq_ok hs
  obtain ⟨q, m₁, m₂, q₁, q₂, hread⟩ := program_wrapped kind hp ht he
  obtain ⟨l, l', hrun⟩ := run_numberStatements_call q
    ⟨(), ⟨0, byteLength (wrapped kind p t s).toList⟩⟩ m₁ m₂ (Config.standard.builderName kind)
    [⟨p, q₁, some a⟩] q₂ (e.relocate id (byteInside kind p t))
  have hnumber : ((e.relocate id (byteInside kind p t)).number.run 1).1 = _ :=
    congrArg Prod.fst (e.number_relocate (byteInside kind p t) 1 0)
  rw [hnumber] at hrun
  refine ⟨q, ⟨l, _⟩, ⟨0, m₁.span⟩, ⟨l', m₂.span⟩, q₁, q₂, rfl, ?_⟩
  rw [parseProgram, hread]
  exact congrArg Except.ok hrun

/-! ### Entries -/

theorem locate_wrapped (kind : BuilderKind) (q : Span) (m₀ m₁ : Mark Nat) (args : List (Expr Nat)) :
    locate .standard
      [.expression q (.call m₀ (.name m₁ (Config.standard.builderName kind)) args)] =
      [⟨kind, Config.standard.builderName kind,
        .call m₀ (.name m₁ (Config.standard.builderName kind)) args, args⟩] := by
  cases kind <;> rfl

theorem document_eq {kind : BuilderKind} {p t s : String} {a : TypeExpr} {e : Expr Nat}
    (ht : parseType t = .ok a) (hs : parseExpression s = .ok e) :
    Fragment.document ⟨kind, s, some t, p⟩ =
      (((compileTyped kind p (some a) e).mapError (.ofFault s.toList)).map
        Compiled.document).mapError .compile := by
  simp only [Fragment.document, Fragment.context, hs, ht]
  show (do
    let compiled ← (compileTyped kind p (some a) e).mapError _
    return compiled.document) = _
  cases compileTyped kind p (some a) e <;> rfl

/-- The expression compiles in the program as it does by itself. -/
theorem compileTyped_wrapped (kind : BuilderKind) {p t s : String} {a : TypeExpr} {e : Expr Nat}
    (hs : parseExpression s = .ok e)
    (hn : (e.relocate (· + 1) (byteInside kind p t)).labels.Nodup) :
    (compileTyped kind p (some a) (e.relocate (· + 1) (byteInside kind p t))).mapError
        (.ofFault (wrapped kind p t s).toList) =
      ((compileTyped kind p (some a) e).mapError (.ofFault s.toList)).mapError
        (CompileError.relocate (byteInside kind p t) (positionInside kind p t)) := by
  have hmoved : Moved (· + 1) (byteInside kind p t) (min (byteLength s.toList)) e _ :=
    ⟨rfl, parseExpression_fixed hs fun n hn => Nat.min_eq_right hn⟩
  have hagree := hmoved.agree_compileTyped (Parsed.expression hs).labels_nodup hn kind p (some a)
  have htext : (wrapped kind p t s).toList =
      (opening kind p t).toList ++ (s.toList ++ "\n\x7d)".toList) := by
    simp only [wrapped, String.toList_append, List.append_assoc]
  rw [htext]
  exact (Excerpt.between (opening kind p t).toList s.toList _).mapError_relocate hagree

/-- The program has one entry, which compiles as the expression does by itself. -/
theorem compileSource_wrapped (kind : BuilderKind) {p t s : String} {a : TypeExpr} {e : Expr Nat}
    (hp : isIdentifier p = true) (ht : parseType t = .ok a) (hs : parseExpression s = .ok e) :
    compileSource .standard (wrapped kind p t s) = .ok [{
      kind := kind
      name := Config.standard.builderName kind
      span := ⟨0, byteLength (wrapped kind p t s).toList⟩
      position := .first
      result := ((compileTyped kind p (some a) e).mapError (.ofFault s.toList)).mapError
        (CompileError.relocate (byteInside kind p t) (positionInside kind p t)) }] := by
  obtain ⟨q, m₀, m₁, m₂, q₁, q₂, hspan, hprogram⟩ := parseProgram_wrapped kind hp ht hs
  have hnodup := (Parsed.program hprogram (e := e.relocate (· + 1) (byteInside kind p t))
    (by simp [nodesStatements, Expr.nodes, nodesAll, Expr.mem_nodes_self])).labels_nodup
  have hfirst : Position.of (wrapped kind p t s).toList 0 = .first := by
    cases (wrapped kind p t s).toList <;> rfl
  rw [compileSource, hprogram]
  show Except.ok (compileProgram _ _ _) = _
  rw [compileProgram, locate_wrapped, List.map_singleton, Entry.of]
  simp only [Expr.span, Expr.mark, hspan, hfirst]
  rw [← compileTyped_wrapped kind hs hnodup]
  rfl

/-- A fragment agrees with the program that hands it to a builder. Where the placeholder is a name and
both texts are accepted, the program has one entry. The entry has the document of the fragment, or
fails with its error, where only the place is counted on from the text before the expression. -/
theorem document_eq_entry_wrapped (kind : BuilderKind) (placeholder type source : String)
    (hp : isIdentifier placeholder = true) (ht : (parseType type).isOk = true)
    (hs : (parseExpression source).isOk = true) :
    ∃ result : Except CompileError Compiled,
      Fragment.document ⟨kind, source, some type, placeholder⟩ =
        (result.map Compiled.document).mapError .compile ∧
      compileSource .standard (wrapped kind placeholder type source) = .ok [{
        kind := kind
        name := Config.standard.builderName kind
        span := ⟨0, byteLength (wrapped kind placeholder type source).toList⟩
        position := .first
        result := result.mapError (CompileError.relocate (byteInside kind placeholder type)
          (positionInside kind placeholder type)) }] := by
  obtain ⟨a, ha⟩ := exists_of_isOk ht
  obtain ⟨e, he⟩ := exists_of_isOk hs
  exact ⟨_, document_eq ha he, compileSource_wrapped kind hp ha he⟩

/-- A fragment with comments, a semicolon at its end and a builder call of its own. -/
theorem document_eq_entry_wrapped_call :
    let type := "\x7b n: number // the count\n \x7d"
    let source := "x.n > 0 /* not */ && aggregateOp((x) => -1).a; // empty"
    isIdentifier "x" = true ∧ (parseType type).isOk = true ∧ (parseExpression source).isOk = true ∧
      ∃ result : Except CompileError Compiled,
        Fragment.document ⟨.operator, source, some type, "x"⟩ =
          (result.map Compiled.document).mapError .compile ∧
        ∃ entry, compileSource .standard (wrapped .operator "x" type source) = .ok [entry] ∧
          entry.result = result.mapError (CompileError.relocate (byteInside .operator "x" type)
            (positionInside .operator "x" type)) := by
  intro type source
  have hp : isIdentifier "x" = true := by decide +kernel
  have ht : (parseType type).isOk = true := by decide +kernel
  have hs : (parseExpression source).isOk = true := by decide +kernel
  obtain ⟨result, hdocument, hentry⟩ :=
    document_eq_entry_wrapped .operator "x" type source hp ht hs
  exact ⟨hp, ht, hs, result, hdocument, _, hentry, rfl⟩

end Aggregation
