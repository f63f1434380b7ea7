import Aggregation.Command.Job
import Aggregation.Proofs.Layout
import Aggregation.Proofs.Sequence

/-! Layout never shows in a result.

Two texts with the same tokens may differ in blanks, comments and line breaks, and so in every place
that a tree or an error names. With its places dropped, what is read from a text and what a text is
compiled to are computed from its tokens alone: each of the lemmas named `unplaced` below gives that
computation. They are shown for refused texts too, whose errors say the same apart from places. -/
namespace Aggregation

/-- The value of a result turned by one function and its error by another. -/
def mapBoth {ε ε' α β : Type} (onError : ε → ε') (onValue : α → β) : Except ε α → Except ε' β
  | .ok a => .ok (onValue a)
  | .error e => .error (onError e)

/-! ### Dropping places -/

/-- Every place moved to the start. -/
def nowhere : Nat → Nat := fun _ => 0

/-- The expression without its places. Its labels stay. -/
def Expr.unplaced (e : Expr Nat) : Expr Nat := e.relocate id nowhere

def unplacedStatements (ss : List (Statement Nat)) : List (Statement Nat) :=
  relocateStatements id nowhere ss

/-- The error without its place: what was wanted and what was found. -/
def ParseError.unplaced : ParseError → ParseError
  | .lexical e => .lexical e
  | .expected what found _ => .expected what found .first
  | .unexpected found _ => .unexpected found .first

/-- The kind of the node shown. Its text is a stretch of the layout and is dropped too. -/
def Snippet.unplaced (s : Snippet) : Snippet := ⟨s.kind, "", ⟨0, 0⟩, .first⟩

/-- The error without its place: the cause and the kind of the node. -/
def CompileError.unplaced (e : CompileError) : CompileError := ⟨e.cause, e.snippet.unplaced⟩

def CommandError.unplaced : CommandError → CommandError
  | .parse e => .parse e.unplaced
  | .context e => .context e.unplaced
  | .compile e => .compile e.unplaced
  | e => e

def Entry.unplaced (e : Entry) : Entry :=
  { e with
    span := ⟨0, 0⟩
    position := .first
    result := e.result.mapError CompileError.unplaced }

/-! ### Reading -/

/-- Both texts can be cut into tokens, and the tokens are the same. -/
def SameTokens (s s' : String) : Prop :=
  ∃ ts ts', tokenize s = .ok ts ∧ tokenize s' = .ok ts' ∧
    ts.map Lexeme.token = ts'.map Lexeme.token

theorem sameTokens_iff {s s' : String} {ts ts' : List Lexeme} (hs : tokenize s = .ok ts)
    (hs' : tokenize s' = .ok ts') :
    SameTokens s s' ↔ ts.map Lexeme.token = ts'.map Lexeme.token := by
  constructor
  · rintro ⟨us, us', hu, hu', htokens⟩
    obtain rfl := Except.ok.inj (hs.symm.trans hu)
    obtain rfl := Except.ok.inj (hs'.symm.trans hu')
    exact htokens
  · exact fun htokens => ⟨ts, ts', hs, hs', htokens⟩

instance (s s' : String) : Decidable (SameTokens s s') :=
  match hs : tokenize s, hs' : tokenize s' with
  | .ok _, .ok _ => decidable_of_iff _ (sameTokens_iff hs hs').symm
  | .error _, _ => .isFalse fun ⟨_, _, h, _⟩ => nomatch hs.symm.trans h
  | _, .error _ => .isFalse fun ⟨_, _, _, h, _⟩ => nomatch hs'.symm.trans h

/-- The tokens of a text without their places. -/
def unplacedTokens (ts : List Lexeme) : List Lexeme := ts.map (Lexeme.relocate nowhere)

theorem unplacedTokens_eq {ts ts' : List Lexeme} (h : ts.map Lexeme.token = ts'.map Lexeme.token) :
    unplacedTokens ts = unplacedTokens ts' := by
  have hfactor : Lexeme.relocate nowhere = (⟨·, ⟨0, 0⟩⟩) ∘ Lexeme.token := rfl
  rw [unplacedTokens, unplacedTokens, hfactor, ← List.map_map, h, List.map_map]

/-- A fault says the same in every text, apart from its place. -/
theorem ParseError.unplaced_ofFault (source : List Char) (fault : ParseFault) :
    (ParseError.ofFault source fault).unplaced = .ofFault [] (fault.relocate nowhere) := by
  match fault with
  | .expected _ none | .expected _ (some _) | .unexpected none | .unexpected (some _) => rfl

/-- What a rule reads from a text and `number` completes, without places, is what the rule reads from
the tokens without places. -/
theorem readWith_unplaced {α β : Type} {rule : List Lexeme → Except ParseFault α} {number : α → β}
    {move : α → α} {drop : β → β}
    (hrule : ∀ ts, rule (ts.map (Lexeme.relocate nowhere)) = Grammar.moved move nowhere (rule ts))
    (hnumber : ∀ a, number (move a) = drop (number a))
    {source : String} {ts : List Lexeme} (h : tokenize source = .ok ts) :
    mapBoth ParseError.unplaced drop ((readWith rule source).map number) =
      mapBoth (.ofFault []) number (rule (unplacedTokens ts)) := by
  simp only [readWith, h, unplacedTokens, hrule]
  cases rule ts with
  | ok a => exact congrArg Except.ok (hnumber a).symm
  | error fault => exact congrArg Except.error (ParseError.unplaced_ofFault source.toList fault)

section Reading

variable {s s' : String}

theorem parseExpression_unplaced {ts : List Lexeme} (h : tokenize s = .ok ts) :
    mapBoth ParseError.unplaced Expr.unplaced (parseExpression s) =
      mapBoth (.ofFault []) (fun e => (e.number.run 0).1)
        (Grammar.wholeExpression (unplacedTokens ts)) :=
  readWith_unplaced (Grammar.wholeExpression_relocate rfl)
    (fun e => congrArg Prod.fst (e.number_relocate nowhere 0 0)) h

theorem parseProgram_unplaced {ts : List Lexeme} (h : tokenize s = .ok ts) :
    mapBoth ParseError.unplaced unplacedStatements (parseProgram s) =
      mapBoth (.ofFault []) (fun ss => ((numberStatements ss).run 0).1)
        (Grammar.program (unplacedTokens ts)) :=
  readWith_unplaced (Grammar.program_relocate rfl)
    (fun ss => congrArg Prod.fst (numberStatements_relocate ss nowhere 0 0)) h

/-- A type has no places of its own. -/
theorem parseType_unplaced {ts : List Lexeme} (h : tokenize s = .ok ts) :
    mapBoth ParseError.unplaced id (parseType s) =
      mapBoth (.ofFault []) id (Grammar.wholeType (unplacedTokens ts)) := by
  have hread : mapBoth ParseError.unplaced id ((readWith Grammar.wholeType s).map id) = _ :=
    readWith_unplaced (Grammar.wholeType_relocate rfl) (fun _ => rfl) h
  rwa [Except.map_id] at hread

end Reading

/-! ### Compiling -/

/-- The error of a fault without its place, in whatever text the fault was met. -/
def CompileFault.unplaced (fault : CompileFault) : CompileError :=
  (CompileError.ofFault [] fault).unplaced

/-- What agrees up to places gives the same value, or the same error apart from its place. -/
theorem Agree.mapError_unplaced {α : Type} {x y : Except CompileFault α}
    (h : Agree (Moved id nowhere id) (· = ·) x y) :
    x.mapError CompileFault.unplaced = y.mapError CompileFault.unplaced := by
  cases h with
  | ok hv => rw [hv]
  | @fault cause e _ he =>
    obtain ⟨rfl, -⟩ := he
    show Except.error (CompileError.mk cause ⟨e.kind, _, _, _⟩) =
      Except.error (CompileError.mk cause ⟨(e.relocate id nowhere).kind, _, _, _⟩)
    rw [Expr.kind_relocate]

/-- What an expression of a text compiles to, without places, is what the expression without places
compiles to. -/
theorem compileTyped_unplaced {s : String} {e : Expr Nat} (h : parseExpression s = .ok e)
    (kind : BuilderKind) (placeholder : String) (context : Option TypeExpr) :
    (compileTyped kind placeholder context e).mapError CompileFault.unplaced =
      (compileTyped kind placeholder context e.unplaced).mapError CompileFault.unplaced := by
  have hfixed : e.relocate id id = e := parseExpression_fixed h fun _ _ => rfl
  have hmoved : Moved id nowhere id e e.unplaced := ⟨rfl, hfixed⟩
  have hlabels : e.unplaced.labels.Nodup := by
    obtain ⟨t, -, rfl⟩ := exists_of_map_eq_ok h
    have hnumber : ((t.relocate id nowhere).number.run 0).1 = Expr.unplaced (t.number.run 0).1 :=
      congrArg Prod.fst (t.number_relocate nowhere 0 0)
    rw [← hnumber, Expr.labels, ((t.relocate id nowhere).labels_number 0).1]
    exact List.nodup_range'
  have hagree := hmoved.agree_compileTyped (Parsed.expression h).labels_nodup hlabels kind
    placeholder context
  exact hagree.mapError_unplaced

namespace Fragment

/-- What is known of the placeholder, without places. -/
theorem context_unplaced (f : Fragment) :
    f.context.mapError CommandError.unplaced =
      match f.context? with
      | none => .ok none
      | some text => mapBoth .context some (mapBoth ParseError.unplaced id (parseType text)) := by
  unfold context
  cases f.context? with
  | none => rfl
  | some text =>
    show Except.mapError _ (((parseType text).map some).mapError _) =
      mapBoth CommandError.context some (mapBoth ParseError.unplaced id (parseType text))
    cases parseType text <;> rfl

/-- The document of a fragment is computed from the expression without places. -/
theorem document_unplaced (f : Fragment) :
    f.document.mapError CommandError.unplaced = (do
      let e ← (mapBoth ParseError.unplaced Expr.unplaced (parseExpression f.source)).mapError .parse
      let context ← f.context.mapError CommandError.unplaced
      let compiled ← ((compileTyped f.kind f.placeholder context e).mapError
        CompileFault.unplaced).mapError .compile
      return compiled.document) := by
  unfold document
  cases hread : parseExpression f.source with
  | error error => rfl
  | ok e =>
    cases f.context with
    | error error => rfl
    | ok context =>
      show _ = ((compileTyped _ _ context e.unplaced).mapError _).mapError _ >>= fun _ => _
      rw [← compileTyped_unplaced hread]
      show Except.mapError _ ((compileTyped _ _ context e).mapError _ >>= fun _ => _) = _
      cases compileTyped f.kind f.placeholder context e <;> rfl

end Fragment

/-- The entry of a builder call, without places, is that of the call without places. -/
theorem Entry.unplaced_of {config : Config} {b : BuilderCall} (source : List Char)
    (hfix : b.relocate id id = b) (hn : (labelsOf (nodesAll b.args)).Nodup)
    (hn' : (labelsOf (nodesAll (b.relocate id nowhere).args)).Nodup) :
    (Entry.of config source b).unplaced = (Entry.of config [] (b.relocate id nowhere)).unplaced := by
  have hresult : ((b.compile config).mapError (.ofFault source)).mapError CompileError.unplaced =
      (((b.relocate id nowhere).compile config).mapError (.ofFault [])).mapError
        CompileError.unplaced := by
    have hagree := (BuilderCall.agree_compile config hfix hn hn').mapError_unplaced
    generalize b.compile config = x at hagree
    generalize (b.relocate id nowhere).compile config = y at hagree
    cases x <;> cases y <;> exact hagree
  rw [Entry.of, Entry.of, unplaced, unplaced, hresult]
  rfl

/-- The entries of a program, without places, are those of the program without places. -/
theorem compileProgram_unplaced {s : String} {ss : List (Statement Nat)}
    (h : parseProgram s = .ok ss) (config : Config) (source : List Char) :
    (compileProgram config source ss).map Entry.unplaced =
      (compileProgram config [] (unplacedStatements ss)).map Entry.unplaced := by
  have hfixed : relocateStatements id id ss = ss := parseProgram_fixed h fun _ _ => rfl
  have hlocate := BuilderCall.withinStatements_relocate config id nowhere ss
  have hcalls := BuilderCall.withinStatements_relocate config id id ss
  rw [hfixed] at hcalls
  have hbfix := List.map_inj_left.1 ((List.map_id _).trans hcalls).symm
  have hlabels : (labelsOf (nodesStatements (unplacedStatements ss))).Nodup := by
    obtain ⟨ps, -, rfl⟩ := exists_of_map_eq_ok h
    have hnumber : ((numberStatements (relocateStatements id nowhere ps)).run 0).1 =
        unplacedStatements ((numberStatements ps).run 0).1 :=
      congrArg Prod.fst (numberStatements_relocate ps nowhere 0 0)
    rw [← hnumber]
    exact labels_numberStatements_nodup _ 0
  rw [compileProgram, compileProgram, unplacedStatements, locate, locate, hlocate, List.map_map,
    List.map_map, List.map_map]
  refine List.map_congr_left fun b hb => Entry.unplaced_of source (hbfix b hb) ?_ ?_
  · exact (labels_parseProgram_nodup h).sublist ((BuilderCall.nodesAll_args_sublist hb).map _)
  · have hb' : b.relocate id nowhere ∈ locate config (unplacedStatements ss) := by
      rw [locate, unplacedStatements, hlocate]
      exact List.mem_map_of_mem hb
    exact hlabels.sublist ((BuilderCall.nodesAll_args_sublist hb').map _)

theorem compileSource_unplaced (config : Config) (s : String) :
    mapBoth ParseError.unplaced (List.map Entry.unplaced) (compileSource config s) =
      (mapBoth ParseError.unplaced unplacedStatements (parseProgram s)).map fun ss =>
        (compileProgram config [] ss).map Entry.unplaced := by
  rw [compileSource]
  cases hread : parseProgram s with
  | error error => rfl
  | ok ss => exact congrArg Except.ok (compileProgram_unplaced hread config s.toList)

/-! ### Two layouts of one text -/

/-- No type, one text of a type, or two texts with the same tokens. -/
inductive SameContext : Option String → Option String → Prop
  | same (context? : Option String) : SameContext context? context?
  | tokens {t t' : String} : SameTokens t t' → SameContext (some t) (some t')

section Layouts

variable {s s' : String}

theorem SameTokens.parseExpression_eq (h : SameTokens s s') :
    mapBoth ParseError.unplaced Expr.unplaced (parseExpression s) =
      mapBoth ParseError.unplaced Expr.unplaced (parseExpression s') := by
  obtain ⟨ts, ts', hs, hs', htokens⟩ := h
  rw [parseExpression_unplaced hs, parseExpression_unplaced hs', unplacedTokens_eq htokens]

theorem SameTokens.parseProgram_eq (h : SameTokens s s') :
    mapBoth ParseError.unplaced unplacedStatements (parseProgram s) =
      mapBoth ParseError.unplaced unplacedStatements (parseProgram s') := by
  obtain ⟨ts, ts', hs, hs', htokens⟩ := h
  rw [parseProgram_unplaced hs, parseProgram_unplaced hs', unplacedTokens_eq htokens]

theorem SameTokens.parseType_eq (h : SameTokens s s') :
    mapBoth ParseError.unplaced id (parseType s) =
      mapBoth ParseError.unplaced id (parseType s') := by
  obtain ⟨ts, ts', hs, hs', htokens⟩ := h
  rw [parseType_unplaced hs, parseType_unplaced hs', unplacedTokens_eq htokens]

theorem SameContext.context_eq {c c' : Option String} (h : SameContext c c') (kind : BuilderKind)
    (placeholder : String) :
    (Fragment.mk kind s c placeholder).context.mapError CommandError.unplaced =
      (Fragment.mk kind s' c' placeholder).context.mapError CommandError.unplaced := by
  rw [Fragment.context_unplaced, Fragment.context_unplaced]
  cases h with
  | same => rfl
  | tokens ht => exact congrArg (mapBoth CommandError.context some) ht.parseType_eq

/-- Two texts with the same tokens are read as the same tree with the same labels, or refused in the
same words; and they compile to the same documents, entry by entry, or fail for the same cause.
Only places differ. -/
theorem results_eq_of_sameTokens (h : SameTokens s s') :
    mapBoth ParseError.unplaced Expr.unplaced (parseExpression s) =
        mapBoth ParseError.unplaced Expr.unplaced (parseExpression s') ∧
      mapBoth ParseError.unplaced unplacedStatements (parseProgram s) =
        mapBoth ParseError.unplaced unplacedStatements (parseProgram s') ∧
      mapBoth ParseError.unplaced id (parseType s) =
        mapBoth ParseError.unplaced id (parseType s') ∧
      (∀ kind placeholder c c', SameContext c c' →
        (Fragment.mk kind s c placeholder).document.mapError CommandError.unplaced =
          (Fragment.mk kind s' c' placeholder).document.mapError CommandError.unplaced) ∧
      ∀ config, mapBoth ParseError.unplaced (List.map Entry.unplaced) (compileSource config s) =
        mapBoth ParseError.unplaced (List.map Entry.unplaced) (compileSource config s') := by
  refine ⟨h.parseExpression_eq, h.parseProgram_eq, h.parseType_eq, ?_, ?_⟩
  · intro kind placeholder c c' hcontext
    rw [Fragment.document_unplaced, Fragment.document_unplaced, h.parseExpression_eq,
      hcontext.context_eq]
  · intro config
    rw [compileSource_unplaced, compileSource_unplaced, h.parseProgram_eq]

end Layouts

/-- A program with one entry that compiles and one that fails, and the same program written over
several lines with comments. -/
theorem results_eq_of_sameTokens_comments :
    let s := "aggregateOp((x: \x7b a: number[] \x7d) => x.a[0] - -1);aggregateOp(x=>x.b*'c')"
    let s' := "aggregateOp(\n  (x: \x7ba:number[]\x7d) => // first\n    x.a [0]--1\n);\n" ++
      "aggregateOp(x => /* second */ x . b * \"c\")"
    SameTokens s s' ∧
      mapBoth ParseError.unplaced (List.map Entry.unplaced) (compileSource .standard s) =
        mapBoth ParseError.unplaced (List.map Entry.unplaced) (compileSource .standard s') := by
  intro s s'
  have h : SameTokens s s' := by decide +kernel
  exact ⟨h, (results_eq_of_sameTokens h).2.2.2.2 .standard⟩

end Aggregation
