import Aggregation.Command.Job
import Aggregation.Proofs.Excerpt
import Aggregation.Proofs.Lexing

/-! Programs that stand one below the other.

A program that has ended with a semicolon is read to its end whatever follows it, so a program, a
line feed and another program are the statements of both. The numbers of the second go on from those
of the first, and its places are moved. Neither matters to what its builder calls compile to, so the
entries of the whole are those of the first, and then those of the second, moved
(`compileSource_below`). -/
namespace Aggregation

/-! ### Statements -/

/-- Statements behind others are numbered on from them. -/
theorem numberStatements_append (ss ss' : List (Statement Unit)) :
    numberStatements (ss ++ ss') = do
      let ss ← numberStatements ss
      let ss' ← numberStatements ss'
      return ss ++ ss' := by
  induction ss with
  | nil => simp [numberStatements]
  | cons s ss ih =>
    match s with
    | .declaration _ _ none | .declaration _ _ (some _) | .result _ none | .result _ (some _)
    | .expression _ _ => simp [numberStatements, ih]

theorem run_numberStatements_append (ss ss' : List (Statement Unit)) (n : Nat) :
    ((numberStatements (ss ++ ss')).run n).1 = ((numberStatements ss).run n).1 ++
      ((numberStatements ss').run ((numberStatements ss).run n).2).1 := by
  rw [numberStatements_append]
  rfl

/-- The builder calls of statements come in the order of the statements. -/
theorem locate_append (config : Config) (ss ss' : List (Statement Nat)) :
    locate config (ss ++ ss') = locate config ss ++ locate config ss' := by
  induction ss with
  | nil => rfl
  | cons s ss ih =>
    unfold locate at ih ⊢
    match s with
    | .declaration _ _ none | .result _ none => exact ih
    | .declaration _ _ (some _) | .result _ (some _) | .expression _ _ =>
      simp only [List.cons_append, BuilderCall.withinStatements, ih, List.append_assoc]

/-- Whether a text has no token, or ends with a semicolon. -/
def isTerminated (source : String) : Bool :=
  match tokenize source with
  | .ok ts => ts.getLast?.all (·.token == .symbol .semicolon)
  | .error _ => false

/-- Tokens of a program that has ended, and tokens of another, are the statements of both. -/
theorem Grammar.program_append {ts us : List Lexeme} {ss ss' : List (Statement Unit)}
    (h : program ts = .ok ss) (hend : ts.getLast?.all (·.token == .symbol .semicolon) = true)
    (h' : program us = .ok ss') : program (ts ++ us) = .ok (ss ++ ss') := by
  have hclosed : ts = [] ∨ ∃ w p, ts = w ++ [⟨.symbol .semicolon, p⟩] := by
    rcases List.eq_nil_or_concat ts with rfl | ⟨w, ⟨t, p⟩, rfl⟩
    · exact .inl rfl
    · rw [List.concat_eq_append] at hend ⊢
      obtain rfl : t = .symbol .semicolon := by simpa using hend
      exact .inr ⟨w, p, rfl⟩
  rw [program_eq_ok_iff] at h h' ⊢
  exact (h.closed_block hclosed (us ++ [])).append_block h'

/-! ### Entries -/

/-- The place in a text below another. -/
def byteBelow (above : String) (n : Nat) : Nat :=
  n + (byteLength above.toList + 1)

/-- The position in a text below another. -/
def positionBelow (above : String) : Position → Position :=
  Position.down (above.toList.count '\n' + 1)

theorem toList_below (s t : String) : (s ++ "\n" ++ t).toList = s.toList ++ '\n' :: t.toList := by
  simp

/-- A program below another is read behind it, with its numbers and places moved. -/
theorem parseProgram_below {s t : String} {ss ss' : List (Statement Nat)}
    (hs : parseProgram s = .ok ss) (ht : parseProgram t = .ok ss') (hend : isTerminated s = true) :
    ∃ k, parseProgram (s ++ "\n" ++ t) =
        .ok (ss ++ relocateStatements (· + k) (byteBelow s) ss') ∧
      (labelsOf (nodesStatements (relocateStatements (· + k) (byteBelow s) ss'))).Nodup := by
  obtain ⟨ps, hps, rfl⟩ := exists_of_map_eq_ok hs
  obtain ⟨ps', hps', rfl⟩ := exists_of_map_eq_ok ht
  obtain ⟨ts, hts, hps⟩ := readWith_eq_ok_iff.1 hps
  obtain ⟨us, hus, hps'⟩ := readWith_eq_ok_iff.1 hps'
  rw [isTerminated, tokenize_eq_ok_iff.2 hts] at hend
  have hlexes : Lexes 0 (s ++ "\n" ++ t).toList (ts ++ us.map (Lexeme.relocate (byteBelow s))) := by
    rw [toList_below]
    refine hts.append ?_
    have hshift := hus.shift (byteLength s.toList + 1)
    rwa [← Nat.add_assoc] at hshift
  have hprogram := Grammar.program_append hps hend (Grammar.program_map (byteBelow s) hps')
  -- The numbers of the second program go on from the last of the first.
  have hnumber (k : Nat) :
      ((numberStatements (relocateStatements id (byteBelow s) ps')).run k).1 =
        relocateStatements (· + k) (byteBelow s) ((numberStatements ps').run 0).1 := by
    have hrun := numberStatements_relocate ps' (byteBelow s) k 0
    rw [Nat.zero_add] at hrun
    exact congrArg Prod.fst hrun
  refine ⟨((numberStatements ps).run 0).2, ?_, ?_⟩
  · rw [parseProgram, readWith_eq_ok_iff.2 ⟨_, hlexes, hprogram⟩, ← hnumber,
      ← run_numberStatements_append]
    rfl
  · rw [← hnumber]
    exact labels_numberStatements_nodup _ _

theorem Entry.relocate_id (e : Entry) : e.relocate id id = e := by
  obtain ⟨kind, name, span, position, result⟩ := e
  cases result <;> rfl

/-- The entry of a program that stands below the text. -/
def Entry.below (above : String) : Entry → Entry :=
  Entry.relocate (byteBelow above) (positionBelow above)

theorem compileProgram_append (config : Config) (source : List Char) (ss ss' : List (Statement Nat)) :
    compileProgram config source (ss ++ ss') =
      compileProgram config source ss ++ compileProgram config source ss' := by
  rw [compileProgram, locate_append, List.map_append]
  rfl

/-- What follows a program in its text does not matter to its entries. -/
theorem compileProgram_front (config : Config) {s : String} {ss : List (Statement Nat)}
    (h : parseProgram s = .ok ss) (rest : List Char) :
    compileProgram config (s.toList ++ rest) ss = compileProgram config s.toList ss := by
  have hid : relocateStatements id id ss = ss := parseProgram_fixed h fun n _ => rfl
  have hnodup := labels_parseProgram_nodup h
  have hentries := compileProgram_relocate (f := id) (Excerpt.front s.toList rest) config
    (parseProgram_fixed h fun n hn => Nat.min_eq_right hn) hnodup (by rwa [hid])
  rw [hid] at hentries
  rw [hentries]
  exact (List.map_congr_left fun e _ => e.relocate_id).trans (List.map_id _)

/-- The entries of a program and of one below it are those of the first, and those of the second with
their places moved. -/
theorem compileSource_below (config : Config) {s t : String} {ss ss' : List (Statement Nat)}
    (hs : parseProgram s = .ok ss) (ht : parseProgram t = .ok ss') (hend : isTerminated s = true) :
    compileSource config (s ++ "\n" ++ t) = .ok (compileProgram config s.toList ss ++
      (compileProgram config t.toList ss').map (Entry.below s)) := by
  obtain ⟨k, hprogram, hnodup⟩ := parseProgram_below hs ht hend
  have hbelow := compileProgram_relocate (Excerpt.below s.toList t.toList) config
    (parseProgram_fixed ht fun n hn => Nat.min_eq_right hn) (labels_parseProgram_nodup ht) hnodup
  rw [compileSource, hprogram]
  show Except.ok (compileProgram config _ (ss ++ _)) = _
  rw [toList_below, compileProgram_append, compileProgram_front config hs]
  exact congrArg (fun es => Except.ok (_ ++ es)) hbelow

/-! ### Reports -/

/-- The names that a report on a text is made with. -/
def Report.config (placeholder? : Option String) : Config :=
  { Config.standard with placeholder := placeholder?.getD Config.standard.placeholder }

/-- The document of an entry that stands some lines below. -/
def Document.lower (k : Nat) : Document → Document
  | .object [builder, ("line", .integer n), output] =>
    .object [builder, ("line", .integer (n + k)), output]
  | d => d

namespace Report

theorem ofSource_eq_ok {placeholder? : Option String} {source : String} {es : List Entry}
    (h : compileSource (config placeholder?) source = .ok es) :
    ofSource placeholder? source = .ok (ofEntries es) := by
  rw [config] at h
  rw [ofSource, h]
  rfl

theorem output?_below (above : String) (e : Entry) :
    output? (e.below above) = (output? e).map (.lower (above.toList.count '\n' + 1)) := by
  obtain ⟨kind, name, span, position, result⟩ := e
  cases result with
  | error error => rfl
  | ok c => simp [output?, Entry.below, Entry.relocate, positionBelow, Position.down,
      Document.lower, Except.mapError]

/-- The document of a program and of one below it lists the documents of both. -/
theorem document_below (above : String) (es es' : List Entry) :
    ∃ ds ds', (ofEntries es).document = .list ds ∧ (ofEntries es').document = .list ds' ∧
      (ofEntries (es ++ es'.map (Entry.below above))).document =
        .list (ds ++ ds'.map (.lower (above.toList.count '\n' + 1))) := by
  refine ⟨_, _, rfl, rfl, ?_⟩
  simp only [ofEntries, List.filterMap_append, List.filterMap_map, List.map_filterMap]
  congr 2
  exact List.filterMap_congr fun e _ => output?_below above e

/-- Entries that failed are no part of the document. -/
theorem document_filter (es : List Entry) :
    (ofEntries (es.filter (·.result.isOk))).document = (ofEntries es).document := by
  simp only [ofEntries, List.filterMap_filter]
  congr 1
  refine List.filterMap_congr fun e _ => ?_
  unfold output?
  cases h : e.result <;> simp [Except.isOk, Except.toBool]

end Report

theorem exists_of_isOk {ε α : Type} {x : Except ε α} (h : x.isOk = true) : ∃ a, x = .ok a := by
  cases x with
  | error e => cases h
  | ok a => exact ⟨a, rfl⟩

/-- A program that has ended and a program below it compile independently. The entries are those of
both, where those of the second are moved by the bytes and the lines above them. So the report lists
the documents and the diagnostics of both, and an entry that failed is no part of its document. -/
theorem compileSource_newline (s t : String) (hs : (parseProgram s).isOk = true)
    (ht : (parseProgram t).isOk = true) (hend : isTerminated s = true) (config : Config) :
    ∃ es es' joint, compileSource config s = .ok es ∧ compileSource config t = .ok es' ∧
      compileSource config (s ++ "\n" ++ t) = .ok joint ∧
      joint = es ++ es'.map (Entry.below s) ∧
      (∃ ds ds', (Report.ofEntries es).document = .list ds ∧
        (Report.ofEntries es').document = .list ds' ∧
        (Report.ofEntries joint).document =
          .list (ds ++ ds'.map (.lower (s.toList.count '\n' + 1)))) ∧
      (Report.ofEntries joint).diagnostics =
        (Report.ofEntries es).diagnostics ++
          (Report.ofEntries (es'.map (Entry.below s))).diagnostics ∧
      (Report.ofEntries joint).total =
        (Report.ofEntries es).total + (Report.ofEntries es').total ∧
      (Report.ofEntries (joint.filter (·.result.isOk))).document =
        (Report.ofEntries joint).document ∧
      ∀ placeholder?, config = Report.config placeholder? →
        Report.ofSource placeholder? s = .ok (Report.ofEntries es) ∧
        Report.ofSource placeholder? t = .ok (Report.ofEntries es') ∧
        Report.ofSource placeholder? (s ++ "\n" ++ t) = .ok (Report.ofEntries joint) := by
  obtain ⟨ss, hss⟩ := exists_of_isOk hs
  obtain ⟨ss', hss'⟩ := exists_of_isOk ht
  have hfirst : compileSource config s = .ok (compileProgram config s.toList ss) := by
    rw [compileSource, hss]
    rfl
  have hsecond : compileSource config t = .ok (compileProgram config t.toList ss') := by
    rw [compileSource, hss']
    rfl
  have hjoint := compileSource_below config hss hss' hend
  refine ⟨_, _, _, hfirst, hsecond, hjoint, rfl, Report.document_below s _ _,
    List.filterMap_append, ?_, Report.document_filter _, ?_⟩
  · simp [Report.ofEntries]
  · rintro placeholder? rfl
    exact ⟨Report.ofSource_eq_ok hfirst, Report.ofSource_eq_ok hsecond,
      Report.ofSource_eq_ok hjoint⟩

/-- Two calls, of which one fails, above two calls, of which one fails. -/
theorem compileSource_newline_calls :
    let s := "const n = aggregateOp((x: \x7b a: number[] \x7d) => x.a.length); aggregate(1); // 1"
    let t := "aggregateOp((x: \x7b b: string \x7d) => x.b * 2)\naggregateOp(x => x.c === 'c')"
    (parseProgram s).isOk = true ∧ (parseProgram t).isOk = true ∧ isTerminated s = true ∧
      ∃ es es', compileSource .standard s = .ok es ∧ compileSource .standard t = .ok es' ∧
        compileSource .standard (s ++ "\n" ++ t) = .ok (es ++ es'.map (Entry.below s)) := by
  intro s t
  have hs : (parseProgram s).isOk = true := by decide +kernel
  have ht : (parseProgram t).isOk = true := by decide +kernel
  have hend : isTerminated s = true := by decide +kernel
  obtain ⟨es, es', _, hfirst, hsecond, hjoint, rfl, -⟩ :=
    compileSource_newline s t hs ht hend .standard
  exact ⟨hs, ht, hend, es, es', hfirst, hsecond, hjoint⟩

end Aggregation
