import Aggregation.Proofs.Typesetting
import Aggregation.Proofs.Writing

/-! Annotations written out, and read back.

`Writes` gives all the ways in which a type can be written as tokens. They differ in how an array is
written, in how a member is named and marked and in what stands behind it, at every level for itself. The
rules of the grammar read just these tokens, so every text of such tokens is read as the type that was
written, and every text that is read as a type is one (`parseType_eq_ok_iff`). The types that can be
written are those in which no built-in name stands where the grammar has a type of its own for it
(`TypeExpr.Proper`). -/
namespace Aggregation

open Grammar

/-! ### Ways of writing a type -/

/-- The built-in types without arguments, by name. -/
def builtins : List (String × TypeExpr) :=
  [("number", .number), ("boolean", .boolean), ("string", .string), ("any", .any), ("unknown", .any)]

/-- Whether the name with so many arguments is a built-in type. -/
def isBuiltin (n : String) (arity : Nat) : Bool :=
  if arity = 0 then n ∈ builtins.map Prod.fst else n = "Array" && arity = 1

/-- The pair of brackets that makes an array. -/
def pair : List Token := [.symbol .leftBracket, .symbol .rightBracket]

def generic (n : String) (u : List Token) : List Token :=
  .name n :: .symbol .lt :: u ++ [.symbol .gt]

/-- A member, from its key to its type. -/
def typed (key : Token) (mark u : List Token) : List Token :=
  key :: mark ++ .symbol .colon :: u

/-- The tokens are a way of writing a type, the arguments of a type or the members of a type. -/
inductive Writes : TypePiece → List Token → Prop
  | builtin {n t} (hn : (n, t) ∈ builtins) : Writes (.one t) [.name n]
  | null : Writes (.one (.named "null" [])) [.null]
  | name {n} (hn : isBuiltin n 0 = false) : Writes (.one (.named n [])) [.name n]
  | suffix {e u} (hu : Writes (.one e) u) : Writes (.one (.array e)) (u ++ pair)
  | array {e u} (hu : Writes (.one e) u) : Writes (.one (.array e)) (generic "Array" u)
  | applied {n as u} (hn : isBuiltin n as.length = false) (hu : Writes (.many as) u) :
      Writes (.one (.named n as)) (generic n u)
  | object {fs u} (hu : Writes (.fields fs) u) :
      Writes (.one (.object fs)) (.symbol .leftBrace :: u ++ [.symbol .rightBrace])
  | lastArg {a u} (hu : Writes (.one a) u) : Writes (.many [a]) u
  | arg {a u as w} (hu : Writes (.one a) u) (hw : Writes (.many as) w) :
      Writes (.many (a :: as)) (u ++ .symbol .comma :: w)
  | noMember : Writes (.fields []) []
  | lastMember {key n mark a u} (hkey : memberKey? key = some n)
      (hmark : mark ∈ [[], [.symbol .question]]) (hu : Writes (.one a) u) :
      Writes (.fields [(n, a)]) (typed key mark u)
  | member {key n mark a u s fs w} (hkey : memberKey? key = some n)
      (hmark : mark ∈ [[], [.symbol .question]]) (hu : Writes (.one a) u)
      (hs : s ∈ [Symbol.semicolon, .comma]) (hw : Writes (.fields fs) w) :
      Writes (.fields ((n, a) :: fs)) (typed key mark u ++ .symbol s :: w)

/-! ### What is written can be cut apart again -/

namespace Writes

variable {v : TypePiece} {u : List Token}

theorem separable_generic (n : String) (hu : Separable u) : Separable (generic n u) :=
  .join (.singleton rfl) rfl (.join hu rfl .nil)

theorem separable_typed {key : Token} {n : String} (hkey : memberKey? key = some n) {mark : List Token}
    (hmark : mark ∈ [[], [.symbol .question]]) (hu : Separable u) : Separable (typed key mark u) := by
  have hkey' : Separable [key] := by
    refine .singleton ?_
    cases key with
    | name | string => rfl
    | _ => cases hkey
  simp only [List.mem_cons, List.not_mem_nil, or_false] at hmark
  rcases hmark with rfl | rfl
  · exact .join hkey' rfl hu
  · exact .join (.join hkey' rfl .nil) rfl hu

/-- A symbol stands between any two words of a type. -/
theorem separable (h : Writes v u) : Separable u := by
  induction h with
  | builtin | null | name => exact .singleton rfl
  | suffix _ ih => exact .join ih rfl (.join .nil rfl .nil)
  | array _ ih | applied _ _ ih => exact separable_generic _ ih
  | object _ ih => exact .join .nil rfl (.join ih rfl .nil)
  | lastArg _ ih => exact ih
  | arg _ _ ih ihw => exact .join ih rfl ihw
  | noMember => exact .nil
  | lastMember hkey hmark _ ih => exact separable_typed hkey hmark ih
  | member hkey hmark _ hs _ ih ihw =>
    refine .join (separable_typed hkey hmark ih) ?_ ihw
    simp only [List.mem_cons, List.not_mem_nil, or_false] at hs
    rcases hs with rfl | rfl <;> rfl

end Writes

/-! ### What is written is read -/

theorem namedType_of_mem {n : String} {t : TypeExpr} (h : (n, t) ∈ builtins) : namedType n [] = t := by
  simp only [builtins, List.mem_cons, Prod.mk.injEq, List.not_mem_nil, or_false] at h
  rcases h with ⟨rfl, rfl⟩ | ⟨rfl, rfl⟩ | ⟨rfl, rfl⟩ | ⟨rfl, rfl⟩ | ⟨rfl, rfl⟩ <;> rfl

theorem namedType_of_not {n : String} {as : List TypeExpr} (h : isBuiltin n as.length = false) :
    namedType n as = .named n as := by
  unfold namedType
  split
  case h_6 => simp [isBuiltin] at h
  case h_7 => rfl
  all_goals exact absurd h (by decide)

/-- A name without arguments is written for what it is read as. -/
theorem writes_name (n : String) : Writes (.one (namedType n [])) [.name n] := by
  cases hn : isBuiltin n 0 with
  | false =>
    rw [@namedType_of_not n [] hn]
    exact .name hn
  | true =>
    obtain ⟨⟨n, t⟩, ht, rfl⟩ := List.mem_map.1 (of_decide_eq_true hn)
    rw [namedType_of_mem ht]
    exact .builtin ht

/-- A name with arguments is written for what it is read as. -/
theorem writes_generic (n : String) {as : List TypeExpr} {u : List Token} (hu : Writes (.many as) u) :
    Writes (.one (namedType n as)) (generic n u) := by
  cases hn : isBuiltin n as.length with
  | false =>
    rw [namedType_of_not hn]
    exact .applied hn hu
  | true =>
    -- Only an array of one argument is built in.
    cases hu with
    | lastArg hu =>
      obtain rfl : n = "Array" := by simpa [isBuiltin] using hn
      exact .array hu
    | arg _ hw =>
      obtain ⟨-, rfl⟩ : n = "Array" ∧ _ = [] := by simpa [isBuiltin] using hn
      cases hw

theorem mem_of_questioned {q : List Lexeme} (h : Questioned q) :
    q.map Lexeme.token ∈ [[], [.symbol .question]] := by
  cases h <;> simp

/-- The tokens of an annotation are a way of writing what it denotes. -/
theorem Grammar.Annotates.writes {p : TypePhrase} {u : List Lexeme} {v : TypePiece} {r : List Lexeme}
    (h : Annotates p u v r) : Writes v (u.map Lexeme.token) := by
  induction h with
  | name => exact writes_name _
  | null => exact .null
  | @applied n p₁ p₂ p₃ u as r _ ih => simpa [generic] using writes_generic n ih
  | object _ ih => simpa using Writes.object ih
  | start _ ih | full _ _ ih => exact ih
  | array _ ih => simpa [pair] using Writes.suffix ih
  | lastArg _ ih => exact .lastArg ih
  | arg _ _ ih ihw => simpa using Writes.arg ih ihw
  | noMember => exact .noMember
  | lastMember hx hq _ ih => simpa [typed] using Writes.lastMember hx (mem_of_questioned hq) ih
  | @member x n q p u a y w fs r hx hq hy _ _ ih ihw =>
    have hy' : ∃ s ∈ [Symbol.semicolon, .comma], y.token = .symbol s := by simpa using hy
    obtain ⟨s, hs, hy'⟩ := hy'
    simpa [typed, hy'] using Writes.member hx (mem_of_questioned hq) ih hs ihw

/-- The phrase that the tokens are, in front of what stands behind such a phrase. -/
def Phrases : TypePiece → List Token → Prop
  | .one a, u => ∀ r, startsWith .lt r = false → Annotates .bracketed (laid u) (.one a) r
  | .many as, u => ∀ p r, Annotates .args (laid u) (.many as) (⟨.symbol .gt, p⟩ :: r)
  | .fields fs, u => ∀ p r, Annotates .members (laid u) (.fields fs) (⟨.symbol .rightBrace, p⟩ :: r)

/-- Behind a type that is whole stands nothing that goes on with it. -/
theorem Phrases.full {a : TypeExpr} {u : List Token} (h : Phrases (.one a) u) {s : Symbol}
    (hs : s ≠ .lt ∧ s ≠ .leftBracket) (p : Span) (r : List Lexeme) :
    Annotates .full (laid u) (.one a) (⟨.symbol s, p⟩ :: r) :=
  .full (h _ (by simpa using hs.1)) (by simp [startsWithPair, hs.2])

theorem questioned_laid {mark : List Token} (h : mark ∈ [[], [.symbol .question]]) :
    Questioned (laid mark) := by
  simp only [List.mem_cons, List.not_mem_nil, or_false] at h
  rcases h with rfl | rfl
  · exact .nil
  · exact .mark _

theorem laid_generic (n : String) (u : List Token) : laid (generic n u) =
    ⟨.name n, ⟨0, 0⟩⟩ :: ⟨.symbol .lt, ⟨0, 0⟩⟩ :: laid u ++ [⟨.symbol .gt, ⟨0, 0⟩⟩] := by
  simp [generic]

theorem laid_typed (key : Token) (mark u : List Token) : laid (typed key mark u) =
    ⟨key, ⟨0, 0⟩⟩ :: laid mark ++ ⟨.symbol .colon, ⟨0, 0⟩⟩ :: laid u := by
  simp [typed]

/-- What is written is an annotation. -/
theorem Writes.phrases {v : TypePiece} {u : List Token} (h : Writes v u) : Phrases v u := by
  induction h with
  | @builtin n t hn =>
    intro r hr
    rw [← namedType_of_mem hn]
    exact .start (.name hr)
  | null => exact fun r _ => .start .null
  | @name n hn =>
    intro r hr
    rw [← @namedType_of_not n [] hn]
    exact .start (.name hr)
  | suffix _ ih =>
    intro r hr
    rw [laid_append]
    exact .array (ih _ (by simp))
  | @array e u _ ih =>
    intro r hr
    show Annotates _ _ (.one (namedType "Array" [e])) r
    rw [laid_generic]
    exact .start (.applied (.lastArg (ih.full (by decide) _ r)))
  | @applied n as u hn _ ih =>
    intro r hr
    rw [← namedType_of_not hn, laid_generic]
    exact .start (.applied (ih _ r))
  | object _ ih =>
    intro r hr
    rw [laid_append, laid_cons]
    exact .start (.object (ih _ r))
  | lastArg _ ih => exact fun p r => .lastArg (ih.full (by decide) p r)
  | arg _ _ ih ihw =>
    intro p r
    rw [laid_append, laid_cons]
    exact .arg (ih.full (by decide) _ _) (ihw p r)
  | noMember => exact fun _ _ => .noMember
  | lastMember hkey hmark _ ih =>
    intro p r
    rw [laid_typed]
    exact .lastMember hkey (questioned_laid hmark) (ih.full (by decide) p r)
  | member hkey hmark _ hs _ ih ihw =>
    intro p r
    rw [laid_append, laid_typed, laid_cons]
    simp only [List.mem_cons, List.not_mem_nil, or_false] at hs
    rcases hs with rfl | rfl
    · exact .member hkey (questioned_laid hmark) (.inl rfl) (ih.full (by decide) _ _) (ihw p r)
    · exact .member hkey (questioned_laid hmark) (.inr rfl) (ih.full (by decide) _ _) (ihw p r)

/-- Written out, a type is read back in whatever places its tokens stand. -/
theorem Writes.wholeType_eq {t : TypeExpr} {ts : List Lexeme}
    (h : Writes (.one t) (ts.map Lexeme.token)) : wholeType ts = .ok t := by
  have hlaid : ts.map (Lexeme.relocate nowhere) = laid (ts.map Lexeme.token) := by
    rw [laid, List.map_map]
    rfl
  have hread : wholeType (laid (ts.map Lexeme.token)) = .ok t :=
    wholeType_eq_ok_iff.2 (.full (h.phrases [] rfl) rfl)
  rw [← hlaid, wholeType_relocate rfl] at hread
  cases hts : wholeType ts with
  | error fault =>
    rw [hts] at hread
    cases hread
  | ok t' =>
    rw [hts] at hread
    exact hread

/-- A text is read as a type just if it is a text of a way of writing the type. -/
theorem parseType_eq_ok_iff {w : String} {t : TypeExpr} :
    parseType w = .ok t ↔ ∃ u, Writes (.one t) u ∧ Typeset u w.toList := by
  constructor
  · intro h
    obtain ⟨ts, hts, hread⟩ := readWith_eq_ok_iff.1 h
    have hwrites := (wholeType_eq_ok_iff.1 hread).writes
    refine ⟨_, hwrites, hts.typeset fun x hx => ?_⟩
    exact hwrites.separable.typed _ (List.mem_map_of_mem hx)
  · rintro ⟨u, hwrites, htext⟩
    obtain ⟨ts, hts, rfl⟩ := htext.lexes hwrites.separable 0
    exact readWith_eq_ok_iff.2 ⟨ts, hts, hwrites.wholeType_eq⟩

/-! ### The types that can be written -/

/-- The names in the type are names, and none is a built-in one with as many arguments as that has. -/
inductive TypeExpr.Proper : TypeExpr → Prop
  | number : Proper .number
  | boolean : Proper .boolean
  | string : Proper .string
  | any : Proper .any
  | null : Proper (.named "null" [])
  | array {e} (he : Proper e) : Proper (.array e)
  | object {fs} (hfs : ∀ f ∈ fs, Proper f.2) : Proper (.object fs)
  | named {n as} (hn : isIdentifier n = true) (hplain : isBuiltin n as.length = false)
      (has : ∀ a ∈ as, Proper a) : Proper (.named n as)

/-- All types in the piece are proper. -/
def Grammar.TypePiece.Proper : TypePiece → Prop
  | .one a => a.Proper
  | .many as => ∀ a ∈ as, a.Proper
  | .fields fs => ∀ f ∈ fs, f.2.Proper

theorem isIdentifier_of_spelled {n : String} (h : ∃ w, (Token.name n).Spelled w) :
    isIdentifier n = true := by
  obtain ⟨w, hw⟩ := h
  cases hw with
  | name hn => exact hn

/-- What is written with tokens that have texts is proper. -/
theorem Writes.proper {v : TypePiece} {u : List Token} (h : Writes v u)
    (hu : ∀ t ∈ u, ∃ w, t.Spelled w) : v.Proper := by
  induction h with
  | builtin hn =>
    simp only [builtins, List.mem_cons, Prod.mk.injEq, List.not_mem_nil, or_false] at hn
    rcases hn with ⟨-, rfl⟩ | ⟨-, rfl⟩ | ⟨-, rfl⟩ | ⟨-, rfl⟩ | ⟨-, rfl⟩ <;> constructor
  | null => exact .null
  | name hn => exact .named (isIdentifier_of_spelled (hu _ List.mem_cons_self)) hn (List.forall_mem_nil _)
  | suffix _ ih => exact .array (ih (List.forall_mem_append.1 hu).1)
  | array _ ih => exact .array (ih fun t ht => hu t (by simp [generic, ht]))
  | applied hn _ ih =>
    exact .named (isIdentifier_of_spelled (hu _ List.mem_cons_self)) hn
      (ih fun t ht => hu t (by simp [generic, ht]))
  | object _ ih => exact .object (ih fun t ht => hu t (by simp [ht]))
  | lastArg _ ih => exact List.forall_mem_singleton.2 (ih hu)
  | arg _ _ ih ihw =>
    obtain ⟨hu, hw⟩ := List.forall_mem_append.1 hu
    exact List.forall_mem_cons.2 ⟨ih hu, ihw (List.forall_mem_cons.1 hw).2⟩
  | noMember => exact List.forall_mem_nil _
  | lastMember _ _ _ ih => exact List.forall_mem_singleton.2 (ih fun t ht => hu t (by simp [typed, ht]))
  | member _ _ _ _ _ ih ihw =>
    obtain ⟨hu, hw⟩ := List.forall_mem_append.1 hu
    exact List.forall_mem_cons.2
      ⟨ih fun t ht => hu t (by simp [typed, ht]), ihw (List.forall_mem_cons.1 hw).2⟩

/-- The piece can be written with tokens that have texts. -/
def Writable (v : TypePiece) : Prop := ∃ u, Writes v u ∧ ∀ t ∈ u, ∃ w, t.Spelled w

namespace Writable

theorem symbol (s : Symbol) : ∃ w, (Token.symbol s).Spelled w := ⟨_, .symbol s⟩

theorem builtin {n : String} {t : TypeExpr} (hn : (n, t) ∈ builtins) : Writable (.one t) := by
  refine ⟨_, .builtin hn, List.forall_mem_singleton.2 ⟨_, .name ?_⟩⟩
  have hall : ∀ n ∈ builtins.map Prod.fst, isIdentifier n = true := by decide +kernel
  exact hall n (List.mem_map_of_mem hn)

theorem many {as : List TypeExpr} (hne : as ≠ []) (has : ∀ a ∈ as, Writable (.one a)) :
    Writable (.many as) := by
  induction as with
  | nil => exact absurd rfl hne
  | cons a as ih =>
    obtain ⟨⟨u, hu, hspelled⟩, has⟩ := List.forall_mem_cons.1 has
    by_cases hlast : as = []
    · subst hlast
      exact ⟨u, .lastArg hu, hspelled⟩
    · obtain ⟨w, hw, hspelled'⟩ := ih hlast has
      exact ⟨_, .arg hu hw,
        List.forall_mem_append.2 ⟨hspelled, List.forall_mem_cons.2 ⟨symbol _, hspelled'⟩⟩⟩

theorem fields {fs : List (String × TypeExpr)} (hfs : ∀ f ∈ fs, Writable (.one f.2)) :
    Writable (.fields fs) := by
  induction fs with
  | nil => exact ⟨[], .noMember, List.forall_mem_nil _⟩
  | cons f fs ih =>
    obtain ⟨n, a⟩ := f
    obtain ⟨⟨u, hu, hspelled⟩, hfs⟩ := List.forall_mem_cons.1 hfs
    obtain ⟨w, hw, hspelled'⟩ := ih hfs
    -- Every name can be quoted.
    have hquote : '"' ∈ Quotation.quotes := by decide
    obtain ⟨text, htext⟩ := Quotation.exists_decodes hquote n.toList
    have hkey : ∃ w, (Token.string n).Spelled w := ⟨_, .string hquote htext⟩
    have hmark : [] ∈ [[], [Token.symbol .question]] := List.mem_cons_self
    refine ⟨_, .member (show memberKey? (.string n) = _ from rfl) hmark hu List.mem_cons_self hw, ?_⟩
    simp only [typed, List.cons_append, List.nil_append, List.forall_mem_cons, List.forall_mem_append]
    exact ⟨hkey, symbol _, hspelled, symbol _, hspelled'⟩

end Writable

/-- Every proper type can be written. -/
theorem TypeExpr.Proper.writable {t : TypeExpr} (h : t.Proper) : Writable (.one t) := by
  induction h with
  | number => exact .builtin (n := "number") (by simp [builtins])
  | boolean => exact .builtin (n := "boolean") (by simp [builtins])
  | string => exact .builtin (n := "string") (by simp [builtins])
  | any => exact .builtin (n := "any") (by simp [builtins])
  | null => exact ⟨_, .null, List.forall_mem_singleton.2 ⟨_, .null⟩⟩
  | array _ ih =>
    obtain ⟨u, hu, hspelled⟩ := ih
    refine ⟨_, .suffix hu, List.forall_mem_append.2 ⟨hspelled, ?_⟩⟩
    exact List.forall_mem_cons.2 ⟨Writable.symbol _, List.forall_mem_singleton.2 (Writable.symbol _)⟩
  | object _ ih =>
    obtain ⟨u, hu, hspelled⟩ := Writable.fields ih
    refine ⟨_, .object hu, List.forall_mem_append.2 ⟨?_, List.forall_mem_singleton.2 (Writable.symbol _)⟩⟩
    exact List.forall_mem_cons.2 ⟨Writable.symbol _, hspelled⟩
  | @named n as hn hplain _ ih =>
    have hname : ∃ w, (Token.name n).Spelled w := ⟨_, .name hn⟩
    by_cases has : as = []
    · subst has
      exact ⟨_, .name hplain, List.forall_mem_singleton.2 hname⟩
    · obtain ⟨u, hu, hspelled⟩ := Writable.many has ih
      refine ⟨_, .applied hplain hu, ?_⟩
      simp only [generic, List.cons_append, List.forall_mem_cons, List.forall_mem_append]
      exact ⟨hname, Writable.symbol _, hspelled, Writable.symbol _, List.forall_mem_nil _⟩

/-! ### Arrays at any depth -/

/-- With a way of writing `e` between them, the tokens before and behind are a way of writing the piece. -/
inductive Around (e : TypeExpr) : List Token → List Token → TypePiece → Prop
  | here : Around e [] [] (.one e)
  | suffix {pre post a} (h : Around e pre post (.one a)) : Around e pre (post ++ pair) (.one (.array a))
  | array {pre post a} (h : Around e pre post (.one a)) :
      Around e (.name "Array" :: .symbol .lt :: pre) (post ++ [.symbol .gt]) (.one (.array a))
  | applied {pre post n as} (hn : isBuiltin n as.length = false) (h : Around e pre post (.many as)) :
      Around e (.name n :: .symbol .lt :: pre) (post ++ [.symbol .gt]) (.one (.named n as))
  | object {pre post fs} (h : Around e pre post (.fields fs)) :
      Around e (.symbol .leftBrace :: pre) (post ++ [.symbol .rightBrace]) (.one (.object fs))
  | lastArg {pre post a} (h : Around e pre post (.one a)) : Around e pre post (.many [a])
  | thisArg {pre post a as w} (h : Around e pre post (.one a)) (hw : Writes (.many as) w) :
      Around e pre (post ++ .symbol .comma :: w) (.many (a :: as))
  | laterArg {pre post a u as} (hu : Writes (.one a) u) (h : Around e pre post (.many as)) :
      Around e (u ++ .symbol .comma :: pre) post (.many (a :: as))
  | lastMember {pre post key n mark a} (hkey : memberKey? key = some n)
      (hmark : mark ∈ [[], [.symbol .question]]) (h : Around e pre post (.one a)) :
      Around e (typed key mark pre) post (.fields [(n, a)])
  | thisMember {pre post key n mark a s fs w} (hkey : memberKey? key = some n)
      (hmark : mark ∈ [[], [.symbol .question]]) (h : Around e pre post (.one a))
      (hs : s ∈ [Symbol.semicolon, .comma]) (hw : Writes (.fields fs) w) :
      Around e (typed key mark pre) (post ++ .symbol s :: w) (.fields ((n, a) :: fs))
  | laterMember {pre post key n mark a u s fs} (hkey : memberKey? key = some n)
      (hmark : mark ∈ [[], [.symbol .question]]) (hu : Writes (.one a) u)
      (hs : s ∈ [Symbol.semicolon, .comma]) (h : Around e pre post (.fields fs)) :
      Around e (typed key mark u ++ .symbol s :: pre) post (.fields ((n, a) :: fs))

/-- Every way of writing the inner type goes with the tokens around it. -/
theorem Around.writes {e : TypeExpr} {pre post : List Token} {v : TypePiece} (h : Around e pre post v)
    {u : List Token} (hu : Writes (.one e) u) : Writes v (pre ++ u ++ post) := by
  induction h with
  | here => simpa using hu
  | suffix _ ih => simpa using Writes.suffix ih
  | array _ ih => simpa [generic] using Writes.array ih
  | applied hn _ ih => simpa [generic] using Writes.applied hn ih
  | object _ ih => simpa using Writes.object ih
  | lastArg _ ih => exact .lastArg ih
  | thisArg _ hw ih => simpa using Writes.arg ih hw
  | laterArg hu _ ih => simpa using Writes.arg hu ih
  | lastMember hkey hmark _ ih => simpa [typed] using Writes.lastMember hkey hmark ih
  | thisMember hkey hmark _ hs hw ih => simpa [typed] using Writes.member hkey hmark ih hs hw
  | laterMember hkey hmark hu hs _ ih => simpa [typed] using Writes.member hkey hmark hu hs ih

/-- Types are read back from all their texts. A text is read as a type just if it is made of gaps and of
tokens that are a way of writing the type, and the types that have a text are the proper ones. At every
place in a type, brackets behind an inner type and `Array` around it say the same. All texts of a type
describe the same values. -/
theorem annotations_read_back :
    (∀ w t, parseType w = .ok t ↔ ∃ u, Writes (.one t) u ∧ Typeset u w.toList) ∧
    (∀ t : TypeExpr, (∃ w, parseType w = .ok t) ↔ t.Proper) ∧
    (∀ e t pre post v, Around (.array e) pre post (.one t) → Writes (.one e) v → ∀ w w',
      Typeset (pre ++ (v ++ pair) ++ post) w.toList → Typeset (pre ++ generic "Array" v ++ post) w'.toList →
      parseType w = .ok t ∧ parseType w' = .ok t) ∧
    ∀ t u w, Writes (.one t) u → Typeset u w.toList →
      (parseType w).map Ty.ofTypeExpr = .ok (Ty.ofTypeExpr t) := by
  refine ⟨fun w t => parseType_eq_ok_iff, fun t => ⟨?_, fun ht => ?_⟩, ?_, ?_⟩
  · rintro ⟨w, hw⟩
    obtain ⟨u, hu, htext⟩ := parseType_eq_ok_iff.1 hw
    exact hu.proper htext.exists_spelled
  · obtain ⟨u, hu, hspelled⟩ := ht.writable
    obtain ⟨cs, hcs⟩ := Typeset.exists_of_spelled hspelled
    refine ⟨String.ofList cs, parseType_eq_ok_iff.2 ⟨u, hu, ?_⟩⟩
    rwa [String.toList_ofList]
  · intro e t pre post v haround hv w w' hw hw'
    exact ⟨parseType_eq_ok_iff.2 ⟨_, haround.writes (.suffix hv), hw⟩,
      parseType_eq_ok_iff.2 ⟨_, haround.writes (.array hv), hw'⟩⟩
  · intro t u w hu hw
    rw [parseType_eq_ok_iff.2 ⟨u, hu, hw⟩]
    rfl

/-- An array in a member, once with brackets and once with its closing bracket next to that of its type. -/
theorem annotations_read_back_closers :
    let e : TypeExpr := .named "Map" [.string, .array .any]
    let t : TypeExpr := .object [("a b", .array e), ("c", .named "null" [])]
    let v := generic "Map" ([.name "string"] ++ .symbol .comma :: ([.name "unknown"] ++ pair))
    let pre := .symbol .leftBrace :: typed (.string "a b") [.symbol .question] []
    let post := .symbol .semicolon :: typed (.name "c") [] [.null] ++ [.symbol .rightBrace]
    let w := "\x7b 'a b'?: Map<string, unknown[]>[]; c: null // last\n\x7d"
    let w' := "\x7b\"a b\"?:Array<Map<string,unknown/**/[]>>;c:null\x7d"
    Around (.array e) pre post (.one t) ∧ Writes (.one e) v ∧
      Typeset (pre ++ (v ++ pair) ++ post) w.toList ∧
      Typeset (pre ++ generic "Array" v ++ post) w'.toList ∧
      parseType w = .ok t ∧ parseType w' = .ok t ∧
      (parseType w').map Ty.ofTypeExpr = .ok (Ty.ofTypeExpr t) := by
  intro e t v pre post w w'
  obtain ⟨-, -, hinterchange, hty⟩ := annotations_read_back
  have htext (s : String) (u : List Token) (h : (tokenize s).map (List.map Lexeme.token) = .ok u)
      (hu : Separable u) : Typeset u s.toList := by
    obtain ⟨ts, hts, rfl⟩ := exists_of_map_eq_ok h
    exact (tokenize_eq_ok_iff.1 hts).typeset fun x hx => hu.typed _ (List.mem_map_of_mem hx)
  have haround : Around (.array e) pre post (.one t) :=
    .object (.thisMember rfl (by decide) .here (by decide) (.lastMember rfl (by decide) .null))
  have hv : Writes (.one e) v :=
    .applied rfl (.arg (.builtin (by simp [builtins])) (.lastArg (.suffix (.builtin (by simp [builtins])))))
  have hu := haround.writes (.suffix hv)
  have hu' := haround.writes (.array hv)
  have hw := htext w _ (by decide +kernel) hu.separable
  have hw' := htext w' _ (by decide +kernel) hu'.separable
  obtain ⟨hread, hread'⟩ := hinterchange e t pre post v haround hv w w' hw hw'
  exact ⟨haround, hv, hw, hw', hread, hread', hty t _ w' hu' hw'⟩

end Aggregation
