import Mathlib.Data.List.Forall2
import Mathlib.Data.List.Nodup
import Aggregation.Proofs.GrammarSoundness
import Aggregation.Proofs.Nodes
import Aggregation.Proofs.Rendering

/-! The fields that a stage adds.

The entries of the object are judged one after the other, each against the keys set before it. `Offends`
lists what can be wrong with an entry behind given ones: what is wrong with its key comes first, and
only an entry with a good key is compiled.

The entries done so far have just the keys of the entries judged so far (`Sets`), so the loop refuses an
entry if and only if it offends against the object as it is written (`judge_eq_error_iff`). Hence the
object is compiled as a whole or not at all: all of its entries are fields of the stage, in their order
(`entries_eq_ok_iff`), or the first that offends is reported (`entries_eq_error_iff`). -/
namespace Aggregation

/-- The key that an entry writes out. A name alone and a computed key are none. -/
def Property.fieldName? {ν : Type} : Property ν → Option String
  | .field _ key _ => some key.text
  | _ => none

/-- A key is a name, a string, or the digits of an integer. -/
theorem fieldName?_of_property {x : Lexeme} {ts : List Lexeme} {p : Property Unit} {stop : Nat}
    {rest : List Lexeme} (h : Grammar.Yields (Grammar.property (x :: ts)) p stop rest) {key : String}
    (hkey : p.fieldName? = some key) :
    x.token = .name key ∨ x.token = .string key ∨ ∃ n : Nat, x.token = .integer n ∧ toString n = key := by
  obtain ⟨u, hu, -, hp⟩ := (Grammar.soundBelow _).property_step (Nat.le_refl _) h
  cases hp with
  | shorthand | computed => cases hkey
  | field hx =>
    obtain ⟨rfl, -⟩ := List.cons.inj hu
    obtain rfl := Option.some.inj hkey
    cases ht : x.token with
    | name n =>
      rw [ht] at hx
      obtain rfl := Option.some.inj hx
      exact .inl rfl
    | string s =>
      rw [ht] at hx
      obtain rfl := Option.some.inj hx
      exact .inr (.inl rfl)
    | integer n =>
      rw [ht] at hx
      obtain rfl := Option.some.inj hx
      exact .inr (.inr ⟨n, rfl, rfl⟩)
    | _ =>
      rw [ht] at hx
      cases hx

namespace Stage

/-! ### Entries -/

/-- The entry cannot be a field behind the given ones, and this is what is reported. -/
inductive Offends (oracle : Oracle) (scope : Scope) :
    List (Property Nat) → Property Nat → CompileFault → Prop
  | shorthand {before span key value} : Offends oracle scope before (.shorthand span key value)
      ⟨.misshapen .shorthandField, value⟩
  | computed {before span key value} : Offends oracle scope before (.computed span key value)
      ⟨.misshapen .computedKey, key⟩
  | empty {before span key value} (hkey : key.text = "") :
      Offends oracle scope before (.field span key value) ⟨.misshapen .emptyKey, value⟩
  | repeated {before span key value} (hkey : key.text ≠ "")
      (hused : some key.text ∈ before.map Property.fieldName?) :
      Offends oracle scope before (.field span key value)
        ⟨.misshapen (.repeatedKey key.text), value⟩
  | value {before span key value fault} (hkey : key.text ≠ "")
      (hnew : some key.text ∉ before.map Property.fieldName?)
      (hvalue : Aggregation.compile oracle scope value = .error fault) :
      Offends oracle scope before (.field span key value) fault

/-- The entry sets a key to what its value compiles to. -/
def Sets (oracle : Oracle) (scope : Scope) (p : Property Nat) (field : String × Value) : Prop :=
  p.fieldName? = some field.1 ∧ Aggregation.compile oracle scope p.value = .ok field.2

variable {oracle : Oracle} {scope : Scope} {ps before : List (Property Nat)}
  {done body : List (String × Value)} {p : Property Nat} {fault : CompileFault}

/-- The field that an entry makes, where `used` are the keys before it. -/
def judge (oracle : Oracle) (scope : Scope) (used : List String) (p : Property Nat) :
    Except CompileFault (String × Value) := do
  let (key, e) ← entry used p
  let v ← Aggregation.compile oracle scope e
  return (key, v)

theorem entries_cons (oracle : Oracle) (scope : Scope) (done : List (String × Value))
    (p : Property Nat) (ps : List (Property Nat)) :
    entries oracle scope done (p :: ps) =
      judge oracle scope (done.map (·.1)) p >>= fun field =>
        entries oracle scope (done ++ [field]) ps := by
  rw [entries, judge]
  simp only [bind_assoc, pure_bind]

/-- The keys written before an entry are those of the fields made from them. -/
theorem fieldNames_of_sets (h : List.Forall₂ (Sets oracle scope) before done) :
    before.map Property.fieldName? = (done.map (·.1)).map some := by
  induction h with
  | nil => rfl
  | cons hp _ ih => rw [List.map_cons, hp.1, ih, List.map_cons, List.map_cons]

/-- The key of a written entry is judged before its value. -/
theorem judge_field (used : List String) (span : Span) (key : FieldName) (value : Expr Nat) :
    judge oracle scope used (.field span key value) =
      if key.text = "" then .error ⟨.misshapen .emptyKey, value⟩
      else if key.text ∈ used then .error ⟨.misshapen (.repeatedKey key.text), value⟩
      else (Aggregation.compile oracle scope value).map fun v => (key.text, v) := by
  simp only [judge, entry]
  split
  · rfl
  · split
    · rfl
    · cases hv : Aggregation.compile oracle scope value <;> simp only [bind, Except.bind, hv] <;> rfl

theorem judge_eq_ok_iff {used : List String} {field : String × Value} :
    judge oracle scope used p = .ok field ↔
      Sets oracle scope p field ∧ field.1 ≠ "" ∧ field.1 ∉ used := by
  obtain ⟨k, v⟩ := field
  cases p with
  | shorthand span key value | computed span key value =>
    simp [judge, entry, Rule.misfit, Sets, Property.fieldName?, bind, Except.bind]
  | field span key value =>
    rw [judge_field]
    simp only [Sets, Property.fieldName?, Property.value, Option.some.injEq]
    split
    · next hempty =>
      constructor
      · intro h
        cases h
      · rintro ⟨⟨rfl, -⟩, hne, -⟩
        exact absurd hempty hne
    · next hempty =>
      split
      · next hused =>
        constructor
        · intro h
          cases h
        · rintro ⟨⟨rfl, -⟩, -, hnew⟩
          exact absurd hused hnew
      · next hnew =>
        cases Aggregation.compile oracle scope value with
        | error f => simp [Except.map]
        | ok w =>
          simp only [Except.map, Except.ok.injEq, Prod.mk.injEq]
          constructor
          · rintro ⟨rfl, rfl⟩
            exact ⟨⟨rfl, rfl⟩, hempty, hnew⟩
          · exact And.left

/-- An entry is refused just if it offends. -/
theorem judge_eq_error_iff (hdone : List.Forall₂ (Sets oracle scope) before done) :
    judge oracle scope (done.map (·.1)) p = .error fault ↔ Offends oracle scope before p fault := by
  have hused (k : String) : some k ∈ before.map Property.fieldName? ↔ k ∈ done.map (·.1) := by
    rw [fieldNames_of_sets hdone]
    simp
  constructor
  · intro h
    cases p with
    | shorthand span key value =>
      obtain rfl := Except.error.inj h
      exact .shorthand
    | computed span key value =>
      obtain rfl := Except.error.inj h
      exact .computed
    | field span key value =>
      rw [judge_field] at h
      split at h
      · next hempty =>
        obtain rfl := Except.error.inj h
        exact .empty hempty
      · next hempty =>
        split at h
        · next hmem =>
          obtain rfl := Except.error.inj h
          exact .repeated hempty ((hused _).2 hmem)
        · next hnew =>
          cases hv : Aggregation.compile oracle scope value with
          | ok v =>
            rw [hv] at h
            cases h
          | error f =>
            rw [hv] at h
            obtain rfl := Except.error.inj h
            exact .value hempty (mt (hused _).1 hnew) hv
  · intro h
    cases h with
    | shorthand | computed => rfl
    | empty hkey => rw [judge_field, if_pos hkey]
    | repeated hkey hmem => rw [judge_field, if_neg hkey, if_pos ((hused _).1 hmem)]
    | value hkey hnew hv =>
      rw [judge_field, if_neg hkey, if_neg (mt (hused _).2 hnew), hv]
      rfl

/-! ### Objects -/

/-- The entries compile just if each sets a key, none of them empty and no two the same. -/
theorem entries_eq_ok_iff (hdone : (done.map (·.1)).Nodup) :
    entries oracle scope done ps = .ok body ↔
      ∃ fields, body = done ++ fields ∧ List.Forall₂ (Sets oracle scope) ps fields ∧
        (∀ field ∈ fields, field.1 ≠ "") ∧ (body.map (·.1)).Nodup := by
  induction ps generalizing done with
  | nil =>
    rw [entries]
    constructor
    · intro h
      obtain rfl := Except.ok.inj h
      exact ⟨[], (List.append_nil _).symm, .nil, by simp, hdone⟩
    · rintro ⟨fields, rfl, hfields, -⟩
      obtain rfl := List.forall₂_nil_left_iff.1 hfields
      rw [List.append_nil]
  | cons p ps ih =>
    rw [entries_cons, bind_eq_ok]
    constructor
    · rintro ⟨field, hp, h⟩
      obtain ⟨hsets, hne, hnew⟩ := judge_eq_ok_iff.1 hp
      have hnext : ((done ++ [field]).map (·.1)).Nodup := by
        rw [List.map_append]
        exact hdone.append (List.nodup_singleton _) (by simpa using hnew)
      obtain ⟨fields, rfl, hfields, hnes, hnodup⟩ := (ih hnext).1 h
      exact ⟨field :: fields, by simp, .cons hsets hfields, List.forall_mem_cons.2 ⟨hne, hnes⟩, hnodup⟩
    · rintro ⟨fields, rfl, hfields, hnes, hnodup⟩
      obtain ⟨field, rest, hsets, hrest, rfl⟩ := List.forall₂_cons_left_iff.1 hfields
      obtain ⟨hne, hnes⟩ := List.forall_mem_cons.1 hnes
      rw [List.append_cons] at hnodup
      -- The keys up to this one are a part of all keys, so it is not among those before it.
      have hnext : ((done ++ [field]).map (·.1)).Nodup := by
        rw [List.map_append] at hnodup
        exact hnodup.of_append_left
      have hnew : field.1 ∉ done.map (·.1) := by
        rw [List.map_append] at hnext
        exact fun hmem => (List.disjoint_of_nodup_append hnext) hmem (List.mem_singleton_self _)
      exact ⟨field, judge_eq_ok_iff.2 ⟨hsets, hne, hnew⟩,
        (ih hnext).2 ⟨rest, List.append_cons .., hrest, hnes, by rwa [List.append_cons]⟩⟩

/-- Entries set keys just if each has a written key and a value that compiles. -/
theorem exists_sets_iff :
    (∃ fields, List.Forall₂ (Sets oracle scope) ps fields ∧ (∀ field ∈ fields, field.1 ≠ "") ∧
        (fields.map (·.1)).Nodup) ↔
      (∀ p ∈ ps, ∃ key, p.fieldName? = some key ∧ key ≠ "" ∧
        ∃ v, Aggregation.compile oracle scope p.value = .ok v) ∧
      (ps.map Property.fieldName?).Nodup := by
  have hkeys {fields : List (String × Value)} (h : List.Forall₂ (Sets oracle scope) ps fields) :
      (ps.map Property.fieldName?).Nodup ↔ (fields.map (·.1)).Nodup := by
    rw [fieldNames_of_sets h]
    exact List.nodup_map_iff fun _ _ => Option.some.inj
  constructor
  · rintro ⟨fields, hfields, hnes, hnodup⟩
    refine ⟨?_, (hkeys hfields).2 hnodup⟩
    clear hkeys hnodup
    induction hfields with
    | nil => simp
    | @cons p field ps fields hp _ ih =>
      obtain ⟨hne, hnes⟩ := List.forall_mem_cons.1 hnes
      exact List.forall_mem_cons.2 ⟨⟨field.1, hp.1, hne, field.2, hp.2⟩, ih hnes⟩
  · rintro ⟨hps, hnodup⟩
    have hfields : ∃ fields, List.Forall₂ (Sets oracle scope) ps fields ∧
        ∀ field ∈ fields, field.1 ≠ "" := by
      clear hkeys hnodup
      induction ps with
      | nil => exact ⟨[], .nil, by simp⟩
      | cons p ps ih =>
        obtain ⟨⟨key, hkey, hne, v, hv⟩, hps⟩ := List.forall_mem_cons.1 hps
        obtain ⟨fields, hfields, hnes⟩ := ih hps
        exact ⟨(key, v) :: fields, .cons ⟨hkey, hv⟩ hfields, List.forall_mem_cons.2 ⟨hne, hnes⟩⟩
    obtain ⟨fields, hfields, hnes⟩ := hfields
    exact ⟨fields, hfields, hnes, (hkeys hfields).1 hnodup⟩

/-- The entries fail as the first of them that offends. -/
theorem entries_eq_error_iff (hdone : List.Forall₂ (Sets oracle scope) before done) :
    entries oracle scope done ps = .error fault ↔
      ∃ passed p after, ps = passed ++ p :: after ∧
        (∀ b q a g, passed = b ++ q :: a → ¬ Offends oracle scope (before ++ b) q g) ∧
        Offends oracle scope (before ++ passed) p fault := by
  induction ps generalizing done before with
  | nil => simp [entries]
  | cons p ps ih =>
    rw [entries_cons]
    cases hp : judge oracle scope (done.map (·.1)) p with
    | error f =>
      have hoffends := (judge_eq_error_iff hdone).1 hp
      constructor
      · intro h
        obtain rfl := Except.error.inj h
        exact ⟨[], p, ps, rfl, by simp, by simpa using hoffends⟩
      · rintro ⟨passed, q, after, hps, hpassed, hq⟩
        cases passed with
        | nil =>
          obtain ⟨rfl, -⟩ := List.cons.inj hps
          rw [List.append_nil, ← judge_eq_error_iff hdone, hp] at hq
          exact congrArg _ (Except.error.inj hq)
        | cons q' passed =>
          obtain ⟨rfl, -⟩ := List.cons.inj hps
          exact absurd (by simpa using hoffends) (hpassed [] p passed f rfl)
    | ok field =>
      have hpass (g : CompileFault) : ¬ Offends oracle scope before p g := by
        rw [← judge_eq_error_iff hdone, hp]
        simp
      have hnext : List.Forall₂ (Sets oracle scope) (before ++ [p]) (done ++ [field]) :=
        List.rel_append hdone (.cons (judge_eq_ok_iff.1 hp).1 .nil)
      show entries oracle scope (done ++ [field]) ps = .error fault ↔ _
      rw [ih hnext]
      constructor
      · rintro ⟨passed, q, after, rfl, hpassed, hq⟩
        refine ⟨p :: passed, q, after, rfl, fun b q' a g hb => ?_, by simpa using hq⟩
        cases b with
        | nil =>
          obtain ⟨rfl, -⟩ := List.cons.inj hb
          rw [List.append_nil]
          exact hpass g
        | cons p' b =>
          obtain ⟨rfl, hpassed'⟩ := List.cons.inj hb
          simpa using hpassed b q' a g hpassed'
      · rintro ⟨passed, q, after, hps, hpassed, hq⟩
        cases passed with
        | nil =>
          obtain ⟨rfl, -⟩ := List.cons.inj hps
          rw [List.append_nil] at hq
          exact absurd hq (hpass fault)
        | cons p' passed =>
          obtain ⟨rfl, rfl⟩ := List.cons.inj hps
          refine ⟨passed, q, after, rfl, fun b q' a g hb => ?_, by simpa using hq⟩
          simpa using hpassed (p :: b) q' a g (by rw [hb]; rfl)

/-! ### Stages -/

theorem compile_object {call arg : Expr Nat} {m : Mark Nat} (h : arg.bare = .object m ps) :
    compile oracle scope "$addFields" call [arg] =
      (entries oracle scope [] ps).map fun body => ⟨"$addFields", body⟩ := by
  show addFields oracle scope arg = _
  simp only [addFields, h]
  cases entries oracle scope [] ps <;> rfl

theorem compile_other {call arg : Expr Nat} (h : ∀ m ps, arg.bare ≠ .object m ps) :
    compile oracle scope "$addFields" call [arg] =
      .error ⟨.misshapen (.stageFields "$addFields"), arg.bare⟩ := by
  show addFields oracle scope arg = _
  unfold addFields
  split
  · next m ps hobject => exact absurd hobject (h m ps)
  · rfl

theorem compile_count {call : Expr Nat} {args : List (Expr Nat)} (h : ∀ arg, args ≠ [arg]) :
    compile oracle scope "$addFields" call args =
      .error ⟨.arity "$addFields" 1 args.length, call⟩ := by
  match args with
  | [] => rfl
  | [arg] => exact absurd rfl (h arg)
  | _ :: _ :: _ => rfl

/-- The document of a stage has the fields of the stage, in their order. -/
theorem ofStage_of_nodup {stage : Stage} (h : (stage.body.map (·.1)).Nodup) :
    Document.ofStage stage =
      .object [(stage.name, .object (stage.body.map fun field => (field.1, .ofValue field.2)))] := by
  rw [Document.ofStage, Document.ofFields_ofEntries h, Document.ofEntries_eq_map]
  rfl

/-- A stage that adds the fields of an object compiles just if every entry has a written key and a value
that compiles, and the keys are not empty and distinct, however they are spelled. Its body and its document
then have the entries in their order, each with the value it has by itself. Otherwise the first entry
that offends is reported, for its key rather than for its value. Any other argument is refused for
its form, and any other number of arguments for the number. -/
theorem addFields_all_or_nothing (oracle : Oracle) (scope : Scope) (call : Expr Nat)
    (args : List (Expr Nat)) :
    (∀ arg m ps, args = [arg] → arg.bare = .object m ps →
      ((∃ stage, compile oracle scope "$addFields" call args = .ok stage) ↔
        (∀ p ∈ ps, ∃ key, p.fieldName? = some key ∧ key ≠ "" ∧
          ∃ v, Aggregation.compile oracle scope p.value = .ok v) ∧
        (ps.map Property.fieldName?).Nodup) ∧
      (∀ stage, compile oracle scope "$addFields" call args = .ok stage →
        stage.name = "$addFields" ∧
        List.Forall₂ (fun p field => p.fieldName? = some field.1 ∧
          Aggregation.compile oracle scope p.value = .ok field.2) ps stage.body ∧
        Document.ofStage stage = .object [("$addFields",
          .object (stage.body.map fun field => (field.1, .ofValue field.2)))]) ∧
      (∀ fault, compile oracle scope "$addFields" call args = .error fault ↔
        ∃ before p after, ps = before ++ p :: after ∧
          (∀ b q a g, before = b ++ q :: a → ¬ Offends oracle scope b q g) ∧
          Offends oracle scope before p fault)) ∧
    ((∀ arg m ps, args = [arg] → arg.bare ≠ .object m ps) →
      ∃ fault, compile oracle scope "$addFields" call args = .error fault ∧
        ∀ source, (CompileError.ofFault source fault).isShape = true) ∧
    ∀ x ts p stop rest key, Grammar.Yields (Grammar.property (x :: ts)) p stop rest →
      p.fieldName? = some key →
      x.token = .name key ∨ x.token = .string key ∨
        ∃ n : Nat, x.token = .integer n ∧ toString n = key := by
  refine ⟨?_, fun h => ?_, fun x ts p stop rest key hp hkey => fieldName?_of_property hp hkey⟩
  · rintro arg m ps rfl hobject
    rw [compile_object hobject]
    have hentries {body : List (String × Value)} : entries oracle scope [] ps = .ok body ↔
        List.Forall₂ (Sets oracle scope) ps body ∧ (∀ field ∈ body, field.1 ≠ "") ∧
          (body.map (·.1)).Nodup := by
      rw [entries_eq_ok_iff (by simp)]
      simp
    refine ⟨?_, fun stage h => ?_, fun fault => ?_⟩
    · rw [← exists_sets_iff]
      simp only [← hentries]
      cases entries oracle scope [] ps <;> simp [Except.map]
    · cases hbody : entries oracle scope [] ps with
      | error fault =>
        rw [hbody] at h
        cases h
      | ok body =>
        rw [hbody] at h
        obtain rfl := Except.ok.inj h
        obtain ⟨hsets, -, hnodup⟩ := hentries.1 hbody
        exact ⟨rfl, hsets, ofStage_of_nodup hnodup⟩
    · have herror : entries oracle scope [] ps = .error fault ↔ _ := entries_eq_error_iff .nil
      simp only [List.nil_append] at herror
      rw [← herror]
      cases entries oracle scope [] ps <;> simp [Except.map]
  · by_cases hone : ∃ arg, args = [arg]
    · obtain ⟨arg, rfl⟩ := hone
      exact ⟨_, compile_other fun m ps => h arg m ps rfl, fun _ => rfl⟩
    · exact ⟨_, compile_count fun arg harg => hone ⟨arg, harg⟩, fun _ => rfl⟩

/-- `{a: 1, "a": x}`, in parentheses: neither the key nor the value of the second entry will do, and the key
is reported. The first entry alone makes a stage, and no argument at all is no object. -/
theorem addFields_all_or_nothing_repeated :
    let m : Mark Nat := ⟨0, ⟨0, 0⟩⟩
    let call : Expr Nat := .call m (.property m (.name m "this") "$addFields") []
    let first : Property Nat := .field m.span (.bare "a") (.literal m (.integer 1))
    let second : Property Nat := .field m.span (.quoted "a") (.name m "x")
    compile .unknown (.root "this") "$addFields" call [.paren m (.object m [first, second])] =
        .error ⟨.misshapen (.repeatedKey "a"), .name m "x"⟩ ∧
      (∃ stage, compile .unknown (.root "this") "$addFields" call [.object m [first]] = .ok stage) ∧
      ∃ fault, compile .unknown (.root "this") "$addFields" call [] = .error fault ∧
        ∀ source, (CompileError.ofFault source fault).isShape = true := by
  intro m call first second
  have hone : Aggregation.compile .unknown (.root "this") (.literal m (.integer 1)) =
      .ok (.literal (.integer 1)) := by cbv
  have hfirst (g : CompileFault) : ¬ Offends .unknown (.root "this") [] first g := by
    intro h
    unfold first at h
    cases h with
    | empty hkey => exact absurd hkey (by decide)
    | repeated _ hused => cases hused
    | value _ _ hvalue =>
      rw [hone] at hvalue
      cases hvalue
  refine ⟨?_, ?_, ?_⟩
  · refine (((addFields_all_or_nothing .unknown (.root "this") call _).1 _ m _ rfl rfl).2.2 _).2
      ⟨[first], second, [], rfl, fun b q a g hb => ?_, .repeated (by decide) (by decide)⟩
    obtain ⟨rfl, rfl⟩ : b = [] ∧ q = first := by
      cases b with
      | nil => exact ⟨rfl, (List.cons.inj hb).1.symm⟩
      | cons _ b => simp at hb
    exact hfirst g
  · refine ((addFields_all_or_nothing .unknown (.root "this") call _).1 _ m [first] rfl rfl).1.2
      ⟨fun p hp => ?_, List.nodup_singleton _⟩
    obtain rfl := List.mem_singleton.1 hp
    exact ⟨"a", rfl, by decide, _, hone⟩
  · exact (addFields_all_or_nothing .unknown (.root "this") call []).2.1 fun arg m ps h => by cases h

end Stage

end Aggregation
