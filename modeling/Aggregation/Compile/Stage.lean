import Aggregation.Compile.Expression

/-! Compiling a stage.

The known stages are listed in `StageKind.all`, each with its name and its number of arguments. A
stage that adds fields takes an object, whose entries are compiled in order: each must have a written
key, not empty and not used before. -/
namespace Aggregation

/-- The known stages. -/
inductive StageKind
  | addFields
deriving DecidableEq, Repr

namespace StageKind

def all : List StageKind := [addFields]

def name : StageKind → String
  | addFields => "$addFields"

def arity : StageKind → Nat
  | addFields => 1

/-- What a stage does. -/
def description : StageKind → String
  | addFields => "Adds or replaces fields, one expression per key of an object literal"

def find? (name : String) : Option StageKind :=
  all.find? (·.name == name)

end StageKind

namespace Stage

/-- The key and the value of an entry, where `used` are the keys before it. -/
def entry (used : List String) : Property Nat → Except CompileFault (String × Expr Nat)
  | .shorthand _ _ value => Rule.misfit value .shorthandField
  | .computed _ key _ => Rule.misfit key .computedKey
  | .field _ key value =>
    if key.text = "" then Rule.misfit value .emptyKey
    else if key.text ∈ used then Rule.misfit value (.repeatedKey key.text)
    else .ok (key.text, value)

/-- The compiled entries of an object, behind the entries `done`. -/
def entries (oracle : Oracle) (scope : Scope) (done : List (String × Value)) :
    List (Property Nat) → Except CompileFault (List (String × Value))
  | [] => .ok done
  | p :: ps => do
    let (key, e) ← entry (done.map (·.1)) p
    let v ← compile oracle scope e
    entries oracle scope (done ++ [(key, v)]) ps

/-- The stage that adds the fields of an object. -/
def addFields (oracle : Oracle) (scope : Scope) (arg : Expr Nat) : Except CompileFault Stage :=
  match arg.bare with
  | .object _ properties => do
    let body ← entries oracle scope [] properties
    return ⟨StageKind.addFields.name, body⟩
  | e => Rule.misfit e (.stageFields StageKind.addFields.name)

/-- The stage that a call of the given name with the given arguments makes. -/
def compile (oracle : Oracle) (scope : Scope) (name : String) (call : Expr Nat)
    (args : List (Expr Nat)) : Except CompileFault Stage :=
  match StageKind.find? name with
  | none => .error ⟨.unknownStage name, call⟩
  | some kind =>
    match kind, args with
    | .addFields, [arg] => addFields oracle scope arg
    | kind, args => .error ⟨.arity kind.name kind.arity args.length, call⟩

end Stage

end Aggregation
