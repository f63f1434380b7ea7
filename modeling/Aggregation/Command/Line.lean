import Aggregation.Command.Job

/-! Command lines.

A word that starts with a dash, and is more than the dash, holds options: one by its name behind two
dashes, or any number by their letters behind one. An option that takes a value finds it behind an
equals sign, for a letter in the rest of its word, and else in the next word, which must not hold
options itself. Two dashes alone end the options.

The first word without options names the task, and the options of the task follow it. Words are taken
one after the other: a request for the version is granted where it stands, whatever follows. -/
namespace Aggregation

/-! ### Options -/

inductive Switch
  | verbose
  | quiet
  | version
  | pretty
  | input
  | placeholder
  | context
deriving DecidableEq, Repr

namespace Switch

/-- The name behind two dashes. -/
def word : Switch → String
  | verbose => "verbose"
  | quiet => "quiet"
  | version => "version"
  | pretty => "pretty"
  | input => "input"
  | placeholder => "placeholder"
  | context => "context"

/-- The letter behind one dash. -/
def letter? : Switch → Option Char
  | verbose => some 'v'
  | quiet => some 'q'
  | version => some 'V'
  | pretty => some 'p'
  | input => some 'i'
  | placeholder => none
  | context => some 'c'

def takesValue : Switch → Bool
  | input => true
  | placeholder => true
  | context => true
  | _ => false

/-- Whether the option may be given more than once. -/
def repeats : Switch → Bool
  | verbose => true
  | _ => false

/-- The options that may stand before the task and behind it. -/
def everywhere : List Switch := [verbose, quiet]

end Switch

/-! ### Words -/

/-- What a word says, or one of its letters. -/
inductive Part
  | flag (s : Switch)
  | setting (s : Switch) (value : String)
  | argument (text : String)
  | unknown
deriving DecidableEq, Repr

namespace Part

/-- Whether a word holds options, or ends them. -/
def isDashed (w : String) : Bool :=
  match w.toList with
  | '-' :: _ :: _ => true
  | _ => false

/-- The options behind one dash, and the one that still lacks its value. -/
def letters (known : List Switch) : List Char → List Part × Option Switch
  | [] => ([], none)
  | c :: cs =>
    match known.find? (·.letter? == some c) with
    | none => ([unknown], none)
    | some s =>
      if s.takesValue then
        match cs with
        | [] => ([], some s)
        | '=' :: value => ([setting s (String.ofList value)], none)
        | value => ([setting s (String.ofList value)], none)
      else
        let (parts, wanting) := letters known cs
        (flag s :: parts, wanting)

/-- The option behind two dashes, and whether it still lacks its value. -/
def long (known : List Switch) (body : List Char) : List Part × Option Switch :=
  match known.find? (·.word.toList == body.takeWhile (· != '=')), body.dropWhile (· != '=') with
  | some s, [] => if s.takesValue then ([], some s) else ([flag s], none)
  | some s, _ :: value =>
    if s.takesValue then ([setting s (String.ofList value)], none) else ([unknown], none)
  | none, _ => ([unknown], none)

/-- The options in a word, and the one that still lacks its value. -/
def dashed (known : List Switch) (w : String) : List Part × Option Switch :=
  match w.toList with
  | '-' :: '-' :: body => long known body
  | _ :: body => letters known body
  | [] => ([], none)

/-- What words say, the first of them to an option that wants a value if there is one. -/
def ofWords (known : List Switch) : Option Switch → List String → List Part
  | none, [] => []
  | some _, [] => [unknown]
  | some s, w :: ws =>
    if isDashed w then [unknown] else setting s w :: ofWords known none ws
  | none, w :: ws =>
    if w = "--" then ws.map argument
    else if isDashed w then
      let (parts, wanting) := dashed known w
      parts ++ ofWords known wanting ws
    else argument w :: ofWords known none ws

end Part

/-- What has been said so far. -/
structure Choices where
  flags : List Switch
  settings : List (Switch × String)
  arguments : List String

namespace Choices

def empty : Choices := ⟨[], [], []⟩

/-- Adds a part; only some options may be given again. -/
def add (c : Choices) : Part → Option Choices
  | .flag s =>
    if s ∈ c.flags ∧ ¬s.repeats then none else some { c with flags := s :: c.flags }
  | .setting s value =>
    if s ∈ c.settings.map (·.1) then none
    else some { c with settings := (s, value) :: c.settings }
  | .argument text => some { c with arguments := c.arguments ++ [text] }
  | .unknown => none

def addAll (c : Choices) (parts : List Part) : Option Choices :=
  parts.foldlM add c

def has (c : Choices) (s : Switch) : Bool :=
  s ∈ c.flags

def value? (c : Choices) (s : Switch) : Option String :=
  c.settings.lookup s

end Choices

/-! ### Commands -/

/-- Where a program comes from. -/
inductive Origin
  | file (path : String)
  | input
deriving DecidableEq, Repr

/-- What a command line asks for. -/
inductive Command
  | version
  | compile (origin : Origin) (placeholder? : Option String) (pretty : Bool)
  | fragment (f : Fragment) (pretty : Bool)
  | reference (topic? : Option String)
deriving DecidableEq, Repr

inductive Task
  | compile
  | fragment (kind : BuilderKind)
  | operators
deriving DecidableEq, Repr

namespace Task

def all : List Task := [compile, fragment .operator, fragment .pipeline, operators]

/-- The word that names a task. -/
def word : Task → String
  | compile => "compile"
  | fragment .operator => "expr"
  | fragment .pipeline => "pipeline"
  | operators => "operators"

/-- The options of a task. -/
def switches : Task → List Switch
  | compile => Switch.everywhere ++ [.input, .placeholder, .pretty]
  | fragment _ => Switch.everywhere ++ [.context, .placeholder, .pretty]
  | operators => Switch.everywhere

/-- The command of a task, if the number of arguments is right. -/
def command? (t : Task) (c : Choices) : Option Command :=
  match t, c.arguments with
  | compile, [] =>
    some (.compile ((c.value? .input).elim .input .file) (c.value? .placeholder) (c.has .pretty))
  | fragment kind, [source] =>
    some (.fragment ⟨kind, source, c.value? .context,
      (c.value? .placeholder).getD Config.standard.placeholder⟩ (c.has .pretty))
  | operators, [] => some (.reference none)
  | operators, [topic] => some (.reference (some topic))
  | _, _ => none

end Task

namespace Command

/-- The command of the words behind what has been said. -/
def ofWordsAfter (c : Choices) : List String → Option Command
  | [] => none
  | w :: ws =>
    if Part.isDashed w then do
      let parts := (Part.dashed (.version :: Switch.everywhere) w).1
      let c ← c.addAll (parts.takeWhile (· != .flag .version))
      if .flag .version ∈ parts then some version else ofWordsAfter c ws
    else do
      let task ← Task.all.find? (·.word == w)
      let c ← Choices.empty.addAll (Part.ofWords task.switches none ws)
      task.command? c

/-- The command of a command line, if the line is understood. -/
def ofWords (ws : List String) : Option Command :=
  ofWordsAfter Choices.empty ws

end Command

end Aggregation
