import BuildAudit.Import
import BuildAudit.Number
import BuildAudit.Query.Closure
import BuildAudit.Query.Duplicates

/-!
# Command-line arguments

What the words behind the program's name ask for.  Options stand before the command or behind it;
those of the whole program may stand on either side, and the later side wins.  Words are read from
the left, and the first one that asks for help or cannot be understood ends the reading.
-/

namespace BuildAudit.CommandLine

/-! ### Requests -/

/-- What to do, and with what. -/
inductive Task where
  | init (force : Bool)
  | importFiles (json : Bool) (options : ImportOptions) (directory? : Option String)
      (files : List String)
  | extract (symbols force dryRun : Bool) (jobs? : Option Nat)
  | undefined (artifact : String)
  | useless (artifact : String) (askLoader : Bool)
  | duplicates (filter : DuplicateFilter)
  | closure (artifact : String) (direction : Direction) (types : List ArtifactType)
  | stats
  deriving DecidableEq, Repr

/-- A task and the options of the whole program. -/
structure Invocation where
  task : Task
  verbose : Bool := false
  /-- A file of settings, or its directory. -/
  config? : Option String := none
  /-- The database, whatever the settings say. -/
  database? : Option String := none
  deriving DecidableEq, Repr

/-- Why there is no task. -/
inductive Stop where
  /-- The words make no sense. -/
  | misuse
  | help
  | version
  deriving DecidableEq, Repr

/-! ### Options -/

/-- What an option does. -/
inductive Effect where
  | flag
  /-- It takes a value, which has to be acceptable. -/
  | value (accepts : String → Bool)
  | stop (stop : Stop)

structure OptionRule where
  name : String
  letter? : Option Char := none
  effect : Effect
  /-- It may be given more than once. -/
  repeats : Bool := false

/-- Which words one side of the command may hold. -/
structure Level where
  rules : List OptionRule
  /-- How many words there may be that are no options. -/
  maxWords? : Option Nat := some 0
  accepts : String → Bool := fun _ => true
  /-- The first such word is the command and ends the level. -/
  endsAtWord : Bool := false

/-- What one side of the command holds: options by name with their values, and other words. -/
structure Given where
  options : List (String × String) := []
  words : List String := []
  deriving DecidableEq, Repr

namespace Given

def has (g : Given) (name : String) : Bool := g.options.any (·.1 == name)

/-- The values of an option, in the order in which they are given. -/
def values (g : Given) (name : String) : List String :=
  g.options.filterMap fun (n, value) => if n == name then some value else none

def value? (g : Given) (name : String) : Option String := (g.values name).head?

/-- Adds an option with an acceptable value. -/
def addOption (g : Given) (rule : OptionRule) (value : String) : Except Stop Given :=
  if g.has rule.name && !rule.repeats then .error .misuse
  else .ok { g with options := g.options ++ [(rule.name, value)] }

def addFlag (g : Given) (rule : OptionRule) : Except Stop Given :=
  match rule.effect with
  | .flag => g.addOption rule ""
  | .value _ => .error .misuse
  | .stop stop => .error stop

def addValue (g : Given) (rule : OptionRule) (value : String) : Except Stop Given :=
  match rule.effect with
  | .value accepts => if accepts value then g.addOption rule value else .error .misuse
  | _ => .error .misuse

def addWord (level : Level) (g : Given) (word : String) : Except Stop Given :=
  let full := match level.maxWords? with
    | some n => n ≤ g.words.length
    | none => false
  if full || !level.accepts word then .error .misuse
  else .ok { g with words := g.words ++ [word] }

end Given

/-! ### Reading -/

/-- Whether a word is read as an option. -/
def isOptionLike (word : String) : Bool := Text.beginsWith "-" word && word != "-"

def OptionRule.takesValue (rule : OptionRule) : Bool :=
  match rule.effect with
  | .value _ => true
  | _ => false

/-- An option that still needs the next word as its value, if it is one. -/
abbrev Pending := Option OptionRule

/-- Reads the letters of a word such as `-vj4`.  Behind a letter that takes a value comes the value,
perhaps after an equals sign. -/
def addLetters (level : Level) (g : Given) : List Char → Except Stop (Given × Pending)
  | [] => .ok (g, none)
  | c :: cs =>
    match level.rules.find? (·.letter? == some c) with
    | none => .error .misuse
    | some rule =>
      if rule.takesValue then
        if cs = [] then .ok (g, some rule)
        else
          let value := if cs.head? == some '=' then cs.tail else cs
          (g.addValue rule (String.ofList value)).map (·, none)
      else
        match g.addFlag rule with
        | .error stop => .error stop
        | .ok g => addLetters level g cs

/-- Reads a word that begins with two dashes, given without them. -/
def addName (level : Level) (g : Given) (word : List Char) : Except Stop (Given × Pending) :=
  let name := word.takeWhile (· ≠ '=')
  match level.rules.find? (·.name.toList == name) with
  | none => .error .misuse
  | some rule =>
    match word.drop name.length with
    | _ :: value => (g.addValue rule (String.ofList value)).map (·, none)
    | [] => if rule.takesValue then .ok (g, some rule) else (g.addFlag rule).map (·, none)

def addOptionWord (level : Level) (g : Given) (word : String) : Except Stop (Given × Pending) :=
  match word.toList with
  | '-' :: '-' :: cs => addName level g cs
  | '-' :: cs => addLetters level g cs
  | _ => .error .misuse

/-- Reads the words of a level.  Where it ends at a word, that word and those behind it are left. -/
def scan (level : Level) (g : Given) : List String → Except Stop (Given × List String)
  | [] => .ok (g, [])
  | word :: rest =>
    if word == "--" then
      if level.endsAtWord && !rest.isEmpty then .error .misuse
      else (rest.foldlM (Given.addWord level) g).map (·, [])
    else if isOptionLike word then
      match addOptionWord level g word with
      | .error stop => .error stop
      | .ok (g, none) => scan level g rest
      | .ok (g, some rule) =>
        match rest with
        | [] => .error .misuse
        | value :: rest =>
          if isOptionLike value then .error .misuse
          else
            match g.addValue rule value with
            | .error stop => .error stop
            | .ok g => scan level g rest
    else if level.endsAtWord then .ok (g, word :: rest)
    else
      match Given.addWord level g word with
      | .error stop => .error stop
      | .ok g => scan level g rest

/-! ### The program -/

/-- Reads a number of at most 64 bits; a plus may stand before it. -/
def number? (text : String) : Option Nat :=
  let digits := match text.toList with
    | '+' :: cs => cs
    | cs => cs
  (Text.natIn? 10 digits).filter (· < Number.modulus64)

/-- The values that are paths: any but the empty one. -/
def path : Effect := .value (· != "")

def artifactType : Effect := .value fun text => (ArtifactType.ofName? text).isSome

def category : Effect := .value fun text => (Category.ofName? text).isSome

def programRules : List OptionRule := [
  { name := "verbose", letter? := some 'v', effect := .flag },
  { name := "config", effect := path },
  { name := "db", effect := path },
  { name := "help", letter? := some 'h', effect := .stop .help }]

/-- What stands before the command. -/
def programLevel : Level where
  rules := { name := "version", letter? := some 'V', effect := .stop .version } :: programRules
  endsAtWord := true

/-- The commands. -/
inductive Verb where
  | init
  | importFiles
  | extract
  | undefined
  | useless
  | duplicates
  | closure
  | stats
  deriving DecidableEq, Repr

namespace Verb

def all : List Verb := [init, importFiles, extract, undefined, useless, duplicates, closure, stats]

def name : Verb → String
  | init => "init"
  | importFiles => "import"
  | extract => "extract"
  | undefined => "undefined"
  | useless => "useless"
  | duplicates => "duplicates"
  | closure => "closure"
  | stats => "stats"

def ofName? (s : String) : Option Verb := all.find? (·.name == s)

def flag (name : String) : OptionRule := { name, effect := .flag }

/-- An option that may be given several times, with a value each. -/
def list (name : String) (effect : Effect) : OptionRule := { name, effect, repeats := true }

def ownRules : Verb → List OptionRule
  | init => [flag "force"]
  | importFiles =>
    [flag "json", flag "replace", flag "dry-run", { name := "directory", effect := path }]
  | extract =>
    [flag "symbols", flag "force", flag "dry-run",
      { name := "jobs", letter? := some 'j', effect := .value fun text => (number? text).isSome }]
  | undefined => []
  | useless => [flag "ldd"]
  | duplicates =>
    [list "type" artifactType, list "exclude-type" artifactType, list "category" category,
      list "exclude-category" category]
  | closure => [flag "reverse", list "type" artifactType]
  | stats => []

/-- How many words follow a command at most. -/
def maxWords? : Verb → Option Nat
  | importFiles => none
  | undefined => some 1
  | useless => some 1
  | closure => some 1
  | _ => some 0

/-- What stands behind a command. -/
def level (v : Verb) : Level where
  rules := v.ownRules ++ programRules
  maxWords? := v.maxWords?
  accepts := fun word => v != importFiles || word != ""

/-- The task of a command with its options and words; a word that is needed may be missing. -/
def task? (g : Given) : Verb → Option Task
  | init => some (.init (g.has "force"))
  | importFiles =>
    some (.importFiles (g.has "json") ⟨g.has "dry-run", g.has "replace"⟩ (g.value? "directory")
      g.words)
  | extract =>
    some (.extract (g.has "symbols") (g.has "force") (g.has "dry-run")
      ((g.value? "jobs").bind number?))
  | undefined => g.words.head?.map .undefined
  | useless => g.words.head?.map (.useless · (g.has "ldd"))
  | duplicates =>
    some (.duplicates {
      types := (g.values "type").filterMap ArtifactType.ofName?
      excludedTypes := (g.values "exclude-type").filterMap ArtifactType.ofName?
      categories := (g.values "category").filterMap Category.ofName?
      excludedCategories := (g.values "exclude-category").filterMap Category.ofName? })
  | closure =>
    g.words.head?.map fun artifact =>
      .closure artifact (if g.has "reverse" then .dependees else .dependencies)
        ((g.values "type").filterMap ArtifactType.ofName?)
  | stats => some .stats

end Verb

/-- The command that asks for help about others. -/
def helpCommand : String := "help"

/-- What a command and the words behind it ask for, given what stands before it. -/
def readCommand (program : Given) (command : String) (rest : List String) :
    Except Stop Invocation := do
  if command == helpCommand then
    let topics := helpCommand :: Verb.all.map Verb.name
    throw (if rest.all topics.contains && rest.length ≤ 1 then .help else .misuse)
  let some verb := Verb.ofName? command | throw .misuse
  let (g, _) ← scan verb.level {} rest
  let some task := verb.task? g | throw .misuse
  return {
    task
    verbose := program.has "verbose" || g.has "verbose"
    config? := g.value? "config" <|> program.value? "config"
    database? := g.value? "db" <|> program.value? "db" }

def readArguments (arguments : List String) : Except Stop Invocation := do
  match ← scan programLevel {} arguments with
  | (_, []) => throw .misuse
  | (program, command :: rest) => readCommand program command rest

end BuildAudit.CommandLine
