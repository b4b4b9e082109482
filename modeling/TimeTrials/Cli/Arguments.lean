import TimeTrials.Number.Literal
import TimeTrials.Trial

/-!
# Command line arguments

A command line names one of four commands.  The settings file can be named before the command or after
it, and the later place wins; everything else stands after the command.  An option has its value after an
equals sign, in the next word, or, if it is written with one letter, right behind the letter.  After the
word `--` no word is an option any more.

Words are read from left to right, and the first thing that settles the matter does: a word that is wrong,
or a wish for help or for the version.
-/

namespace TimeTrials.Cli

/-! ## What can be asked for -/

/-- What the program is to do. -/
inductive Command where
  /-- Run a sweep and write its dataset. -/
  | collect (kind : Kind) (dataset : Option String)
  /-- Print the statistics of a dataset. -/
  | summary (kind : Kind) (dataset : Option String)
  /-- Draw time over size. -/
  | trend (dataset : Option String) (minSize : Option UInt64)
  /-- Draw the time of each benchmark. -/
  | bars (dataset : Option String)
  deriving DecidableEq

/-- A command line that is in order. -/
structure Arguments where
  config : Option String
  command : Command
  deriving DecidableEq

/-- Why a command line leads to no command. -/
inductive Stop where
  | usage
  | help
  | version
  deriving DecidableEq

/-! ## Words -/

/-- An option that takes a value. -/
inductive Setting where
  | config
  | dataset
  | minSize
  deriving DecidableEq

namespace Setting

/-- The long name of an option. -/
def long : Setting → String
  | .config => "config"
  | .dataset => "dataset"
  | .minSize => "min-size"

/-- The letter of an option. -/
def letter? : Setting → Option Char
  | .config => some 'c'
  | .dataset => some 'd'
  | .minSize => none

end Setting

/-- What a word is, where certain options can stand. -/
inductive Reading where
  | plain
  /-- The end of options. -/
  | separator
  | complete (setting : Setting) (value : String)
  /-- An option whose value is the next word. -/
  | awaiting (setting : Setting)
  | stop (stop : Stop)
  deriving DecidableEq

/-- Where a word stands: which options it can be, and whether it can ask for the version. -/
structure Place where
  settings : List Setting
  hasVersion : Bool

/-- Reads an option that is written out. -/
def readLong (place : Place) (text : List Char) : Reading :=
  let name := String.ofList (text.takeWhile (· != '='))
  let value? : Option String :=
    match text.dropWhile (· != '=') with
    | [] => none
    | _ :: value => some (String.ofList value)
  let wish (stop : Stop) : Reading := if value?.isSome then .stop .usage else .stop stop
  match place.settings.find? (·.long == name), value? with
  | some setting, some value => .complete setting value
  | some setting, none => .awaiting setting
  | none, _ =>
    if name = "help" then wish .help
    else if name = "version" ∧ place.hasVersion then wish .version
    else .stop .usage

/-- Reads an option that is written as a letter. -/
def readShort (place : Place) (letter : Char) (rest : List Char) : Reading :=
  match place.settings.find? (·.letter? == some letter), rest with
  | some setting, [] => .awaiting setting
  | some setting, '=' :: value => .complete setting (String.ofList value)
  | some setting, value => .complete setting (String.ofList value)
  | none, _ =>
    if letter = 'h' then .stop .help
    else if letter = 'V' ∧ place.hasVersion then .stop .version
    else .stop .usage

/-- Reads a word.  A hyphen alone is a plain word. -/
def read (place : Place) (word : String) : Reading :=
  match word.toList with
  | ['-', '-'] => .separator
  | '-' :: '-' :: text => readLong place text
  | '-' :: letter :: rest => readShort place letter rest
  | _ => .plain

/-- Whether a word cannot be the value of an option before it. -/
def isHyphenated (word : String) : Bool :=
  match word.toList with
  | '-' :: _ :: _ => true
  | _ => false

/-! ## Collecting -/

/-- What has been given so far. -/
structure Given where
  config : Option String
  dataset : Option String
  minSize : Option UInt64
  kind : Option Kind

namespace Given

/-- Nothing. -/
def none : Given := ⟨.none, .none, .none, .none⟩

/-- A value for a place that is still free. -/
def fill {α : Type} : Option α → α → Except Stop (Option α)
  | .none, value => .ok (some value)
  | some _, _ => .error .usage

/-- A path; an empty one is refused. -/
def path (text : String) : Except Stop String :=
  if text.isEmpty then .error .usage else .ok text

/-- A size. -/
def size (text : String) : Except Stop UInt64 :=
  match Number.Whole.parse text with
  | .ok n => .ok (.ofNat n)
  | .error _ => .error .usage

/-- Adds the value of an option.  No option is given twice. -/
def add (given : Given) (setting : Setting) (value : String) : Except Stop Given := do
  match setting with
  | .config => return { given with config := ← fill given.config (← path value) }
  | .dataset => return { given with dataset := ← fill given.dataset (← path value) }
  | .minSize => return { given with minSize := ← fill given.minSize (← size value) }

/-- Adds the kind of dataset. -/
def addKind (given : Given) (word : String) : Except Stop Given := do
  match Kind.ofName? word with
  | some kind => return { given with kind := ← fill given.kind kind }
  | .none => throw .usage

end Given

/-! ## Commands -/

/-- The names of the commands. -/
inductive Verb where
  | collect
  | summary
  | trend
  | bars
  deriving DecidableEq

namespace Verb

/-- The name of a command. -/
def name : Verb → String
  | .collect => "collect"
  | .summary => "summary"
  | .trend => "trend"
  | .bars => "bars"

/-- The command of a name. -/
def ofName? (name : String) : Option Verb :=
  [collect, summary, trend, bars].find? (·.name == name)

/-- Where the words after a command stand. -/
def place : Verb → Place
  | .trend => ⟨[.config, .dataset, .minSize], false⟩
  | _ => ⟨[.config, .dataset], false⟩

/-- Whether a kind of dataset has to be named. -/
def wantsKind : Verb → Bool
  | .collect => true
  | .summary => true
  | .trend => false
  | .bars => false

/-- Takes a plain word. -/
def addPlain (verb : Verb) (given : Given) (word : String) : Except Stop Given :=
  if verb.wantsKind then given.addKind word else .error .usage

/-- The command with what has been given to it. -/
def command (verb : Verb) (given : Given) : Except Stop Command :=
  match verb, given.kind with
  | .collect, some kind => .ok (.collect kind given.dataset)
  | .summary, some kind => .ok (.summary kind given.dataset)
  | .trend, _ => .ok (.trend given.dataset given.minSize)
  | .bars, _ => .ok (.bars given.dataset)
  | _, none => .error .usage

/-- Reads the words after a command; `ended` says that no word is an option any more. -/
def arguments (verb : Verb) (ended : Bool) (given : Given) : List String → Except Stop Given
  | [] => .ok given
  | word :: rest =>
    match if ended then .plain else read verb.place word, rest with
    | .plain, rest => do verb.arguments ended (← verb.addPlain given word) rest
    | .separator, rest => verb.arguments true given rest
    | .complete setting value, rest => do
      verb.arguments ended (← given.add setting value) rest
    | .awaiting setting, value :: rest => do
      if isHyphenated value then throw .usage
      verb.arguments ended (← given.add setting value) rest
    | .awaiting _, [] => .error .usage
    | .stop stop, _ => .error stop

end Verb

/-! ## The whole line -/

/-- Where the words before a command stand. -/
def leadingPlace : Place := ⟨[.config], true⟩

/-- A wish for help on a command. -/
def helpFor : List String → Stop
  | [] => .help
  | [word] => if (Verb.ofName? word).isSome ∨ word = "help" then .help else .usage
  | _ => .usage

/-- Reads the words from the command on. -/
def fromVerb (given : Given) (word : String) (rest : List String) : Except Stop Arguments := do
  match Verb.ofName? word with
  | some verb =>
    let after ← verb.arguments false .none rest
    return ⟨after.config <|> given.config, ← verb.command after⟩
  | none => throw (if word = "help" then helpFor rest else .usage)

/-- Reads the words of a command line, some options having been given. -/
def leading (given : Given) : List String → Except Stop Arguments
  | [] => .error .usage
  | word :: rest =>
    match read leadingPlace word, rest with
    | .plain, rest => fromVerb given word rest
    | .separator, _ => .error .usage
    | .complete setting value, rest => do leading (← given.add setting value) rest
    | .awaiting setting, value :: rest => do
      if isHyphenated value then throw .usage
      leading (← given.add setting value) rest
    | .awaiting _, [] => .error .usage
    | .stop stop, _ => .error stop

/-- Reads a command line. -/
def Arguments.parse (words : List String) : Except Stop Arguments := leading .none words

end TimeTrials.Cli
