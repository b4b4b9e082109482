import TimeTrials.Number.Style
import TimeTrials.Settings.Basic
import TimeTrials.Toml.Value

/-!
# Settings from a TOML table

Every key of the document replaces one default.  Keys are taken in document order and the first that
is unknown or has a value of the wrong type is reported.  What a table lacks is reported when it ends:
a language needs a name and a command, and a range both of its ends.

A table with known keys may also be written as an array of their values in the order of declaration.
Such an array may be longer than that, and may be shorter where the rest has defaults.
-/

namespace TimeTrials.Settings

open Toml (Value Table)

/-- What a setting has to be. -/
inductive Expected where
  | count
  | size
  | text
  | path
  | list
  | range
  | language
  | chart
  deriving DecidableEq

/-- How an expectation is shown. -/
def Expected.description : Expected → String
  | .count => "usize"
  | .size => "u64"
  | .text => "a string"
  | .path => "path string"
  | .list => "a sequence"
  | .range => "struct Range"
  | .language => "struct Language"
  | .chart => "struct ChartConfig"

/-- How a value that is not what was expected is shown. -/
def describe : Value → String
  | .string text => "string " ++ Text.quoted text
  | .integer n => "integer `" ++ String.ofList (Number.integerText n) ++ "`"
  | .float x => "floating point `" ++ x.write .refused ++ "`"
  | .boolean b => "boolean `" ++ (if b then "true" else "false") ++ "`"
  | .moment => "map"
  | .array _ => "sequence"
  | .table _ => "map"

/-- Why a document does not describe settings. -/
inductive DecodeFault where
  | wrongType (found : String) (expected : Expected)
  | outOfRange (found : Int) (expected : Expected)
  | unknownField (name : String) (known : List String)
  | unknownColor (name : String)
  | missingField (name : String)
  | tooShort (length : Nat) (expected : String)
  /-- A colour that is neither a name nor a table of one name. -/
  | unusableColor
  deriving DecidableEq

/-- A name as it is shown in a fault. -/
def tick (name : String) : String := "`" ++ name ++ "`"

/-- The names that would have been right. -/
def choices : List String → String
  | [a, b] => "expected " ++ tick a ++ " or " ++ tick b
  | names => "expected one of " ++ ", ".intercalate (names.map tick)

/-- The wording of a fault; there is none for a colour of the wrong form. -/
def DecodeFault.message? : DecodeFault → Option String
  | .wrongType found expected =>
    some ("invalid type: " ++ found ++ ", expected " ++ expected.description)
  | .outOfRange found expected =>
    some ("invalid value: integer " ++ tick (String.ofList (Number.integerText found))
      ++ ", expected " ++ expected.description)
  | .unknownField name known => some ("unknown field " ++ tick name ++ ", " ++ choices known)
  | .unknownColor name =>
    some ("unknown variant " ++ tick name ++ ", " ++ choices (Color.palette.map Color.name))
  | .missingField name => some ("missing field " ++ tick name)
  | .tooShort length expected => some (s!"invalid length {length}, expected " ++ expected)
  | .unusableColor => none

/-- A decoder of a value. -/
abbrev Decoder (α : Type) := Value → Except DecodeFault α

/-! ## Scalars and lists -/

/-- A text. -/
def decodeText (expected : Expected) : Decoder String
  | .string text => .ok text
  | v => .error (.wrongType (describe v) expected)

/-- An integer that is not negative. -/
def decodeNat (expected : Expected) : Decoder Nat
  | .integer n => if n < 0 then .error (.outOfRange n expected) else .ok n.toNat
  | v => .error (.wrongType (describe v) expected)

/-- The elements of an array. -/
def decodeList {α : Type} (item : Decoder α) : Decoder (List α)
  | .array elements => elements.mapM item
  | v => .error (.wrongType (describe v) .list)

/-- A colour of the given name. -/
def colorNamed (name : String) : Except DecodeFault Color :=
  match Color.ofName? name with
  | some color => .ok color
  | none => .error (.unknownColor name)

/-- A colour: its name, or a table that maps its name to nothing. -/
def decodeColor : Decoder Color
  | .string name => colorNamed name
  | .table [(name, v)] => do
    let color ← colorNamed name
    match v with
    | .table [] => return color
    | .array [] => return color
    | _ => throw .unusableColor
  | _ => .error .unusableColor

/-! ## Sizes -/

/-- A size. -/
def decodeSize (v : Value) : Except DecodeFault UInt64 :=
  (decodeNat .size v).map UInt64.ofNat

/-- The ends of a range as far as they are known. -/
structure PartialRange where
  start : Option UInt64 := none
  stop : Option UInt64 := none

/-- Takes one key of a range. -/
def PartialRange.set (range : PartialRange) : String × Value → Except DecodeFault PartialRange
  | ("start", v) => return { range with start := some (← decodeSize v) }
  | ("end", v) => return { range with stop := some (← decodeSize v) }
  | (name, _) => throw (.unknownField name ["start", "end"])

/-- The range, if both of its ends are known. -/
def PartialRange.finish (range : PartialRange) : Except DecodeFault SizeRange :=
  match range.start, range.stop with
  | some start, some stop => .ok ⟨start, stop⟩
  | none, _ => .error (.missingField "start")
  | _, none => .error (.missingField "end")

/-- A range of sizes. -/
def decodeRange : Decoder SizeRange
  | .table entries => do (← entries.foldlM PartialRange.set {}).finish
  | .array elements => do
    let short (length : Nat) : DecodeFault := .tooShort length Expected.range.description
    match elements with
    | [] => throw (short 0)
    | [start] =>
      let _ ← decodeSize start
      throw (short 1)
    | start :: stop :: _ => return ⟨← decodeSize start, ← decodeSize stop⟩
  | v => .error (.wrongType (describe v) .range)

/-! ## Languages -/

/-- The parts of a language as far as they are known. -/
structure PartialLanguage where
  name : Option String := none
  command : Option (List String) := none
  color : Option Color := none

/-- A command. -/
def decodeCommand : Decoder (List String) := decodeList (decodeText .text)

/-- Takes one key of a language. -/
def PartialLanguage.set (language : PartialLanguage) :
    String × Value → Except DecodeFault PartialLanguage
  | ("name", v) => return { language with name := some (← decodeText .text v) }
  | ("command", v) => return { language with command := some (← decodeCommand v) }
  | ("color", v) => return { language with color := some (← decodeColor v) }
  | (name, _) => throw (.unknownField name ["name", "command", "color"])

/-- The language, if it has a name and a command. -/
def PartialLanguage.finish (language : PartialLanguage) : Except DecodeFault Language :=
  match language.name, language.command with
  | some name, some command => .ok ⟨name, command, language.color⟩
  | none, _ => .error (.missingField "name")
  | _, none => .error (.missingField "command")

/-- A language. -/
def decodeLanguage : Decoder Language
  | .table entries => do (← entries.foldlM PartialLanguage.set {}).finish
  | .array elements => do
    let short (length : Nat) : DecodeFault :=
      .tooShort length (Expected.language.description ++ " with 3 elements")
    match elements with
    | [] => throw (short 0)
    | [name] =>
      let _ ← decodeText .text name
      throw (short 1)
    | [name, command] => return ⟨← decodeText .text name, ← decodeCommand command, none⟩
    | name :: command :: color :: _ =>
      return ⟨← decodeText .text name, ← decodeCommand command, some (← decodeColor color)⟩
  | v => .error (.wrongType (describe v) .language)

/-! ## Charts -/

/-- Takes one key of the chart settings. -/
def setChart (chart : ChartSettings) : String × Value → Except DecodeFault ChartSettings
  | ("width", v) => return { chart with width := ← decodeNat .count v }
  | ("trend_title", v) => return { chart with trendTitle := ← decodeText .text v }
  | ("bars_title", v) => return { chart with barsTitle := ← decodeText .text v }
  | (name, _) => throw (.unknownField name ["width", "trend_title", "bars_title"])

/-- The look of the charts; what is not given keeps its default. -/
def decodeChart : Decoder ChartSettings
  | .table entries => entries.foldlM setChart .default
  | .array elements => (["width", "trend_title", "bars_title"].zip elements).foldlM setChart .default
  | v => .error (.wrongType (describe v) .chart)

/-! ## All settings -/

/-- The keys of a document. -/
def fields : List String :=
  ["languages", "program", "sizes", "trials", "benchmark_dir", "extension", "benchmarks",
    "excluded", "chart"]

/-- Takes one key of a document. -/
def set (settings : Settings) : String × Value → Except DecodeFault Settings
  | ("languages", v) => return { settings with languages := ← decodeList decodeLanguage v }
  | ("program", v) => return { settings with program := ← decodeText .path v }
  | ("sizes", v) => return { settings with sizes := ← decodeRange v }
  | ("trials", v) => return { settings with trials := ← decodeNat .count v }
  | ("benchmark_dir", v) => return { settings with benchmarkDir := ← decodeText .path v }
  | ("extension", v) => return { settings with extension := ← decodeText .text v }
  | ("benchmarks", v) => return { settings with benchmarks := ← decodeList (decodeText .text) v }
  | ("excluded", v) => return { settings with excluded := ← decodeList (decodeText .text) v }
  | ("chart", v) => return { settings with chart := ← decodeChart v }
  | (name, _) => throw (.unknownField name fields)

/-- The settings of a document. -/
def decode (document : Table) : Except DecodeFault Settings := document.foldlM set .default

end TimeTrials.Settings
