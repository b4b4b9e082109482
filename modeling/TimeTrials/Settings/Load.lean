import TimeTrials.Failure
import TimeTrials.Text.Utf8
import TimeTrials.Toml.Parser

/-!
# Loading settings

From the bytes of a file to settings that are usable: the bytes have to be text, the text TOML, the
document settings, and the settings valid.
-/

namespace TimeTrials.Settings

open Text (Bytes)

/-- The settings that a text describes, valid or not. -/
def ofText (text : String) : Except Cause Settings :=
  match Toml.parse? text with
  | none => .error .notToml
  | some document => (decode document).mapError .decode

/-- Settings that have passed validation. -/
def checked (settings : Settings) : Except Failure Settings :=
  match settings.validate with
  | .ok () => .ok settings
  | .error fault => .error ⟨[.validateSettings], .settings fault⟩

/-- The settings in the file at a path, given what reading that file has come to. -/
def ofFile (path : String) (content : Except Host.SystemFault Bytes) : Except Failure Settings := do
  let bytes ← content.mapError fun fault => ⟨[.readFile path], .system fault⟩
  let text ←
    match Text.Utf8.decode? bytes with
    | some text => pure text
    | none => throw ⟨[.readFile path], .system .notText⟩
  checked (← (ofText text).mapError fun cause => ⟨[.parseFile path], cause⟩)

/-- The settings to use: those in a file, or the default ones. -/
def load : Option (String × Except Host.SystemFault Bytes) → Except Failure Settings
  | some (path, content) => ofFile path content
  | none => checked default

end TimeTrials.Settings
