/-!
# Colours

The colours a language can have in a chart, and the palette for languages that have none of their own.
-/

namespace TimeTrials

/-- A colour of a chart. -/
inductive Color where
  | red
  | blue
  | green
  | yellow
  | magenta
  | cyan
  deriving DecidableEq, Repr

namespace Color

/-- All colours, in the order in which they are handed out. -/
def palette : List Color := [red, blue, green, yellow, magenta, cyan]

/-- The name of a colour in the settings. -/
def name : Color → String
  | red => "red"
  | blue => "blue"
  | green => "green"
  | yellow => "yellow"
  | magenta => "magenta"
  | cyan => "cyan"

/-- The colour of the given name. -/
def ofName? (name : String) : Option Color := palette.find? (·.name == name)

/-- The colour for the language at an index; the palette starts over at its end. -/
def ofIndex (index : Nat) : Color := palette.getD (index % palette.length) red

/-- The terminal's number for the bright variant of a colour. -/
def code : Color → Nat
  | red => 91
  | green => 92
  | yellow => 93
  | blue => 94
  | magenta => 95
  | cyan => 96

end Color
end TimeTrials
