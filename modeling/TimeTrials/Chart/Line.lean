import TimeTrials.Color

/-!
# Lines of a chart

A line is a sequence of segments, and a segment is plain text or text in a colour.  Colours come in
only when lines are turned into text, so that a chart is laid out once for terminals with and without
them.
-/

namespace TimeTrials.Chart

/-- A piece of a line. -/
inductive Segment where
  | plain (text : String)
  | painted (color : Color) (text : String)
  deriving DecidableEq

/-- A line without its line end. -/
abbrev Line := List Segment

/-- The character that starts a terminal's control sequence. -/
def escape : String := "\x1b"

/-- The control sequence that turns to a colour. -/
def turnOn (color : Color) : String := escape ++ "[" ++ toString color.code ++ "m"

/-- The control sequence that turns back to the terminal's own colour. -/
def turnOff : String := escape ++ "[39m"

/-- The text of a segment, with its colour or without. -/
def Segment.render (colored : Bool) : Segment → String
  | .plain text => text
  | .painted color text => if colored then turnOn color ++ text ++ turnOff else text

/-- The text of a line with its line end. -/
def renderLine (colored : Bool) (line : Line) : String :=
  String.join (line.map (·.render colored)) ++ "\n"

/-- The text of lines. -/
def renderLines (colored : Bool) (lines : List Line) : String :=
  String.join (lines.map (renderLine colored))

end TimeTrials.Chart
