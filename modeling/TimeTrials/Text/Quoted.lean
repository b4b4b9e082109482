import TimeTrials.Text.Unprintable

/-!
# Quoted text

How a name, a path or a piece of output is shown inside a message: between double quotes, with the
quote and the backslash escaped, the common controls written by letter, and every other character
that would not show by itself written as its code point.
-/

namespace TimeTrials.Text

/-- The lower-case hexadecimal digits of a code point. -/
def hexDigits (n : Nat) : List Char := Nat.toDigits 16 n

/-- One character inside quotes. -/
def quotedChar (c : Char) : List Char :=
  match c with
  | '"' => ['\\', '"']
  | '\\' => ['\\', '\\']
  | '\n' => ['\\', 'n']
  | '\r' => ['\\', 'r']
  | '\t' => ['\\', 't']
  | '\x00' => ['\\', '0']
  | c =>
    if isUnprintable c then ['\\', 'u', '\x7b'] ++ hexDigits c.toNat ++ ['\x7d'] else [c]

/-- A text between quotes, on one line. -/
def quoted (text : String) : String :=
  String.ofList ('"' :: text.toList.flatMap quotedChar ++ ['"'])

end TimeTrials.Text
