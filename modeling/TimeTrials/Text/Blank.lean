/-!
# Blanks around a text

White space in the sense of the Unicode property of that name, and its removal from both ends.
-/

namespace TimeTrials.Text

/-- Whether a character is white space. -/
def isBlank (c : Char) : Bool :=
  let code := c.toNat
  (0x09 ≤ code && code ≤ 0x0d) || code = 0x20 || code = 0x85 || code = 0xa0 || code = 0x1680
    || (0x2000 ≤ code && code ≤ 0x200a) || code = 0x2028 || code = 0x2029 || code = 0x202f
    || code = 0x205f || code = 0x3000

/-- Drops from the end while the test holds. -/
def dropEndWhile (test : Char → Bool) (text : List Char) : List Char :=
  (text.reverse.dropWhile test).reverse

/-- The text without blanks at either end. -/
def trim (text : String) : String :=
  String.ofList (dropEndWhile isBlank (text.toList.dropWhile isBlank))

end TimeTrials.Text
