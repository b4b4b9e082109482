import TimeTrials.Number.Literal
import TimeTrials.Number.Style
import TimeTrials.Text.Utf8

/-!
# Printing from scripts

The two commands with which a script prints.  `echo` prints its words with blanks between them, and
`printf` prints its words in the places that a format leaves for them.  Both know escapes: a backslash
and a letter for a control character, or a backslash and up to three octal digits for any byte.
-/

namespace TimeTrials.Host.Shell

open Number (Binary64 Style)
open Text (Bytes)

/-! ## Escapes -/

/-- The value of an octal digit. -/
def octal? (c : Char) : Option Nat := Number.Whole.digit? 8 c

/-- The octal digits at the front of a text, three at most. -/
def octalDigits (text : List Char) : List Char := (text.take 3).takeWhile fun c => (octal? c).isSome

/-- The byte that octal digits stand for. -/
def octalByte (digits : List Char) : UInt8 :=
  UInt8.ofNat (digits.foldl (fun value c => 8 * value + (octal? c).getD 0) 0)

/-- What a letter after a backslash stands for. -/
def control? : Char → Option UInt8
  | 'a' => some 7
  | 'b' => some 8
  | 't' => some 9
  | 'n' => some 10
  | 'v' => some 11
  | 'f' => some 12
  | 'r' => some 13
  | '\\' => some 92
  | _ => none

/-- Reads an escape, its backslash gone.  A backslash before anything else stands for itself. -/
def escape (text : List Char) : UInt8 × List Char :=
  let digits := octalDigits text
  if digits.isEmpty then
    match text with
    | [] => (92, [])
    | c :: rest =>
      match control? c with
      | some b => (b, rest)
      | none => (92, text)
  else (octalByte digits, text.drop digits.length)

/-- Reading an escape never adds to the text. -/
theorem length_escape_le (text : List Char) : (escape text).2.length ≤ text.length := by
  unfold escape
  dsimp only
  split
  · split
    · simp
    · split <;> simp
  · simp

/-- The digit that may stand before three octal digits. -/
def dropZero : List Char → List Char
  | '0' :: c :: rest => if (octal? c).isSome then c :: rest else '0' :: c :: rest
  | text => text

theorem length_dropZero_le (text : List Char) : (dropZero text).length ≤ text.length := by
  unfold dropZero
  split
  · split <;> simp
  · simp

/-- The bytes of a text with its escapes read, and whether `\c` has ended all printing. -/
def unescape : List Char → Bytes × Bool
  | [] => ([], false)
  | '\\' :: 'c' :: _ => ([], true)
  | '\\' :: rest =>
    let step := escape (dropZero rest)
    let (bytes, stop) := unescape step.2
    (step.1 :: bytes, stop)
  | c :: rest =>
    let (bytes, stop) := unescape rest
    (String.utf8EncodeChar c ++ bytes, stop)
termination_by text => text.length
decreasing_by
  · have := length_escape_le (dropZero rest)
    have := length_dropZero_le rest
    simp only [List.length_cons]
    omega
  · simp

/-! ## Echo -/

/-- Prints words with escapes; a first word `-n` leaves out the line end. -/
def echo (words : List String) : Bytes :=
  let (words, ending) := if words.head? = some "-n" then (words.tail, []) else (words, [10])
  let (bytes, stop) := unescape (" ".intercalate words).toList
  if stop then bytes else bytes ++ ending

/-- A word that sets options of `echoPlain`. -/
def isEchoOption (word : String) : Bool :=
  match word.toList with
  | '-' :: c :: rest => (c :: rest).all fun o => o == 'n' || o == 'e' || o == 'E'
  | _ => false

/-- The last of the letters `e` and `E` decides whether escapes are read. -/
def readsEscapes (letters : List Char) : Bool :=
  (letters.filter fun c => c == 'e' || c == 'E').getLast? == some 'e'

/-- Prints words as they are; options can leave out the line end or ask for escapes. -/
def echoPlain (words : List String) : Bytes :=
  let letters := (words.takeWhile isEchoOption).flatMap String.toList
  let text := " ".intercalate (words.dropWhile isEchoOption)
  let ending : Bytes := if letters.contains 'n' then [] else [10]
  if readsEscapes letters then
    let (bytes, stop) := unescape text.toList
    if stop then bytes else bytes ++ ending
  else Text.Utf8.encode text ++ ending

/-! ## Formats -/

/-- A place that a format leaves for a word. -/
structure Slot where
  flags : List Char
  width : Nat
  precision : Option Nat
  conversion : Char
  deriving DecidableEq

/-- A piece of a format. -/
inductive Piece where
  | byte (b : UInt8)
  | char (c : Char)
  | slot (slot : Slot)
  deriving DecidableEq

/-- Reads digits as a number. -/
def leadingNumber (text : List Char) : Nat × List Char :=
  (Number.Literal.valueOf (text.takeWhile Char.isDigit), text.dropWhile Char.isDigit)

theorem length_dropWhile_le (p : Char → Bool) (text : List Char) :
    (text.dropWhile p).length ≤ text.length := by
  simpa using (List.dropWhile_suffix p (l := text)).length_le

/-- The precision of a slot, if there is one. -/
def precision : List Char → Option Nat × List Char
  | '.' :: rest =>
    let (n, after) := leadingNumber rest
    (some n, after)
  | text => (none, text)

theorem length_precision_le (text : List Char) : (precision text).2.length ≤ text.length := by
  unfold precision
  split
  · have := length_dropWhile_le Char.isDigit
    simp only [leadingNumber, List.length_cons]
    exact Nat.le_succ_of_le (this _)
  · simp

/-- Whether a character is a flag of a slot. -/
def isFlag (c : Char) : Bool := c == '-' || c == '+' || c == ' ' || c == '#' || c == '0'

/-- Reads a slot, its percent sign gone. -/
def slot? (text : List Char) : Option (Slot × List Char) :=
  let (width, afterWidth) := leadingNumber (text.dropWhile isFlag)
  let (places, afterPlaces) := precision afterWidth
  match afterPlaces with
  | conversion :: rest => some (⟨text.takeWhile isFlag, width, places, conversion⟩, rest)
  | [] => none

/-- A slot takes up at least its conversion. -/
theorem length_lt_of_slot? {text rest : List Char} {slot : Slot}
    (h : slot? text = some (slot, rest)) : rest.length < text.length := by
  have flags := length_dropWhile_le isFlag text
  have width := length_dropWhile_le Char.isDigit (text.dropWhile isFlag)
  have places := length_precision_le ((text.dropWhile isFlag).dropWhile Char.isDigit)
  simp only [slot?, leadingNumber] at h
  split at h
  · rename_i hp
    simp only [Option.some.injEq, Prod.mk.injEq] at h
    rw [hp, h.2] at places
    simp only [List.length_cons] at places
    omega
  · contradiction

/-- Divides a format into its pieces. -/
def pieces : List Char → List Piece
  | [] => []
  | '\\' :: rest =>
    let step := escape rest
    .byte step.1 :: pieces step.2
  | '%' :: '%' :: rest => .char '%' :: pieces rest
  | '%' :: rest =>
    match h : slot? rest with
    | some (slot, after) =>
      have := length_lt_of_slot? h
      .slot slot :: pieces after
    | none => []
  | c :: rest => .char c :: pieces rest
termination_by text => text.length
decreasing_by
  · have := length_escape_le rest
    simp only [List.length_cons]
    omega
  · simp only [List.length_cons]
    omega
  · simp only [List.length_cons]
    omega
  · simp

/-- Fills bytes up to a slot's width. -/
def Slot.pad (slot : Slot) (sign body : Bytes) (zeros : Bool) : Bytes :=
  let missing := slot.width - (sign.length + body.length)
  if slot.flags.contains '-' then sign ++ body ++ List.replicate missing 32
  else if zeros && slot.flags.contains '0' then sign ++ List.replicate missing 48 ++ body
  else List.replicate missing 32 ++ sign ++ body

/-- Reads a word as a whole number: decimal, octal after `0`, hexadecimal after `0x`. -/
def wholeNumber? (word : String) : Option Int :=
  let (negative, digits) := Number.Literal.sign word.toList
  let magnitude : Option Nat :=
    match digits with
    | '0' :: 'x' :: rest => (Number.Whole.parseBase 16 rest).toOption
    | '0' :: c :: rest => (Number.Whole.parseBase 8 (c :: rest)).toOption
    | rest => (Number.Whole.parseBase 10 rest).toOption
  magnitude.map fun n => if negative then -(n : Int) else n

/-- The sign that is written before a number. -/
def Slot.sign (slot : Slot) (negative : Bool) : Bytes :=
  if negative then [45]
  else if slot.flags.contains '+' then [43]
  else if slot.flags.contains ' ' then [32]
  else []

/-- The digits of a number, at least as many as the precision. -/
def Slot.digits (slot : Slot) (base n : Nat) : Bytes :=
  let digits := (Nat.toDigits base n).map fun c => UInt8.ofNat c.toNat
  List.replicate (slot.precision.getD 1 - digits.length) 48 ++ digits

/-- What a slot prints for a word, whether the word fits the slot, and whether all printing ends. -/
def Slot.print (slot : Slot) (word : String) : Bytes × Bool × Bool :=
  let cut (bytes : Bytes) : Bytes := slot.precision.elim bytes bytes.take
  let number := if word.isEmpty then some 0 else wholeNumber? word
  let wrapped := ((number.getD 0) % 18446744073709551616).toNat
  match slot.conversion with
  | 's' => (slot.pad [] (cut (Text.Utf8.encode word)) false, true, false)
  | 'b' =>
    let (bytes, stop) := unescape word.toList
    (slot.pad [] (cut bytes) false, true, stop)
  | 'c' => (slot.pad [] ((Text.Utf8.encode word).take 1) false, true, false)
  | 'd' | 'i' =>
    let n := number.getD 0
    (slot.pad (slot.sign (n < 0)) (slot.digits 10 n.natAbs) true, number.isSome, false)
  | 'u' => (slot.pad [] (slot.digits 10 wrapped) true, number.isSome, false)
  | 'o' => (slot.pad [] (slot.digits 8 wrapped) true, number.isSome, false)
  | 'x' => (slot.pad [] (slot.digits 16 wrapped) true, number.isSome, false)
  | 'X' =>
    let upper := (Nat.toDigits 16 wrapped).map fun c => UInt8.ofNat c.toUpper.toNat
    (slot.pad [] upper true, number.isSome, false)
  | 'f' | 'F' =>
    let value := (Binary64.parse (if word.isEmpty then "0" else word)).toOption
    let places := slot.precision.getD 6
    let text := ((value.getD .zero).fixed places).toList
    let text := if places = 0 then text.takeWhile (· != '.') else text
    let (negative, body) := Number.Literal.sign text
    (slot.pad (slot.sign negative) (Text.Utf8.encode (String.ofList body)) true, value.isSome, false)
  | _ => ([], false, true)

/-- Prints a format once: the bytes, the words that are left, whether all words fitted, and whether
printing has ended. -/
def printOnce : List Piece → List String → Bytes × List String × Bool × Bool
  | [], words => ([], words, true, false)
  | .byte b :: rest, words =>
    let (bytes, left, fits, stop) := printOnce rest words
    (b :: bytes, left, fits, stop)
  | .char c :: rest, words =>
    let (bytes, left, fits, stop) := printOnce rest words
    (String.utf8EncodeChar c ++ bytes, left, fits, stop)
  | .slot slot :: rest, words =>
    let (own, ownFits, ownStop) := slot.print (words.head?.getD "")
    if ownStop then (own, [], ownFits, true)
    else
      let (bytes, left, fits, stop) := printOnce rest words.tail
      (own ++ bytes, left, ownFits && fits, stop)

/-- Prints a format again and again until no word is left. -/
def printAll (format : List Piece) : Nat → List String → Bytes × Bool
  | 0, _ => ([], true)
  | fuel + 1, words =>
    let (bytes, left, fits, stop) := printOnce format words
    if stop || left.isEmpty || left.length == words.length then (bytes, fits)
    else
      let (more, moreFits) := printAll format fuel left
      (bytes ++ more, fits && moreFits)

/-- Prints words in a format, and whether all of them fitted their slots. -/
def printf (format : String) (words : List String) : Bytes × Bool :=
  printAll (pieces format.toList) (words.length + 1) words

end TimeTrials.Host.Shell
