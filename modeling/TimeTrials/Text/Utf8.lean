/-!
# Text as bytes

Datasets and program output arrive as bytes.  They are taken apart into chunks, each of which is one
character or the longest beginning of one that cannot be completed.  Three readings follow from the
one division: strict decoding wants every chunk to be a character, lossy decoding puts a replacement
character for each of the others, and `firstInvalid?` is where the first of them starts.
-/

namespace TimeTrials.Text

/-- A sequence of bytes: the content of a file or what a program has printed. -/
abbrev Bytes := List UInt8

namespace Utf8

/-- The bytes of a text. -/
def encode (text : String) : Bytes := text.toList.flatMap String.utf8EncodeChar

/-- One step of decoding: a character, or bytes that begin none, and how many bytes it takes up. -/
structure Chunk where
  char? : Option Char
  size : Nat
  deriving DecidableEq

/-- Whether a byte continues a character. -/
def isTail (b : UInt8) : Bool := 0x80 ≤ b && b ≤ 0xbf

/-- The six payload bits of a byte that continues a character. -/
def payload (b : UInt8) : Nat := b.toNat % 64

/-- What a leading byte asks for: how many bytes follow, and the bounds of the first of them, which
rule out overlong forms, surrogates and values past the last code point. -/
structure Lead where
  tails : Nat
  low : UInt8
  high : UInt8
  deriving DecidableEq

/-- The leading bytes of characters of more than one byte. -/
def lead? (b : UInt8) : Option Lead :=
  if 0xc2 ≤ b && b ≤ 0xdf then some ⟨1, 0x80, 0xbf⟩
  else if b == 0xe0 then some ⟨2, 0xa0, 0xbf⟩
  else if b == 0xed then some ⟨2, 0x80, 0x9f⟩
  else if 0xe1 ≤ b && b ≤ 0xef then some ⟨2, 0x80, 0xbf⟩
  else if b == 0xf0 then some ⟨3, 0x90, 0xbf⟩
  else if 0xf1 ≤ b && b ≤ 0xf3 then some ⟨3, 0x80, 0xbf⟩
  else if b == 0xf4 then some ⟨3, 0x80, 0x8f⟩
  else none

/-- The bits that a leading byte contributes. -/
def leadBits (tails : Nat) (b : UInt8) : Nat := b.toNat % Nat.pow 2 (6 - tails)

/-- Reads the bytes that continue a character, `size` bytes and the value `bits` having been read. -/
def readTails : Nat → Nat → Nat → Bytes → Chunk
  | 0, size, bits, _ => ⟨some (Char.ofNat bits), size⟩
  | _ + 1, size, _, [] => ⟨none, size⟩
  | tails + 1, size, bits, b :: rest =>
    if isTail b then readTails tails (size + 1) (bits * 64 + payload b) rest else ⟨none, size⟩

/-- The chunk that starts with byte `b`. -/
def chunk (b : UInt8) (rest : Bytes) : Chunk :=
  if b < 0x80 then ⟨some (Char.ofNat b.toNat), 1⟩
  else
    match lead? b, rest with
    | some lead, b' :: rest' =>
      if lead.low ≤ b' && b' ≤ lead.high then
        readTails (lead.tails - 1) 2 (leadBits lead.tails b * 64 + payload b') rest'
      else ⟨none, 1⟩
    | _, _ => ⟨none, 1⟩

/-- The chunks of a byte sequence. -/
def chunks : Bytes → List Chunk
  | [] => []
  | b :: rest =>
    let c := chunk b rest
    c :: chunks (rest.drop (c.size - 1))
termination_by bytes => bytes.length
decreasing_by simp only [List.length_drop, List.length_cons]; omega

/-- The text that the bytes encode, if they encode one. -/
def decode? (bytes : Bytes) : Option String :=
  ((chunks bytes).mapM Chunk.char?).map String.ofList

/-- The text of the bytes, with a replacement character for every chunk that is no character. -/
def decodeLossy (bytes : Bytes) : String :=
  String.ofList ((chunks bytes).map fun c => c.char?.getD '\ufffd')

/-- Where the first chunk that is no character starts. -/
def firstInvalid? (bytes : Bytes) : Option Nat :=
  let parts := chunks bytes
  let valid := parts.takeWhile fun c => c.char?.isSome
  if valid.length = parts.length then none else some (valid.foldl (fun n c => n + c.size) 0)

end Utf8
end TimeTrials.Text
