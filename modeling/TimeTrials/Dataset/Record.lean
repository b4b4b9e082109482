import TimeTrials.Text.Utf8

/-!
# Records

A dataset is a sequence of records, and a record a list of fields.  Fields are divided by commas and
records ended by line ends.  A field that holds a comma, a quote or a line end is written between
quotes, and a quote inside it is written twice.

## Reading is more liberal than writing

The reader takes either line-end byte as the end of a record and skips line ends at the start of one,
so blank lines vanish and both common line ends work.  A quote has a meaning only at the start of a
field.  Between quotes everything else is content.  Text after the closing quote belongs to the field
and is taken literally.  The end of the input ends whatever is open.

## Places

A place is where the reader stands before it begins a record: just after the byte that ended the
record before.  Line ends that are skipped at the start of a record therefore lie behind its place,
and so does the second byte of a two-byte line end.
-/

namespace TimeTrials.Dataset

open Text (Bytes)

/-- The byte between two fields. -/
def comma : UInt8 := 0x2c

/-- The byte around a field that needs it. -/
def quote : UInt8 := 0x22

/-- The byte after a written record. -/
def lineFeed : UInt8 := 0x0a

/-- The other byte that ends a record when read. -/
def carriageReturn : UInt8 := 0x0d

/-- Whether a byte ends a record. -/
def isLineEnd (b : UInt8) : Bool := b == lineFeed || b == carriageReturn

/-- A record, as the bytes of its fields. -/
abbrev Record := List Bytes

/-! ## Writing -/

/-- Whether a field cannot be written as it is. -/
def needsQuotes (field : Bytes) : Bool :=
  field.any fun b => b == comma || b == quote || isLineEnd b

/-- The content of a quoted field: quotes are doubled. -/
def escape (field : Bytes) : Bytes :=
  field.flatMap fun b => if b == quote then [quote, quote] else [b]

/-- A field as it is written. -/
def encodeField (field : Bytes) : Bytes :=
  if needsQuotes field then quote :: escape field ++ [quote] else field

/-- The fields of a record with commas between them. -/
def encodeFields : Record → Bytes
  | [] => []
  | [field] => encodeField field
  | field :: rest => encodeField field ++ comma :: encodeFields rest

/-- A record with its line end. -/
def encodeRecord (record : Record) : Bytes := encodeFields record ++ [lineFeed]

/-! ## Reading -/

/-- What came after a field. -/
inductive Stop where
  | comma
  | recordEnd
  deriving DecidableEq

/-- A field that has been read, what came after it, and what is left. -/
structure FieldRead where
  field : Bytes
  stop : Stop
  rest : Bytes

/-- The same with one more byte in front of the field. -/
def FieldRead.push (b : UInt8) (r : FieldRead) : FieldRead := { r with field := b :: r.field }

/-- Reads up to the next comma or line end. -/
def plainField : Bytes → FieldRead
  | [] => ⟨[], .recordEnd, []⟩
  | b :: rest =>
    if b == comma then ⟨[], .comma, rest⟩
    else if isLineEnd b then ⟨[], .recordEnd, rest⟩
    else (plainField rest).push b

/-- Reads up to the closing quote, and then on as in a plain field. -/
def quotedField : Bytes → FieldRead
  | [] => ⟨[], .recordEnd, []⟩
  | [b] => if b == quote then plainField [] else ⟨[b], .recordEnd, []⟩
  | b :: b' :: rest =>
    if b == quote then
      if b' == quote then (quotedField rest).push quote else plainField (b' :: rest)
    else (quotedField (b' :: rest)).push b

/-- Reads one field. -/
def readField : Bytes → FieldRead
  | [] => ⟨[], .recordEnd, []⟩
  | b :: rest => if b == quote then quotedField rest else plainField (b :: rest)

theorem length_rest_plainField (bytes : Bytes) :
    (plainField bytes).rest.length ≤ bytes.length ∧
      ((plainField bytes).stop = .comma → (plainField bytes).rest.length < bytes.length) := by
  fun_induction plainField bytes <;> simp_all [FieldRead.push]
  omega

theorem length_rest_quotedField (bytes : Bytes) :
    (quotedField bytes).rest.length ≤ bytes.length ∧
      ((quotedField bytes).stop = .comma → (quotedField bytes).rest.length < bytes.length) := by
  fun_induction quotedField bytes with
  | case1 => simp
  | case2 => simp [plainField]
  | case3 => simp
  | case4 b b' rest _ _ ih =>
    obtain ⟨le, lt⟩ := ih
    exact ⟨by simp [FieldRead.push]; omega, fun h => by have := lt h; simp [FieldRead.push]; omega⟩
  | case5 b b' rest =>
    obtain ⟨le, lt⟩ := length_rest_plainField (b' :: rest)
    simp only [List.length_cons] at le lt ⊢
    exact ⟨by omega, fun h => by have := lt h; omega⟩
  | case6 b b' rest _ ih =>
    obtain ⟨le, lt⟩ := ih
    simp only [List.length_cons, FieldRead.push] at le lt ⊢
    exact ⟨by omega, fun h => by have := lt h; omega⟩

theorem length_rest_readField (bytes : Bytes) :
    (readField bytes).rest.length ≤ bytes.length ∧
      ((readField bytes).stop = .comma → (readField bytes).rest.length < bytes.length) := by
  unfold readField
  split
  · simp
  · next b rest =>
    split
    · obtain ⟨le, lt⟩ := length_rest_quotedField rest
      simp only [List.length_cons]
      exact ⟨by omega, fun h => by have := lt h; omega⟩
    · exact length_rest_plainField (b :: rest)

/-- Reads the fields of one record, and what is left after it. -/
def readFields (bytes : Bytes) : Record × Bytes :=
  let r := readField bytes
  match _h : r.stop with
  | .recordEnd => ([r.field], r.rest)
  | .comma =>
    let (fields, rest) := readFields r.rest
    (r.field :: fields, rest)
termination_by bytes.length
decreasing_by exact (length_rest_readField bytes).2 (by assumption)

theorem length_readFields_le (bytes : Bytes) : (readFields bytes).2.length ≤ bytes.length := by
  fun_induction readFields bytes with
  | case1 bytes r h => exact (length_rest_readField bytes).1
  | case2 bytes r h fields rest eq ih =>
    have := (length_rest_readField bytes).2 h
    simp only [eq] at ih
    exact Nat.le_of_lt (Nat.lt_of_le_of_lt ih this)

/-- Reading a record that is there takes at least one byte. -/
theorem length_readFields_lt {bytes : Bytes} (h : bytes ≠ []) :
    (readFields bytes).2.length < bytes.length := by
  have first : (readField bytes).rest.length < bytes.length := by
    obtain ⟨b, rest, rfl⟩ := List.exists_cons_of_ne_nil h
    unfold readField
    dsimp only
    split
    · exact Nat.lt_of_le_of_lt (length_rest_quotedField rest).1 (by simp)
    · unfold plainField
      split
      · simp
      · split
        · simp
        · exact Nat.lt_of_le_of_lt (length_rest_plainField rest).1 (by simp)
  unfold readFields
  dsimp only
  split
  · exact first
  · exact Nat.lt_of_le_of_lt (length_readFields_le _) first

/-- The next record and what is left after it; none if only line ends are left. -/
def nextRecord? (bytes : Bytes) : Option (Record × Bytes) :=
  match bytes.dropWhile isLineEnd with
  | [] => none
  | start => some (readFields start)

theorem length_of_nextRecord? {bytes rest : Bytes} {record : Record}
    (h : nextRecord? bytes = some (record, rest)) : rest.length < bytes.length := by
  unfold nextRecord? at h
  split at h
  · contradiction
  · next ne =>
    simp only [Option.some.injEq] at h
    have lt := length_readFields_lt ne
    rw [h] at lt
    exact Nat.lt_of_lt_of_le lt (List.dropWhile_suffix isLineEnd).length_le

/-! ## Places -/

/-- Where the reader stands before a record. -/
structure Place where
  /-- How many records came before; the header is record `0`. -/
  record : Nat
  /-- One more than the line feeds before. -/
  line : Nat
  /-- How many bytes came before. -/
  byte : Nat
  deriving DecidableEq, Repr

/-- The place before the first record. -/
def Place.start : Place := ⟨0, 1, 0⟩

/-- The place after a record was read from `bytes` and `rest` was left. -/
def Place.advance (place : Place) (bytes rest : Bytes) : Place :=
  let used := bytes.take (bytes.length - rest.length)
  ⟨place.record + 1, place.line + used.count lineFeed, place.byte + used.length⟩

/-- A record with its place. -/
structure PlacedRecord where
  place : Place
  fields : Record

/-- The records from a place on. -/
def recordsFrom (place : Place) (bytes : Bytes) : List PlacedRecord :=
  match _h : nextRecord? bytes with
  | none => []
  | some (fields, rest) => ⟨place, fields⟩ :: recordsFrom (place.advance bytes rest) rest
termination_by bytes.length
decreasing_by exact length_of_nextRecord? (by assumption)

/-- The mark that may stand in front of a text to say that it is UTF-8. -/
def byteOrderMark : Bytes := [0xef, 0xbb, 0xbf]

/-- The bytes without a mark in front. -/
def withoutMark (bytes : Bytes) : Bytes :=
  if byteOrderMark.isPrefixOf bytes then bytes.drop 3 else bytes

/-- All records.  The mark is not part of the first one, but its bytes count for the places after. -/
def records (bytes : Bytes) : List PlacedRecord :=
  match nextRecord? (withoutMark bytes) with
  | none => []
  | some (fields, rest) => ⟨.start, fields⟩ :: recordsFrom (Place.start.advance bytes rest) rest

end TimeTrials.Dataset
