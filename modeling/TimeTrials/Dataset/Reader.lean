import TimeTrials.Dataset.Fault
import TimeTrials.Trial

/-!
# Reading a dataset

The first record has to be the header of the expected kind, and every other record a row.  Rows are
taken in order and the first one that is not in order ends the reading.  A record is checked for its
number of fields, then for being text, then field by field from the left, and a row that passes is
checked for its time.
-/

namespace TimeTrials.Dataset

open Number (Binary64)
open Text (Bytes)

/-- The first field that is not text, and where in it. -/
def firstNotText? : Nat → Record → Option (Nat × Nat)
  | _, [] => none
  | field, bytes :: rest =>
    match Text.Utf8.firstInvalid? bytes with
    | some index => some (field, index)
    | none => firstNotText? (field + 1) rest

/-- The fields of a record as texts. -/
def texts (place : Place) (fields : Record) : Except RecordFault (List String) :=
  match firstNotText? 0 fields with
  | some (field, index) => .error (.notText place field index)
  | none => .ok (fields.map Text.Utf8.decodeLossy)

/-- The parameter in the second column. -/
def readParam (kind : Kind) (text : String) : Except FieldFault Param :=
  match kind with
  | .benchmarks => .ok (.benchmark text)
  | .sizes =>
    match Number.Whole.parseEither text with
    | .ok n => .ok (.size (.ofNat n))
    | .error fault => .error (.whole fault)

/-- The time in the third column, valid or not. -/
def readTime (text : String) : Except FieldFault Binary64 :=
  match Binary64.parse text with
  | .ok time => .ok time
  | .error fault => .error (.literal fault)

/-- The trial in a record, whether or not its time is valid. -/
def readTrial (kind : Kind) (record : PlacedRecord) : Except RecordFault Trial := do
  let place := record.place
  if record.fields.length ≠ kind.header.length then
    throw (.fieldCount place record.fields.length kind.header.length)
  match ← texts place record.fields with
  | [lang, param, time] =>
    let param ← (readParam kind param).mapError (.badField place 1)
    let time ← (readTime time).mapError (.badField place 2)
    return ⟨lang, param, time⟩
  | fields => throw (.fieldCount place fields.length kind.header.length)

/-- The trial in a record. -/
def readRow (kind : Kind) (record : PlacedRecord) : Except Fault Trial := do
  let trial ← (readTrial kind record).mapError (.row kind.layout)
  if isValidTime trial.time then return trial
  else throw (.time record.place.line trial.time)

/-- Checks the first record against the header of the kind.  Without any record there are no
columns. -/
def checkHeader (kind : Kind) (header : Option PlacedRecord) : Except Fault Unit := do
  let columns ←
    match header with
    | none => pure []
    | some record => (texts record.place record.fields).mapError .unreadableHeader
  if columns = kind.header then return ()
  else throw (.header kind.layout (",".intercalate columns))

/-- The trials of a dataset of the given kind. -/
def read (kind : Kind) (bytes : Bytes) : Except Fault (List Trial) := do
  let all := records bytes
  checkHeader kind all.head?
  all.tail.mapM (readRow kind)

end TimeTrials.Dataset
