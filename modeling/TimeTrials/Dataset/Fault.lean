import TimeTrials.Dataset.Record
import TimeTrials.Number.Literal
import TimeTrials.Number.Style
import TimeTrials.Text.Quoted

/-!
# What can be wrong with a dataset

The faults of a dataset, from its header to the value of a time, and their wording.  Each fault of a
record says where the record is.
-/

namespace TimeTrials.Dataset

open Number (Binary64 LiteralFault WholeFault Style)

/-- Why the text of a field is no value of its column. -/
inductive FieldFault where
  | whole (fault : WholeFault)
  | literal (fault : LiteralFault)
  deriving DecidableEq

/-- The wording of a field's fault. -/
def FieldFault.message : FieldFault → String
  | .whole fault => fault.message
  | .literal fault => fault.message

/-- Why a record is no row. -/
inductive RecordFault where
  /-- It has `found` fields and the header has `expected`. -/
  | fieldCount (place : Place) (found expected : Nat)
  /-- A field is not UTF-8 text, from byte `index` of it on. -/
  | notText (place : Place) (field index : Nat)
  /-- A field is no value of its column. -/
  | badField (place : Place) (field : Nat) (fault : FieldFault)
  deriving DecidableEq

/-- The wording of a record's fault. -/
def RecordFault.message : RecordFault → String
  | .fieldCount ⟨record, line, byte⟩ found expected =>
    s!"CSV error: record {record} (line: {line}, byte: {byte}): found record with {found} fields, "
      ++ s!"but the previous record has {expected} fields"
  | .notText ⟨record, line, byte⟩ field index =>
    s!"CSV parse error: record {record} (line {line}, field: {field}, byte: {byte}): "
      ++ s!"invalid utf-8: invalid UTF-8 in field {field} near byte index {index}"
  | .badField ⟨record, line, byte⟩ field fault =>
    s!"CSV deserialize error: record {record} (line: {line}, byte: {byte}): field {field}: "
      ++ fault.message

/-- Why bytes are no dataset, or a trial does not belong in one. -/
inductive Fault where
  /-- The header is not UTF-8 text. -/
  | unreadableHeader (fault : RecordFault)
  /-- The columns are not the ones of the kind. -/
  | header (expected found : String)
  /-- A record is no row of the layout. -/
  | row (layout : String) (fault : RecordFault)
  /-- A row has a time that no trial can have. -/
  | time (line : Nat) (value : Binary64)
  deriving DecidableEq

namespace Fault

/-- The wording of a fault. -/
def message : Fault → String
  | .unreadableHeader fault => fault.message
  | .header expected found =>
    "expected header " ++ Text.quoted expected ++ ", found " ++ Text.quoted found
  | .row layout _ => "row does not match the " ++ Text.quoted layout ++ " layout"
  | .time line value =>
    s!"line {line}: expected a non-negative finite time, found " ++ value.write .message

/-- What lies behind a fault. -/
def reasons : Fault → List String
  | .row _ fault => [fault.message]
  | _ => []

end Fault
end TimeTrials.Dataset
