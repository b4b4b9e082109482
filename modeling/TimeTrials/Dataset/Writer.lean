import TimeTrials.Dataset.Fault
import TimeTrials.Trial

/-!
# Writing a dataset

A writer holds what has been written so far: the header, and a row for every trial it has accepted.
It takes trials of its own kind and of any time; a trial of the other kind is refused and leaves the
writer as it was.
-/

namespace TimeTrials.Dataset

open Text (Bytes)

/-- The fields of a trial's row. -/
def rowFields (trial : Trial) : List String :=
  [trial.lang, trial.param.text, trial.time.write .dataset]

/-- A record of texts. -/
def encodeTexts (fields : List String) : Bytes := encodeRecord (fields.map Text.Utf8.encode)

/-- The row of a trial. -/
def encodeTrial (trial : Trial) : Bytes := encodeTexts (rowFields trial)

/-- The header row of a kind. -/
def encodeHeader (kind : Kind) : Bytes := encodeTexts kind.header

/-- A dataset in the making. -/
structure Writer where
  kind : Kind
  /-- How many trials have been written. -/
  rows : Nat
  /-- The pieces that have been written, the last one first. -/
  pieces : List Bytes
  deriving DecidableEq

namespace Writer

/-- All that has been written. -/
def sink (writer : Writer) : Bytes := writer.pieces.reverse.flatten

/-- A dataset with its header and no rows. -/
def new (kind : Kind) : Writer := ⟨kind, 0, [encodeHeader kind]⟩

/-- The sink of a dataset without rows is its header. -/
@[simp] theorem sink_new (kind : Kind) : (new kind).sink = encodeHeader kind := by
  simp [sink, new]

/-- Writes a piece. -/
def append (writer : Writer) (piece : Bytes) : Writer :=
  { writer with pieces := piece :: writer.pieces }

/-- A piece goes to the end of the sink. -/
@[simp] theorem sink_append (writer : Writer) (piece : Bytes) :
    (writer.append piece).sink = writer.sink ++ piece := by
  simp [sink, append]

/-- What a writer has written beyond another one that it has gone on from. -/
def since (writer before : Writer) : Bytes :=
  (writer.pieces.take (writer.pieces.length - before.pieces.length)).reverse.flatten

/-- Appends the row of a trial. -/
def write (writer : Writer) (trial : Trial) : Except Fault Writer :=
  if trial.param.kind = writer.kind then
    .ok { writer.append (encodeTrial trial) with rows := writer.rows + 1 }
  else .error (.header writer.kind.column trial.param.kind.column)

end Writer
end TimeTrials.Dataset
