import TimeTrials.Dataset.Reader
import TimeTrials.Dataset.Writer
import TimeTrials.Failure
import TimeTrials.Host.FileSystem

/-!
# Datasets in files

A dataset that is written to a file goes there row by row, so that a sweep that ends early leaves a
readable dataset behind.  Making a dataset empties the file at its path first.
-/

namespace TimeTrials.Dataset

open Host (FileSystem)

/-- A dataset that is being written to a file. -/
structure Open where
  writer : Writer
  handle : FileSystem.Handle
  deriving DecidableEq

/-- Makes a dataset at a path and writes its header. -/
def create (fs : FileSystem) (path : String) (kind : Kind) : Except Failure (FileSystem × Open) := do
  let (fs, handle) ← (fs.create path).mapError fun fault => ⟨[.createFile path], .system fault⟩
  let writer := Writer.new kind
  let (fs, handle) ←
    (fs.write handle writer.sink).mapError fun fault => ⟨[.flush], .system fault⟩
  return (fs, ⟨writer, handle⟩)

namespace Open

/-- Brings the file up to date with a writer that has gone on from the one it was last written by. -/
def update (fs : FileSystem) (dataset : Open) (writer : Writer) :
    Except Failure (FileSystem × Open) := do
  let (fs, handle) ←
    (fs.write dataset.handle (writer.since dataset.writer)).mapError fun fault => ⟨[.flush], .system fault⟩
  return (fs, ⟨writer, handle⟩)

/-- Writes a trial to the file. -/
def write (fs : FileSystem) (dataset : Open) (trial : Trial) :
    Except Failure (FileSystem × Open) := do
  let writer ← (dataset.writer.write trial).mapError fun fault => .of (.dataset fault)
  dataset.update fs writer

end Open

/-- Reads a dataset whose file has been opened. -/
def readEntry (kind : Kind) (entry : Host.Entry) : Except Failure (List Trial) := do
  let bytes ← entry.content.mapError fun fault => ⟨[.readHeader], .system fault⟩
  (read kind bytes).mapError .ofDataset

/-- Reads the dataset at a path. -/
def load (fs : FileSystem) (path : String) (kind : Kind) : Except Failure (List Trial) := do
  let entry ← (fs.open? path).mapError fun fault => ⟨[.openFile path], .system fault⟩
  during (.readFile path) (readEntry kind entry)

end TimeTrials.Dataset
