import TimeTrials.Proofs.Dataset.Rows
import TimeTrials.Proofs.Dataset.Writing

/-!
# Written datasets read back

A dataset is a header record and row records, and both sides are known by now: `Records` says which
records are read from what has been written, `Rows` what is made of each of them, and `Writing` what a
sink holds after any number of writes.

* `read_encodeHeader_append`: the header alone decides that a dataset is of the other kind.
* `read_sink_withRows`: a header and rows of valid trials are read as these trials.
* `forall_mem_of_read`: no other trials are ever read.
* `read_writeAll_new`: the round trip, in both directions, and at every point of the writing.
-/

namespace TimeTrials.Dataset

open Text (Bytes)

/-! ## The records of a written dataset -/

/-- The header, as it is written. -/
def headerRecord (kind : Kind) : Record := kind.header.map Text.Utf8.encode

theorem isVisible_headerRecord (kind : Kind) : IsVisible (headerRecord kind) :=
  isVisible_of_length (by cases kind <;> decide)

theorem isVisible_rowRecord (trial : Trial) : IsVisible (rowRecord trial) :=
  isVisible_of_length (by simp [rowRecord, rowFields])

/-- A header starts with a letter, and so not with a mark. -/
theorem withoutMark_encodeHeader_append (kind : Kind) (rest : Bytes) :
    withoutMark (encodeHeader kind ++ rest) = encodeHeader kind ++ rest := by
  cases kind <;> rfl

theorem records_encodeHeader_append (kind : Kind) (rest : Bytes) : ∃ place,
    records (encodeHeader kind ++ rest) = ⟨.start, headerRecord kind⟩ :: recordsFrom place rest :=
  records_encodeRecord_append (isVisible_headerRecord kind)
    (withoutMark_encodeHeader_append kind rest)

/-! ## Headers -/

theorem checkHeader_map_encode (kind : Kind) (place : Place) (columns : List String) :
    checkHeader kind (some ⟨place, columns.map Text.Utf8.encode⟩) =
      if columns = kind.header then .ok ()
      else .error (.header kind.layout (",".intercalate columns)) := by
  rw [checkHeader]
  simp only [texts_map_encode]
  rfl

theorem header_injective : Function.Injective Kind.header := by
  intro a b h
  cases a <;> cases b <;> first | rfl | exact absurd h (by decide)

/-- A dataset that starts with the header of another kind is refused by its header, whatever
follows. -/
theorem read_encodeHeader_append {kind other : Kind} (h : other ≠ kind) (rest : Bytes) :
    read other (encodeHeader kind ++ rest) = .error (.header other.layout kind.layout) := by
  obtain ⟨place, hrecords⟩ := records_encodeHeader_append kind rest
  have hne : kind.header ≠ other.header := fun heq => h (header_injective heq).symm
  rw [read, hrecords, List.head?_cons, headerRecord, checkHeader_map_encode, if_neg hne]
  rfl

/-! ## Rows -/

/-- Rows that are written one after the other are read one after the other. -/
theorem forall₂_readRow_recordsFrom {kind : Kind} {trials : List Trial}
    (h : ∀ trial ∈ trials, trial.param.kind = kind ∧ isValidTime trial.time = true)
    (place : Place) :
    List.Forall₂ (fun record trial => readRow kind record = .ok trial)
      (recordsFrom place (trials.flatMap encodeTrial)) trials := by
  have hvisible : ∀ record ∈ trials.map rowRecord, IsVisible record := by
    intro record hrecord
    obtain ⟨trial, -, rfl⟩ := List.mem_map.mp hrecord
    exact isVisible_rowRecord trial
  have hfields := map_fields_recordsFrom hvisible place
  rw [List.flatMap_map] at hfields
  have hrel : List.Forall₂ (fun trial record => rowRecord trial = record.fields) trials
      (recordsFrom place (trials.flatMap encodeTrial)) := by
    refine List.forall₂_map_left_iff.mp (List.forall₂_map_right_iff.mp ?_)
    rw [List.forall₂_eq_eq_eq]
    exact hfields.symm
  refine (((List.forall₂_and_left _ _).mpr ⟨h, hrel⟩).imp ?_).flip
  rintro trial ⟨at_, fields⟩ ⟨⟨rfl, hvalid⟩, hrow⟩
  dsimp only at hrow
  rw [← hrow]
  exact readRow_rowRecord hvalid at_

/-- What has been written with a header and rows reads back. -/
theorem read_sink_withRows {kind : Kind} {trials : List Trial}
    (h : ∀ trial ∈ trials, trial.param.kind = kind ∧ isValidTime trial.time = true) :
    read kind ((Writer.new kind).withRows trials).sink = .ok trials := by
  obtain ⟨place, hrecords⟩ := records_encodeHeader_append kind (trials.flatMap encodeTrial)
  rw [Writer.sink_withRows, Writer.sink_new, read_eq_ok_iff, hrecords, List.head?_cons, headerRecord,
    checkHeader_map_encode, if_pos rfl]
  exact ⟨rfl, forall₂_readRow_recordsFrom h place⟩

/-- Every dataset that is read holds trials of its kind only, with valid times. -/
theorem forall_mem_of_read {kind : Kind} {bytes : Bytes} {trials : List Trial}
    (h : read kind bytes = .ok trials) :
    ∀ trial ∈ trials, trial.param.kind = kind ∧ isValidTime trial.time = true := by
  have hrows := (read_eq_ok_iff.mp h).2
  intro trial htrial
  obtain ⟨i, hi, rfl⟩ := List.getElem_of_mem htrial
  have hi' : i < (records bytes).tail.length := by rwa [hrows.length_eq]
  exact kind_and_isValidTime_of_readRow (hrows.get hi' hi)

/-- **Round trip.**  Valid trials of one kind are all written, and after any number of them the sink
reads back as exactly these, in order, whatever characters the names are made of.  So a dataset that is
read at all reads the same when its trials are written anew; and a dataset that is written is refused
as one of the other kind, by its header. -/
theorem read_writeAll_new (kind : Kind) :
    (∀ trials : List Trial,
      (∀ trial ∈ trials, trial.param.kind = kind ∧ isValidTime trial.time = true) →
        ∀ k, ∃ writer, (Writer.new kind).writeAll (trials.take k) = .ok writer ∧
          read kind writer.sink = .ok (trials.take k)) ∧
    (∀ bytes trials, read kind bytes = .ok trials →
      ∃ writer, (Writer.new kind).writeAll trials = .ok writer ∧
        read kind writer.sink = .ok trials) ∧
    (∀ trials writer other, (Writer.new kind).writeAll trials = .ok writer → other ≠ kind →
      read other writer.sink = .error (.header other.layout kind.layout)) := by
  have written : ∀ trials : List Trial,
      (∀ trial ∈ trials, trial.param.kind = kind ∧ isValidTime trial.time = true) →
        ∃ writer, (Writer.new kind).writeAll trials = .ok writer ∧
          read kind writer.sink = .ok trials := by
    intro trials h
    refine ⟨_, Writer.writeAll_eq_ok_iff.mpr ⟨fun trial ht => (h trial ht).1, rfl⟩, ?_⟩
    exact read_sink_withRows h
  refine ⟨?_, ?_, ?_⟩
  · intro trials h k
    exact written (trials.take k) fun trial ht => h trial (List.mem_of_mem_take ht)
  · intro bytes trials h
    exact written trials (forall_mem_of_read h)
  · intro trials writer other h hother
    obtain ⟨-, rfl⟩ := Writer.writeAll_eq_ok_iff.mp h
    rw [Writer.sink_withRows, Writer.sink_new]
    exact read_encodeHeader_append hother _

/-- Names with separators, quotes and line ends in them, an empty one, and a time of negative zero. -/
theorem read_writeAll_quoted_names : ∃ writer,
    (Writer.new .benchmarks).writeAll [⟨"a,\"b\"\r\n", .benchmark "", .negativeZero⟩,
      ⟨" é", .benchmark "\n\"", .zero⟩] = .ok writer ∧
    read .benchmarks writer.sink = .ok [⟨"a,\"b\"\r\n", .benchmark "", .negativeZero⟩,
      ⟨" é", .benchmark "\n\"", .zero⟩] ∧
    read .sizes writer.sink = .error (.header "lang,n,time" "lang,benchmark,time") := by
  obtain ⟨hwritten, -, hother⟩ := read_writeAll_new .benchmarks
  obtain ⟨writer, hwriter, hread⟩ := hwritten [⟨"a,\"b\"\r\n", .benchmark "", .negativeZero⟩,
    ⟨" é", .benchmark "\n\"", .zero⟩] (by decide) 2
  exact ⟨writer, hwriter, hread, hother _ writer .sizes hwriter (by decide)⟩

end TimeTrials.Dataset
