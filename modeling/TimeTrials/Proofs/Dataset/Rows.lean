import TimeTrials.Dataset.Reader
import TimeTrials.Dataset.Writer
import TimeTrials.Proofs.Dataset.Records
import TimeTrials.Proofs.Number.Written
import TimeTrials.Proofs.Results
import TimeTrials.Proofs.Text.Utf8

/-!
# Rows

What the reader makes of one record, from both sides.

* `read_eq_ok_iff`: a dataset is read exactly when its header is in order and each record is a row.
* `readTrial_eq_ok_iff`, `readRow_eq_ok_iff`: when a record is a row, and of which trial.
* `kind_and_isValidTime_of_readRow`: every row is a trial that could have been written.
* `readRow_rowRecord`: every valid trial is the row that was written for it.  Each of its three fields
  reads back on its own account: texts by `Text.Utf8`, sizes and times by `Number`.
-/

namespace TimeTrials.Dataset

open Number (Binary64 Style)
open Text (Bytes)

/-! ## What is accepted -/

theorem read_eq_ok_iff {kind : Kind} {bytes : Bytes} {trials : List Trial} :
    read kind bytes = .ok trials ↔
      checkHeader kind (records bytes).head? = .ok () ∧
        List.Forall₂ (fun record trial => readRow kind record = .ok trial)
          (records bytes).tail trials := by
  rw [read, bind_eq_ok_iff, mapM_eq_ok_iff]
  exact ⟨fun ⟨(), h⟩ => h, fun h => ⟨(), h⟩⟩

theorem length_of_texts {place : Place} {fields : Record} {read : List String}
    (h : texts place fields = .ok read) : read.length = fields.length := by
  rw [texts] at h
  split at h
  · cases h
  · rw [← Except.ok.inj h, List.length_map]

/-- A record is a trial exactly when it is three texts, the last two of which are a parameter of the
kind and a number. -/
theorem readTrial_eq_ok_iff {kind : Kind} {record : PlacedRecord} {trial : Trial} :
    readTrial kind record = .ok trial ↔ ∃ param time,
      texts record.place record.fields = .ok [trial.lang, param, time] ∧
        readParam kind param = .ok trial.param ∧ readTime time = .ok trial.time := by
  have hcount : kind.header.length = 3 := rfl
  rw [readTrial]
  split
  · next hlen =>
    constructor
    · intro h
      cases h
    · rintro ⟨param, time, h, -, -⟩
      rw [← length_of_texts h] at hlen
      exact absurd rfl hlen
  · constructor
    · intro h
      obtain ⟨fields, htexts, h⟩ := bind_eq_ok_iff.mp h
      split at h
      · next lang param time =>
        obtain ⟨p, hp, h⟩ := bind_eq_ok_iff.mp h
        obtain ⟨t, ht, h⟩ := bind_eq_ok_iff.mp h
        cases h
        exact ⟨param, time, htexts, mapError_eq_ok_iff.mp hp, mapError_eq_ok_iff.mp ht⟩
      · cases h
    · rintro ⟨param, time, htexts, hp, ht⟩
      refine bind_eq_ok_iff.mpr ⟨_, htexts, ?_⟩
      refine bind_eq_ok_iff.mpr ⟨_, mapError_eq_ok_iff.mpr hp, ?_⟩
      exact bind_eq_ok_iff.mpr ⟨_, mapError_eq_ok_iff.mpr ht, rfl⟩

theorem readRow_eq_ok_iff {kind : Kind} {record : PlacedRecord} {trial : Trial} :
    readRow kind record = .ok trial ↔
      readTrial kind record = .ok trial ∧ isValidTime trial.time = true := by
  rw [readRow, bind_eq_ok_iff]
  constructor
  · rintro ⟨t, ht, h⟩
    split at h
    · next hvalid =>
      cases h
      exact ⟨mapError_eq_ok_iff.mp ht, hvalid⟩
    · cases h
  · rintro ⟨ht, hvalid⟩
    exact ⟨trial, mapError_eq_ok_iff.mpr ht, by rw [if_pos hvalid]; rfl⟩

theorem kind_of_readParam {kind : Kind} {text : String} {param : Param}
    (h : readParam kind text = .ok param) : param.kind = kind := by
  cases kind with
  | benchmarks =>
    cases h
    rfl
  | sizes =>
    rw [readParam] at h
    split at h <;> cases h
    rfl

/-- Every row is a trial of the kind with a valid time. -/
theorem kind_and_isValidTime_of_readRow {kind : Kind} {record : PlacedRecord} {trial : Trial}
    (h : readRow kind record = .ok trial) :
    trial.param.kind = kind ∧ isValidTime trial.time = true := by
  obtain ⟨htrial, hvalid⟩ := readRow_eq_ok_iff.mp h
  obtain ⟨_, _, _, hparam, _⟩ := readTrial_eq_ok_iff.mp htrial
  exact ⟨kind_of_readParam hparam, hvalid⟩

/-! ## What is written is accepted -/

theorem firstNotText?_map_encode (texts : List String) (field : Nat) :
    firstNotText? field (texts.map Text.Utf8.encode) = none := by
  induction texts generalizing field with
  | nil => rfl
  | cons text texts ih =>
    rw [List.map_cons, firstNotText?, Text.Utf8.firstInvalid?_encode]
    exact ih (field + 1)

/-- Encoded texts are read as these texts. -/
theorem texts_map_encode (place : Place) (fields : List String) :
    texts place (fields.map Text.Utf8.encode) = .ok fields := by
  have hid : Text.Utf8.decodeLossy ∘ Text.Utf8.encode = id :=
    funext Text.Utf8.decodeLossy_encode
  rw [texts, firstNotText?_map_encode, List.map_map, hid, List.map_id]

theorem readParam_text (param : Param) : readParam param.kind param.text = .ok param := by
  cases param with
  | benchmark name => rfl
  | size n =>
    have hn : n.toNat < Number.Whole.limit := n.toNat_lt
    rw [Param.kind, Param.text, readParam]
    simp only [Number.Whole.parseEither_toString hn, UInt64.ofNat_toNat]

theorem readTime_write (style : Style) {time : Binary64} (h : time.isFinite = true) :
    readTime (time.write style) = .ok time := by
  rw [readTime, Binary64.parse_write style h]

/-- The fields of a trial's row, as they are written. -/
def rowRecord (trial : Trial) : Record := (rowFields trial).map Text.Utf8.encode

/-- A written row is read as the trial it was made from, wherever it stands. -/
theorem readRow_rowRecord {trial : Trial} (h : isValidTime trial.time = true) (place : Place) :
    readRow trial.param.kind ⟨place, rowRecord trial⟩ = .ok trial := by
  have hfinite : trial.time.isFinite = true := (Bool.and_eq_true_iff.mp h).1
  refine readRow_eq_ok_iff.mpr ⟨readTrial_eq_ok_iff.mpr ?_, h⟩
  exact ⟨_, _, texts_map_encode place (rowFields trial), readParam_text trial.param,
    readTime_write .dataset hfinite⟩

end TimeTrials.Dataset
