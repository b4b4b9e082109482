import TimeTrials.Proofs.Dataset.RoundTrip
import TimeTrials.Proofs.Dataset.Stages
import TimeTrials.Proofs.Number.Grammar

/-!
# The first defect

What a dataset is, and what is wrong with a text that is none, said about its layout.

* `IsRow`: a record that is a row of a kind, by the grammars of its fields.
* `Misfit`: what can be wrong with a record that is no row.  Its parts are looked at in a fixed order,
  and each fault excludes the ones before it.
* `Offends`: what is wrong with the first record that is out of order, given that all records before it
  are in order.
* `readTrial_eq_ok_iff_isRow`, `readTrial_eq_error_iff`, `readRow_eq_error_iff`: one record.
* `read_eq_ok_iff_layout`, `read_eq_error_iff`: all records.
* `read_of_layout`: so a text is read exactly when its records are a header and valid rows, and otherwise
  the first of its records that is not decides the fault, whatever stands behind the line end of it.
-/

namespace TimeTrials.Dataset

open Number (Binary64 Literal LiteralText WholeText)
open Text (Bytes)

/-! ## Rows -/

/-- The bytes of a record of texts. -/
def recordOf (texts : List String) : Record := texts.map Text.Utf8.encode

/-- A record that is a row of a kind, and the trial that it stands for; its time can be any number. -/
inductive IsRow : Kind → Record → Trial → Prop
  | size {lang n time : String} {value : Nat} {literal : Literal} (hn : WholeText n.toList value)
      (htime : LiteralText time.toList literal) :
      IsRow .sizes (recordOf [lang, n, time]) ⟨lang, .size (.ofNat value), literal.toBinary64⟩
  | benchmark {lang name time : String} {literal : Literal}
      (htime : LiteralText time.toList literal) :
      IsRow .benchmarks (recordOf [lang, name, time])
        ⟨lang, .benchmark name, literal.toBinary64⟩

/-- A row with a time that a trial can have. -/
def IsValidRow (kind : Kind) (fields : Record) (trial : Trial) : Prop :=
  IsRow kind fields trial ∧ isValidTime trial.time = true

/-- What is wrong with a record that is no row. -/
inductive Misfit (kind : Kind) (place : Place) : Record → RecordFault → Prop
  | fieldCount {fields : Record} (h : fields.length ≠ 3) :
      Misfit kind place fields (.fieldCount place fields.length 3)
  | notText {before : List String} {field : Bytes} {after : Record} {index : Nat}
      (hcount : (recordOf before ++ field :: after).length = 3)
      (h : Text.Utf8.firstInvalid? field = some index) :
      Misfit kind place (recordOf before ++ field :: after) (.notText place before.length index)
  | badSize {lang n time : String} {fault : Number.WholeFault} (hkind : kind = .sizes)
      (h : Number.Whole.parseEither n = .error fault) :
      Misfit kind place (recordOf [lang, n, time]) (.badField place 1 (.whole fault))
  | badTime {lang param time : String} {fault : Number.LiteralFault}
      (hparam : kind = .sizes → ∃ value, WholeText param.toList value)
      (h : Literal.parse time = .error fault) :
      Misfit kind place (recordOf [lang, param, time]) (.badField place 2 (.literal fault))

theorem exists_recordOf_iff {fields : Record} :
    (∃ texts, fields = recordOf texts) ↔ ∀ field ∈ fields, ∃ text, field = Text.Utf8.encode text := by
  induction fields with
  | nil => exact iff_of_true ⟨[], rfl⟩ (by simp)
  | cons field fields ih =>
    rw [List.forall_mem_cons, ← ih]
    constructor
    · rintro ⟨texts, h⟩
      cases texts with
      | nil => cases h
      | cons text texts =>
        obtain ⟨rfl, rfl⟩ := List.cons.inj h
        exact ⟨⟨text, rfl⟩, texts, rfl⟩
    · rintro ⟨⟨text, rfl⟩, texts, rfl⟩
      exact ⟨text :: texts, rfl⟩

/-- The texts of a record are read when it is made of texts. -/
theorem texts_eq_ok_iff {place : Place} {fields : Record} {read : List String} :
    texts place fields = .ok read ↔ fields = recordOf read := by
  constructor
  · intro h
    obtain ⟨texts', rfl⟩ := exists_recordOf_iff.mpr (exists_texts_iff.mp ⟨read, h⟩)
    rw [recordOf, texts_map_encode] at h
    rw [Except.ok.inj h]
  · rintro rfl
    exact texts_map_encode place read

theorem firstNotText?_eq_some_iff {fields : Record} {n i index : Nat} :
    firstNotText? n fields = some (i, index) ↔ ∃ before field after,
      fields = recordOf before ++ field :: after ∧ i = n + before.length ∧
        Text.Utf8.firstInvalid? field = some index := by
  induction fields generalizing n with
  | nil =>
    refine iff_of_false (by simp [firstNotText?]) ?_
    rintro ⟨before, field, after, h, -⟩
    exact absurd h (by simp)
  | cons field fields ih =>
    rw [firstNotText?]
    cases hfirst : Text.Utf8.firstInvalid? field with
    | some index' =>
      constructor
      · intro h
        cases h
        exact ⟨[], field, fields, rfl, rfl, hfirst⟩
      · rintro ⟨before, field', after, heq, rfl, hindex⟩
        cases before with
        | nil =>
          obtain ⟨rfl, -⟩ := List.cons.inj heq
          rw [hfirst] at hindex
          rw [Option.some.inj hindex]
          rfl
        | cons text before =>
          obtain ⟨rfl, -⟩ := List.cons.inj heq
          rw [Text.Utf8.firstInvalid?_encode] at hfirst
          cases hfirst
    | none =>
      obtain ⟨text, rfl⟩ := (Text.Utf8.firstInvalid?_eq_none_iff).mp hfirst
      rw [ih]
      constructor
      · rintro ⟨before, field', after, rfl, rfl, hindex⟩
        exact ⟨text :: before, field', after, rfl, by rw [List.length_cons]; omega, hindex⟩
      · rintro ⟨before, field', after, heq, rfl, hindex⟩
        cases before with
        | nil =>
          obtain ⟨rfl, -⟩ := List.cons.inj heq
          rw [hfirst] at hindex
          cases hindex
        | cons text' before =>
          exact ⟨before, field', after, (List.cons.inj heq).2, by rw [List.length_cons]; omega, hindex⟩

theorem texts_eq_error_iff {place : Place} {fields : Record} {fault : RecordFault} :
    texts place fields = .error fault ↔ ∃ before field after index,
      fields = recordOf before ++ field :: after ∧
        Text.Utf8.firstInvalid? field = some index ∧ fault = .notText place before.length index := by
  rw [texts]
  constructor
  · intro h
    split at h
    · next i index hfirst =>
      obtain ⟨before, field, after, rfl, rfl, hindex⟩ := firstNotText?_eq_some_iff.mp hfirst
      rw [Nat.zero_add] at h
      exact ⟨before, field, after, index, rfl, hindex, (Except.error.inj h).symm⟩
    · cases h
  · rintro ⟨before, field, after, index, rfl, hindex, rfl⟩
    rw [firstNotText?_eq_some_iff.mpr ⟨before, field, after, rfl, (Nat.zero_add _).symm, hindex⟩]

/-! ## One record -/

theorem readTime_eq_ok_iff {text : String} {time : Binary64} :
    readTime text = .ok time ↔ ∃ literal, LiteralText text.toList literal ∧ literal.toBinary64 = time := by
  have hparse (literal : Literal) : Literal.parse text = .ok literal ↔ LiteralText text.toList literal :=
    Literal.parse_eq_ok_iff
  rw [readTime, Binary64.parse]
  cases h : Literal.parse text with
  | ok literal => simp [← hparse, h, Except.map]
  | error fault => simp [← hparse, h, Except.map]

theorem readTime_eq_error_iff {text : String} {fault : FieldFault} :
    readTime text = .error fault ↔ ∃ literal, Literal.parse text = .error literal ∧
      .literal literal = fault := by
  rw [readTime, Binary64.parse]
  cases Literal.parse text <;> simp [Except.map]

theorem readParam_sizes_eq_ok_iff {text : String} {param : Param} :
    readParam .sizes text = .ok param ↔
      ∃ value, WholeText text.toList value ∧ .size (.ofNat value) = param := by
  have hparse (value : Nat) : Number.Whole.parseEither text = .ok value ↔ WholeText text.toList value :=
    Number.Whole.parseEither_eq_ok_iff
  rw [readParam]
  cases h : Number.Whole.parseEither text with
  | ok value => simp [← hparse, h]
  | error fault => simp [← hparse, h]

theorem readParam_eq_error_iff {kind : Kind} {text : String} {fault : FieldFault} :
    readParam kind text = .error fault ↔ kind = .sizes ∧
      ∃ whole, Number.Whole.parseEither text = .error whole ∧ .whole whole = fault := by
  cases kind with
  | benchmarks => simp [readParam]
  | sizes =>
    rw [readParam]
    cases Number.Whole.parseEither text <;> simp

/-- The records that are read as trials are the rows. -/
theorem readTrial_eq_ok_iff_isRow {kind : Kind} {record : PlacedRecord} {trial : Trial} :
    readTrial kind record = .ok trial ↔ IsRow kind record.fields trial := by
  rw [readTrial_eq_ok_iff]
  obtain ⟨place, fields⟩ := record
  constructor
  · rintro ⟨param, time, htexts, hparam, htime⟩
    obtain ⟨lang, trialParam, trialTime⟩ := trial
    obtain rfl := texts_eq_ok_iff.mp htexts
    obtain ⟨literal, hliteral, rfl⟩ := readTime_eq_ok_iff.mp htime
    cases kind with
    | sizes =>
      obtain ⟨value, hvalue, rfl⟩ := readParam_sizes_eq_ok_iff.mp hparam
      exact .size hvalue hliteral
    | benchmarks =>
      obtain rfl := Except.ok.inj hparam
      exact .benchmark hliteral
  · intro h
    cases h with
    | size hn htime =>
      exact ⟨_, _, texts_eq_ok_iff.mpr rfl, readParam_sizes_eq_ok_iff.mpr ⟨_, hn, rfl⟩,
        readTime_eq_ok_iff.mpr ⟨_, htime, rfl⟩⟩
    | benchmark htime =>
      exact ⟨_, _, texts_eq_ok_iff.mpr rfl, rfl, readTime_eq_ok_iff.mpr ⟨_, htime, rfl⟩⟩

theorem exists_param_iff {kind : Kind} {text : String} :
    (∃ param, readParam kind text = .ok param) ↔
      (kind = .sizes → ∃ value, WholeText text.toList value) := by
  cases kind with
  | benchmarks => exact iff_of_true ⟨_, rfl⟩ fun h => by cases h
  | sizes => simp [readParam_sizes_eq_ok_iff]

/-! A record is looked at in three stages: its number of fields, its texts, and what these say. -/

theorem readTrial_of_length_ne {kind : Kind} {place : Place} {fields : Record}
    (h : fields.length ≠ 3) :
    readTrial kind ⟨place, fields⟩ = .error (.fieldCount place fields.length 3) :=
  if_pos h

theorem readTrial_of_texts {kind : Kind} {place : Place} {fields : Record} {fault : RecordFault}
    (h : fields.length = 3) (htexts : texts place fields = .error fault) :
    readTrial kind ⟨place, fields⟩ = .error fault := by
  refine (if_neg (not_not.mpr h)).trans ?_
  exact bind_eq_error_iff.mpr (.inl htexts)

theorem readTrial_recordOf (kind : Kind) (place : Place) (lang param time : String) :
    readTrial kind ⟨place, recordOf [lang, param, time]⟩ =
      (readParam kind param).mapError (.badField place 1) >>= fun param =>
        (readTime time).mapError (.badField place 2) >>= fun time => .ok ⟨lang, param, time⟩ := by
  have hcount : ¬ (recordOf [lang, param, time]).length ≠ kind.header.length := not_not.mpr rfl
  have htexts : texts place (recordOf [lang, param, time]) = .ok [lang, param, time] :=
    texts_eq_ok_iff.mpr rfl
  unfold readTrial
  dsimp only
  rw [if_neg hcount, htexts]
  rfl

theorem readTrial_recordOf_eq_error_iff {kind : Kind} {place : Place} {lang param time : String}
    {fault : RecordFault} :
    readTrial kind ⟨place, recordOf [lang, param, time]⟩ = .error fault ↔
      (∃ fault', readParam kind param = .error fault' ∧ .badField place 1 fault' = fault) ∨
        (∃ value, readParam kind param = .ok value) ∧
          ∃ fault', readTime time = .error fault' ∧ .badField place 2 fault' = fault := by
  rw [readTrial_recordOf, bind_eq_error_iff, mapError_eq_error_iff]
  refine or_congr_right ?_
  constructor
  · rintro ⟨value, hvalue, h⟩
    refine ⟨⟨value, mapError_eq_ok_iff.mp hvalue⟩, ?_⟩
    rcases bind_eq_error_iff.mp h with h | ⟨_, -, h⟩
    · exact mapError_eq_error_iff.mp h
    · cases h
  · rintro ⟨⟨value, hvalue⟩, h⟩
    refine ⟨value, mapError_eq_ok_iff.mpr hvalue, ?_⟩
    exact bind_eq_error_iff.mpr (.inl (mapError_eq_error_iff.mpr h))

/-- The records that are read as no trial are the others, and each fault is that of its first part. -/
theorem readTrial_eq_error_iff {kind : Kind} {place : Place} {fields : Record} {fault : RecordFault} :
    readTrial kind ⟨place, fields⟩ = .error fault ↔ Misfit kind place fields fault := by
  constructor
  · intro h
    by_cases hcount : fields.length = 3
    · cases htexts : texts place fields with
      | error fault' =>
        rw [readTrial_of_texts hcount htexts] at h
        obtain rfl := Except.error.inj h
        obtain ⟨before, field, after, index, rfl, hindex, rfl⟩ := texts_eq_error_iff.mp htexts
        exact .notText hcount hindex
      | ok read =>
        obtain rfl := texts_eq_ok_iff.mp htexts
        rw [recordOf, List.length_map] at hcount
        obtain ⟨lang, param, time, rfl⟩ := List.length_eq_three.mp hcount
        rcases readTrial_recordOf_eq_error_iff.mp h with ⟨_, hparam, rfl⟩ | ⟨hparam, _, htime, rfl⟩
        · obtain ⟨hkind, whole, hwhole, rfl⟩ := readParam_eq_error_iff.mp hparam
          exact .badSize hkind hwhole
        · obtain ⟨literal, hliteral, rfl⟩ := readTime_eq_error_iff.mp htime
          exact .badTime (exists_param_iff.mp hparam) hliteral
    · rw [readTrial_of_length_ne hcount] at h
      obtain rfl := Except.error.inj h
      exact .fieldCount hcount
  · intro h
    cases h with
    | fieldCount hcount => exact readTrial_of_length_ne hcount
    | notText hcount hindex =>
      exact readTrial_of_texts hcount (texts_eq_error_iff.mpr ⟨_, _, _, _, rfl, hindex, rfl⟩)
    | badSize hkind hwhole =>
      exact readTrial_recordOf_eq_error_iff.mpr
        (.inl ⟨_, readParam_eq_error_iff.mpr ⟨hkind, _, hwhole, rfl⟩, rfl⟩)
    | badTime hparam hliteral =>
      exact readTrial_recordOf_eq_error_iff.mpr
        (.inr ⟨exists_param_iff.mpr hparam, _, readTime_eq_error_iff.mpr ⟨_, hliteral, rfl⟩, rfl⟩)

/-! ## Rows and headers -/

/-- What is wrong with a record behind the header, at its place: it is no row, or it is a row with a time
that no trial can have. -/
inductive RowDefect (kind : Kind) (place : Place) (fields : Record) : Fault → Prop
  | misfit {fault : RecordFault} (hrow : ∀ trial, ¬ IsRow kind fields trial)
      (h : Misfit kind place fields fault) : RowDefect kind place fields (.row kind.layout fault)
  | time {trial : Trial} (hrow : IsRow kind fields trial) (h : isValidTime trial.time = false) :
      RowDefect kind place fields (.time place.line trial.time)

/-- What is wrong with the first record: it is not text, or its columns are others. -/
inductive HeaderDefect (kind : Kind) : Record → Fault → Prop
  | notText {before : List String} {field : Bytes} {after : Record} {index : Nat}
      (h : Text.Utf8.firstInvalid? field = some index) :
      HeaderDefect kind (recordOf before ++ field :: after)
        (.unreadableHeader (.notText .start before.length index))
  | columns {columns : List String} (h : columns ≠ kind.header) :
      HeaderDefect kind (recordOf columns) (.header kind.layout (",".intercalate columns))

theorem readRow_eq_ok_iff_isValidRow {kind : Kind} {record : PlacedRecord} {trial : Trial} :
    readRow kind record = .ok trial ↔ IsValidRow kind record.fields trial := by
  rw [readRow_eq_ok_iff, readTrial_eq_ok_iff_isRow, IsValidRow]

theorem readRow_eq_error_iff {kind : Kind} {place : Place} {fields : Record} {fault : Fault} :
    readRow kind ⟨place, fields⟩ = .error fault ↔ RowDefect kind place fields fault := by
  rw [readRow, bind_eq_error_iff, mapError_eq_error_iff]
  constructor
  · rintro (⟨fault', h, rfl⟩ | ⟨trial, htrial, h⟩)
    · refine .misfit (fun trial hrow => ?_) (readTrial_eq_error_iff.mp h)
      have hok : readTrial kind ⟨place, fields⟩ = .ok trial := readTrial_eq_ok_iff_isRow.mpr hrow
      rw [h] at hok
      cases hok
    · rw [mapError_eq_ok_iff, readTrial_eq_ok_iff_isRow] at htrial
      split at h
      · cases h
      · next hvalid =>
        obtain rfl := Except.error.inj h
        exact .time htrial (by simpa using hvalid)
  · intro h
    cases h with
    | misfit _ h => exact .inl ⟨_, readTrial_eq_error_iff.mpr h, rfl⟩
    | @time trial hrow hvalid =>
      refine .inr ⟨trial, mapError_eq_ok_iff.mpr (readTrial_eq_ok_iff_isRow.mpr hrow), ?_⟩
      rw [if_neg (by rw [hvalid]; decide)]
      rfl

theorem checkHeader_none (kind : Kind) :
    checkHeader kind none = .error (.header kind.layout "") := by
  cases kind <;> rfl

theorem checkHeader_eq_ok_iff {kind : Kind} {place : Place} {fields : Record} :
    checkHeader kind (some ⟨place, fields⟩) = .ok () ↔ fields = headerRecord kind := by
  rw [checkHeader_eq, bind_eq_ok_iff]
  constructor
  · rintro ⟨columns, hcolumns, h⟩
    obtain rfl := texts_eq_ok_iff.mp (mapError_eq_ok_iff.mp hcolumns)
    split_ifs at h with heq
    rw [heq]
    rfl
  · rintro rfl
    exact ⟨kind.header, mapError_eq_ok_iff.mpr (texts_eq_ok_iff.mpr rfl), if_pos rfl⟩

theorem checkHeader_eq_error_iff {kind : Kind} {fields : Record} {fault : Fault} :
    checkHeader kind (some ⟨.start, fields⟩) = .error fault ↔ HeaderDefect kind fields fault := by
  rw [checkHeader_eq, bind_eq_error_iff, columnsOf, mapError_eq_error_iff]
  constructor
  · rintro (⟨fault', h, rfl⟩ | ⟨columns, hcolumns, h⟩)
    · obtain ⟨before, field, after, index, rfl, hindex, rfl⟩ := texts_eq_error_iff.mp h
      exact .notText hindex
    · obtain rfl := texts_eq_ok_iff.mp (mapError_eq_ok_iff.mp hcolumns)
      split_ifs at h with hne
      obtain rfl := Except.error.inj h
      exact .columns hne
  · intro h
    cases h with
    | notText hindex => exact .inl ⟨_, texts_eq_error_iff.mpr ⟨_, _, _, _, rfl, hindex, rfl⟩, rfl⟩
    | columns hne =>
      exact .inr ⟨_, mapError_eq_ok_iff.mpr (texts_eq_ok_iff.mpr rfl), if_neg hne⟩

/-! ## All records -/

/-- The place of the first row behind a header. -/
def placeOfRows (mark : Bytes) (header : Passage) : Place := Place.start.after (mark ++ header.bytes)

/-- What is wrong with a passage, when nothing is wrong with the passages before it. -/
inductive Offends (kind : Kind) (mark : Bytes) : List Passage → Passage → Fault → Prop
  | header {passage : Passage} {fault : Fault} (h : HeaderDefect kind passage.fields fault) :
      Offends kind mark [] passage fault
  | row {header passage : Passage} {rows : List Passage} {fault : Fault}
      (hheader : header.fields = headerRecord kind)
      (hrows : ∀ row ∈ rows, ∃ trial, IsValidRow kind row.fields trial)
      (h : RowDefect kind ((placeOfRows mark header).behind rows) passage.fields fault) :
      Offends kind mark (header :: rows) passage fault

variable {kind : Kind} {bytes : Bytes} {passages : List Passage}

theorem read_eq_of_layout (h : Layout (withoutMark bytes) passages) :
    read kind bytes = checkHeader kind (placed (markOf bytes) passages).head? >>= fun _ =>
      (placed (markOf bytes) passages).tail.mapM (readRow kind) := by
  rw [read, records_of_layout h]

/-- Rows are read exactly when they are rows with valid times. -/
theorem mapM_readRow_eq_ok_iff {place : Place} {rows : List Passage} {trials : List Trial} :
    (placedFrom place rows).mapM (readRow kind) = .ok trials ↔
      List.Forall₂ (fun row trial => IsValidRow kind row.fields trial) rows trials := by
  simp only [mapM_eq_ok_iff, readRow_eq_ok_iff_isValidRow]
  rw [← List.forall₂_map_left_iff (f := PlacedRecord.fields), map_fields_placedFrom,
    List.forall₂_map_left_iff]

theorem forall_readRow_placedFrom_iff {place : Place} {rows : List Passage} :
    (∀ record ∈ placedFrom place rows, ∃ trial, readRow kind record = .ok trial) ↔
      ∀ row ∈ rows, ∃ trial, IsValidRow kind row.fields trial := by
  simp only [readRow_eq_ok_iff_isValidRow]
  rw [← List.forall_mem_map (f := PlacedRecord.fields)
      (P := fun fields => ∃ trial, IsValidRow kind fields trial),
    map_fields_placedFrom, List.forall_mem_map]

/-- Rows are refused for the first one that is not in order. -/
theorem mapM_readRow_eq_error_iff {place : Place} {rows : List Passage} {fault : Fault} :
    (placedFrom place rows).mapM (readRow kind) = .error fault ↔ ∃ before passage after,
      rows = before ++ passage :: after ∧
        (∀ row ∈ before, ∃ trial, IsValidRow kind row.fields trial) ∧
        RowDefect kind (place.behind before) passage.fields fault := by
  rw [mapM_eq_error_iff]
  constructor
  · rintro ⟨first, record, rest, hsplit, hfirst, hfault⟩
    obtain ⟨before, passage, after, rfl, rfl, rfl⟩ := exists_of_placedFrom_eq_append hsplit
    exact ⟨before, passage, after, rfl, forall_readRow_placedFrom_iff.mp hfirst,
      readRow_eq_error_iff.mp hfault⟩
  · rintro ⟨before, passage, after, rfl, hbefore, hdefect⟩
    exact ⟨_, _, _, placedFrom_append place before (passage :: after),
      forall_readRow_placedFrom_iff.mpr hbefore, readRow_eq_error_iff.mpr hdefect⟩

/-- A dataset is read exactly when its header is the one of the kind and all records behind it are rows
with valid times. -/
theorem read_eq_ok_iff_layout (h : Layout (withoutMark bytes) passages) {trials : List Trial} :
    read kind bytes = .ok trials ↔ ∃ header rows, passages = header :: rows ∧
      header.fields = headerRecord kind ∧
      List.Forall₂ (fun row trial => IsValidRow kind row.fields trial) rows trials := by
  rw [read_eq_of_layout h, bind_eq_ok_iff]
  cases passages with
  | nil =>
    refine iff_of_false ?_ ?_
    · rintro ⟨_, hheader, -⟩
      rw [placed, List.head?_nil, checkHeader_none] at hheader
      cases hheader
    · rintro ⟨header, rows, hcons, -⟩
      cases hcons
  | cons header rows =>
    rw [placed, List.head?_cons, List.tail_cons, mapM_readRow_eq_ok_iff]
    constructor
    · rintro ⟨_, hheader, hrows⟩
      exact ⟨header, rows, rfl, checkHeader_eq_ok_iff.mp hheader, hrows⟩
    · rintro ⟨header', rows', hcons, hheader, hrows⟩
      obtain ⟨rfl, rfl⟩ := List.cons.inj hcons
      exact ⟨(), checkHeader_eq_ok_iff.mpr hheader, hrows⟩

/-- A text is refused for its first record that is not in order, or for having no record. -/
theorem read_eq_error_iff (h : Layout (withoutMark bytes) passages) {fault : Fault} :
    read kind bytes = .error fault ↔
      (passages = [] ∧ fault = .header kind.layout "") ∨
        ∃ before passage after, passages = before ++ passage :: after ∧
          Offends kind (markOf bytes) before passage fault := by
  rw [read_eq_of_layout h, bind_eq_error_iff]
  cases passages with
  | nil =>
    rw [placed, List.head?_nil, checkHeader_none]
    constructor
    · rintro (hheader | ⟨_, hheader, -⟩)
      · exact .inl ⟨rfl, (Except.error.inj hheader).symm⟩
      · cases hheader
    · rintro (⟨-, rfl⟩ | ⟨before, passage, after, hsplit, -⟩)
      · exact .inl rfl
      · exact absurd hsplit (by simp)
  | cons header rows =>
    rw [placed, List.head?_cons, List.tail_cons, checkHeader_eq_error_iff]
    simp only [mapM_readRow_eq_error_iff]
    constructor
    · rintro (hheader | ⟨⟨⟩, hheader, before, passage, after, rfl, hbefore, hdefect⟩)
      · exact .inr ⟨[], header, rows, rfl, .header hheader⟩
      · exact .inr ⟨header :: before, passage, after, rfl,
          .row (checkHeader_eq_ok_iff.mp hheader) hbefore hdefect⟩
    · rintro (⟨hnil, -⟩ | ⟨before, passage, after, hsplit, hoffends⟩)
      · cases hnil
      · cases hoffends with
        | header hheader =>
          obtain ⟨rfl, -⟩ := List.cons.inj hsplit
          exact .inl hheader
        | row hheader hbefore hdefect =>
          obtain ⟨rfl, rfl⟩ := List.cons.inj hsplit
          exact .inr ⟨(), checkHeader_eq_ok_iff.mpr hheader, _, _, _, rfl, hbefore, hdefect⟩

/-- A fault is reported as a failure to read the header when the header is not text. -/
theorem steps_ofDataset_iff {fault : Fault} (h : read kind bytes = .error fault) :
    (Failure.ofDataset fault).steps = [.readHeader] ↔ ¬ HeaderIsText bytes := by
  rw [← stage?_eq_schema_iff h]
  have hother (steps : List Step) (hnil : steps = []) : steps ≠ [.readHeader] := by
    rw [hnil]
    decide
  cases fault with
  | unreadableHeader => exact iff_of_true rfl fun hstage => by cases hstage
  | header => exact iff_of_false (hother _ rfl) (not_not.mpr rfl)
  | row => exact iff_of_false (hother _ rfl) (not_not.mpr rfl)
  | time => exact iff_of_false (hother _ rfl) (not_not.mpr rfl)

/-- **The first defect decides.**  Every text has a layout, and it is read exactly when its first record
is the header of the kind and all others are rows with valid times: then there is one trial for each row,
in order, all of the kind and all with valid times.  Otherwise there is no record at all, or the fault is
that of the first record that is not in order, and if that has a line end, every text that agrees with
this one up to the line end has the same fault.  It is a failure to read the header when the header is not
text. -/
theorem read_of_layout (kind : Kind) (bytes : Bytes) :
    (∃ passages, Layout (withoutMark bytes) passages) ∧
      ∀ passages, Layout (withoutMark bytes) passages →
        (∀ trials, read kind bytes = .ok trials ↔ ∃ header rows, passages = header :: rows ∧
          header.fields = headerRecord kind ∧
          List.Forall₂ (fun row trial => IsValidRow kind row.fields trial) rows trials) ∧
        (∀ trials, read kind bytes = .ok trials →
          ∀ trial ∈ trials, trial.param.kind = kind ∧ isValidTime trial.time = true) ∧
        (∀ fault, read kind bytes = .error fault ↔
          (passages = [] ∧ fault = .header kind.layout "") ∨
            ∃ before passage after, passages = before ++ passage :: after ∧
              Offends kind (markOf bytes) before passage fault) ∧
        (∀ fault, read kind bytes = .error fault →
          ((Failure.ofDataset fault).steps = [.readHeader] ↔ ¬ HeaderIsText bytes)) ∧
        (∀ before passage after fault, passages = before ++ passage :: after →
          Offends kind (markOf bytes) before passage fault → passage.ending ≠ none →
            ∀ more, read kind
              (markOf bytes ++ (before ++ [passage]).flatMap Passage.bytes ++ more) = .error fault) := by
  refine ⟨exists_layout _, fun passages hlayout => ⟨fun _ => read_eq_ok_iff_layout hlayout,
    fun _ => forall_mem_of_read, fun _ => read_eq_error_iff hlayout, fun _ => steps_ofDataset_iff, ?_⟩⟩
  rintro before passage after fault rfl hoffends hending more
  obtain ⟨passages, hmark, hmore⟩ := exists_layout_append hlayout hending more
  rw [← hmark] at hoffends
  exact (read_eq_error_iff hmore).mpr (.inr ⟨before, passage, passages, rfl, hoffends⟩)

end TimeTrials.Dataset
