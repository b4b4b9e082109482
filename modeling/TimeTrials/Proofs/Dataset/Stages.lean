import TimeTrials.Failure
import TimeTrials.Proofs.Dataset.Rows
import TimeTrials.Proofs.Text.ValidBytes

/-!
# The stage that a dataset's faults belong to

Whatever is wrong with the bytes of a dataset should be reported as a matter of its layout.  It is, with
one exception: a header that is not text is reported as a failure to read the header, and belongs to no
stage.  Rows that are not text are reported like all other rows.

* `firstNotText?_eq_none_iff`: a record is text when each of its fields is the bytes of one.
* `stage?_of_checkHeader`, `stage?_of_readRow`: the faults of a header and of rows.
* `stage?_eq_schema_iff`, `stage?_of_read`: so the stage of a fault is told by the header alone.
-/

namespace TimeTrials.Dataset

open Text (Bytes)

/-- The header, if there is one, is text. -/
def HeaderIsText (bytes : Bytes) : Prop :=
  ∀ record ∈ (records bytes).head?, ∀ field ∈ record.fields, ∃ text, field = Text.Utf8.encode text

theorem firstNotText?_eq_none_iff {fields : Record} {n : Nat} :
    firstNotText? n fields = none ↔ ∀ field ∈ fields, ∃ text, field = Text.Utf8.encode text := by
  induction fields generalizing n with
  | nil => simp [firstNotText?]
  | cons field rest ih =>
    rw [List.forall_mem_cons, ← Text.Utf8.firstInvalid?_eq_none_iff, firstNotText?]
    cases hfirst : Text.Utf8.firstInvalid? field with
    | none => simp [ih]
    | some index => simp

/-- The texts of a record are there exactly when all of its fields are text. -/
theorem exists_texts_iff {place : Place} {fields : Record} :
    (∃ read, texts place fields = .ok read) ↔
      ∀ field ∈ fields, ∃ text, field = Text.Utf8.encode text := by
  rw [← firstNotText?_eq_none_iff (n := 0), texts]
  cases firstNotText? 0 fields with
  | none => exact iff_of_true ⟨_, rfl⟩ rfl
  | some found =>
    refine iff_of_false ?_ (by simp)
    rintro ⟨read, h⟩
    cases h

/-- The columns of a header. -/
def columnsOf : Option PlacedRecord → Except Fault (List String)
  | none => .ok []
  | some record => (texts record.place record.fields).mapError .unreadableHeader

theorem checkHeader_eq (kind : Kind) (header : Option PlacedRecord) :
    checkHeader kind header = columnsOf header >>= fun columns =>
      if columns = kind.header then .ok ()
      else .error (.header kind.layout (",".intercalate columns)) := by
  cases header <;> rfl

/-- A header whose columns are looked at is text, whether or not they are the right ones. -/
theorem forall_isText_of_columnsOf {header : Option PlacedRecord} {columns : List String}
    (h : columnsOf header = .ok columns) :
    ∀ record ∈ header, ∀ field ∈ record.fields, ∃ text, field = Text.Utf8.encode text := by
  intro record hrecord
  obtain rfl := Option.mem_def.mp hrecord
  exact exists_texts_iff.mp ⟨columns, mapError_eq_ok_iff.mp h⟩

/-- A header is at fault for not being text, or for its columns. -/
theorem stage?_of_checkHeader {kind : Kind} {header : Option PlacedRecord} {fault : Fault}
    (h : checkHeader kind header = .error fault) :
    (Failure.ofDataset fault).stage? = some .schema ↔
      ∀ record ∈ header, ∀ field ∈ record.fields, ∃ text, field = Text.Utf8.encode text := by
  rw [checkHeader_eq] at h
  rcases bind_eq_error_iff.mp h with htexts | ⟨columns, htexts, hcolumns⟩
  · cases header with
    | none => cases htexts
    | some record =>
      obtain ⟨fault', hfault', rfl⟩ := mapError_eq_error_iff.mp htexts
      refine iff_of_false (fun hstage => by cases hstage) fun htext => ?_
      obtain ⟨read, hread⟩ := exists_texts_iff.mpr (htext record rfl)
      rw [hfault'] at hread
      cases hread
  · split_ifs at hcolumns
    obtain rfl := Except.error.inj hcolumns
    exact iff_of_true rfl (forall_isText_of_columnsOf htexts)

/-- A row is at fault for its layout or for its time. -/
theorem stage?_of_readRow {kind : Kind} {record : PlacedRecord} {fault : Fault}
    (h : readRow kind record = .error fault) :
    (Failure.ofDataset fault).stage? = some .schema := by
  rcases bind_eq_error_iff.mp h with hrow | ⟨trial, -, htime⟩
  · obtain ⟨fault', -, rfl⟩ := mapError_eq_error_iff.mp hrow
    rfl
  · split_ifs at htime
    · cases htime
    · obtain rfl := Except.error.inj htime
      rfl

/-- A fault belongs to the stage of layouts exactly when the header is text. -/
theorem stage?_eq_schema_iff {kind : Kind} {bytes : Bytes} {fault : Fault}
    (h : read kind bytes = .error fault) :
    (Failure.ofDataset fault).stage? = some .schema ↔ HeaderIsText bytes := by
  rcases bind_eq_error_iff.mp h with hheader | ⟨⟨⟩, hheader, hrows⟩
  · exact stage?_of_checkHeader hheader
  · obtain ⟨record, -, hrow⟩ := exists_of_mapM_eq_error hrows
    rw [checkHeader_eq] at hheader
    obtain ⟨columns, htexts, -⟩ := bind_eq_ok_iff.mp hheader
    exact iff_of_true (stage?_of_readRow hrow) (forall_isText_of_columnsOf htexts)

/-- **The stage of a fault.**  A dataset that cannot be read is reported as having the wrong layout,
wherever the fault is, provided that its header is text; otherwise no stage is reported. -/
theorem stage?_of_read {kind : Kind} {bytes : Bytes} {fault : Fault}
    (h : read kind bytes = .error fault) :
    (HeaderIsText bytes → (Failure.ofDataset fault).stage? = some .schema) ∧
      (¬HeaderIsText bytes → (Failure.ofDataset fault).stage? = none) := by
  rw [← stage?_eq_schema_iff h]
  refine ⟨id, fun hstage => ?_⟩
  cases fault with
  | unreadableHeader fault => rfl
  | header expected found => exact absurd rfl hstage
  | row layout fault => exact absurd rfl hstage
  | time line value => exact absurd rfl hstage

/-- A byte that is no text, in a row: its header is text, so the fault is one of the layout. -/
theorem stage?_of_read_row_not_text :
    let bytes := Text.Utf8.encode "lang,n,time\na,10,1\nb" ++ 0xff :: Text.Utf8.encode ",11,1\n"
    let fault : Fault := .row "lang,n,time" (.notText ⟨2, 3, 19⟩ 0 1)
    read .sizes bytes = .error fault ∧ HeaderIsText bytes ∧
      (Failure.ofDataset fault).stage? = some .schema := by
  intro bytes fault
  have hread : read .sizes bytes = .error fault := by decide +kernel
  have hhead : (records bytes).head?.map (·.fields) =
      some (["lang", "n", "time"].map Text.Utf8.encode) := by decide +kernel
  have hheader : HeaderIsText bytes := by
    intro record hrecord field hfield
    rw [Option.mem_def.mp hrecord] at hhead
    have hfields : record.fields = ["lang", "n", "time"].map Text.Utf8.encode := Option.some.inj hhead
    rw [hfields] at hfield
    obtain ⟨text, -, rfl⟩ := List.mem_map.mp hfield
    exact ⟨text, rfl⟩
  exact ⟨hread, hheader, (stage?_of_read hread).1 hheader⟩

/-- The same byte in the header: the dataset is refused, and no stage is reported. -/
theorem stage?_of_read_header_not_text :
    read .sizes (0x6c :: 0xff :: Text.Utf8.encode ",n,time\na,10,1\n") =
      .error (.unreadableHeader (.notText ⟨0, 1, 0⟩ 0 1)) ∧
    (Failure.ofDataset (.unreadableHeader (.notText ⟨0, 1, 0⟩ 0 1))).stage? = none := by
  decide +kernel

end TimeTrials.Dataset
