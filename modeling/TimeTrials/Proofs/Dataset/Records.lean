import TimeTrials.Proofs.Dataset.Dialect

/-!
# Written records read back

What is written is a text of the dialect, so what is read from it is known.

* `fieldText_encodeField`: a written field says what it was written for, whatever its bytes are.  Of two
  written forms the plain one cannot hold a byte that would end it, and in the other one every quote of
  the field is doubled, so the first single one is the closing quote.
* `recordText_encodeFields`, `layout_encodeRecord_append`: so does a written record, and it is a passage
  of its own.  The one record that cannot be told from a blank line is the one with a single empty field
  (`IsVisible`).
* `map_fields_recordsFrom`: records written one after the other are read one after the other.
* `records_encodeRecord_append`: the same from the first byte on, where a mark could stand.
-/

namespace TimeTrials.Dataset

open Text (Bytes)

/-! ## Fields and records -/

/-- The bytes of a field that can be written without quotes. -/
theorem endsField_eq_false_of_mem {field : Bytes} (h : needsQuotes field = false) {b : UInt8}
    (hb : b ∈ field) : endsField b = false ∧ b ≠ quote := by
  have hplain := List.any_eq_false.mp h b hb
  rw [Bool.not_eq_true, Bool.or_eq_false_iff, Bool.or_eq_false_iff] at hplain
  obtain ⟨⟨hcomma, hquote⟩, hend⟩ := hplain
  exact ⟨by rw [endsField, hcomma, hend, Bool.or_false], by simpa using hquote⟩

/-- A written field says what it was written for. -/
theorem fieldText_encodeField (field : Bytes) : FieldText (encodeField field) field := by
  rw [encodeField]
  split
  · have htext := FieldText.quoted field (by simp : [].head? ≠ some quote) (by simp)
    rwa [List.append_nil] at htext
  · next h =>
    have hplain : needsQuotes field = false := by simpa using h
    refine .bare (fun hquote => ?_) fun b hb => (endsField_eq_false_of_mem hplain hb).1
    exact (endsField_eq_false_of_mem hplain (List.mem_of_mem_head? hquote)).2 rfl

/-- So does a written record. -/
theorem recordText_encodeFields {record : Record} (h : record ≠ []) :
    RecordText FieldText (encodeFields record) record := by
  fun_induction encodeFields record with
  | case1 => exact absurd rfl h
  | case2 field => exact .last (fieldText_encodeField field)
  | case3 field record hne ih => exact .more (fieldText_encodeField field) (ih hne)

/-- A record that the reader can tell from a blank line. -/
def IsVisible (record : Record) : Prop := record ≠ [] ∧ record ≠ [[]]

theorem isVisible_of_length {record : Record} (h : 2 ≤ record.length) : IsVisible record := by
  constructor <;> rintro rfl <;> simp at h

theorem encodeFields_ne_nil {record : Record} (h : IsVisible record) : encodeFields record ≠ [] := by
  fun_cases encodeFields record with
  | case1 => exact absurd rfl h.1
  | case2 field =>
    intro hnil
    rw [encodeField] at hnil
    split at hnil
    · cases hnil
    · exact h.2 (congrArg ([·]) hnil)
  | case3 field record => simp

/-! ## Passages -/

/-- A written record, with the line feed behind it. -/
def Passage.written (record : Record) : Passage := ⟨[], encodeFields record, some lineFeed, record⟩

/-- A written record is a passage of its own, whatever follows. -/
theorem layout_encodeRecord_append {record : Record} (h : IsVisible record) {rest : Bytes}
    {passages : List Passage} (hrest : Layout rest passages) :
    Layout (encodeRecord record ++ rest) (.written record :: passages) := by
  have hlayout := Layout.ended (by simp : ∀ b ∈ [], isLineEnd b = true) (encodeFields_ne_nil h)
    (recordText_encodeFields h.1) (rfl : isLineEnd lineFeed = true) hrest
  rwa [List.nil_append, ← List.singleton_append, ← List.append_assoc] at hlayout

theorem layout_flatMap_encodeRecord {all : List Record} (h : ∀ record ∈ all, IsVisible record) :
    Layout (all.flatMap encodeRecord) (all.map .written) := by
  induction all with
  | nil => exact .done (by simp)
  | cons record all ih =>
    obtain ⟨hrecord, hall⟩ := List.forall_mem_cons.mp h
    exact layout_encodeRecord_append hrecord (ih hall)

theorem map_fields_placedFrom (place : Place) (passages : List Passage) :
    (placedFrom place passages).map (·.fields) = passages.map (·.fields) := by
  induction passages generalizing place with
  | nil => rfl
  | cons passage passages ih => rw [placedFrom, List.map_cons, List.map_cons, ih]

/-- Written records are read one after the other, wherever they start. -/
theorem map_fields_recordsFrom {all : List Record} (h : ∀ record ∈ all, IsVisible record)
    (place : Place) : (recordsFrom place (all.flatMap encodeRecord)).map (·.fields) = all := by
  have hid : (·.fields) ∘ Passage.written = id := rfl
  rw [recordsFrom_of_layout (layout_flatMap_encodeRecord h), map_fields_placedFrom, List.map_map, hid,
    List.map_id]

/-- The first record of a dataset that is written from its first byte on, and the records after it,
whatever these are. -/
theorem records_encodeRecord_append {record : Record} (h : IsVisible record) {rest : Bytes}
    (hmark : withoutMark (encodeRecord record ++ rest) = encodeRecord record ++ rest) :
    ∃ place, records (encodeRecord record ++ rest) = ⟨.start, record⟩ :: recordsFrom place rest := by
  obtain ⟨passages, hrest⟩ := exists_layout rest
  have hlayout := layout_encodeRecord_append h hrest
  rw [← hmark] at hlayout
  exact ⟨_, by rw [records_of_layout hlayout, recordsFrom_of_layout hrest]; rfl⟩

end TimeTrials.Dataset
