import Mathlib.Data.List.TakeWhile
import TimeTrials.Dataset.Record

/-!
# The dialect

What the records of a text are, said without a reader.  A field is bare or in quotes, fields have commas
between them, a record ends with a line end, and line ends before a record are blank lines.  At the end
of the text the last line end can be missing, and so can a closing quote.

* `FieldText`, `RecordText`: how a field and a record stand in a text.
* `Passage`, `Layout`: a text as a sequence of records with what stands around them.
* `readFields_recordText`, `readFields_openText`: a record is read as what it says, whatever follows its
  line end.
* `exists_layout`: every text has a layout, so the dialect leaves no text out.
* `recordsFrom_of_layout`, `records_of_layout`: the records of a text are those of its layout, each with
  the place behind the passages before it.
* `exists_layout_append`: what stands behind the line end of a record changes nothing before it.
-/

namespace TimeTrials.Dataset

open Text (Bytes)

/-! ## How records stand in a text -/

/-- Whether a byte ends a field that is not in quotes. -/
def endsField (b : UInt8) : Bool := b == comma || isLineEnd b

/-- How a field stands in a text: as it is, unless it starts with a quote; or in quotes, those inside it
doubled.  What follows the closing quote belongs to the field. -/
inductive FieldText : Bytes → Bytes → Prop
  | bare {field : Bytes} (hquote : field.head? ≠ some quote)
      (hbare : ∀ b ∈ field, endsField b = false) : FieldText field field
  | quoted (content : Bytes) {tail : Bytes} (hquote : tail.head? ≠ some quote)
      (hbare : ∀ b ∈ tail, endsField b = false) :
      FieldText (quote :: escape content ++ quote :: tail) (content ++ tail)

/-- A field in quotes of which the second is missing. -/
inductive OpenText : Bytes → Bytes → Prop
  | intro (content : Bytes) : OpenText (quote :: escape content) content

/-- How a record stands in a text: its fields with commas between them.  `Last` says how the last field
stands there. -/
inductive RecordText (Last : Bytes → Bytes → Prop) : Bytes → Record → Prop
  | last {text field : Bytes} (h : Last text field) : RecordText Last text [field]
  | more {text field rest : Bytes} {fields : Record} (h : FieldText text field)
      (hrest : RecordText Last rest fields) :
      RecordText Last (text ++ comma :: rest) (field :: fields)

/-- A record in a text, with the line ends before it and the line end after it, which the last record
need not have. -/
structure Passage where
  blank : Bytes
  text : Bytes
  ending : Option UInt8
  fields : Record

/-- All bytes of a passage. -/
def Passage.bytes (passage : Passage) : Bytes :=
  passage.blank ++ passage.text ++ passage.ending.toList

/-- A text is made of passages.  A record is never empty, for that would be a blank line. -/
inductive Layout : Bytes → List Passage → Prop
  | done {blank : Bytes} (hblank : ∀ b ∈ blank, isLineEnd b = true) : Layout blank []
  | ended {blank text rest : Bytes} {b : UInt8} {fields : Record} {passages : List Passage}
      (hblank : ∀ b ∈ blank, isLineEnd b = true) (hne : text ≠ [])
      (htext : RecordText FieldText text fields) (hb : isLineEnd b = true)
      (hrest : Layout rest passages) :
      Layout (blank ++ text ++ b :: rest) (⟨blank, text, some b, fields⟩ :: passages)
  | last {blank text : Bytes} {fields : Record} (hblank : ∀ b ∈ blank, isLineEnd b = true)
      (hne : text ≠ []) (htext : RecordText FieldText text fields ∨ RecordText OpenText text fields) :
      Layout (blank ++ text) [⟨blank, text, none, fields⟩]

/-! ## Reading fields -/

/-- What can stand behind a field: a byte that ends it, or nothing. -/
def IsEnd (after : Bytes) : Prop := ∀ b ∈ after.head?, endsField b = true

theorem endsField_quote : endsField quote = false := rfl

theorem IsEnd.head?_ne_quote {after : Bytes} (h : IsEnd after) : after.head? ≠ some quote := by
  intro heq
  have hquote := h quote heq
  rw [endsField_quote] at hquote
  cases hquote

theorem field_plainField_of_isEnd {after : Bytes} (h : IsEnd after) :
    (plainField after).field = [] := by
  cases after with
  | nil => rfl
  | cons b rest =>
    have hb : endsField b = true := h b rfl
    rw [plainField]
    split_ifs with hcomma hend
    · rfl
    · rfl
    · simp [endsField, hcomma, hend] at hb

/-- Bytes that end no field are read into it. -/
theorem plainField_append {field : Bytes} (h : ∀ b ∈ field, endsField b = false) (after : Bytes) :
    plainField (field ++ after) =
      { plainField after with field := field ++ (plainField after).field } := by
  induction field with
  | nil => rfl
  | cons b field ih =>
    obtain ⟨hb, hfield⟩ := List.forall_mem_cons.mp h
    obtain ⟨hcomma, hend⟩ := Bool.or_eq_false_iff.mp hb
    rw [List.cons_append, plainField, if_neg (by rw [hcomma]; decide),
      if_neg (by rw [hend]; decide), ih hfield]
    rfl

theorem quotedField_cons_of_ne {b : UInt8} (h : (b == quote) = false) {bytes : Bytes}
    (hne : bytes ≠ []) : quotedField (b :: bytes) = (quotedField bytes).push b := by
  obtain ⟨b', rest, rfl⟩ := List.exists_cons_of_ne_nil hne
  rw [quotedField, if_neg (by rw [h]; decide)]

theorem escape_cons (b : UInt8) (content : Bytes) :
    escape (b :: content) = (if b == quote then [quote, quote] else [b]) ++ escape content := rfl

/-- Doubled quotes are content, and the first single one closes the field. -/
theorem quotedField_escape_append (content : Bytes) {tail : Bytes}
    (h : tail.head? ≠ some quote) :
    quotedField (escape content ++ quote :: tail) =
      { plainField tail with field := content ++ (plainField tail).field } := by
  induction content with
  | nil =>
    rw [escape, List.flatMap_nil, List.nil_append, List.nil_append]
    cases tail with
    | nil => rfl
    | cons b rest =>
      have hb : (b == quote) = false := by simpa using h
      rw [quotedField, beq_self_eq_true, if_pos rfl, if_neg (by rw [hb]; decide)]
  | cons b content ih =>
    rw [escape_cons]
    by_cases hb : (b == quote) = true
    · rw [if_pos hb, List.append_assoc, List.cons_append, List.cons_append, List.nil_append,
        quotedField, beq_self_eq_true, if_pos rfl, if_pos rfl, ih, ← eq_of_beq hb]
      rfl
    · rw [if_neg hb, List.append_assoc, List.cons_append, List.nil_append,
        quotedField_cons_of_ne (by simpa using hb) (by simp), ih]
      rfl

/-- Without a closing quote the field goes on to the end of the text. -/
theorem quotedField_escape (content : Bytes) :
    quotedField (escape content) = ⟨content, .recordEnd, []⟩ := by
  induction content with
  | nil => rfl
  | cons b content ih =>
    rw [escape_cons]
    by_cases hb : (b == quote) = true
    · rw [if_pos hb, List.cons_append, List.cons_append, List.nil_append, quotedField,
        beq_self_eq_true, if_pos rfl, if_pos rfl, ih, ← eq_of_beq hb]
      rfl
    · rw [if_neg hb, List.cons_append, List.nil_append]
      cases content with
      | nil =>
        rw [escape, List.flatMap_nil, quotedField, if_neg hb]
      | cons b' content =>
        rw [quotedField_cons_of_ne (by simpa using hb) (by rw [escape_cons]; split_ifs <;> simp), ih]
        rfl

theorem readField_of_head?_ne {bytes : Bytes} (h : bytes.head? ≠ some quote) :
    readField bytes = plainField bytes := by
  cases bytes with
  | nil => rfl
  | cons b rest =>
    have hb : (b == quote) = false := by simpa using h
    rw [readField, if_neg (by rw [hb]; decide)]

/-- A field is read as what it says, up to the byte that ends it. -/
theorem readField_fieldText {text field after : Bytes} (h : FieldText text field)
    (hafter : IsEnd after) :
    readField (text ++ after) = ⟨field, (plainField after).stop, (plainField after).rest⟩ := by
  have hend := field_plainField_of_isEnd hafter
  cases h with
  | bare hquote hbare =>
    have hhead : (text ++ after).head? ≠ some quote := by
      cases text with
      | nil => exact hafter.head?_ne_quote
      | cons b text => exact hquote
    rw [readField_of_head?_ne hhead, plainField_append hbare, hend, List.append_nil]
  | @quoted content tail hquote hbare =>
    have hhead : (tail ++ after).head? ≠ some quote := by
      cases tail with
      | nil => exact hafter.head?_ne_quote
      | cons b tail => exact hquote
    rw [List.append_assoc, List.cons_append, List.cons_append, readField, beq_self_eq_true,
      if_pos rfl, quotedField_escape_append content hhead, plainField_append hbare, hend,
      List.append_nil]

theorem readField_openText {text field : Bytes} (h : OpenText text field) :
    readField text = ⟨field, .recordEnd, []⟩ := by
  obtain ⟨content⟩ := h
  rw [readField, beq_self_eq_true, if_pos rfl, quotedField_escape]

/-! ## Reading records -/

theorem readFields_of_recordEnd {bytes field rest : Bytes}
    (h : readField bytes = ⟨field, .recordEnd, rest⟩) : readFields bytes = ([field], rest) := by
  rw [readFields]
  split
  · rw [h]
  · next h' =>
    rw [h] at h'
    cases h'

theorem readFields_of_comma {bytes field rest : Bytes}
    (h : readField bytes = ⟨field, .comma, rest⟩) :
    readFields bytes = (field :: (readFields rest).1, (readFields rest).2) := by
  rw [readFields]
  split
  · next h' =>
    rw [h] at h'
    cases h'
  · rw [h]

theorem isEnd_cons {b : UInt8} (h : endsField b = true) (rest : Bytes) : IsEnd (b :: rest) := by
  intro b' hb'
  rw [← Option.some.inj hb']
  exact h

theorem endsField_of_isLineEnd {b : UInt8} (h : isLineEnd b = true) : endsField b = true := by
  rw [endsField, h, Bool.or_true]

/-- A record is read as the fields it has, whatever its last field is. -/
theorem readFields_recordText_append {Last : Bytes → Bytes → Prop} {text after rest : Bytes}
    {fields : Record}
    (hlast : ∀ text field, Last text field → readField (text ++ after) = ⟨field, .recordEnd, rest⟩)
    (h : RecordText Last text fields) : readFields (text ++ after) = (fields, rest) := by
  induction h with
  | last h => exact readFields_of_recordEnd (hlast _ _ h)
  | @more text field more fields h _ ih =>
    have hread := readField_fieldText h (isEnd_cons (rfl : endsField comma = true) (more ++ after))
    rw [List.append_assoc, List.cons_append, readFields_of_comma hread]
    exact congrArg (fun read : Record × Bytes => (field :: read.1, read.2)) ih

theorem plainField_of_isLineEnd {b : UInt8} (h : isLineEnd b = true) (rest : Bytes) :
    plainField (b :: rest) = ⟨[], .recordEnd, rest⟩ := by
  have hcomma : (b == comma) = false := by
    rw [Bool.eq_false_iff]
    intro hcomma
    rw [eq_of_beq hcomma] at h
    cases h
  rw [plainField, if_neg (by rw [hcomma]; decide), if_pos h]

/-- A record with a line end. -/
theorem readFields_recordText {text : Bytes} {fields : Record} (h : RecordText FieldText text fields)
    {b : UInt8} (hb : isLineEnd b = true) (rest : Bytes) :
    readFields (text ++ b :: rest) = (fields, rest) := by
  refine readFields_recordText_append (fun text field htext => ?_) h
  rw [readField_fieldText htext (isEnd_cons (endsField_of_isLineEnd hb) rest),
    plainField_of_isLineEnd hb]

/-- A record at the end of the text, where the last quote may be missing. -/
theorem readFields_recordText_end {text : Bytes} {fields : Record}
    (h : RecordText FieldText text fields ∨ RecordText OpenText text fields) :
    readFields text = (fields, []) := by
  rw [← List.append_nil text]
  rcases h with h | h
  · refine readFields_recordText_append (fun text field htext => ?_) h
    exact readField_fieldText htext fun b hb => nomatch hb
  · refine readFields_recordText_append (fun text field htext => ?_) h
    rw [List.append_nil, readField_openText htext]

/-! ## Every text has a layout -/

/-- A closing quote is missing or it is the first single one. -/
theorem exists_escape (bytes : Bytes) :
    (∃ content tail, bytes = escape content ++ quote :: tail ∧ tail.head? ≠ some quote) ∨
      ∃ content, bytes = escape content := by
  fun_induction quotedField bytes with
  | case1 => exact .inr ⟨[], rfl⟩
  | case2 b hb => exact .inl ⟨[], [], by rw [eq_of_beq hb]; rfl, by simp⟩
  | case3 b hb => exact .inr ⟨[b], by rw [escape_cons, if_neg hb]; rfl⟩
  | case4 b b' rest hb hb' ih =>
    have hpair (content : Bytes) : escape (quote :: content) = b :: b' :: escape content := by
      rw [eq_of_beq hb, eq_of_beq hb']
      rfl
    rcases ih with ⟨content, tail, rfl, htail⟩ | ⟨content, rfl⟩
    · exact .inl ⟨quote :: content, tail, by rw [hpair]; rfl, htail⟩
    · exact .inr ⟨quote :: content, (hpair content).symm⟩
  | case5 b b' rest hb hb' =>
    exact .inl ⟨[], b' :: rest, by rw [eq_of_beq hb]; rfl, by simpa using hb'⟩
  | case6 b b' rest hb ih =>
    have hsingle (content : Bytes) : escape (b :: content) = b :: escape content := by
      rw [escape_cons, if_neg hb]
      rfl
    rcases ih with ⟨content, tail, heq, htail⟩ | ⟨content, heq⟩
    · exact .inl ⟨b :: content, tail, by rw [heq, hsingle]; rfl, htail⟩
    · exact .inr ⟨b :: content, by rw [heq, hsingle]⟩

/-- The bytes of a field that is not in quotes, and the byte that ends it. -/
theorem exists_append_isEnd (bytes : Bytes) :
    ∃ field after, bytes = field ++ after ∧ (∀ b ∈ field, endsField b = false) ∧ IsEnd after := by
  refine ⟨bytes.takeWhile (!endsField ·), bytes.dropWhile (!endsField ·),
    List.takeWhile_append_dropWhile.symm, fun b hb => ?_, fun b hb => ?_⟩
  · simpa using List.mem_takeWhile_imp hb
  · have hhead := List.head?_dropWhile_not (!endsField ·) bytes
    rw [Option.mem_def.mp hb] at hhead
    simpa using hhead

/-- A field stands at the start of every text. -/
theorem exists_fieldText (bytes : Bytes) :
    (∃ text field after, bytes = text ++ after ∧ FieldText text field ∧ IsEnd after) ∨
      ∃ field, OpenText bytes field := by
  by_cases hquote : bytes.head? = some quote
  · obtain ⟨rest, rfl⟩ := List.head?_eq_some_iff.mp hquote
    rcases exists_escape rest with ⟨content, tail, rfl, htail⟩ | ⟨content, rfl⟩
    · obtain ⟨field, after, rfl, hfield, hafter⟩ := exists_append_isEnd tail
      have hhead : field.head? ≠ some quote := by
        cases field with
        | nil => simp
        | cons b field => exact htail
      refine .inl ⟨_, _, after, ?_, .quoted content hhead hfield, hafter⟩
      simp
    · exact .inr ⟨content, ⟨content⟩⟩
  · obtain ⟨field, after, rfl, hfield, hafter⟩ := exists_append_isEnd bytes
    have hhead : field.head? ≠ some quote := by
      cases field with
      | nil => simp
      | cons b field => exact hquote
    exact .inl ⟨field, field, after, rfl, .bare hhead hfield, hafter⟩

/-- A record stands at the start of every text, and the first line end that is not in quotes ends it. -/
theorem exists_recordText (bytes : Bytes) :
    (∃ text fields b rest, bytes = text ++ b :: rest ∧ isLineEnd b = true ∧
        RecordText FieldText text fields) ∨
      ∃ fields, RecordText FieldText bytes fields ∨ RecordText OpenText bytes fields := by
  induction hlen : bytes.length using Nat.strong_induction_on generalizing bytes with
  | _ n ih =>
    rcases exists_fieldText bytes with ⟨text, field, after, rfl, hfield, hafter⟩ | ⟨field, hopen⟩
    · cases after with
      | nil => exact .inr ⟨[field], .inl (by rw [List.append_nil]; exact .last hfield)⟩
      | cons b rest =>
        rcases Bool.or_eq_true_iff.mp (hafter b rfl) with hcomma | hend
        · obtain rfl := eq_of_beq hcomma
          have hlt : rest.length < n := by
            rw [← hlen, List.length_append, List.length_cons]
            omega
          rcases ih _ hlt rest rfl with ⟨text', fields, b, rest, rfl, hb, htext⟩ | ⟨fields, htext⟩
          · refine .inl ⟨_, _, b, rest, ?_, hb, .more hfield htext⟩
            rw [List.append_assoc, List.cons_append]
          · exact .inr ⟨field :: fields, htext.imp (.more hfield) (.more hfield)⟩
        · exact .inl ⟨text, [field], b, rest, rfl, hend, .last hfield⟩
    · exact .inr ⟨[field], .inr (.last hopen)⟩

/-- Every text has a layout. -/
theorem exists_layout (bytes : Bytes) : ∃ passages, Layout bytes passages := by
  induction hlen : bytes.length using Nat.strong_induction_on generalizing bytes with
  | _ n ih =>
    have hsplit : bytes = bytes.takeWhile isLineEnd ++ bytes.dropWhile isLineEnd :=
      List.takeWhile_append_dropWhile.symm
    have hblank : ∀ b ∈ bytes.takeWhile isLineEnd, isLineEnd b = true :=
      fun b hb => List.mem_takeWhile_imp hb
    by_cases hnil : bytes.dropWhile isLineEnd = []
    · rw [hnil, List.append_nil] at hsplit
      rw [hsplit]
      exact ⟨[], .done hblank⟩
    · have hstart := List.head_dropWhile_not isLineEnd hnil
      rcases exists_recordText (bytes.dropWhile isLineEnd) with
        ⟨text, fields, b, rest, heq, hb, htext⟩ | ⟨fields, htext⟩
      · have hlt : rest.length < n := by
          have hcount := congrArg List.length hsplit
          rw [heq, List.length_append, List.length_append, List.length_cons] at hcount
          omega
        have hne : text ≠ [] := by
          rintro rfl
          simp only [heq, List.nil_append, List.head_cons, hb] at hstart
          cases hstart
        obtain ⟨passages, hrest⟩ := ih _ hlt rest rfl
        rw [heq, ← List.append_assoc] at hsplit
        rw [hsplit]
        exact ⟨_, .ended hblank hne htext hb hrest⟩
      · rw [hsplit]
        exact ⟨_, .last hblank hnil htext⟩

/-! ## The records of a layout -/

/-- A text that is not taken for a blank line. -/
def StartsRecord (text : Bytes) : Prop := ∀ b ∈ text.head?, isLineEnd b = false

theorem FieldText.startsRecord {text field : Bytes} (h : FieldText text field) :
    StartsRecord text := by
  intro b hb
  cases h with
  | bare _ hbare => exact (Bool.or_eq_false_iff.mp (hbare b (List.mem_of_mem_head? hb))).2
  | quoted => rw [← Option.some.inj hb]; rfl

theorem OpenText.startsRecord {text field : Bytes} (h : OpenText text field) :
    StartsRecord text := by
  intro b hb
  obtain ⟨content⟩ := h
  rw [← Option.some.inj hb]
  rfl

theorem RecordText.startsRecord {Last : Bytes → Bytes → Prop} {text : Bytes} {fields : Record}
    (hlast : ∀ text field, Last text field → StartsRecord text) (h : RecordText Last text fields) :
    StartsRecord text := by
  cases h with
  | last h => exact hlast _ _ h
  | @more text field rest fields h hrest =>
    intro b hb
    cases text with
    | nil => rw [← Option.some.inj hb]; rfl
    | cons b' text => exact h.startsRecord b hb

/-- Line ends before a record are skipped. -/
theorem nextRecord?_append {blank start : Bytes} (hblank : ∀ b ∈ blank, isLineEnd b = true)
    (hne : start ≠ []) (hstart : StartsRecord start) :
    nextRecord? (blank ++ start) = some (readFields start) := by
  obtain ⟨b, rest, rfl⟩ := List.exists_cons_of_ne_nil hne
  have hb : isLineEnd b = false := hstart b rfl
  rw [nextRecord?, List.dropWhile_append_of_pos hblank,
    List.dropWhile_cons_of_neg (by rw [hb]; decide)]

theorem nextRecord?_of_blank {blank : Bytes} (hblank : ∀ b ∈ blank, isLineEnd b = true) :
    nextRecord? blank = none := by
  have hnil : blank.dropWhile isLineEnd = [] := List.dropWhile_eq_nil_iff.mpr hblank
  rw [nextRecord?, hnil]

/-- The place behind some bytes, of which the last end a record. -/
def Place.after (place : Place) (bytes : Bytes) : Place :=
  ⟨place.record + 1, place.line + bytes.count lineFeed, place.byte + bytes.length⟩

theorem Place.advance_append (place : Place) (used rest : Bytes) :
    place.advance (used ++ rest) rest = place.after used := by
  rw [Place.advance, List.length_append, Nat.add_sub_cancel, List.take_left]
  rfl

/-- The records of passages that start at a place. -/
def placedFrom (place : Place) : List Passage → List PlacedRecord
  | [] => []
  | passage :: passages =>
    ⟨place, passage.fields⟩ :: placedFrom (place.after passage.bytes) passages

/-- The place behind passages. -/
def Place.behind (place : Place) (passages : List Passage) : Place :=
  passages.foldl (fun place passage => place.after passage.bytes) place

theorem Place.line_behind (place : Place) (passages : List Passage) :
    (place.behind passages).line =
      place.line + (passages.flatMap Passage.bytes).count lineFeed := by
  induction passages generalizing place with
  | nil => rfl
  | cons passage passages ih =>
    rw [List.flatMap_cons, List.count_append, ← Nat.add_assoc]
    exact ih (place.after passage.bytes)

theorem placedFrom_append (place : Place) (before after : List Passage) :
    placedFrom place (before ++ after) =
      placedFrom place before ++ placedFrom (place.behind before) after := by
  induction before generalizing place with
  | nil => rfl
  | cons passage before ih => exact congrArg (_ :: ·) (ih (place.after passage.bytes))

/-- Where the records are taken apart, the passages can be. -/
theorem exists_of_placedFrom_eq_append {place : Place} {passages : List Passage}
    {first rest : List PlacedRecord} {record : PlacedRecord}
    (h : placedFrom place passages = first ++ record :: rest) :
    ∃ before passage after, passages = before ++ passage :: after ∧
      first = placedFrom place before ∧ record = ⟨place.behind before, passage.fields⟩ := by
  induction passages generalizing place first with
  | nil => exact absurd h (by simp [placedFrom])
  | cons passage passages ih =>
    cases first with
    | nil => exact ⟨[], passage, passages, rfl, rfl, (List.cons.inj h).1.symm⟩
    | cons record' first =>
      obtain ⟨rfl, htail⟩ := List.cons.inj h
      obtain ⟨before, passage', after, rfl, rfl, rfl⟩ := ih htail
      exact ⟨passage :: before, passage', after, rfl, rfl, rfl⟩

/-- The next record is that of the first passage, and what is left are the others. -/
theorem nextRecord?_of_layout {bytes : Bytes} {passage : Passage} {passages : List Passage}
    (h : Layout bytes (passage :: passages)) :
    ∃ rest, bytes = passage.bytes ++ rest ∧
      nextRecord? bytes = some (passage.fields, rest) ∧ Layout rest passages := by
  cases h with
  | @ended blank text rest b fields passages hblank hne htext hb hrest =>
    refine ⟨rest, ?_, ?_, hrest⟩
    · rw [Passage.bytes, Option.toList, List.append_assoc _ [b], List.singleton_append]
    · have hstart : StartsRecord (text ++ b :: rest) := by
        obtain ⟨b', text', rfl⟩ := List.exists_cons_of_ne_nil hne
        exact fun c hc => htext.startsRecord (fun _ _ => FieldText.startsRecord) c hc
      rw [List.append_assoc, nextRecord?_append hblank (by simp) hstart, readFields_recordText htext hb]
  | @last blank text fields hblank hne htext =>
    refine ⟨[], ?_, ?_, .done (by simp)⟩
    · rw [Passage.bytes, Option.toList, List.append_nil, List.append_nil]
    · have hstart : StartsRecord text := by
        rcases htext with htext | htext
        · exact htext.startsRecord fun _ _ => FieldText.startsRecord
        · exact htext.startsRecord fun _ _ => OpenText.startsRecord
      rw [nextRecord?_append hblank hne hstart, readFields_recordText_end htext]

theorem nextRecord?_of_layout_nil {bytes : Bytes} (h : Layout bytes []) : nextRecord? bytes = none := by
  cases h with
  | done hblank => exact nextRecord?_of_blank hblank

/-- The records from a place on are those of the passages. -/
theorem recordsFrom_of_layout {bytes : Bytes} {passages : List Passage} (h : Layout bytes passages)
    (place : Place) : recordsFrom place bytes = placedFrom place passages := by
  induction passages generalizing bytes place with
  | nil =>
    rw [recordsFrom]
    split
    · rfl
    · next hsome =>
      rw [nextRecord?_of_layout_nil h] at hsome
      cases hsome
  | cons passage passages ih =>
    obtain ⟨rest, rfl, hnext, hrest⟩ := nextRecord?_of_layout h
    rw [recordsFrom]
    split
    · next hnone =>
      rw [hnext] at hnone
      cases hnone
    · next hsome =>
      rw [hnext] at hsome
      cases hsome
      rw [Place.advance_append, ih hrest]
      rfl

/-- The mark in front of a text, if there is one. -/
def markOf (bytes : Bytes) : Bytes :=
  if byteOrderMark.isPrefixOf bytes then byteOrderMark else []

theorem markOf_append_withoutMark (bytes : Bytes) : markOf bytes ++ withoutMark bytes = bytes := by
  rw [markOf, withoutMark]
  split
  · next h =>
    obtain ⟨rest, rfl⟩ := List.isPrefixOf_iff_prefix.mp h
    rfl
  · rfl

/-- The records of passages behind a mark.  The first one has the place before the mark. -/
def placed (mark : Bytes) : List Passage → List PlacedRecord
  | [] => []
  | header :: rows =>
    ⟨.start, header.fields⟩ :: placedFrom (Place.start.after (mark ++ header.bytes)) rows

/-- The records of a text are those of its layout. -/
theorem records_of_layout {bytes : Bytes} {passages : List Passage}
    (h : Layout (withoutMark bytes) passages) : records bytes = placed (markOf bytes) passages := by
  rw [records]
  cases passages with
  | nil => rw [nextRecord?_of_layout_nil h]; rfl
  | cons passage passages =>
    obtain ⟨rest, hbytes, hnext, hrest⟩ := nextRecord?_of_layout h
    have hsplit : bytes = markOf bytes ++ passage.bytes ++ rest := by
      rw [List.append_assoc, ← hbytes, markOf_append_withoutMark]
    have hplace : Place.start.advance bytes rest = Place.start.after (markOf bytes ++ passage.bytes) :=
      calc Place.start.advance bytes rest
          = Place.start.advance (markOf bytes ++ passage.bytes ++ rest) rest :=
            congrArg (Place.start.advance · rest) hsplit
        _ = Place.start.after (markOf bytes ++ passage.bytes) := Place.advance_append _ _ _
    rw [hnext]
    dsimp only
    rw [hplace, recordsFrom_of_layout hrest]
    rfl

/-! ## Texts that start alike -/

/-- The bytes of the passages are those of the text, up to the blank lines at its end. -/
theorem Layout.exists_append {bytes : Bytes} {before after : List Passage}
    (h : Layout bytes (before ++ after)) :
    ∃ rest, bytes = before.flatMap Passage.bytes ++ rest ∧ Layout rest after := by
  induction before generalizing bytes with
  | nil => exact ⟨bytes, rfl, h⟩
  | cons passage before ih =>
    obtain ⟨rest, rfl, -, hrest⟩ := nextRecord?_of_layout h
    obtain ⟨rest', rfl, hrest'⟩ := ih hrest
    exact ⟨rest', by rw [List.flatMap_cons, List.append_assoc], hrest'⟩

/-- Behind a line end anything can follow, and the passages before stay what they are. -/
theorem Layout.append {bytes more : Bytes} {before after passages : List Passage} {passage : Passage}
    (h : Layout bytes (before ++ passage :: after)) (hending : passage.ending ≠ none)
    (hmore : Layout more passages) :
    Layout ((before ++ [passage]).flatMap Passage.bytes ++ more) (before ++ passage :: passages) := by
  induction before generalizing bytes with
  | nil =>
    cases h with
    | @ended blank text rest b fields _ hblank hne htext hb hrest =>
      have hlayout := Layout.ended hblank hne htext hb hmore
      simpa [Passage.bytes] using hlayout
    | last => exact absurd rfl hending
  | cons first before ih =>
    generalize hpassages : before ++ passage :: after = others at h ih
    have hcons : before ++ passage :: after ≠ [] := by simp
    rw [List.cons_append, hpassages] at h
    cases h with
    | @ended blank text rest b fields _ hblank hne htext hb hrest =>
      have hlayout := Layout.ended hblank hne htext hb (ih hrest)
      simpa [Passage.bytes] using hlayout
    | last => exact absurd hpassages hcons

theorem Layout.isLineEnd_ending {bytes : Bytes} {before after : List Passage} {passage : Passage}
    {b : UInt8} (h : Layout bytes (before ++ passage :: after)) (hending : passage.ending = some b) :
    isLineEnd b = true := by
  obtain ⟨rest, -, hrest⟩ := h.exists_append
  cases hrest with
  | ended _ _ _ hb _ => rwa [← Option.some.inj hending]
  | last => cases hending

theorem markOf_byteOrderMark_append (rest : Bytes) :
    markOf (byteOrderMark ++ rest) = byteOrderMark :=
  rfl

theorem withoutMark_byteOrderMark_append (rest : Bytes) :
    withoutMark (byteOrderMark ++ rest) = rest :=
  rfl

/-- A mark has no line end in it, so it stands before the first line end or not at all. -/
theorem isPrefixOf_byteOrderMark_append {start : Bytes} {b : UInt8} (hmem : b ∈ start)
    (hb : isLineEnd b = true) (rest : Bytes) :
    byteOrderMark.isPrefixOf (start ++ rest) = true ↔ byteOrderMark <+: start := by
  have hmark : ∀ b ∈ byteOrderMark, isLineEnd b = false := by
    simp [byteOrderMark, isLineEnd, lineFeed, carriageReturn]
  rw [List.isPrefixOf_iff_prefix]
  refine ⟨fun h => ?_, fun h => h.trans (List.prefix_append start rest)⟩
  rcases List.prefix_or_prefix_of_prefix h (List.prefix_append start rest) with h | h
  · exact h
  · rw [hmark b (h.subset hmem)] at hb
    cases hb

/-- Texts that agree up to the line end behind a record have the same passages up to there. -/
theorem exists_layout_append {bytes : Bytes} {before after : List Passage} {passage : Passage}
    (h : Layout (withoutMark bytes) (before ++ passage :: after)) (hending : passage.ending ≠ none)
    (more : Bytes) : ∃ passages,
      markOf (markOf bytes ++ (before ++ [passage]).flatMap Passage.bytes ++ more) = markOf bytes ∧
      Layout (withoutMark (markOf bytes ++ (before ++ [passage]).flatMap Passage.bytes ++ more))
        (before ++ passage :: passages) := by
  obtain ⟨passages, hmore⟩ := exists_layout more
  have hlayout := h.append hending hmore
  refine ⟨passages, ?_⟩
  by_cases hmark : byteOrderMark.isPrefixOf bytes = true
  · have hmarkOf : markOf bytes = byteOrderMark := if_pos hmark
    rw [hmarkOf, List.append_assoc, markOf_byteOrderMark_append, withoutMark_byteOrderMark_append]
    exact ⟨rfl, hlayout⟩
  · obtain ⟨b, hb⟩ := Option.ne_none_iff_exists'.mp hending
    have hmem : b ∈ (before ++ [passage]).flatMap Passage.bytes := by simp [Passage.bytes, hb]
    have hend : isLineEnd b = true := h.isLineEnd_ending hb
    have hmarkOf : markOf bytes = [] := if_neg hmark
    have hbytes : withoutMark bytes = bytes := if_neg hmark
    rw [hbytes, ← List.singleton_append, ← List.append_assoc] at h
    obtain ⟨rest, heq, -⟩ := h.exists_append
    rw [heq, isPrefixOf_byteOrderMark_append hmem hend,
      ← isPrefixOf_byteOrderMark_append hmem hend more] at hmark
    rw [hmarkOf, List.nil_append, markOf, if_neg hmark, withoutMark, if_neg hmark]
    exact ⟨rfl, hlayout⟩

end TimeTrials.Dataset
