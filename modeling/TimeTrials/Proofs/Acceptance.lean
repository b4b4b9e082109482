import TimeTrials.Proofs.Aggregates
import TimeTrials.Proofs.Dataset.Defects
import TimeTrials.Proofs.Timing

/-!
# What is accepted as a time

Times come in twice, from the output of a program and from a field of a dataset, and each way has its own
reader and its own faults.  They take the same texts, and for the same reasons.

* `Literal.isValidTime_toBinary64_iff`: the literals of valid times denote the numbers of a range, and it
  begins a little below zero.
* `Timing.read_eq_ok_iff_value`, `Dataset.read_eq_ok_iff_value`: what a time denotes, either way.
* `value_of_accepted`: it is in that range, and of what is below zero nothing is left but the minus sign.
* `Dataset.IsSingleRow`: a dataset of one row with a given text where the time stands, whatever is quoted.
* `readers_agree`: a text that is read as a time in one way is read as the same time in the other; and one
  that is refused is no literal in both, or the literal of an invalid time in both.
-/

namespace TimeTrials

open Number (Binary64 Literal LiteralFault LiteralText halfUnit overflow)
open Text (Bytes)

/-! ## Literals of valid times -/

namespace Number.Literal

/-- What a literal denotes, if it is a number. -/
def value? : Literal → Option ℚ
  | .nan => none
  | .infinite _ => none
  | .decimal negative value => some (if negative then -value.value else value.value)

theorem isValidTime_signed_true_iff {m : Magnitude} :
    isValidTime (.signed true m) = true ↔ m.rank = 0 := by
  rw [isValidTime_iff]
  constructor
  · rintro (h | ⟨_, h, -⟩)
    · rw [(Binary64.signed.inj h).2]
      rfl
    · cases h
  · intro h
    obtain rfl : m = .zero := Magnitude.eq_of_rank_eq h
    exact .inl rfl

theorem isValidTime_signed_false_iff {m : Magnitude} :
    isValidTime (.signed false m) = true ↔ m.isInfinite = false := by
  rw [isValidTime_iff]
  constructor
  · rintro (h | ⟨_, h, hfinite⟩)
    · cases h
    · rwa [(Binary64.signed.inj h).2]
  · intro h
    exact .inr ⟨m, rfl, h⟩

/-- **The literals of valid times** denote the numbers from just below zero, where a minus sign is all that
is left of a number, to just above the largest finite one. -/
theorem isValidTime_toBinary64_iff (literal : Literal) :
    isValidTime literal.toBinary64 = true ↔
      ∃ x, literal.value? = some x ∧ -halfUnit ≤ x ∧ x < overflow := by
  cases literal with
  | nan => exact iff_of_false (by decide) (by rintro ⟨_, h, -⟩; cases h)
  | infinite negative =>
    refine iff_of_false ?_ (by rintro ⟨_, h, -⟩; cases h)
    cases negative <;> decide
  | decimal negative value =>
    have hvalue := value.value_nonneg
    rw [toBinary64]
    cases negative with
    | true =>
      rw [isValidTime_signed_true_iff, Decimal.rank_toMagnitude_eq_zero_iff]
      constructor
      · intro h
        exact ⟨_, rfl, neg_le_neg h, (neg_nonpos.mpr hvalue).trans_lt overflow_pos⟩
      · rintro ⟨_, ⟨⟩, h, -⟩
        exact neg_le_neg_iff.mp h
    | false =>
      rw [isValidTime_signed_false_iff, Bool.eq_false_iff, ne_eq, Decimal.isInfinite_toMagnitude_iff,
        not_le]
      constructor
      · intro h
        exact ⟨_, rfl, (neg_nonpos.mpr halfUnit_pos.le).trans hvalue, h⟩
      · rintro ⟨_, ⟨⟩, -, h⟩
        exact h

/-- A number below zero that is taken for a valid time is read as negative zero. -/
theorem toBinary64_of_neg {literal : Literal} {x : ℚ} (h : literal.value? = some x)
    (hneg : x < 0) (hvalid : isValidTime literal.toBinary64 = true) :
    literal.toBinary64 = .negativeZero := by
  cases literal with
  | nan => cases h
  | infinite negative => cases h
  | decimal negative value =>
    cases negative with
    | true =>
      have hzero : value.toMagnitude = .zero :=
        Magnitude.eq_of_rank_eq (isValidTime_signed_true_iff.mp hvalid)
      rw [toBinary64, hzero, Binary64.negativeZero]
    | false =>
      cases h
      exact absurd value.value_nonneg (not_le.mpr hneg)

end Number.Literal

/-! ## The numbers that are accepted -/

/-- A text is a literal of a number in the range of times, and the time is the nearest one to it. -/
def IsTimeText (text : List Char) (time : Binary64) : Prop :=
  ∃ literal x, LiteralText text literal ∧ literal.value? = some x ∧ -halfUnit ≤ x ∧ x < overflow ∧
    literal.toBinary64 = time

theorem isTimeText_iff {text : List Char} {time : Binary64} :
    IsTimeText text time ↔
      ∃ literal, LiteralText text literal ∧ literal.toBinary64 = time ∧ isValidTime time = true := by
  constructor
  · rintro ⟨literal, x, htext, hx, hlow, hhigh, rfl⟩
    exact ⟨literal, htext, rfl, literal.isValidTime_toBinary64_iff.mpr ⟨x, hx, hlow, hhigh⟩⟩
  · rintro ⟨literal, htext, rfl, hvalid⟩
    obtain ⟨x, hx, hlow, hhigh⟩ := literal.isValidTime_toBinary64_iff.mp hvalid
    exact ⟨literal, x, htext, hx, hlow, hhigh, rfl⟩

/-- The times that are found in outputs. -/
theorem Timing.read_eq_ok_iff_value {place : Place} {output : String} {time : Binary64} :
    read place output = .ok time ↔ ∃ line, IsLine place output.toList line ∧
      IsTimeText (Text.trim (String.ofList line)).toList time := by
  simp only [isTimeText_iff, ← readTime_eq_ok_iff]
  constructor
  · intro h
    rcases exists_isLine place output.toList with ⟨line, hline⟩ | ⟨rfl, hmem⟩
    · exact ⟨line, hline, by rwa [← read_of_isLine hline]⟩
    · rw [read_of_notMem hmem] at h
      cases h
  · rintro ⟨line, hline, h⟩
    rw [read_of_isLine hline, h]

namespace Dataset

/-- A row field by field, with the text of a time in the last one. -/
def HoldsTrial (kind : Kind) (fields : Record) (trial : Trial) : Prop :=
  ∃ param text, fields = recordOf [trial.lang, param, text] ∧
    readParam kind param = .ok trial.param ∧ IsTimeText text.toList trial.time

theorem isValidRow_iff {kind : Kind} {fields : Record} {trial : Trial} :
    IsValidRow kind fields trial ↔ HoldsTrial kind fields trial := by
  -- The place of a record is for faults only, so any will do.
  show IsRow kind (PlacedRecord.mk .start fields).fields trial ∧ _ ↔ _
  rw [← readTrial_eq_ok_iff_isRow, readTrial_eq_ok_iff]
  simp only [HoldsTrial, texts_eq_ok_iff, readTime_eq_ok_iff, isTimeText_iff]
  constructor
  · rintro ⟨⟨param, text, hfields, hparam, literal, htext, htime⟩, hvalid⟩
    exact ⟨param, text, hfields, hparam, literal, htext, htime, hvalid⟩
  · rintro ⟨param, text, hfields, hparam, literal, htext, htime, hvalid⟩
    exact ⟨⟨param, text, hfields, hparam, literal, htext, htime⟩, hvalid⟩

/-- The trials that are read from datasets. -/
theorem read_eq_ok_iff_value {kind : Kind} {bytes : Bytes} {passages : List Passage}
    (h : Layout (withoutMark bytes) passages) {trials : List Trial} :
    read kind bytes = .ok trials ↔ ∃ header rows, passages = header :: rows ∧
      header.fields = headerRecord kind ∧
      List.Forall₂ (fun row trial => HoldsTrial kind row.fields trial) rows trials := by
  simp only [read_eq_ok_iff_layout h, isValidRow_iff]

end Dataset

/-- A number that is accepted is not below zero, or it is so near to zero that nothing is left of it but the
minus sign. -/
theorem IsTimeText.nonneg_or {text : List Char} {time : Binary64} (h : IsTimeText text time) :
    ∃ literal x, LiteralText text literal ∧ literal.value? = some x ∧ literal.toBinary64 = time ∧
      (0 ≤ x ∨ -halfUnit ≤ x ∧ time = .negativeZero) := by
  obtain ⟨literal, x, htext, hx, hlow, hhigh, rfl⟩ := h
  refine ⟨literal, x, htext, hx, rfl, ?_⟩
  rcases lt_or_ge x 0 with hneg | hpos
  · have hvalid := literal.isValidTime_toBinary64_iff.mpr ⟨x, hx, hlow, hhigh⟩
    exact .inr ⟨hlow, Literal.toBinary64_of_neg hx hneg hvalid⟩
  · exact .inl hpos

/-- **What is accepted.**  A time that is found in an output, and the time of every row of a dataset, is
the number nearest to what its literal denotes, which is no further below zero than half of the least
positive number; and it is negative zero if that is below zero. -/
theorem value_of_accepted (place : Timing.Place) (output : String) (kind : Kind) (bytes : Bytes) :
    (∀ time, Timing.read place output = .ok time ↔
      ∃ line, Timing.IsLine place output.toList line ∧
        IsTimeText (Text.trim (String.ofList line)).toList time) ∧
    (∀ passages, Dataset.Layout (Dataset.withoutMark bytes) passages → ∀ trials,
      Dataset.read kind bytes = .ok trials ↔ ∃ header rows, passages = header :: rows ∧
        header.fields = Dataset.headerRecord kind ∧
        List.Forall₂ (fun row trial => Dataset.HoldsTrial kind row.fields trial) rows trials) ∧
    ∀ text time, IsTimeText text time → ∃ literal x, LiteralText text literal ∧
      literal.value? = some x ∧ literal.toBinary64 = time ∧
        (0 ≤ x ∨ -halfUnit ≤ x ∧ time = .negativeZero) :=
  ⟨fun _ => Timing.read_eq_ok_iff_value, fun _ hlayout _ => Dataset.read_eq_ok_iff_value hlayout,
    fun _ _ => IsTimeText.nonneg_or⟩

/-- A time that is negative zero, from an output and from a dataset. -/
theorem value_of_accepted_negative_zero :
    Timing.read .lastLine "done\n-1e-400\n" = .ok .negativeZero ∧
    (∃ line literal x, Timing.IsLine .lastLine "done\n-1e-400\n".toList line ∧
      LiteralText (Text.trim (String.ofList line)).toList literal ∧ literal.value? = some x ∧
        literal.toBinary64 = .negativeZero ∧
          (0 ≤ x ∨ -halfUnit ≤ x ∧ Binary64.negativeZero = .negativeZero)) ∧
    Dataset.read .sizes (Text.Utf8.encode "lang,n,time\na,10,-1e-400\n") =
      .ok [⟨"a", .size 10, .negativeZero⟩] ∧
    ∃ header rows, Dataset.Layout
        (Dataset.withoutMark (Text.Utf8.encode "lang,n,time\na,10,-1e-400\n")) (header :: rows) ∧
      List.Forall₂ (fun row trial => Dataset.HoldsTrial .sizes row.fields trial) rows
        [⟨"a", .size 10, .negativeZero⟩] := by
  obtain ⟨houtput, hdataset, hvalue⟩ := value_of_accepted .lastLine "done\n-1e-400\n" .sizes
    (Text.Utf8.encode "lang,n,time\na,10,-1e-400\n")
  have hread : Timing.read .lastLine "done\n-1e-400\n" = .ok .negativeZero := by decide +kernel
  obtain ⟨line, hline, htext⟩ := (houtput _).mp hread
  obtain ⟨literal, x, hliteral, hx, htime, hrange⟩ := hvalue _ _ htext
  refine ⟨hread, ⟨line, literal, x, hline, hliteral, hx, htime, hrange⟩, ?_⟩
  have hrows : Dataset.read .sizes (Text.Utf8.encode "lang,n,time\na,10,-1e-400\n") =
      .ok [⟨"a", .size 10, .negativeZero⟩] := by
    decide +kernel
  obtain ⟨passages, hlayout⟩ := Dataset.exists_layout
    (Dataset.withoutMark (Text.Utf8.encode "lang,n,time\na,10,-1e-400\n"))
  obtain ⟨header, rows, rfl, -, htrials⟩ := (hdataset _ hlayout _).mp hrows
  exact ⟨hrows, header, rows, hlayout, htrials⟩

/-- The literal of a number below zero that is accepted, as the only thing in an output and as the time of
a row. -/
theorem negative_value_accepted :
    LiteralText "-1e-400".toList (.decimal true ⟨1, -400⟩) ∧
    (∃ x, (Literal.decimal true ⟨1, -400⟩).value? = some x ∧ x < 0) ∧
    Timing.IsLine .wholeOutput "-1e-400".toList "-1e-400".toList ∧
    Timing.read .wholeOutput "-1e-400" = .ok .negativeZero ∧
    Dataset.IsRow .sizes (Dataset.recordOf ["a", "10", "-1e-400"]) ⟨"a", .size 10, .negativeZero⟩ ∧
    Dataset.read .sizes (Text.Utf8.encode "lang,n,time\na,10,-1e-400\n") =
      .ok [⟨"a", .size 10, .negativeZero⟩] := by
  have hliteral : LiteralText "-1e-400".toList (.decimal true ⟨1, -400⟩) :=
    Literal.parse_eq_ok_iff.mp (by decide)
  have hneg : -Number.Decimal.value ⟨1, -400⟩ < 0 := by
    rw [Number.Decimal.value, neg_lt_zero]
    positivity
  have hline : Timing.IsLine .wholeOutput ("-1e-400".toList ++ List.replicate 0 '\n')
      "-1e-400".toList := .wholeOutput (by decide) 0
  have hrow : Dataset.readTrial .sizes ⟨.start, Dataset.recordOf ["a", "10", "-1e-400"]⟩ =
      .ok ⟨"a", .size 10, .negativeZero⟩ := by
    decide +kernel
  exact ⟨hliteral, ⟨_, rfl, hneg⟩, hline, by decide +kernel,
    Dataset.readTrial_eq_ok_iff_isRow.mp hrow, by decide +kernel⟩

/-! ## One row -/

namespace Dataset

/-- A dataset with the right header and one row, with a given text where the time stands, and otherwise a
row of a kind. -/
def IsSingleRow (kind : Kind) (bytes : Bytes) (lang : String) (param : Param) (text : String) : Prop :=
  ∃ header row paramText, Layout (withoutMark bytes) [header, row] ∧
    header.fields = headerRecord kind ∧ row.fields = recordOf [lang, paramText, text] ∧
      readParam kind paramText = .ok param

/-- The dataset that would have been written with the text as the time. -/
theorem isSingleRow_encode (lang text : String) (param : Param) :
    IsSingleRow param.kind (encodeHeader param.kind ++ encodeTexts [lang, param.text, text])
      lang param text := by
  have hvisible : ∀ record ∈ [headerRecord param.kind, recordOf [lang, param.text, text]],
      IsVisible record :=
    List.forall_mem_cons.mpr ⟨isVisible_headerRecord _,
      List.forall_mem_singleton.mpr (isVisible_of_length (by simp [recordOf]))⟩
  have hlayout := layout_flatMap_encodeRecord hvisible
  simp only [List.flatMap_cons, List.flatMap_nil, List.append_nil, List.map_cons, List.map_nil]
    at hlayout
  refine ⟨.written (headerRecord param.kind), .written (recordOf [lang, param.text, text]), param.text,
    ?_, rfl, rfl, readParam_text param⟩
  rw [withoutMark_encodeHeader_append]
  exact hlayout

section

variable {kind : Kind} {bytes : Bytes} {lang paramText text : String} {param : Param} {place : Place}

theorem readRow_of_parse_eq_error {fault : LiteralFault} (hparam : readParam kind paramText = .ok param)
    (h : Literal.parse text = .error fault) :
    readRow kind ⟨place, recordOf [lang, paramText, text]⟩ =
      .error (.row kind.layout (.badField place 2 (.literal fault))) := by
  rw [readRow, readTrial_recordOf, hparam, readTime, Binary64.parse, h]
  rfl

theorem readRow_of_literalText {literal : Literal} (hparam : readParam kind paramText = .ok param)
    (h : LiteralText text.toList literal) :
    readRow kind ⟨place, recordOf [lang, paramText, text]⟩ =
      if isValidTime literal.toBinary64 then .ok ⟨lang, param, literal.toBinary64⟩
      else .error (.time place.line literal.toBinary64) := by
  rw [readRow, readTrial_recordOf, hparam, readTime, Binary64.parse, Literal.parse_eq_ok_iff.mpr h]
  rfl

/-- The one row is all that is looked at. -/
theorem read_of_isSingleRow (h : IsSingleRow kind bytes lang param text) : ∃ place paramText,
    readParam kind paramText = .ok param ∧
      read kind bytes = readRow kind ⟨place, recordOf [lang, paramText, text]⟩ >>= fun trial =>
        .ok [trial] := by
  obtain ⟨header, row, paramText, hlayout, hheader, hrow, hparam⟩ := h
  refine ⟨placeOfRows (markOf bytes) header, paramText, hparam, ?_⟩
  rw [read_eq_of_layout hlayout, placed, List.head?_cons, checkHeader_eq_ok_iff.mpr hheader, ← hrow]
  show [(⟨placeOfRows (markOf bytes) header, row.fields⟩ : PlacedRecord)].mapM (readRow kind) = _
  rw [List.mapM_cons]
  rfl

end

end Dataset

/-! ## One text, two readers -/

section

variable {kind : Kind} {bytes : Bytes} {lang text : String} {param : Param}
  (hrow : Dataset.IsSingleRow kind bytes lang param text) (htext : Text.IsTrimmed text.toList)

include htext in
/-- A text without blanks at its ends is a timing line as it is. -/
theorem Timing.read_of_isTrimmed : read .wholeOutput text = readTime text := by
  have hend : text.toList.getLast? ≠ some '\n' := fun hlast => absurd (htext.2 '\n' hlast) (by decide)
  have hline : IsLine .wholeOutput text.toList text.toList := by
    simpa using IsLine.wholeOutput hend 0
  rw [read_of_isLine hline, String.ofList_toList]

include hrow htext in
/-- Both readers give up for the reader of literals, or both read the same number and it is a valid time or
not. -/
theorem both_read :
    (∃ fault place, Timing.read .wholeOutput text = .error (.notATime text (some fault)) ∧
      Dataset.read kind bytes = .error (.row kind.layout (.badField place 2 (.literal fault)))) ∨
    (∃ line time, Timing.read .wholeOutput text = .error (.notATime text none) ∧
      Dataset.read kind bytes = .error (.time line time)) ∨
    ∃ time, Timing.read .wholeOutput text = .ok time ∧
      Dataset.read kind bytes = .ok [⟨lang, param, time⟩] := by
  obtain ⟨place, paramText, hparam, hread⟩ := Dataset.read_of_isSingleRow hrow
  have htrim := Text.trim_eq_self htext
  rw [Timing.read_of_isTrimmed htext, hread]
  rcases Timing.parse_eq_error_or_literalText text with ⟨fault, hparse⟩ | ⟨literal, hliteral⟩
  · left
    rw [Timing.readTime_of_parse_eq_error (by rwa [htrim]),
      Dataset.readRow_of_parse_eq_error hparam hparse]
    exact ⟨fault, place, rfl, rfl⟩
  · right
    rw [Timing.readTime_of_literalText (by rwa [htrim]),
      Dataset.readRow_of_literalText hparam hliteral]
    split_ifs with hvalid
    · exact .inr ⟨_, rfl, rfl⟩
    · exact .inl ⟨_, _, rfl, rfl⟩

end

/-- **The readers agree.**  Of a text without blanks at its ends, one reader finds a time where the other
reads a trial with this time from any dataset of one row that has the text for its time; and when neither
does, the fault of the output has a reason behind it exactly when the fault of the dataset is that of a row,
and none exactly when it is that of an invalid time. -/
theorem readers_agree (text : String) (htext : Text.IsTrimmed text.toList) (lang : String) (param : Param) :
    Dataset.IsSingleRow param.kind
        (Dataset.encodeHeader param.kind ++ Dataset.encodeTexts [lang, param.text, text])
        lang param text ∧
    ∀ kind bytes, Dataset.IsSingleRow kind bytes lang param text →
      (∀ time, Timing.read .wholeOutput text = .ok time ↔
        Dataset.read kind bytes = .ok [⟨lang, param, time⟩]) ∧
      (∀ trials, Dataset.read kind bytes = .ok trials → ∃ time, trials = [⟨lang, param, time⟩]) ∧
      ∀ fault fault', Timing.read .wholeOutput text = .error fault →
        Dataset.read kind bytes = .error fault' →
          (∃ literal, fault = .notATime text literal) ∧
          (fault.reasons = [] ↔ ∃ line time, fault' = .time line time) ∧
          (fault.reasons ≠ [] ↔ ∃ place literal,
            fault' = .row kind.layout (.badField place 2 (.literal literal))) := by
  refine ⟨Dataset.isSingleRow_encode lang text param, fun kind bytes hrow => ?_⟩
  rcases both_read hrow htext with ⟨literal, place, hleft, hright⟩ | ⟨line, time, hleft, hright⟩ |
    ⟨time, hleft, hright⟩
  · rw [hleft, hright]
    refine ⟨by simp, by simp, ?_⟩
    rintro _ _ ⟨⟩ ⟨⟩
    exact ⟨⟨_, rfl⟩, by simp [Timing.Fault.reasons], by simp [Timing.Fault.reasons]⟩
  · rw [hleft, hright]
    refine ⟨by simp, by simp, ?_⟩
    rintro _ _ ⟨⟩ ⟨⟩
    exact ⟨⟨_, rfl⟩, by simp [Timing.Fault.reasons], by simp [Timing.Fault.reasons]⟩
  · rw [hleft, hright]
    exact ⟨by simp, by simp, by simp⟩

/-- A time that both readers find, and a text that is quoted in a dataset and no time in either. -/
theorem readers_agree_quoted :
    (Timing.read .wholeOutput "0.0" = .ok .zero ∧
      Dataset.read .sizes (Dataset.encodeHeader .sizes ++ Dataset.encodeTexts ["a,b", "10", "0.0"]) =
        .ok [⟨"a,b", .size 10, .zero⟩]) ∧
    (∃ fault fault', Timing.read .wholeOutput "0,0" = .error fault ∧
      Dataset.read .benchmarks
        (Dataset.encodeHeader .benchmarks ++ Dataset.encodeTexts ["a", "b", "0,0"]) = .error fault' ∧
      fault.reasons ≠ [] ∧ ∃ place literal,
        fault' = .row Kind.benchmarks.layout (.badField place 2 (.literal literal))) := by
  constructor
  · have htext : Text.IsTrimmed "0.0".toList := ⟨by rintro c ⟨⟩; rfl, by rintro c ⟨⟩; rfl⟩
    obtain ⟨hrow, hagree⟩ := readers_agree "0.0" htext "a,b" (.size 10)
    obtain ⟨htimes, -⟩ := hagree _ _ hrow
    have hread : Timing.read .wholeOutput "0.0" = .ok .zero := by decide
    exact ⟨hread, (htimes _).mp hread⟩
  · have htext : Text.IsTrimmed "0,0".toList := ⟨by rintro c ⟨⟩; rfl, by rintro c ⟨⟩; rfl⟩
    obtain ⟨hrow, hagree⟩ := readers_agree "0,0" htext "a" (.benchmark "b")
    obtain ⟨htimes, hsingle, hfaults⟩ := hagree _ _ hrow
    have hread : Timing.read .wholeOutput "0,0" = .error (.notATime "0,0" (some .invalid)) := by
      decide
    cases hdataset : Dataset.read .benchmarks
        (Dataset.encodeHeader .benchmarks ++ Dataset.encodeTexts ["a", "b", "0,0"]) with
    | ok trials =>
      obtain ⟨time, rfl⟩ := hsingle _ hdataset
      have hfound := (htimes time).mpr hdataset
      rw [hread] at hfound
      cases hfound
    | error fault' =>
      obtain ⟨-, -, hreasons⟩ := hfaults _ _ hread hdataset
      exact ⟨_, _, hread, rfl, by decide, hreasons.mp (by decide)⟩

end TimeTrials
