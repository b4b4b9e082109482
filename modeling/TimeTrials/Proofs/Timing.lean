import TimeTrials.Proofs.Number.Grammar
import TimeTrials.Proofs.Text.Blank
import TimeTrials.Timing

/-!
# The line that holds the time

In one place the whole output is the time, up to the line ends after it; in the other the time is on the
last line that is ended.  `IsLine` says in either case which characters are looked at, and these alone
decide what is read (`read_of_isLine`).  An output without any line end has no ended line, and that is the
only one without (`exists_isLine`).

* `readTime_of_parse_eq_error`, `readTime_of_literalText`: what is made of the line.
* `lacksBlanks_of_literalText`: a literal has no blanks in it, so a line end between other characters, which
  no trimming removes, makes a text that is none (`readTime_of_lineEnd`).
* `read_only_timing_line`: so everything in front of the timing line, and behind it, makes no difference.
-/

namespace TimeTrials.Timing

open Number (Binary64 Literal LiteralFault LiteralText)

/-! ## Times -/

theorem readTime_of_parse_eq_error {text : String} {literal : LiteralFault}
    (h : Literal.parse (Text.trim text) = .error literal) :
    readTime text = .error (.notATime text (some literal)) := by
  rw [readTime, Binary64.parse, h]
  rfl

theorem readTime_of_literalText {text : String} {literal : Literal}
    (h : LiteralText (Text.trim text).toList literal) :
    readTime text = if isValidTime literal.toBinary64 then .ok literal.toBinary64
      else .error (.notATime text none) := by
  rw [readTime, Binary64.parse, Literal.parse_eq_ok_iff.mpr h]
  rfl

/-- Every text is refused by the reader of literals, or it is one. -/
theorem parse_eq_error_or_literalText (text : String) :
    (∃ fault, Literal.parse text = .error fault) ∨ ∃ literal, LiteralText text.toList literal := by
  cases h : Literal.parse text with
  | error fault => exact .inl ⟨fault, rfl⟩
  | ok literal => exact .inr ⟨literal, Literal.parse_eq_ok_iff.mp h⟩

/-- Times are the literals of valid times. -/
theorem readTime_eq_ok_iff {text : String} {time : Binary64} :
    readTime text = .ok time ↔ ∃ literal, LiteralText (Text.trim text).toList literal ∧
      literal.toBinary64 = time ∧ isValidTime time = true := by
  constructor
  · intro h
    rcases parse_eq_error_or_literalText (Text.trim text) with ⟨fault, hparse⟩ | ⟨literal, htext⟩
    · rw [readTime_of_parse_eq_error hparse] at h
      cases h
    · rw [readTime_of_literalText htext] at h
      split_ifs at h with hvalid
      obtain rfl := Except.ok.inj h
      exact ⟨literal, htext, rfl, hvalid⟩
  · rintro ⟨literal, htext, rfl, hvalid⟩
    rw [readTime_of_literalText htext, if_pos hvalid]

/-- A time that is found is valid. -/
theorem isValidTime_of_readTime {text : String} {time : Binary64} (h : readTime text = .ok time) :
    isValidTime time = true := by
  obtain ⟨-, -, -, hvalid⟩ := readTime_eq_ok_iff.mp h
  exact hvalid

theorem readTime_ne_missingLine (text : String) (found : Nat) :
    readTime text ≠ .error (.missingLine found) := by
  intro h
  rcases parse_eq_error_or_literalText (Text.trim text) with ⟨fault, hparse⟩ | ⟨literal, htext⟩
  · rw [readTime_of_parse_eq_error hparse] at h
    cases h
  · rw [readTime_of_literalText htext] at h
    split_ifs at h
    cases h

/-! ## The timing line -/

/-- The characters that are looked at: the output without the line ends after it, or what stands
between the last two line ends, the first of which can be the beginning. -/
inductive IsLine : Place → List Char → List Char → Prop
  | wholeOutput {line : List Char} (hend : line.getLast? ≠ some '\n') (count : Nat) :
      IsLine .wholeOutput (line ++ List.replicate count '\n') line
  | lastLine {before line after : List Char} (hbefore : before = [] ∨ before.getLast? = some '\n')
      (hline : '\n' ∉ line) (hafter : '\n' ∉ after) :
      IsLine .lastLine (before ++ line ++ '\n' :: after) line

theorem lines_of_notMem {text : List Char} (h : '\n' ∉ text) : lines text = [text] :=
  List.splitOn_eq_singleton h

/-- A line end divides the lines before it from the ones behind it. -/
theorem lines_append (before after : List Char) :
    lines (before ++ '\n' :: after) = lines before ++ lines after :=
  List.splitOn_append_cons_self before after

/-- The last two pieces of an output with an ended line. -/
theorem exists_lines_of_isLine {output line : List Char} (h : IsLine .lastLine output line) :
    ∃ earlier after, lines output = earlier ++ [line, after] := by
  cases h with
  | @lastLine before line after hbefore hline hafter =>
    rw [lines_append, lines_of_notMem hafter]
    rcases hbefore with rfl | hbefore
    · exact ⟨[], after, by rw [List.nil_append, lines_of_notMem hline]; rfl⟩
    · obtain ⟨before, rfl⟩ := List.getLast?_eq_some_iff.mp hbefore
      refine ⟨lines before, after, ?_⟩
      rw [List.append_assoc, List.singleton_append, lines_append, lines_of_notMem hline,
        List.append_assoc]
      rfl

/-- What is read is the time on the line. -/
theorem read_of_isLine {place : Place} {output : String} {line : List Char}
    (h : IsLine place output.toList line) : read place output = readTime (String.ofList line) := by
  cases place with
  | wholeOutput =>
    rw [read]
    generalize output.toList = chars at h
    cases h with
    | wholeOutput hend count =>
      rw [Text.dropEndWhile_append_replicate (by decide), Text.dropEndWhile_eq_self]
      intro c hc
      refine beq_false_of_ne ?_
      rintro rfl
      exact hend hc
  | lastLine =>
    obtain ⟨earlier, after, hlines⟩ := exists_lines_of_isLine h
    rw [read, hlines]
    simp only [List.reverse_append, List.reverse_cons, List.reverse_nil, List.nil_append,
      List.cons_append]

/-- The last place of a character in a list. -/
theorem exists_append_of_mem {text : List Char} {c : Char} (h : c ∈ text) :
    ∃ before after, text = before ++ c :: after ∧ c ∉ after := by
  obtain ⟨before, after, hsplit, hbefore⟩ := List.eq_append_cons_of_mem (List.mem_reverse.mpr h)
  refine ⟨after.reverse, before.reverse, ?_, by simpa using hbefore⟩
  rw [← List.reverse_reverse text, hsplit]
  simp

/-- An output that is all time has a line, and one that is not has it as soon as there is a line end. -/
theorem exists_isLine (place : Place) (output : List Char) :
    (∃ line, IsLine place output line) ∨ place = .lastLine ∧ '\n' ∉ output := by
  cases place with
  | wholeOutput =>
    obtain ⟨dropped, hsplit, hdropped⟩ := Text.exists_dropEndWhile (· == '\n') output
    have hlast := Text.getLast?_dropEndWhile (· == '\n') output
    generalize Text.dropEndWhile (· == '\n') output = line at hsplit hlast
    have hreplicate : dropped = List.replicate dropped.length '\n' :=
      List.eq_replicate_iff.mpr ⟨rfl, fun c hc => eq_of_beq (hdropped c hc)⟩
    rw [hsplit, hreplicate]
    refine .inl ⟨line, .wholeOutput (fun hend => ?_) _⟩
    have hne := hlast '\n' hend
    cases hne
  | lastLine =>
    by_cases hmem : '\n' ∈ output
    · obtain ⟨start, after, rfl, hafter⟩ := exists_append_of_mem hmem
      by_cases hstart : '\n' ∈ start
      · obtain ⟨before, line, rfl, hline⟩ := exists_append_of_mem hstart
        have hsplit : before ++ '\n' :: line = before ++ ['\n'] ++ line := by simp
        rw [hsplit]
        exact .inl ⟨line, .lastLine (.inr (by simp)) hline hafter⟩
      · exact .inl ⟨start, .lastLine (.inl rfl) hstart hafter⟩
    · exact .inr ⟨rfl, hmem⟩

theorem read_of_notMem {output : String} (h : '\n' ∉ output.toList) :
    read .lastLine output = .error (.missingLine 1) := by
  rw [read, lines_of_notMem h]
  rfl

/-- There is no line exactly where there is no line end. -/
theorem read_eq_missingLine_iff {place : Place} {output : String} {found : Nat} :
    read place output = .error (.missingLine found) ↔
      place = .lastLine ∧ '\n' ∉ output.toList ∧ found = 1 := by
  constructor
  · intro h
    rcases exists_isLine place output.toList with ⟨line, hline⟩ | ⟨rfl, hmem⟩
    · rw [read_of_isLine hline] at h
      exact absurd h (readTime_ne_missingLine _ _)
    · rw [read_of_notMem hmem] at h
      cases h
      exact ⟨rfl, hmem, rfl⟩
  · rintro ⟨rfl, hmem, rfl⟩
    exact read_of_notMem hmem

theorem isValidTime_of_read {place : Place} {output : String} {time : Binary64}
    (h : read place output = .ok time) : isValidTime time = true := by
  rcases exists_isLine place output.toList with ⟨line, hline⟩ | ⟨rfl, hmem⟩
  · rw [read_of_isLine hline] at h
    exact isValidTime_of_readTime h
  · rw [read_of_notMem hmem] at h
    cases h

/-! ## Line ends inside -/

/-- There is no blank in the text. -/
def LacksBlanks (text : List Char) : Prop := ∀ c ∈ text, Text.isBlank c = false

theorem LacksBlanks.append {text text' : List Char} (h : LacksBlanks text)
    (h' : LacksBlanks text') : LacksBlanks (text ++ text') := by
  intro c hc
  exact (List.mem_append.mp hc).elim (h c) (h' c)

theorem LacksBlanks.cons {text : List Char} {c : Char} (hc : Text.isBlank c = false)
    (h : LacksBlanks text) : LacksBlanks (c :: text) :=
  List.forall_mem_cons.mpr ⟨hc, h⟩

theorem lacksBlanks_of_isDigits {digits : List Char} (h : Number.IsDigits digits) :
    LacksBlanks digits := by
  intro c hc
  have hdigit := h c hc
  simp only [Char.isDigit, Bool.and_eq_true, decide_eq_true_eq] at hdigit
  have hlow : 48 ≤ c.toNat := hdigit.1
  have hhigh : c.toNat ≤ 57 := hdigit.2
  rw [Bool.eq_false_iff]
  intro hblank
  simp only [Text.isBlank, Bool.or_eq_true, Bool.and_eq_true, decide_eq_true_eq] at hblank
  omega

/-- A blank has no other case. -/
theorem toLower_of_isBlank {c : Char} (h : Text.isBlank c = true) : c.toLower = c := by
  have hupper : ¬ (c.val ≥ 'A'.val ∧ c.val ≤ 'Z'.val) := by
    rintro ⟨hlow, hhigh⟩
    have hlow' : 65 ≤ c.toNat := hlow
    have hhigh' : c.toNat ≤ 90 := hhigh
    simp only [Text.isBlank, Bool.or_eq_true, Bool.and_eq_true, decide_eq_true_eq] at h
    omega
  exact dif_neg hupper

theorem lacksBlanks_of_map_toLower {text name : List Char} (h : text.map Char.toLower = name)
    (hname : LacksBlanks name) : LacksBlanks text := by
  intro c hc
  rw [Bool.eq_false_iff]
  intro hblank
  have hlower := hname c.toLower (by rw [← h]; exact List.mem_map_of_mem hc)
  rw [toLower_of_isBlank hblank, hblank] at hlower
  cases hlower

theorem lacksBlanks_of_signText {sign : List Char} {negative : Bool}
    (h : Number.SignText sign negative) : LacksBlanks sign := by
  cases h <;> simp [LacksBlanks, Text.isBlank]

theorem lacksBlanks_of_exponentText {text : List Char} {exponent : Int}
    (h : Number.ExponentText text exponent) : LacksBlanks text := by
  cases h with
  | none => exact List.forall_mem_nil _
  | mark hmark hsign _ hdigits =>
    refine .cons ?_ ((lacksBlanks_of_signText hsign).append (lacksBlanks_of_isDigits hdigits))
    rcases hmark with rfl | rfl <;> rfl

theorem lacksBlanks_of_decimalText {text : List Char} {value : Number.Decimal}
    (h : Number.DecimalText text value) : LacksBlanks text := by
  cases h with
  | whole _ hdigits htail =>
    exact (lacksBlanks_of_isDigits hdigits).append (lacksBlanks_of_exponentText htail)
  | point _ hwhole hplaces htail =>
    refine (lacksBlanks_of_isDigits hwhole).append (.cons rfl ?_)
    exact (lacksBlanks_of_isDigits hplaces).append (lacksBlanks_of_exponentText htail)

theorem lacksBlanks_of_literalText {text : List Char} {literal : Literal}
    (h : LiteralText text literal) : LacksBlanks text := by
  cases h with
  | nan hsign hname =>
    refine (lacksBlanks_of_signText hsign).append (lacksBlanks_of_map_toLower hname ?_)
    simp [LacksBlanks, Text.isBlank]
  | infinite hsign hname =>
    refine (lacksBlanks_of_signText hsign).append ?_
    rcases hname with hname | hname
    · exact lacksBlanks_of_map_toLower hname (by simp [LacksBlanks, Text.isBlank])
    · exact lacksBlanks_of_map_toLower hname (by simp [LacksBlanks, Text.isBlank])
  | decimal hsign htext =>
    exact (lacksBlanks_of_signText hsign).append (lacksBlanks_of_decimalText htext)

theorem eq_invalid_of_parse {text : String} {fault : LiteralFault} (hne : text.toList ≠ [])
    (h : Literal.parse text = .error fault) : fault = .invalid := by
  rw [Literal.parse] at h
  split at h
  · contradiction
  · split at h
    split at h <;> cases h
    rfl

/-- A text with a blank in it is no literal. -/
theorem parse_of_mem_isBlank {text : String} {c : Char} (hc : c ∈ text.toList)
    (hblank : Text.isBlank c = true) : Literal.parse text = .error .invalid := by
  rcases parse_eq_error_or_literalText text with ⟨fault, hparse⟩ | ⟨literal, htext⟩
  · rwa [eq_invalid_of_parse (List.ne_nil_of_mem hc) hparse] at hparse
  · rw [lacksBlanks_of_literalText htext c hc] at hblank
    cases hblank

/-- A line end with something else on both sides of it is still there after trimming. -/
theorem readTime_of_lineEnd {text : String} {first second : List Char}
    (htext : text.toList = first ++ '\n' :: second) (hfirst : ∃ c ∈ first, Text.isBlank c = false)
    (hsecond : ∃ c ∈ second, Text.isBlank c = false) :
    readTime text = .error (.notATime text (some .invalid)) :=
  readTime_of_parse_eq_error (parse_of_mem_isBlank (Text.mem_toList_trim htext hfirst hsecond) rfl)

/-- What an output ends with does not hide a line end inside of it. -/
theorem read_wholeOutput_of_lineEnd {output : String} {first second : List Char}
    (houtput : output.toList = first ++ '\n' :: second)
    (hfirst : ∃ c ∈ first, Text.isBlank c = false)
    (hsecond : ∃ c ∈ second, Text.isBlank c = false) :
    ∃ found, read .wholeOutput output = .error (.notATime found (some .invalid)) := by
  obtain ⟨last, hlast, hblank⟩ := hsecond
  have hstays : (last == '\n') = false := by
    refine beq_false_of_ne ?_
    rintro rfl
    cases hblank
  have hkeeps : ∃ c ∈ second, (c == '\n') = false := ⟨last, hlast, hstays⟩
  have hline : Text.dropEndWhile (· == '\n') output.toList =
      first ++ '\n' :: Text.dropEndWhile (· == '\n') second := by
    have hcut := Text.dropEndWhile_append hkeeps (first ++ ['\n'])
    simpa [houtput] using hcut
  obtain ⟨dropped, hsplit, hdropped⟩ := Text.exists_dropEndWhile (· == '\n') second
  have hsecond' : ∃ c ∈ Text.dropEndWhile (· == '\n') second, Text.isBlank c = false := by
    refine ⟨last, ?_, hblank⟩
    rw [hsplit, List.mem_append] at hlast
    rcases hlast with hkept | hgone
    · exact hkept
    · rw [hdropped last hgone] at hstays
      cases hstays
  rw [read, hline]
  exact ⟨_, readTime_of_lineEnd (by rw [String.toList_ofList]) hfirst hsecond'⟩

/-! ## Only the timing line -/

/-- The time on the last line, with whatever stands around that line. -/
theorem read_lastLine_append {line after : String} (before : String)
    (hline : '\n' ∉ line.toList) (hafter : '\n' ∉ after.toList) :
    read .lastLine (before ++ "\n" ++ line ++ "\n" ++ after) = readTime line := by
  have hbefore : (before.toList ++ ['\n']).getLast? = some '\n' := by simp
  have h : IsLine .lastLine (before ++ "\n" ++ line ++ "\n" ++ after).toList line.toList := by
    simpa using IsLine.lastLine (.inr hbefore) hline hafter
  rw [read_of_isLine h, String.ofList_toList]

theorem read_lastLine_lineEnd {line : String} (hline : '\n' ∉ line.toList) :
    read .lastLine (line ++ "\n") = readTime line := by
  have h : IsLine .lastLine (line ++ "\n").toList line.toList := by
    simpa using IsLine.lastLine (.inl rfl) hline List.not_mem_nil
  rw [read_of_isLine h, String.ofList_toList]

theorem read_wholeOutput_append {line : String} (hline : '\n' ∉ line.toList) (count : Nat) :
    read .wholeOutput (line ++ String.ofList (List.replicate count '\n')) = readTime line := by
  have hend : line.toList.getLast? ≠ some '\n' := fun hend => hline (List.mem_of_getLast? hend)
  have h : IsLine .wholeOutput (line ++ String.ofList (List.replicate count '\n')).toList
      line.toList := by
    simpa using IsLine.wholeOutput hend count
  rw [read_of_isLine h, String.ofList_toList]

/-- The timing line alone decides, in both places; that there is none is found exactly where the last line
is looked for and no line is ended; what is read around a line end is no time; and a time is valid. -/
theorem read_only_timing_line :
    (∀ before line after : String, '\n' ∉ line.toList → '\n' ∉ after.toList →
      read .lastLine (before ++ "\n" ++ line ++ "\n" ++ after) = read .lastLine (line ++ "\n")) ∧
    (∀ place output found, read place output = .error (.missingLine found) ↔
      place = .lastLine ∧ '\n' ∉ output.toList ∧ found = 1) ∧
    (∀ (line : String) (count : Nat), '\n' ∉ line.toList →
      read .wholeOutput (line ++ String.ofList (List.replicate count '\n')) =
        read .lastLine (line ++ "\n")) ∧
    (∀ (output : String) (first second : List Char), output.toList = first ++ '\n' :: second →
      (∃ c ∈ first, Text.isBlank c = false) → (∃ c ∈ second, Text.isBlank c = false) →
      ∃ found, read .wholeOutput output = .error (.notATime found (some .invalid))) ∧
    ∀ place output time, read place output = .ok time → isValidTime time = true := by
  refine ⟨?_, fun _ _ _ => read_eq_missingLine_iff, ?_, ?_, fun _ _ _ => isValidTime_of_read⟩
  · intro before line after hline hafter
    rw [read_lastLine_append before hline hafter, read_lastLine_lineEnd hline]
  · intro line count hline
    rw [read_wholeOutput_append hline, read_lastLine_lineEnd hline]
  · intro output first second houtput hfirst hsecond
    exact read_wholeOutput_of_lineEnd houtput hfirst hsecond

/-- A line with blanks around the time, after another line and before a text that is not ended. -/
theorem read_only_timing_line_blanks :
    read .lastLine "done\r\n\n 2.5\t\r\nelapsed" = read .lastLine " 2.5\t\r\n" ∧
    read .wholeOutput " 2.5\t\r\n\n" = read .lastLine " 2.5\t\r\n" ∧
    (∃ found, read .wholeOutput "done\n 2.5\n" = .error (.notATime found (some .invalid))) ∧
    read .lastLine "done\n 0.0\n" = .ok Binary64.zero ∧ isValidTime Binary64.zero = true := by
  obtain ⟨hlast, -, hwhole, hinside, hvalid⟩ := read_only_timing_line
  have hzero : read .lastLine "done\n 0.0\n" = .ok Binary64.zero := by decide
  exact ⟨hlast "done\r\n" " 2.5\t\r" "elapsed" (by decide) (by decide),
    hwhole " 2.5\t\r" 2 (by decide),
    hinside _ "done".toList " 2.5\n".toList (by decide) ⟨'d', by decide, rfl⟩ ⟨'2', by decide, rfl⟩,
    hzero, hvalid _ _ _ hzero⟩

end TimeTrials.Timing
