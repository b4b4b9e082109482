import TimeTrials.Chart.Axis
import TimeTrials.Proofs.Number.Written
import TimeTrials.Proofs.Text.Controls

/-!
# Painted lines

Colours come in when lines become text: a part of a line that has a colour stands between two sequences, one
that turns the colour on and one that turns it off.  As long as the parts themselves have no escape
characters, these are the only sequences in the text, and deleting them gives the text without colours.

The text with colours does not tell which lines it was made from.  It is cut at its line ends again, and the
lines that are painted are those with an escape character in them; each has an owner, in whose colour it is
painted to its end.

* `withoutSequences_renderLines`: what deleting does to lines whose parts have no escape characters.
* `Paints`: the painted lines of a text and their owners.
* `paintsFor_append`, `paintsFor_mapIdx`, `paintsFor_intercalate`: the owners of lines that are put together.
* `paintsFor_of_plain`, `paintsFor_painted`: and those of single ones.
-/

namespace TimeTrials.Chart

open Text (Lacks dividers escapeChar withoutSequences flushLeft)

/-! ## Deleting colours -/

/-- The text without colours: every sequence that sets one is deleted. -/
def uncolored (text : String) : String := String.ofList (withoutSequences text.toList)

/-- None of the pieces of a line has the character. -/
def LineLacks (c : Char) (line : Line) : Prop :=
  ∀ segment ∈ line, Lacks c (segment.render false)

theorem lineLacks_nil (c : Char) : LineLacks c [] := fun _ hsegment => absurd hsegment List.not_mem_nil

theorem lineLacks_plain_iff {c : Char} {text : String} : LineLacks c [.plain text] ↔ Lacks c text := by
  simp [LineLacks, Segment.render]

theorem lineLacks_painted_iff {c : Char} {label part : String} {color : Color} :
    LineLacks c [.plain label, .painted color part] ↔ Lacks c label ∧ Lacks c part := by
  simp [LineLacks, Segment.render]

theorem toList_renderLine (colored : Bool) (line : Line) : (renderLine colored line).toList =
    line.flatMap (fun segment => (segment.render colored).toList) ++ ['\n'] := by
  rw [renderLine, String.toList_append, String.toList_join, List.flatMap_map]
  rfl

theorem toList_renderLines_cons (colored : Bool) (line : Line) (rest : List Line) :
    (renderLines colored (line :: rest)).toList =
      (renderLine colored line).toList ++ (renderLines colored rest).toList := by
  rw [renderLines, List.map_cons, String.join_cons, String.toList_append]
  rfl

theorem toList_turnOn (color : Color) :
    (turnOn color).toList = Text.sequenceOf (Number.digitsOf color.code) := by
  have hcode : (toString color.code).toList = Number.digitsOf color.code := Nat.toList_repr
  rw [turnOn, String.toList_append, String.toList_append, String.toList_append, hcode]
  rfl

theorem toList_turnOff : turnOff.toList = Text.sequenceOf ['3', '9'] := rfl

theorem isParameter_of_mem_code {color : Color} :
    ∀ c ∈ Number.digitsOf color.code, Text.isParameter c = true := by
  intro c hc
  rw [Text.isParameter, Number.isDigits_digitsOf _ c hc, Bool.true_or]

theorem isParameter_of_mem_reset : ∀ c ∈ ['3', '9'], Text.isParameter c = true := by
  have hall : ['3', '9'].all Text.isParameter = true := by decide
  exact List.all_eq_true.mp hall

theorem withoutSequences_turnOn (color : Color) (rest : List Char) :
    withoutSequences ((turnOn color).toList ++ rest) = withoutSequences rest := by
  rw [toList_turnOn, Text.withoutSequences_sequenceOf_append isParameter_of_mem_code]

theorem withoutSequences_turnOff (rest : List Char) :
    withoutSequences (turnOff.toList ++ rest) = withoutSequences rest := by
  rw [toList_turnOff, Text.withoutSequences_sequenceOf_append isParameter_of_mem_reset]

theorem withoutSequences_segment {segment : Segment}
    (h : Lacks escapeChar (segment.render false)) (rest : List Char) :
    withoutSequences ((segment.render true).toList ++ rest) =
      (segment.render false).toList ++ withoutSequences rest := by
  cases segment with
  | plain text => exact Text.withoutSequences_append h rest
  | painted color text =>
    have htext : escapeChar ∉ text.toList := h
    show withoutSequences ((turnOn color ++ text ++ turnOff).toList ++ rest) =
      text.toList ++ withoutSequences rest
    rw [String.toList_append, String.toList_append, List.append_assoc, List.append_assoc,
      withoutSequences_turnOn, Text.withoutSequences_append htext, withoutSequences_turnOff]

theorem withoutSequences_renderLine {line : Line} (h : LineLacks escapeChar line)
    (rest : List Char) : withoutSequences ((renderLine true line).toList ++ rest) =
      (renderLine false line).toList ++ withoutSequences rest := by
  have hend : escapeChar ∉ ['\n'] := by decide
  simp only [toList_renderLine, List.append_assoc]
  induction line with
  | nil => exact Text.withoutSequences_append hend rest
  | cons segment line ih =>
    obtain ⟨hsegment, hline⟩ := List.forall_mem_cons.mp h
    rw [List.flatMap_cons, List.flatMap_cons, List.append_assoc, List.append_assoc,
      withoutSequences_segment hsegment, ih hline]

/-- **Deleting the colours of lines that have no escape characters gives the lines without colours.** -/
theorem withoutSequences_renderLines {lines : List Line}
    (h : ∀ line ∈ lines, LineLacks escapeChar line) :
    withoutSequences (renderLines true lines).toList = (renderLines false lines).toList := by
  induction lines with
  | nil => exact Text.withoutSequences.eq_1
  | cons line rest ih =>
    obtain ⟨hline, hrest⟩ := List.forall_mem_cons.mp h
    rw [toList_renderLines_cons, toList_renderLines_cons, withoutSequences_renderLine hline, ih hrest]

theorem uncolored_renderLines {lines : List Line} (h : ∀ line ∈ lines, LineLacks escapeChar line) :
    uncolored (renderLines true lines) = renderLines false lines := by
  rw [uncolored, withoutSequences_renderLines h, String.ofList_toList]

/-! ## Painted lines -/

/-- The lines of a text that have an escape character in them. -/
def paintedLines (text : List Char) : List (List Char) :=
  (text.splitOn '\n').filter (·.contains escapeChar)

/-- A line in which the last part is set in a colour: that is turned on once, in front of the part, and off
once, behind it, and there are no other control sequences. -/
def IsPainted (color : Color) (part : String) (line : List Char) : Prop :=
  ∃ before : String, line = (before ++ turnOn color ++ part ++ turnOff).toList ∧
    Lacks escapeChar before ∧ Lacks escapeChar part

/-- The part of a line that belongs to a language: a row from the language's name on, or the key to its
marks. -/
inductive BelongsTo (layout : Layout) (lang : String) : String → Prop
  | row (drawn : String) : BelongsTo layout lang (flushLeft layout.langWidth lang ++ " │" ++ drawn)
  | key (marks : String) : BelongsTo layout lang (marks ++ " " ++ lang)

/-- Among the lines of a text, those of the owners are painted, from top to bottom, each in its owner's
colour from where the owner's part starts; no others are. -/
def Paints (layout : Layout) (owners : List (String × Color)) (text : List Char) : Prop :=
  List.Forall₂ (fun line owner =>
    ∃ part, BelongsTo layout owner.1 part ∧ IsPainted owner.2 part line) (paintedLines text) owners

theorem paintedLines_append (first second : List Char) :
    paintedLines (first ++ '\n' :: second) = paintedLines first ++ paintedLines second := by
  rw [paintedLines, List.splitOn_append_cons_self, List.filter_append, paintedLines, paintedLines]

/-- Where there is no escape character, no line is painted. -/
theorem paintedLines_eq_nil {text : List Char} (h : escapeChar ∉ text) : paintedLines text = [] := by
  refine List.filter_eq_nil_iff.mpr fun piece hpiece hcontains => h ?_
  exact Text.mem_of_mem_splitOn hpiece (List.contains_iff_mem.mp hcontains)

theorem paintedLines_of_notMem {line : List Char} (hend : '\n' ∉ line) (hescape : escapeChar ∈ line) :
    paintedLines line = [line] := by
  rw [paintedLines, List.splitOn_eq_singleton hend, List.filter_singleton,
    List.contains_iff_mem.mpr hescape]
  rfl

theorem paintedLines_renderLines (lines : List Line) :
    paintedLines (renderLines true lines).toList = lines.flatMap fun line =>
      paintedLines (line.flatMap fun segment => (segment.render true).toList) := by
  induction lines with
  | nil => exact paintedLines_eq_nil List.not_mem_nil
  | cons line rest ih =>
    rw [toList_renderLines_cons, toList_renderLine, List.append_assoc, List.singleton_append,
      paintedLines_append, ih, List.flatMap_cons]

/-- The owners of the painted ones among lines of a chart. -/
def PaintsFor (layout : Layout) (owners : List (String × Color)) (lines : List Line) : Prop :=
  Paints layout owners (renderLines true lines).toList

section

variable {layout : Layout}

theorem paintsFor_append {owners owners' : List (String × Color)} {lines lines' : List Line}
    (h : PaintsFor layout owners lines) (h' : PaintsFor layout owners' lines') :
    PaintsFor layout (owners ++ owners') (lines ++ lines') := by
  unfold PaintsFor Paints at h h' ⊢
  rw [paintedLines_renderLines] at h h' ⊢
  rw [List.flatMap_append]
  exact List.rel_append h h'

theorem paintsFor_nil : PaintsFor layout [] [] := by
  unfold PaintsFor Paints
  rw [paintedLines_renderLines]
  exact List.Forall₂.nil

/-- A line for each of some entries. -/
theorem paintsFor_mapIdx {α : Type} {line : Nat → α → Line} {owner : α → String × Color}
    {entries : List α} (h : ∀ i, ∀ entry ∈ entries, PaintsFor layout [owner entry] [line i entry]) :
    PaintsFor layout (entries.map owner) (entries.mapIdx line) := by
  induction entries generalizing line with
  | nil =>
    rw [List.map_nil, List.mapIdx_nil]
    exact paintsFor_nil
  | cons entry entries ih =>
    have hentries : ∀ i, ∀ entry ∈ entries, PaintsFor layout [owner entry] [line (i + 1) entry] :=
      fun i entry hentry => h (i + 1) entry (List.mem_cons_of_mem _ hentry)
    have hall := paintsFor_append (h 0 entry List.mem_cons_self) (ih hentries)
    rw [List.singleton_append, List.singleton_append] at hall
    rwa [List.map_cons, List.mapIdx_cons]

theorem paintsFor_map {α : Type} {line : α → Line} {owner : α → String × Color} {entries : List α}
    (h : ∀ entry ∈ entries, PaintsFor layout [owner entry] [line entry]) :
    PaintsFor layout (entries.map owner) (entries.map line) := by
  have hplaces : entries.map line = entries.mapIdx fun _ => line :=
    List.ext_getElem? fun i => by rw [List.getElem?_map, List.getElem?_mapIdx]
  rw [hplaces]
  exact paintsFor_mapIdx fun _ => h

/-- Lines for each of some entries, all of the same owners, with lines between them that nobody owns. -/
theorem paintsFor_intercalate {α : Type} {block : Nat → α → List Line} {separator : List Line}
    {owners : List (String × Color)} {entries : List α} (hseparator : PaintsFor layout [] separator)
    (h : ∀ i, ∀ entry ∈ entries, PaintsFor layout owners (block i entry)) :
    PaintsFor layout (entries.flatMap fun _ => owners)
      (separator.intercalate (entries.mapIdx block)) := by
  induction entries generalizing block with
  | nil =>
    rw [List.flatMap_nil, List.mapIdx_nil]
    exact paintsFor_nil
  | cons entry entries ih =>
    have hentry := h 0 entry List.mem_cons_self
    have hentries : PaintsFor layout (entries.flatMap fun _ => owners)
        (separator.intercalate (entries.mapIdx fun i => block (i + 1))) :=
      ih fun i entry hentry => h (i + 1) entry (List.mem_cons_of_mem _ hentry)
    rw [List.flatMap_cons, List.mapIdx_cons]
    -- a separator belongs to the block in front of it, and the last block has none
    cases entries with
    | nil => simpa using hentry
    | cons next rest =>
      have hfirst := paintsFor_append hentry hseparator
      rw [List.append_nil] at hfirst
      rw [List.mapIdx_cons] at hentries ⊢
      rw [List.intercalate_cons_cons]
      exact paintsFor_append hfirst hentries

/-- Lines without colours belong to nobody. -/
theorem paintsFor_of_plain {lines : List Line}
    (hplain : ∀ line ∈ lines, ∀ segment ∈ line, segment.render true = segment.render false)
    (hlacks : ∀ line ∈ lines, LineLacks escapeChar line) : PaintsFor layout [] lines := by
  have hnone : ∀ line ∈ lines,
      paintedLines (line.flatMap fun segment => (segment.render true).toList) = [] := by
    intro line hline
    refine paintedLines_eq_nil fun hescape => ?_
    obtain ⟨segment, hsegment, hmem⟩ := List.mem_flatMap.mp hescape
    rw [hplain line hline segment hsegment] at hmem
    exact hlacks line hline segment hsegment hmem
  unfold PaintsFor Paints
  rw [paintedLines_renderLines, List.flatMap_eq_nil_iff.mpr hnone]
  exact List.Forall₂.nil

theorem lacks_turnOn (color : Color) : Lacks '\n' (turnOn color) := by
  rw [Lacks, toList_turnOn]
  exact Text.lineEnd_notMem_sequenceOf isParameter_of_mem_code

theorem lacks_turnOff : Lacks '\n' turnOff := by
  rw [Lacks, toList_turnOff]
  exact Text.lineEnd_notMem_sequenceOf isParameter_of_mem_reset

/-- A line that ends with the painted part of a language, and has no line ends in it. -/
theorem paintsFor_painted {label part lang : String} {color : Color}
    (hlang : BelongsTo layout lang part)
    (hlacks : ∀ c ∈ dividers, LineLacks c [.plain label, .painted color part]) :
    PaintsFor layout [(lang, color)] [[.plain label, .painted color part]] := by
  obtain ⟨hlabel, hpart⟩ := lineLacks_painted_iff.mp (hlacks escapeChar Text.escapeChar_mem_dividers)
  obtain ⟨hlabel', hpart'⟩ := lineLacks_painted_iff.mp (hlacks '\n' Text.lineEnd_mem_dividers)
  have htext : ([.plain label, .painted color part] : Line).flatMap
      (fun segment => (segment.render true).toList) =
        (label ++ turnOn color ++ part ++ turnOff).toList := by
    simp [Segment.render]
  have hend : Lacks '\n' (label ++ turnOn color ++ part ++ turnOff) :=
    ((hlabel'.append (lacks_turnOn color)).append hpart').append lacks_turnOff
  have hescape : escapeChar ∈ (label ++ turnOn color ++ part ++ turnOff).toList := by
    simp [toList_turnOn, Text.escapeChar_mem_sequenceOf]
  unfold PaintsFor Paints
  rw [paintedLines_renderLines, List.flatMap_singleton, htext, paintedLines_of_notMem hend hescape]
  exact .cons ⟨part, hlang, label, rfl, hlabel, hpart⟩ .nil

end

end TimeTrials.Chart
