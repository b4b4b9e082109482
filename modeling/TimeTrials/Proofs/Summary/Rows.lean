import TimeTrials.Proofs.Partition
import TimeTrials.Proofs.Text.Column
import TimeTrials.Summary

/-!
# The rows of the summary

The table is made language by language: the languages are listed, and for each of them the groups are gone
through for those that belong to it.  It reads like one pass over the groups in their order, though, in which
a group is only compared with its two neighbours (`onePass`).  The language is named when it is another one
than that of the group before, and a rule is drawn when the group after has another one or there is none.

That the two agree rests on the order of groups: those of a language stand together, so that a block begins
and ends exactly where the language changes.

A row whose cells fit their columns is as wide as the header, and its cells are where those of the header
are (`InColumns`).

* `onePass_append`: a pass over the groups of one language writes its block.
* `onePass_flatMap`: so a pass over the groups of several languages writes their blocks.
* `length_intercalate`, `take_drop_intercalate`: parts of one length with a gap between them.
* `inColumns`: rows whose cells fit.
* `summary_is_one_pass`: the whole table.
-/

namespace TimeTrials.Summary

open Text (flushLeft flushRight repeated)

/-! ## One pass -/

/-- What a pass writes for a group between neighbours of the given languages. -/
def passLines (previous next : Option String) (group : GroupKey × Aggregate) : List String :=
  let lang := group.1.lang
  let line := groupRow (if previous = some lang then "" else lang) group.1.param group.2
  if next = some lang then [line] else [line, rule '-' line]

/-- What one pass writes for groups that come after one of the given language. -/
def onePass (previous : Option String) : List (GroupKey × Aggregate) → List String
  | [] => []
  | group :: rest =>
    passLines previous (rest.head?.map (·.1.lang)) group ++ onePass (some group.1.lang) rest

/-- An entry of a language as a group. -/
def keyed (lang : String) (entry : Param × Aggregate) : GroupKey × Aggregate :=
  (⟨lang, entry.1⟩, entry.2)

/-- A block of several rows goes on without a label, and the rule is that of the last row. -/
theorem block_cons_cons (label : String) (first second : Param × Aggregate)
    (rest : List (Param × Aggregate)) : block label (first :: second :: rest) =
      groupRow label first.1 first.2 :: block "" (second :: rest) := by
  simp only [block, languageRows, List.map_cons, List.getLast?_cons_cons, List.cons_append]

section

variable {lang : String} (previous : Option String) (entry : Param × Aggregate)

theorem passLines_inside : passLines previous (some lang) (keyed lang entry) =
    [groupRow (if previous = some lang then "" else lang) entry.1 entry.2] := if_pos rfl

theorem passLines_last {next : Option String} (h : next ≠ some lang) :
    passLines previous next (keyed lang entry) =
      block (if previous = some lang then "" else lang) [entry] := if_neg h

end

/-- A pass over the groups of one language writes its block, if the language changes behind them. -/
theorem onePass_append {lang : String} {rest : List (GroupKey × Aggregate)}
    (hrest : rest.head?.map (·.1.lang) ≠ some lang) {entries : List (Param × Aggregate)}
    (hne : entries ≠ []) (previous : Option String) :
    onePass previous (entries.map (keyed lang) ++ rest) =
      block (if previous = some lang then "" else lang) entries ++ onePass (some lang) rest := by
  induction entries generalizing previous with
  | nil => exact absurd rfl hne
  | cons entry entries ih =>
    rw [List.map_cons, List.cons_append, onePass]
    cases entries with
    | nil => exact congrArg (· ++ onePass (some lang) rest) (passLines_last previous entry hrest)
    | cons second entries =>
      have hfurther := ih (List.cons_ne_nil _ _) (some lang)
      rw [if_pos rfl] at hfurther
      rw [block_cons_cons, List.cons_append, ← hfurther]
      exact congrArg (· ++ onePass (some lang) _) (passLines_inside previous entry)

/-- The groups of several languages begin with one of the first language. -/
theorem head?_flatMap_keyed {entriesOf : String → List (Param × Aggregate)} {langs : List String}
    (hne : ∀ lang ∈ langs, entriesOf lang ≠ []) :
    (langs.flatMap fun lang => (entriesOf lang).map (keyed lang)).head?.map (·.1.lang) =
      langs.head? := by
  cases langs with
  | nil => rfl
  | cons lang rest =>
    obtain ⟨entry, entries, hentries⟩ := List.exists_cons_of_ne_nil (hne lang List.mem_cons_self)
    rw [List.flatMap_cons, hentries]
    rfl

/-- A pass over the groups of several languages, one language after the other, writes their blocks. -/
theorem onePass_flatMap {entriesOf : String → List (Param × Aggregate)} {langs : List String}
    (hne : ∀ lang ∈ langs, entriesOf lang ≠ []) (hnodup : langs.Nodup) {previous : Option String}
    (hprevious : ∀ lang ∈ langs, previous ≠ some lang) :
    onePass previous (langs.flatMap fun lang => (entriesOf lang).map (keyed lang)) =
      langs.flatMap fun lang => block lang (entriesOf lang) := by
  induction langs generalizing previous with
  | nil => rfl
  | cons lang rest ih =>
    obtain ⟨hlang, hrest⟩ := List.forall_mem_cons.mp hne
    obtain ⟨hnew, hnodup⟩ := List.nodup_cons.mp hnodup
    have hhead : (rest.flatMap fun lang => (entriesOf lang).map (keyed lang)).head?.map
        (·.1.lang) ≠ some lang := by
      rw [head?_flatMap_keyed hrest]
      exact fun heq => hnew (List.mem_of_head? heq)
    have hothers : ∀ other ∈ rest, some lang ≠ some other := by
      rintro other hother ⟨⟩
      exact hnew hother
    rw [List.flatMap_cons, List.flatMap_cons, onePass_append hhead hlang,
      if_neg (hprevious lang List.mem_cons_self), ih hrest hnodup hothers]

/-- A language that is listed has groups. -/
theorem ofLanguage_ne_nil {stats : Statistics} {lang : String} (h : lang ∈ stats.languages) :
    stats.ofLanguage lang ≠ [] := by
  obtain ⟨⟨⟨lang', param⟩, aggregate⟩, hmem, rfl⟩ :=
    List.mem_map.mp (Statistics.mem_withoutRepeats.mp h)
  exact List.ne_nil_of_mem (Statistics.mem_ofLanguage_iff_mem_groups.mpr hmem)

theorem lines_eq_onePass (kind : Kind) (trials : List Trial) :
    lines kind (Statistics.ofTrials trials) = header kind :: rule '=' (header kind) ::
      onePass none (Statistics.ofTrials trials).groups := by
  let stats := Statistics.ofTrials trials
  have hgroups := Statistics.flatMap_ofLanguage trials
  have hpass : onePass none (stats.languages.flatMap fun lang =>
      (stats.ofLanguage lang).map (keyed lang)) =
        stats.languages.flatMap fun lang => block lang (stats.ofLanguage lang) :=
    onePass_flatMap (fun _ => ofLanguage_ne_nil)
      ((Statistics.pairwise_languages trials).imp fun hlt => hlt.ne) (by simp)
  rw [lines, ← hpass]
  exact congrArg (fun groups => header kind :: rule '=' (header kind) :: onePass none groups) hgroups

/-! ## Columns -/

section

variable {α : Type} {gap : List α} {width : Nat}

theorem length_intercalate {parts : List (List α)} (hparts : ∀ part ∈ parts, part.length = width)
    (hne : parts ≠ []) :
    (gap.intercalate parts).length + gap.length = parts.length * (width + gap.length) := by
  induction parts with
  | nil => exact absurd rfl hne
  | cons part rest ih =>
    obtain ⟨hpart, hrest⟩ := List.forall_mem_cons.mp hparts
    cases rest with
    | nil => simp [hpart]
    | cons next rest =>
      have hlength := ih hrest (List.cons_ne_nil _ _)
      rw [List.intercalate_cons_cons, List.length_append, List.length_append, hpart,
        List.length_cons, Nat.succ_mul]
      omega

/-- The part at an index starts where as many parts and gaps have ended. -/
theorem take_drop_intercalate {parts : List (List α)} (hparts : ∀ part ∈ parts, part.length = width)
    {index : Nat} {part : List α} (h : parts[index]? = some part) :
    ((gap.intercalate parts).drop (index * (width + gap.length))).take width = part := by
  induction parts generalizing index with
  | nil => simp at h
  | cons first rest ih =>
    obtain ⟨hfirst, hrest⟩ := List.forall_mem_cons.mp hparts
    cases index with
    | zero =>
      obtain rfl : first = part := Option.some.inj h
      rw [Nat.zero_mul, List.drop_zero]
      cases rest with
      | nil => simp [← hfirst]
      | cons next rest =>
        rw [List.intercalate_cons_cons, List.append_assoc, ← hfirst, List.take_left]
    | succ index =>
      cases rest with
      | nil => simp at h
      | cons next rest =>
        have hbefore : (first ++ gap).length = width + gap.length := by
          rw [List.length_append, hfirst]
        rw [List.intercalate_cons_cons, Nat.succ_mul, Nat.add_comm, ← List.drop_drop, ← hbefore,
          List.drop_left, hbefore]
        exact ih hrest h

end

/-- Where a column starts. -/
def columnStart (column : Nat) : Nat := column * (columnWidth + gap.length)

/-- A cell as it stands in its column. -/
def cellIn (column : Nat) (cell : String) : String :=
  if column < labels then flushLeft columnWidth cell else flushRight columnWidth cell

theorem row_eq (cells : List String) : row cells = gap.intercalate (cells.mapIdx cellIn) := by
  match cells with
  | [] => rfl
  | [_] => rfl
  | first :: second :: rest =>
    have hnumbers : rest.map (flushRight columnWidth) = rest.mapIdx fun i cell => cellIn (i + 1 + 1) cell := by
      refine List.ext_getElem? fun i => ?_
      rw [List.getElem?_map, List.getElem?_mapIdx]
      rfl
    rw [List.mapIdx_cons, List.mapIdx_cons, ← hnumbers]
    rfl

theorem length_cellIn {column : Nat} {cell : String} (h : cell.length ≤ columnWidth) :
    (cellIn column cell).length = columnWidth := by
  rw [cellIn]
  split
  · exact Text.length_flushLeft h
  · exact Text.length_flushRight h

/-- A row that is set in the columns of the table: it is as wide as the header and the rule under it, and
each of its cells is in its column. -/
structure InColumns (kind : Kind) (cells : List String) : Prop where
  length_header : (row cells).length = (header kind).length
  length_rule : (row cells).length = (rule '=' (header kind)).length
  cell : ∀ column cell, cells[column]? = some cell →
    ((row cells).toList.drop (columnStart column)).take columnWidth = (cellIn column cell).toList

section

variable {cells : List String} (hcells : ∀ cell ∈ cells, cell.length ≤ columnWidth)

include hcells

theorem length_of_mem_columns {part : List Char}
    (h : part ∈ (cells.mapIdx cellIn).map String.toList) : part.length = columnWidth := by
  obtain ⟨text, htext, rfl⟩ := List.mem_map.mp h
  obtain ⟨i, hi, rfl⟩ := List.mem_mapIdx.mp htext
  rw [String.length_toList, length_cellIn (hcells _ (List.getElem_mem hi))]

theorem length_row (hne : cells ≠ []) :
    (row cells).length + gap.length = cells.length * (columnWidth + gap.length) := by
  have hparts : ∀ part ∈ (cells.mapIdx cellIn).map String.toList, part.length = columnWidth :=
    fun _ => length_of_mem_columns hcells
  have hlength := @length_intercalate _ gap.toList _ _ hparts (by simpa using hne)
  rw [List.length_map, List.length_mapIdx] at hlength
  rw [row_eq, ← String.length_toList, String.toList_intercalate]
  exact hlength

theorem cell_of_row {column : Nat} {cell : String} (h : cells[column]? = some cell) :
    ((row cells).toList.drop (columnStart column)).take columnWidth =
      (cellIn column cell).toList := by
  rw [row_eq, String.toList_intercalate, columnStart, ← String.length_toList (s := gap)]
  refine take_drop_intercalate (fun part => length_of_mem_columns hcells) ?_
  simp [h]

/-- A row of five cells that are not too wide. -/
theorem length_row_of_five (hlength : cells.length = 5) : (row cells).length = 88 := by
  have hrow := length_row hcells (by rintro rfl; cases hlength)
  rw [hlength] at hrow
  exact Nat.add_right_cancel (m := gap.length) hrow

end

theorem length_header (kind : Kind) : (header kind).length = 88 :=
  length_row_of_five (by cases kind <;> decide) rfl

theorem length_header_rule (kind : Kind) : (rule '=' (header kind)).length = 88 := by
  rw [rule, Text.length_repeated]
  cases kind <;> decide +kernel

theorem inColumns {cells : List String} (hcells : ∀ cell ∈ cells, cell.length ≤ columnWidth)
    (hlength : cells.length = 5) (kind : Kind) : InColumns kind cells where
  length_header := by rw [length_row_of_five hcells hlength, length_header]
  length_rule := by rw [length_row_of_five hcells hlength, length_header_rule]
  cell := fun _ _ => cell_of_row hcells

/-- The cells of the row of a group. -/
def groupCells (label : String) (group : GroupKey × Aggregate) : List String :=
  [label, group.1.param.text, toString group.2.samples, group.2.mean.fixed 6,
    group.2.deviation.fixed 6]

/-! ## The table -/

/-- **The summary is one pass over the groups** in the order of their keys, under two lines of header.  The
row of a group is made of five cells, and where these fit, they are set in the columns of the header. -/
theorem summary_is_one_pass (kind : Kind) (trials : List Trial) :
    let stats := Statistics.ofTrials trials
    (stats.groups.map Prod.fst).Pairwise GroupKey.Precedes ∧
      render kind stats = String.join ((header kind :: rule '=' (header kind) ::
        onePass none stats.groups).map (· ++ "\n")) ∧
      ∀ label, ∀ group ∈ stats.groups,
        groupRow label group.1.param group.2 = row (groupCells label group) ∧
          ((∀ cell ∈ groupCells label group, cell.length ≤ columnWidth) →
            InColumns kind (groupCells label group)) := by
  intro stats
  refine ⟨?_, ?_, fun label group _ => ⟨rfl, fun hcells => inColumns hcells rfl kind⟩⟩
  · exact List.pairwise_map.mpr
      ((Statistics.sorted_groups trials).imp GroupKey.precedes_iff.mpr)
  · rw [render, lines_eq_onePass]

/-- Four trials of three groups, not in the order of their languages: the first row, and the lines. -/
theorem summary_is_one_pass_of_four :
    let trials : List Trial := [⟨"rubylox", .size 10, .ofNat 8⟩, ⟨"jlox", .size 11, .ofNat 4⟩,
      ⟨"jlox", .size 10, .ofNat 1⟩, ⟨"jlox", .size 10, .ofNat 3⟩]
    let stats := Statistics.ofTrials trials
    let cells := ["jlox", "10", "2", "2.000000", "1.414214"]
    stats.groups.head?.map (groupCells "jlox") = some cells ∧
      (∀ cell ∈ cells, cell.length ≤ columnWidth) ∧ InColumns .sizes cells ∧
      onePass none stats.groups = [row cells, row ["", "11", "1", "4.000000", "0.000000"],
        repeated 88 '-', row ["rubylox", "10", "1", "8.000000", "0.000000"], repeated 88 '-'] ∧
      render .sizes stats = String.join ((header .sizes :: repeated 88 '=' ::
        onePass none stats.groups).map (· ++ "\n")) := by
  intro trials stats cells
  obtain ⟨-, hrender, hrows⟩ := summary_is_one_pass .sizes trials
  have hcells : stats.groups.head?.map (groupCells "jlox") = some cells := by decide +kernel
  have hfit : ∀ cell ∈ cells, cell.length ≤ columnWidth := by decide
  have hrule : rule '=' (header .sizes) = repeated 88 '=' := by decide +kernel
  obtain ⟨group, hgroup, heq⟩ := Option.map_eq_some_iff.mp hcells
  obtain ⟨-, hcolumns⟩ := hrows "jlox" group (List.mem_of_head? hgroup)
  rw [heq] at hcolumns
  rw [hrule] at hrender
  exact ⟨hcells, hfit, hcolumns hfit, by decide +kernel, hrender⟩

end TimeTrials.Summary
