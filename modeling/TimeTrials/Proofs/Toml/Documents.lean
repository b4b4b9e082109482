import TimeTrials.Proofs.Toml.Values
import TimeTrials.Toml.Parser

/-!
# Documents are well-formed

Whatever is read from a text is a well-formed table (`wellFormed_of_parse?`).  There are two halves to it.

* The tree that a document builds never has a key twice in one table: a new key is only added where there
  is none, and every other change stays at its key.  This is an invariant of the tree (`Node.WellFormed`),
  kept by everything that adds to it (`Keeps`), and passed on to the finished values.
* The values that are scanned are well-formed one by one, the innermost first: an integer is read only if
  it fits, and a table between braces is such a tree.
-/

namespace TimeTrials.Toml

/-! ## Trees -/

/-- A tree that has no key twice in one table, and well-formed values. -/
inductive Node.WellFormed : Node → Prop
  | value {v : Value} (hv : v.WellFormed) : WellFormed (.value v)
  | table {origin : Origin} {entries : Entries} (hkeys : (entries.map (·.1)).Nodup)
      (hnodes : ∀ entry ∈ entries, WellFormed entry.2) : WellFormed (.table origin entries)
  | tables {elements : List Entries}
      (hkeys : ∀ entries ∈ elements, (entries.map (·.1)).Nodup)
      (hnodes : ∀ entries ∈ elements, ∀ entry ∈ entries, WellFormed entry.2) :
      WellFormed (.tables elements)

namespace Entries

/-- The same for the entries of one table. -/
def WellFormed (entries : Entries) : Prop :=
  (entries.map (·.1)).Nodup ∧ ∀ entry ∈ entries, entry.2.WellFormed

variable {entries entries' : Entries} {elements elements' : List Entries} {key : String} {node : Node}

theorem wellFormed_nil : WellFormed [] :=
  ⟨List.nodup_nil, fun _ h => absurd h List.not_mem_nil⟩

theorem wellFormed_table_iff {origin : Origin} :
    (Node.table origin entries).WellFormed ↔ entries.WellFormed :=
  ⟨fun h => by cases h with | table hkeys hnodes => exact ⟨hkeys, hnodes⟩,
    fun h => .table h.1 h.2⟩

theorem wellFormed_tables_iff :
    (Node.tables elements).WellFormed ↔ ∀ entries ∈ elements, entries.WellFormed :=
  ⟨fun h => by cases h with | tables hkeys hnodes => exact fun es hes => ⟨hkeys es hes, hnodes es hes⟩,
    fun h => .tables (fun es hes => (h es hes).1) fun es hes => (h es hes).2⟩

theorem WellFormed.of_lookup (h : entries.WellFormed) (hkey : entries.lookup key = some node) :
    node.WellFormed := by
  obtain ⟨before, after, rfl, -⟩ := List.lookup_eq_some_iff.mp hkey
  exact h.2 (key, node) (List.mem_append_right _ List.mem_cons_self)

/-- A key that is not there may be added. -/
theorem WellFormed.append (h : entries.WellFormed) (hnew : entries.lookup key = none)
    (hnode : node.WellFormed) : WellFormed (entries ++ [(key, node)]) := by
  have hkey : key ∉ entries.map (·.1) := by
    intro hmem
    obtain ⟨entry, hentry, rfl⟩ := List.mem_map.mp hmem
    exact absurd (List.lookup_eq_none_iff.mp hnew entry hentry) (by simp)
  refine ⟨?_, List.forall_mem_append.mpr ⟨h.2, List.forall_mem_singleton.mpr hnode⟩⟩
  rw [List.map_append, List.map_singleton, ← List.concat_eq_append]
  exact h.1.concat hkey

theorem WellFormed.replace (h : entries.WellFormed) (hnode : node.WellFormed) :
    WellFormed (entries.replace key node) := by
  have hkeys : (entries.replace key node).map (·.1) = entries.map (·.1) := by
    rw [Entries.replace, List.map_map]
    refine List.map_congr_left fun entry _ => ?_
    by_cases hk : entry.1 = key <;> simp [hk]
  refine ⟨hkeys ▸ h.1, ?_⟩
  intro entry hentry
  obtain ⟨old, hold, rfl⟩ := List.mem_map.mp hentry
  by_cases hk : old.1 = key
  · simpa [hk] using hnode
  · simpa [hk] using h.2 old hold

theorem WellFormed.erase (h : entries.WellFormed) : WellFormed (entries.erase key) :=
  ⟨h.1.sublist (List.filter_sublist.map _), fun entry hentry => h.2 entry (List.mem_of_mem_filter hentry)⟩

/-- A taken key is free again. -/
theorem lookup_erase : (entries.erase key).lookup key = none := by
  rw [List.lookup_eq_none_iff]
  intro entry hentry
  have hne := (List.mem_filter.mp hentry).2
  rwa [bne_comm]

/-! ## Changes -/

/-- A change, where it succeeds, leaves entries well-formed. -/
def Keeps (change : Entries → Option Entries) : Prop :=
  ∀ entries entries', WellFormed entries → change entries = some entries' → WellFormed entries'

theorem keeps_insertNew (hnode : node.WellFormed) : Keeps (insertNew key node) := by
  intro entries entries' h hnew
  unfold insertNew at hnew
  split at hnew
  · next hfree =>
    cases hnew
    exact h.append hfree hnode
  · cases hnew

section

variable {change : Entries → Option Entries} {part : String}

theorem Keeps.changeLast (hchange : Keeps change) (h : ∀ entries ∈ elements, WellFormed entries)
    (hlast : Entries.changeLast change elements = some elements') :
    ∀ entries ∈ elements', WellFormed entries := by
  obtain ⟨last, hget, hlast⟩ := Option.bind_eq_some_iff.mp hlast
  obtain ⟨last', hlast', hdone⟩ := Option.bind_eq_some_iff.mp hlast
  cases hdone
  rw [List.forall_mem_append]
  exact ⟨fun es hes => h es (List.dropLast_subset _ hes), List.forall_mem_singleton.mpr
    (hchange last last' (h last (List.mem_of_getLast? hget)) hlast')⟩

/-- A change of nothing makes a table that may be added. -/
theorem Keeps.append_table (hchange : Keeps change) (h : entries.WellFormed)
    (hnew : entries.lookup part = none) {inner : Entries} (hinner : change [] = some inner)
    (origin : Origin) : WellFormed (entries ++ [(part, .table origin inner)]) :=
  h.append hnew (wellFormed_table_iff.mpr (hchange [] inner wellFormed_nil hinner))

/-- A change within a table that is there. -/
theorem Keeps.replace_table (hchange : Keeps change) (h : entries.WellFormed) {origin : Origin}
    {inner inner' : Entries} (hfound : entries.lookup part = some (.table origin inner))
    (hinner : change inner = some inner') :
    WellFormed (entries.replace part (.table origin inner')) :=
  h.replace (wellFormed_table_iff.mpr
    (hchange inner inner' (wellFormed_table_iff.mp (h.of_lookup hfound)) hinner))

/-- A change within the last of several tables. -/
theorem Keeps.replace_tables (hchange : Keeps change) (h : entries.WellFormed)
    (hfound : entries.lookup part = some (.tables elements))
    (hlast : Entries.changeLast change elements = some elements') :
    WellFormed (entries.replace part (.tables elements')) :=
  h.replace (wellFormed_tables_iff.mpr
    (hchange.changeLast (wellFormed_tables_iff.mp (h.of_lookup hfound)) hlast))

end

theorem keeps_insertPath (hnode : node.WellFormed) (path : List String) :
    Keeps (insertPath key node path) := by
  induction path with
  | nil => exact keeps_insertNew hnode
  | cons part rest ih =>
    intro entries entries' h hpath
    unfold insertPath at hpath
    split at hpath
    · next hfree =>
      obtain ⟨inner, hinner, hdone⟩ := Option.bind_eq_some_iff.mp hpath
      cases hdone
      exact ih.append_table h hfree hinner .dotted
    · next origin inner hfound =>
      split at hpath
      · cases hpath
      · obtain ⟨inner', hinner, hdone⟩ := Option.bind_eq_some_iff.mp hpath
        cases hdone
        exact ih.replace_table h hfound hinner
    · next elements hfound =>
      split at hpath
      · cases hpath
      · obtain ⟨elements', helements, hdone⟩ := Option.bind_eq_some_iff.mp hpath
        cases hdone
        exact ih.replace_tables h hfound helements
    · cases hpath

theorem Keeps.changeAt {change : Entries → Option Entries} (hchange : Keeps change)
    (path : List String) : Keeps (Entries.changeAt change path) := by
  induction path with
  | nil => exact hchange
  | cons part rest ih =>
    intro entries entries' h hpath
    unfold Entries.changeAt at hpath
    split at hpath
    · next hfree =>
      obtain ⟨inner, hinner, hdone⟩ := Option.bind_eq_some_iff.mp hpath
      cases hdone
      exact ih.append_table h hfree hinner .implied
    · next origin inner hfound =>
      obtain ⟨inner', hinner, hdone⟩ := Option.bind_eq_some_iff.mp hpath
      cases hdone
      exact ih.replace_table h hfound hinner
    · next elements hfound =>
      obtain ⟨elements', helements, hdone⟩ := Option.bind_eq_some_iff.mp hpath
      cases hdone
      exact ih.replace_tables h hfound helements
    · cases hpath

theorem keeps_foldlM {α : Type} {step : Entries → α → Option Entries} {as : List α}
    (hsteps : ∀ a ∈ as, Keeps (step · a)) : Keeps (as.foldlM step) := by
  induction as with
  | nil =>
    intro entries entries' h hrun
    cases hrun
    exact h
  | cons a rest ih =>
    intro entries entries' h hrun
    rw [List.forall_mem_cons] at hsteps
    obtain ⟨next, hnext, hrest⟩ := Option.bind_eq_some_iff.mp hrun
    exact ih hsteps.2 next entries' (hsteps.1 entries next h hnext) hrest

theorem keeps_assign {assignments : List Assignment}
    (hvalues : ∀ a ∈ assignments, a.value.WellFormed) : Keeps (assign · assignments) :=
  keeps_foldlM fun a ha => keeps_insertPath (.value (hvalues a ha)) a.path

theorem keeps_addSection {s : Section} (hvalues : ∀ a ∈ s.assignments, a.value.WellFormed) :
    Keeps (addSection · s) := by
  intro entries entries' h hadd
  unfold addSection at hadd
  split at hadd
  · next path key _ =>
    refine Keeps.changeAt ?_ path entries entries' h hadd
    intro parent parent' hparent hchange
    beta_reduce at hchange
    split at hchange
    · next hfree =>
      obtain ⟨inner, hinner, hdone⟩ := Option.bind_eq_some_iff.mp hchange
      cases hdone
      exact (keeps_assign hvalues).append_table hparent hfree hinner .declared
    · next inner hfound =>
      -- the table moves to the end: its key is taken away before it is added again
      obtain ⟨inner', hinner, hdone⟩ := Option.bind_eq_some_iff.mp hchange
      cases hdone
      have hwf := wellFormed_table_iff.mp (hparent.of_lookup hfound)
      exact hparent.erase.append lookup_erase
        (wellFormed_table_iff.mpr (keeps_assign hvalues inner inner' hwf hinner))
    · cases hchange
  · next path key _ =>
    refine Keeps.changeAt ?_ path entries entries' h hadd
    intro parent parent' hparent hchange
    obtain ⟨element, helement, hchange⟩ := Option.bind_eq_some_iff.mp hchange
    have hnew := keeps_assign hvalues [] element wellFormed_nil helement
    split at hchange
    · next hfree =>
      cases hchange
      exact hparent.append hfree (wellFormed_tables_iff.mpr (List.forall_mem_singleton.mpr hnew))
    · next elements hfound =>
      cases hchange
      have hwf := wellFormed_tables_iff.mp (hparent.of_lookup hfound)
      refine hparent.replace (wellFormed_tables_iff.mpr ?_)
      rw [List.forall_mem_append]
      exact ⟨hwf, List.forall_mem_singleton.mpr hnew⟩
    · cases hchange

end Entries

/-! ## Finished trees -/

theorem entriesToValues_eq_map (entries : Entries) :
    Node.entriesToValues entries = entries.map fun entry => (entry.1, entry.2.toValue) := by
  induction entries with
  | nil => rw [Node.entriesToValues, List.map_nil]
  | cons entry rest ih => rw [Node.entriesToValues, ih, List.map_cons]

theorem elementsToValues_eq_map (elements : List Entries) : Node.elementsToValues elements =
    elements.map fun entries => .table (Node.entriesToValues entries) := by
  induction elements with
  | nil => rw [Node.elementsToValues, List.map_nil]
  | cons entries rest ih => rw [Node.elementsToValues, ih, List.map_cons]

/-- Finishing keeps the keys of a table, so it is well-formed when its values are. -/
theorem wellFormed_entriesToValues {entries : Entries} (hkeys : (entries.map (·.1)).Nodup)
    (hvalues : ∀ entry ∈ entries, entry.2.toValue.WellFormed) :
    (Value.table (Node.entriesToValues entries)).WellFormed := by
  rw [entriesToValues_eq_map]
  refine .table (by rwa [List.map_map]) ?_
  rw [List.forall_mem_map]
  exact hvalues

theorem Node.WellFormed.toValue {node : Node} (h : node.WellFormed) : node.toValue.WellFormed := by
  induction h with
  | value hv => rwa [Node.toValue]
  | table hkeys _ ih =>
    rw [Node.toValue]
    exact wellFormed_entriesToValues hkeys ih
  | tables hkeys _ ih =>
    rw [Node.toValue, elementsToValues_eq_map]
    refine .array ?_
    rw [List.forall_mem_map]
    exact fun entries hentries => wellFormed_entriesToValues (hkeys entries hentries) (ih entries hentries)

theorem Entries.WellFormed.toValues {entries : Entries} (h : entries.WellFormed) :
    (Value.table (Node.entriesToValues entries)).WellFormed :=
  wellFormed_entriesToValues h.1 fun entry hentry => (h.2 entry hentry).toValue

/-! ## Values -/

theorem fitting?_wellFormed {n m : Int} (h : fitting? n = some m) : (Value.integer m).WellFormed := by
  unfold fitting? at h
  split at h
  · next hfits =>
    cases h
    exact .integer hfits.1 hfits.2
  · cases h

theorem integer?_wellFormed {text : List Char} {n : Int} (h : integer? text = some n) :
    (Value.integer n).WellFormed := by
  have hbased : ∀ {base rest}, basedInteger? base rest = some n → (Value.integer n).WellFormed := by
    intro base rest h
    obtain ⟨digits, -, hfits⟩ := Option.bind_eq_some_iff.mp h
    exact fitting?_wellFormed hfits
  unfold integer? at h
  split at h
  · exact hbased h
  · exact hbased h
  · exact hbased h
  · obtain ⟨digits, -, hfits⟩ := Option.bind_eq_some_iff.mp h
    exact fitting?_wellFormed hfits

theorem scalar?_wellFormed {token : List Char} {v : Value} (h : scalar? token = some v) :
    v.WellFormed := by
  unfold scalar? at h
  split at h
  · cases h
    exact .boolean true
  · cases h
    exact .boolean false
  · split at h
    · cases h
      exact .moment
    · rcases Option.or_eq_some_iff.mp h with hinteger | ⟨-, hfloat⟩
      · obtain ⟨n, hn, rfl⟩ := Option.map_eq_some_iff.mp hinteger
        exact integer?_wellFormed hn
      · obtain ⟨x, -, rfl⟩ := Option.map_eq_some_iff.mp hfloat
        exact .float x

/-- Whatever is scanned is well-formed. -/
def ScansWellFormed (item : Scan Value) : Prop :=
  ∀ text v rest, item text = some (v, rest) → v.WellFormed

variable {item : Scan Value}

theorem bareScalar?_wellFormed : ScansWellFormed bareScalar? := by
  intro text v rest h
  obtain ⟨v', hscalar, heq⟩ := Option.map_eq_some_iff.mp h
  cases heq
  exact scalar?_wellFormed hscalar

theorem wellFormed_of_map {α : Type} {scanned : Option α} {f : α → Value × List Char}
    (hf : ∀ a, (f a).1.WellFormed) {v : Value} {rest : List Char}
    (h : scanned.map f = some (v, rest)) : v.WellFormed := by
  obtain ⟨a, -, heq⟩ := Option.map_eq_some_iff.mp h
  have hv : (f a).1 = v := congrArg Prod.fst heq
  exact hv ▸ hf a

theorem arrayItems_wellFormed (hitem : ScansWellFormed item) {fuel : Nat} {text rest : List Char}
    {vs : List Value} (h : arrayItems item fuel text = some (vs, rest)) : ∀ v ∈ vs, v.WellFormed := by
  induction fuel generalizing text vs with
  | zero => cases h
  | succ fuel ih =>
    unfold arrayItems at h
    obtain ⟨start, -, h⟩ := Option.bind_eq_some_iff.mp h
    split at h
    · cases h
      exact fun v hv => absurd hv List.not_mem_nil
    · obtain ⟨⟨value, after⟩, hvalue, h⟩ := Option.bind_eq_some_iff.mp h
      have hwf := hitem _ value after hvalue
      obtain ⟨next, -, h⟩ := Option.bind_eq_some_iff.mp h
      split at h
      · obtain ⟨⟨values, after'⟩, hvalues, h⟩ := Option.bind_eq_some_iff.mp h
        cases h
        exact List.forall_mem_cons.mpr ⟨hwf, ih hvalues⟩
      · cases h
        exact List.forall_mem_singleton.mpr hwf
      · cases h

theorem assignment?_wellFormed (hitem : ScansWellFormed item) {text rest : List Char}
    {a : Assignment} (h : assignment? item text = some (a, rest)) : a.value.WellFormed := by
  unfold assignment? at h
  obtain ⟨⟨⟨path, key⟩, after⟩, -, h⟩ := Option.bind_eq_some_iff.mp h
  dsimp only at h
  split at h
  · obtain ⟨⟨value, after'⟩, hvalue, h⟩ := Option.bind_eq_some_iff.mp h
    cases h
    exact hitem _ value _ hvalue
  · cases h

theorem inlineItems_wellFormed (hitem : ScansWellFormed item) {fuel : Nat} {text rest : List Char}
    {assignments : List Assignment} (h : inlineItems item fuel text = some (assignments, rest)) :
    ∀ a ∈ assignments, a.value.WellFormed := by
  induction fuel generalizing text assignments with
  | zero => cases h
  | succ fuel ih =>
    unfold inlineItems at h
    obtain ⟨⟨a, after⟩, ha, h⟩ := Option.bind_eq_some_iff.mp h
    have hwf := assignment?_wellFormed hitem ha
    dsimp only at h
    split at h
    · obtain ⟨⟨more, after'⟩, hmore, h⟩ := Option.bind_eq_some_iff.mp h
      cases h
      exact List.forall_mem_cons.mpr ⟨hwf, ih hmore⟩
    · cases h
      exact List.forall_mem_singleton.mpr hwf
    · cases h

theorem inlineTable?_wellFormed {assignments : List Assignment}
    (hvalues : ∀ a ∈ assignments, a.value.WellFormed) {v : Value}
    (h : inlineTable? assignments = some v) : v.WellFormed := by
  obtain ⟨entries, hassign, hdone⟩ := Option.bind_eq_some_iff.mp h
  cases hdone
  exact (Entries.keeps_assign hvalues [] entries Entries.wellFormed_nil hassign).toValues

theorem value?_wellFormed (depth : Nat) : ScansWellFormed (value? depth) := by
  induction depth with
  | zero =>
    intro text v rest h
    unfold value? at h
    split at h
    · exact wellFormed_of_map (fun s => .string s.1) h
    · exact wellFormed_of_map (fun s => .string s.1) h
    · cases h
    · cases h
    · exact bareScalar?_wellFormed _ v rest h
  | succ depth ih =>
    intro text v rest h
    unfold value? at h
    split at h
    · exact wellFormed_of_map (fun s => .string s.1) h
    · exact wellFormed_of_map (fun s => .string s.1) h
    · obtain ⟨⟨vs, after⟩, hvs, heq⟩ := Option.map_eq_some_iff.mp h
      cases heq
      exact .array (arrayItems_wellFormed ih hvs)
    · dsimp only at h
      split at h
      · cases h
        exact .table List.nodup_nil fun _ hentry => absurd hentry List.not_mem_nil
      · obtain ⟨⟨assignments, after⟩, hassignments, h⟩ := Option.bind_eq_some_iff.mp h
        obtain ⟨table, htable, h⟩ := Option.bind_eq_some_iff.mp h
        cases h
        exact inlineTable?_wellFormed (inlineItems_wellFormed ih hassignments) htable
    · exact bareScalar?_wellFormed _ v rest h

/-! ## Documents -/

theorem lines?_wellFormed {fuel : Nat} {text : List Char} {leading : List Assignment}
    {sections : List Section} (h : lines? fuel text = some (leading, sections)) :
    (∀ a ∈ leading, a.value.WellFormed) ∧
      ∀ s ∈ sections, ∀ a ∈ s.assignments, a.value.WellFormed := by
  induction fuel generalizing text leading sections with
  | zero => cases h
  | succ fuel ih =>
    unfold lines? at h
    split at h
    · cases h
      exact ⟨fun _ ha => absurd ha List.not_mem_nil, fun _ hs => absurd hs List.not_mem_nil⟩
    · obtain ⟨⟨header, after⟩, -, h⟩ := Option.bind_eq_some_iff.mp h
      obtain ⟨line, -, h⟩ := Option.bind_eq_some_iff.mp h
      obtain ⟨⟨assignments, more⟩, hrest, h⟩ := Option.bind_eq_some_iff.mp h
      cases h
      obtain ⟨hassignments, hmore⟩ := ih hrest
      exact ⟨fun _ ha => absurd ha List.not_mem_nil, List.forall_mem_cons.mpr ⟨hassignments, hmore⟩⟩
    · split at h
      · obtain ⟨line, -, h⟩ := Option.bind_eq_some_iff.mp h
        exact ih h
      · obtain ⟨⟨a, after⟩, ha, h⟩ := Option.bind_eq_some_iff.mp h
        obtain ⟨line, -, h⟩ := Option.bind_eq_some_iff.mp h
        obtain ⟨⟨assignments, more⟩, hrest, h⟩ := Option.bind_eq_some_iff.mp h
        cases h
        obtain ⟨hassignments, hmore⟩ := ih hrest
        exact ⟨List.forall_mem_cons.mpr
          ⟨assignment?_wellFormed (value?_wellFormed _) ha, hassignments⟩, hmore⟩

/-- Every document that can be read is well-formed. -/
theorem wellFormed_of_parse? {text : String} {document : Table} (h : parse? text = some document) :
    (Value.table document).WellFormed := by
  obtain ⟨⟨leading, sections⟩, hlines, h⟩ := Option.bind_eq_some_iff.mp h
  obtain ⟨hleading, hsections⟩ := lines?_wellFormed hlines
  obtain ⟨root, hroot, h⟩ := Option.bind_eq_some_iff.mp h
  obtain ⟨entries, hentries, hdone⟩ := Option.bind_eq_some_iff.mp h
  cases hdone
  have hwf := Entries.keeps_assign hleading [] root Entries.wellFormed_nil hroot
  have hadd : Entries.Keeps (sections.foldlM Entries.addSection) :=
    Entries.keeps_foldlM fun s hs => Entries.keeps_addSection (hsections s hs)
  exact (hadd root entries hwf hentries).toValues

end TimeTrials.Toml
