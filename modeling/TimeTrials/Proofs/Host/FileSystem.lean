import Mathlib.Data.List.Basic
import TimeTrials.Host.FileSystem

/-!
# What files are after a change

* `lookup_insert_self`, `lookup_insert_of_ne`, `insert_insert`: an entry is put at one location, and the
  last one put there stays.
* `Walk`: how a path is followed.  It goes on through directories only, so it comes to a file at its end or
  never.
* `Walk.insert_of_existing`, `Walk.insert_of_missing`: so putting a file where a path leads does not send
  the path elsewhere.
* `Created`, `created_of_create`: what making a file does.
* `MakesFile.leads`: a file that can be made is where the path leads, and is read from it.
* `write_insert`: writing at the end of a file.
* `Intake`: so a file takes one piece after the other, and so does the device that is always empty.
-/

namespace TimeTrials.Host.FileSystem

open Text (Bytes)

variable {fs : FileSystem} {location : Location} {entry : Entry}

/-! ## Entries -/

theorem lookup_eq (fs : FileSystem) (h : location ≠ []) :
    fs.lookup location = fs.entries.lookup location := by
  cases location with
  | nil => exact absurd rfl h
  | cons => rfl

/-- Entries with the one at a location replaced. -/
def replaced (entries : List (Location × Entry)) (location : Location) (entry : Entry) :
    List (Location × Entry) :=
  entries.map fun (l, e) => if l = location then (l, entry) else (l, e)

theorem lookup_cons (l l' : Location) (e : Entry) (entries : List (Location × Entry)) :
    List.lookup l ((l', e) :: entries) = if l = l' then some e else entries.lookup l := by
  rw [List.lookup_cons]
  by_cases h : l = l'
  · rw [if_pos h, beq_iff_eq.mpr h]
  · rw [if_neg h, beq_false_of_ne h]

theorem lookup_replaced (entries : List (Location × Entry)) (l location : Location) (entry : Entry) :
    (replaced entries location entry).lookup l =
      if l = location then (entries.lookup l).map fun _ => entry else entries.lookup l := by
  induction entries with
  | nil => simp [replaced]
  | cons first entries ih =>
    obtain ⟨l', e⟩ := first
    rw [replaced, List.map_cons, ← replaced, lookup_cons]
    by_cases hl' : l' = location
    · rw [if_pos hl', lookup_cons, ih]
      split_ifs <;> simp_all
    · rw [if_neg hl', lookup_cons, ih]
      split_ifs <;> simp_all

theorem insert_of_isSome (h : (fs.entries.lookup location).isSome = true) :
    fs.insert location entry = { fs with entries := replaced fs.entries location entry } :=
  if_pos h

theorem insert_of_eq_none (h : fs.entries.lookup location = none) :
    fs.insert location entry = { fs with entries := fs.entries ++ [(location, entry)] } :=
  if_neg (by rw [h]; decide)

theorem workingDir_insert : (fs.insert location entry).workingDir = fs.workingDir := by
  rw [insert]
  split <;> rfl

/-- What is found under a location once an entry is there. -/
theorem lookup_entries_insert (fs : FileSystem) (l location : Location) (entry : Entry) :
    (fs.insert location entry).entries.lookup l =
      if l = location then some entry else fs.entries.lookup l := by
  cases h : fs.entries.lookup location with
  | some e =>
    rw [insert_of_isSome (by rw [h]; rfl), lookup_replaced]
    split
    · next heq =>
      rw [heq, h]
      rfl
    · rfl
  | none =>
    rw [insert_of_eq_none h, List.lookup_append, lookup_cons]
    split
    · next heq =>
      rw [heq, h]
      rfl
    · exact Option.or_none

theorem lookup_insert_self (h : location ≠ []) :
    (fs.insert location entry).lookup location = some entry := by
  rw [lookup_eq _ h, lookup_entries_insert, if_pos rfl]

theorem lookup_insert_of_ne {l : Location} (h : l ≠ location) :
    (fs.insert location entry).lookup l = fs.lookup l := by
  by_cases hroot : l = []
  · rw [hroot]
    rfl
  · rw [lookup_eq _ hroot, lookup_eq _ hroot, lookup_entries_insert, if_neg h]

theorem replaced_replaced (entries : List (Location × Entry)) (entry' : Entry) :
    replaced (replaced entries location entry) location entry' = replaced entries location entry' := by
  rw [replaced, replaced, replaced, List.map_map]
  refine List.map_congr_left fun pair _ => ?_
  by_cases h : pair.1 = location <;> simp [h]

theorem replaced_of_lookup_eq_none {entries : List (Location × Entry)}
    (h : entries.lookup location = none) : replaced entries location entry = entries := by
  induction entries with
  | nil => rfl
  | cons first entries ih =>
    obtain ⟨l, e⟩ := first
    rw [lookup_cons] at h
    split_ifs at h with hl
    rw [replaced, List.map_cons, ← replaced, ih h]
    exact congrArg (· :: entries) (if_neg fun heq => hl heq.symm)

/-- The last entry that is put at a location stays. -/
theorem insert_insert {entry' : Entry} :
    (fs.insert location entry).insert location entry' = fs.insert location entry' := by
  have hsome : ((fs.insert location entry).entries.lookup location).isSome = true := by
    rw [lookup_entries_insert, if_pos rfl]
    rfl
  rw [insert_of_isSome hsome]
  cases h : fs.entries.lookup location with
  | some e =>
    rw [insert_of_isSome (by rw [h]; rfl), insert_of_isSome (by rw [h]; rfl), replaced_replaced]
  | none =>
    rw [insert_of_eq_none h, insert_of_eq_none h, replaced, List.map_append, ← replaced,
      replaced_of_lookup_eq_none h]
    simp

/-! ## Paths -/

/-- A path leads to a location, whether or not something is there. -/
def Leads (fs : FileSystem) (path : String) (location : Location) : Prop :=
  (∃ entry, fs.resolve path = .ok (.existing location entry)) ∨
    ∃ asDirectory, fs.resolve path = .ok (.missing location asDirectory)

/-- A walk that goes on at a location below the directory it has come to. -/
def enter (fs : FileSystem) (location : Location) (rest : List String) : Except SystemFault Target :=
  match fs.lookup location with
  | some entry => fs.walk location entry rest
  | none =>
    if rest.all (·.isEmpty) then .ok (.missing location (!rest.isEmpty)) else .error .notFound

/-- A component is refused, or it leads to a directory by itself, or it names something in the directory;
which of these it does has nothing to do with the files. -/
theorem walk_cons (start : Location) (component : String) (rest : List String) :
    (∃ fault, ∀ fs : FileSystem, fs.walk start .directory (component :: rest) = .error fault) ∨
      (∃ start', ∀ fs : FileSystem,
        fs.walk start .directory (component :: rest) = fs.walk start' .directory rest) ∨
      ∀ fs : FileSystem,
        fs.walk start .directory (component :: rest) = fs.enter (start ++ [component]) rest := by
  have hself : ¬ Entry.directory ≠ .directory := not_not.mpr rfl
  by_cases hlong : nameLimit < component.utf8ByteSize
  · exact .inl ⟨.nameTooLong, fun fs => by rw [walk, if_neg hself, if_pos hlong]⟩
  by_cases hhere : component = "" ∨ component = "."
  · exact .inr (.inl ⟨start, fun fs => by
      rw [walk, if_neg hself, if_neg hlong, if_pos hhere]⟩)
  by_cases hup : component = ".."
  · exact .inr (.inl ⟨start.dropLast, fun fs => by
      rw [walk, if_neg hself, if_neg hlong, if_neg hhere, if_pos hup]⟩)
  · exact .inr (.inr fun fs => by
      rw [walk, if_neg hself, if_neg hlong, if_neg hhere, if_neg hup]
      rfl)

/-- Nothing is below anything but a directory. -/
theorem walk_of_ne_directory (h : entry ≠ .directory) {components : List String} {target : Target}
    (hwalk : fs.walk location entry components = .ok target) :
    components = [] ∧ target = .existing location entry := by
  cases components with
  | nil => exact ⟨rfl, (Except.ok.inj hwalk).symm⟩
  | cons component rest =>
    rw [walk, if_pos h] at hwalk
    cases hwalk

/-- A walk from a directory that comes to an end, component by component.  It goes on through directories
only. -/
inductive Walk (fs : FileSystem) : Location → List String → Target → Prop
  | stay {start : Location} : Walk fs start [] (.existing start .directory)
  | move {start start' : Location} {component : String} {rest : List String} {target : Target}
      (hstep : ∀ fs : FileSystem,
        fs.walk start .directory (component :: rest) = fs.walk start' .directory rest)
      (h : Walk fs start' rest target) : Walk fs start (component :: rest) target
  | pass {start : Location} {component : String} {rest : List String} {target : Target}
      (hstep : ∀ fs : FileSystem,
        fs.walk start .directory (component :: rest) = fs.enter (start ++ [component]) rest)
      (hlookup : fs.lookup (start ++ [component]) = some .directory)
      (h : Walk fs (start ++ [component]) rest target) : Walk fs start (component :: rest) target
  | arrive {start : Location} {component : String} {entry : Entry}
      (hstep : ∀ fs : FileSystem,
        fs.walk start .directory [component] = fs.enter (start ++ [component]) [])
      (hlookup : fs.lookup (start ++ [component]) = some entry) (hentry : entry ≠ .directory) :
      Walk fs start [component] (.existing (start ++ [component]) entry)
  | miss {start : Location} {component : String} {rest : List String}
      (hstep : ∀ fs : FileSystem,
        fs.walk start .directory (component :: rest) = fs.enter (start ++ [component]) rest)
      (hlookup : fs.lookup (start ++ [component]) = none) :
      Walk fs start (component :: rest) (.missing (start ++ [component]) (!rest.isEmpty))

theorem walk_of_walk_eq_ok {start : Location} {components : List String} {target : Target}
    (h : fs.walk start .directory components = .ok target) : Walk fs start components target := by
  induction components generalizing start with
  | nil =>
    cases h
    exact .stay
  | cons component rest ih =>
    obtain ⟨fault, hstep⟩ | ⟨start', hstep⟩ | hstep := walk_cons start component rest
    · rw [hstep] at h
      cases h
    · rw [hstep] at h
      exact .move hstep (ih h)
    · rw [hstep, enter] at h
      split at h
      · next entry hlookup =>
        by_cases hentry : entry = .directory
        · rw [hentry] at h hlookup
          exact .pass hstep hlookup (ih h)
        · obtain ⟨rfl, rfl⟩ := walk_of_ne_directory hentry h
          exact .arrive hstep hlookup hentry
      · next hlookup =>
        split_ifs at h
        cases h
        exact .miss hstep hlookup

/-- What is at the end of a walk, unless it is the directory in which it started. -/
theorem Walk.lookup_existing {start : Location} {components : List String}
    (h : Walk fs start components (.existing location entry)) (hentry : entry ≠ .directory) :
    location ≠ [] ∧ fs.lookup location = some entry := by
  generalize htarget : Target.existing location entry = target at h
  induction h with
  | stay =>
    cases htarget
    exact absurd rfl hentry
  | move _ _ ih => exact ih htarget
  | pass _ _ _ ih => exact ih htarget
  | arrive _ hlookup _ =>
    cases htarget
    exact ⟨by simp, hlookup⟩
  | miss => cases htarget

theorem Walk.lookup_missing {start : Location} {components : List String} {asDirectory : Bool}
    (h : Walk fs start components (.missing location asDirectory)) :
    location ≠ [] ∧ fs.lookup location = none := by
  generalize htarget : Target.missing location asDirectory = target at h
  induction h with
  | stay => cases htarget
  | move _ _ ih => exact ih htarget
  | pass _ _ _ ih => exact ih htarget
  | arrive => cases htarget
  | miss _ hlookup =>
    cases htarget
    exact ⟨by simp, hlookup⟩

/-- Where a file is put in place of another, a walk to it still ends there. -/
theorem Walk.insert_of_existing {start : Location} {components : List String} {content : Bytes}
    (h : Walk fs start components (.existing location (.file content))) (content' : Bytes) :
    (fs.insert location (.file content')).walk start .directory components =
      .ok (.existing location (.file content')) := by
  obtain ⟨hroot, hfile⟩ := h.lookup_existing (by simp)
  generalize htarget : Target.existing location (.file content) = target at h
  induction h with
  | stay => cases htarget
  | move hstep _ ih =>
    rw [hstep]
    exact ih htarget
  | @pass start component rest target hstep hlookup _ ih =>
    have hne : start ++ [component] ≠ location := by
      rintro rfl
      rw [hlookup] at hfile
      cases hfile
    rw [hstep, enter, lookup_insert_of_ne hne, hlookup]
    exact ih htarget
  | arrive hstep _ _ =>
    cases htarget
    rw [hstep, enter, lookup_insert_self hroot]
    rfl
  | miss => cases htarget

/-- Where a file is put that was missing, a walk to it ends there. -/
theorem Walk.insert_of_missing {start : Location} {components : List String}
    (h : Walk fs start components (.missing location false)) (content : Bytes) :
    (fs.insert location (.file content)).walk start .directory components =
      .ok (.existing location (.file content)) := by
  obtain ⟨hroot, hnone⟩ := h.lookup_missing
  generalize htarget : Target.missing location false = target at h
  induction h with
  | stay => cases htarget
  | move hstep _ ih =>
    rw [hstep]
    exact ih htarget
  | @pass start component rest target hstep hlookup _ ih =>
    have hne : start ++ [component] ≠ location := by
      rintro rfl
      rw [hlookup] at hnone
      cases hnone
    rw [hstep, enter, lookup_insert_of_ne hne, hlookup]
    exact ih htarget
  | arrive => cases htarget
  | @miss start component rest hstep _ =>
    obtain ⟨rfl, hrest⟩ := Target.missing.inj htarget
    obtain rfl : rest = [] := by simpa using hrest.symm
    rw [hstep, enter, lookup_insert_self hroot]
    rfl

/-! ## Making a file -/

/-- A path is refused, or it is walked from a directory that does not depend on the entries. -/
theorem resolve_cases (path : String) :
    (∃ fault, ∀ fs : FileSystem, fs.resolve path = .error fault) ∨
      ∃ start : Location → Location, ∀ fs : FileSystem,
        fs.resolve path = fs.walk (start fs.workingDir) .directory (components path) := by
  by_cases hnul : path.toList.contains '\x00' = true
  · exact .inl ⟨_, fun fs => if_pos hnul⟩
  by_cases hlong : pathLimit < path.utf8ByteSize
  · exact .inl ⟨_, fun fs => (if_neg hnul).trans (if_pos hlong)⟩
  cases hpath : path.toList with
  | nil => exact .inl ⟨.notFound, fun fs => by rw [resolve, if_neg hnul, if_neg hlong, hpath]⟩
  | cons c rest =>
    by_cases hc : c = '/'
    · subst hc
      refine .inr ⟨fun _ => [], fun fs => ?_⟩
      rw [resolve, if_neg hnul, if_neg hlong, hpath]
      rfl
    · refine .inr ⟨id, fun fs => ?_⟩
      rw [resolve, if_neg hnul, if_neg hlong, hpath]
      split
      · next heq => cases heq
      · next heq => exact absurd (List.cons.inj heq).1 hc
      · rfl

/-- A path is walked to its end. -/
theorem exists_walk_of_resolve {path : String} {target : Target} (h : fs.resolve path = .ok target) :
    ∃ start, Walk fs start (components path) target ∧ ∀ location entry,
      (fs.insert location entry).resolve path =
        (fs.insert location entry).walk start .directory (components path) := by
  obtain ⟨fault, hresolve⟩ | ⟨start, hresolve⟩ := resolve_cases path
  · rw [hresolve] at h
    cases h
  · rw [hresolve] at h
    exact ⟨_, walk_of_walk_eq_ok h, fun location entry => by rw [hresolve, workingDir_insert]⟩

/-- A file can be made under a path: there is an empty one at the location then. -/
def MakesFile (fs : FileSystem) (path : String) (location : Location) : Prop :=
  fs.create path = .ok (fs.insert location (.file []), ⟨location, 0⟩)

/-- What making a file comes to: the path leads to a place where there is a file or nothing, and then an
empty file is there, and whatever it holds is read from the path; or the path leads to a device, and the
files are as before. -/
inductive Created (fs : FileSystem) (path : String) : FileSystem → Handle → Prop
  | file {location : Location} (hroot : location ≠ []) (hleads : fs.Leads path location)
      (hread : ∀ content, (fs.insert location (.file content)).read path = .ok content) :
      Created fs path (fs.insert location (.file [])) ⟨location, 0⟩
  | device {location : Location} (h : fs.lookup location = some .null ∨ fs.lookup location = some .full) :
      Created fs path fs ⟨location, 0⟩

theorem read_of_resolve {path : String} {content : Bytes}
    (h : fs.resolve path = .ok (.existing location (.file content))) : fs.read path = .ok content := by
  rw [read, open?, h]
  rfl

/-- Making a file does this. -/
theorem created_of_create {path : String} {created : FileSystem} {handle : Handle}
    (h : fs.create path = .ok (created, handle)) : Created fs path created handle := by
  rw [create] at h
  cases hresolve : fs.resolve path with
  | error fault =>
    rw [hresolve] at h
    cases h
  | ok target =>
    obtain ⟨start, hwalk, hinsert⟩ := exists_walk_of_resolve hresolve
    rw [hresolve] at h
    cases target with
    | missing location asDirectory =>
      cases asDirectory with
      | true => cases h
      | false =>
        cases h
        refine .file hwalk.lookup_missing.1 (.inr ⟨_, hresolve⟩) fun content => ?_
        exact read_of_resolve ((hinsert _ _).trans (hwalk.insert_of_missing content))
    | existing location entry =>
      cases entry with
      | file content =>
        cases h
        refine .file (hwalk.lookup_existing (by simp)).1 (.inl ⟨_, hresolve⟩) fun content' => ?_
        exact read_of_resolve ((hinsert _ _).trans (hwalk.insert_of_existing content'))
      | null =>
        cases h
        exact .device (.inl (hwalk.lookup_existing (by simp)).2)
      | full =>
        cases h
        exact .device (.inr (hwalk.lookup_existing (by simp)).2)
      | directory => cases h
      | program => cases h

/-- A file that can be made is where the path leads, and is read from it. -/
theorem MakesFile.leads {path : String} (h : fs.MakesFile path location) :
    location ≠ [] ∧ fs.Leads path location ∧
      ∀ content, (fs.insert location (.file content)).read path = .ok content := by
  rw [MakesFile] at h
  generalize hcreated : fs.insert location (.file []) = created at h
  cases created_of_create h with
  | file hroot hleads hread => exact ⟨hroot, hleads, hread⟩
  | device hdevice =>
    have hroot : location ≠ [] := by
      rintro rfl
      rcases hdevice with h | h <;> cases h
    have hfile : fs.lookup location = some (.file []) := by
      rw [← hcreated, lookup_insert_self hroot]
    rcases hdevice with h | h <;> (rw [hfile] at h; cases h)

/-! ## Writing -/

theorem splice_length (content bytes : Bytes) :
    splice content content.length bytes = content ++ bytes := by
  rw [splice, List.take_length, Nat.sub_self, List.drop_of_length_le (Nat.le_add_right _ _)]
  simp

/-- Bytes go to the end of a file that is written up to its end. -/
theorem write_insert (hroot : location ≠ []) (content bytes : Bytes) :
    (fs.insert location (.file content)).write ⟨location, content.length⟩ bytes =
      .ok (fs.insert location (.file (content ++ bytes)), ⟨location, (content ++ bytes).length⟩) := by
  rw [write, lookup_insert_self hroot, List.length_append]
  dsimp only
  rw [insert_insert, splice_length]

/-- Bytes that are written to the empty device are gone. -/
theorem write_null (h : fs.lookup location = some .null) (offset : Nat) (bytes : Bytes) :
    fs.write ⟨location, offset⟩ bytes = .ok (fs, ⟨location, offset + bytes.length⟩) := by
  rw [write, h]

theorem write_full (h : fs.lookup location = some .full) (offset : Nat) (bytes : Bytes) :
    fs.write ⟨location, offset⟩ bytes = .error .noSpace := by
  rw [write, h]

/-- A place that takes bytes: what the files are once it has taken some, and where it is then. -/
structure Intake where
  files : Bytes → FileSystem
  handle : Bytes → Handle
  write_files (content bytes : Bytes) : (files content).write (handle content) bytes =
    .ok (files (content ++ bytes), handle (content ++ bytes))

/-- A file. -/
def Intake.file (fs : FileSystem) (location : Location) (hroot : location ≠ []) : Intake where
  files content := fs.insert location (.file content)
  handle content := ⟨location, content.length⟩
  write_files := write_insert hroot

/-- The device that is always empty. -/
def Intake.null (fs : FileSystem) (location : Location) (h : fs.lookup location = some .null) :
    Intake where
  files _ := fs
  handle content := ⟨location, content.length⟩
  write_files content bytes := by rw [List.length_append, write_null h]

end TimeTrials.Host.FileSystem
