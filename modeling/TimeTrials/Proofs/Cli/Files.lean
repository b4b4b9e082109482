import TimeTrials.Cli.Run
import TimeTrials.Proofs.Host.FileSystem
import TimeTrials.Proofs.Sweep.Execution

/-!
# Which files a run changes

A run changes files in one place only, where it collects: it makes the dataset, and then every row goes to
the end of it.  So when the programs themselves leave the files alone, nothing else changes, and how far
the dataset has come is told by the trials that were completed.

* `Entry.outcome`, `carryOut`: the trials that come of a plan, one answer after the other, up to the first
  entry that goes wrong.
* `HasWritten`: a sweep that has written some trials, and nothing else, to the place of its dataset.
* `Completes`, `completes_of_composed`: what is put together from entries completes the trials of its plan
  and writes these.
* `collect_of_intake`: so does a whole sweep, and its dataset holds the header and the rows of what was
  completed.
* `collect_of_makesFile`, `collect_of_not_makesFile`: the files after collecting, where a file can be made
  and where none can.
* `run_changes_dataset_only`: the files after a run.
-/

namespace TimeTrials.Sweep

open Number (Binary64)

/-! ## Completed trials -/

/-- What comes of an entry on an answer: its trial, or how it goes wrong. -/
def Entry.outcome (kind : Kind) (entry : Entry) : Except LaunchFault String → Except Failure Trial
  | .error fault => .error ⟨[entry.running], .launch fault⟩
  | .ok output =>
    match Timing.read entry.place output with
    | .error fault => .error ⟨[entry.parsing], .timing fault⟩
    | .ok time =>
      if entry.param.kind = kind then .ok (entry.trial time)
      else .error ⟨[], .dataset (.header kind.column entry.param.kind.column)⟩

/-- The trials that are completed when a plan is carried out, after those that are done already, and how
it ends.  The answer to an entry can depend on what is done. -/
def carryOut (kind : Kind) (answer : List Trial → Invocation → Except LaunchFault String) :
    List Entry → List Trial → List Trial × Except Failure Unit
  | [], done => (done, .ok ())
  | entry :: plan, done =>
    match entry.outcome kind (answer done entry.call) with
    | .ok trial => carryOut kind answer plan (done ++ [trial])
    | .error failure => (done, .error failure)

section

variable {kind : Kind} {answer : List Trial → Invocation → Except LaunchFault String}

theorem carryOut_append_of_ok {plan plan' : List Entry} {done done' : List Trial}
    (h : carryOut kind answer plan done = (done', .ok ())) :
    carryOut kind answer (plan ++ plan') done = carryOut kind answer plan' done' := by
  induction plan generalizing done with
  | nil =>
    cases h
    rfl
  | cons entry plan ih =>
    rw [List.cons_append, carryOut]
    rw [carryOut] at h
    split at h
    · exact ih h
    · cases h

theorem carryOut_append_of_error {plan plan' : List Entry} {done done' : List Trial}
    {failure : Failure} (h : carryOut kind answer plan done = (done', .error failure)) :
    carryOut kind answer (plan ++ plan') done = (done', .error failure) := by
  induction plan generalizing done with
  | nil => cases h
  | cons entry plan ih =>
    rw [List.cons_append, carryOut]
    rw [carryOut] at h
    split at h
    · exact ih h
    · exact h

end

/-- One entry, by what comes of it.  Before a failure the trial may have been reported, which is not told
here. -/
theorem runEntry_of_outcome {σ : Type} {runner : Runner σ} {entry : Entry} {s : State σ} {state : σ}
    {answer : Except LaunchFault String} (hrun : runner.run entry.call s.runner = (answer, state)) :
    (∃ trial, entry.outcome s.writer.kind answer = .ok trial ∧
      runEntry runner entry s = (.ok (), ⟨runner.note (.row (Dataset.encodeTrial trial))
        (runner.note (.trial trial) state), s.writer.withRows [trial]⟩)) ∨
    ∃ failure state', entry.outcome s.writer.kind answer = .error failure ∧
      runEntry runner entry s = (.error failure, ⟨state', s.writer⟩) ∧
      (state' = state ∨ ∃ trial, state' = runner.note (.trial trial) state) := by
  cases answer with
  | error fault => exact .inr ⟨_, state, rfl, runEntry_of_error hrun, .inl rfl⟩
  | ok output =>
    cases hread : Timing.read entry.place output with
    | error fault =>
      refine .inr ⟨_, state, ?_, runEntry_of_unread hrun hread, .inl rfl⟩
      simp only [Entry.outcome, hread]
    | ok time =>
      by_cases hkind : entry.param.kind = s.writer.kind
      · refine .inl ⟨entry.trial time, ?_, ?_⟩
        · simp only [Entry.outcome, hread, if_pos hkind]
        · rw [runEntry_of_kind hrun hread hkind, Dataset.Writer.since_withRows]
      · refine .inr ⟨_, _, ?_, runEntry_of_other_kind hrun hread hkind, .inr ⟨_, rfl⟩⟩
        simp only [Entry.outcome, hread, if_neg hkind]

end TimeTrials.Sweep

namespace TimeTrials.Cli

open Dataset (encodeHeader encodeTrial Writer)
open Host (FileSystem)
open Host.FileSystem (Intake Handle)
open Sweep (Action Composed Entry Event Script State carryOut plan)
open Text (Bytes)

/-! ## Sessions -/

/-- Programs that leave the files alone. -/
def Environment.KeepsFiles (environment : Environment) : Prop :=
  ∀ n call fs, (environment.start n call fs).fs = fs

/-- What is in a dataset with some trials. -/
def contentOf (kind : Kind) (trials : List Trial) : Bytes :=
  encodeHeader kind ++ trials.flatMap encodeTrial

/-- How programs answer, once some trials are written: that many have been started, and the files are those
with these trials in the dataset. -/
def answers (environment : Environment) (files : Bytes → FileSystem) (kind : Kind) (done : List Trial)
    (call : Invocation) : Except LaunchFault String :=
  (environment.start done.length call (files (contentOf kind done))).result

/-- How a sweep is carried out, when these are the files by what is in its dataset. -/
def sweepInto (environment : Environment) (settings : Settings) (kind : Kind)
    (files : Bytes → FileSystem) : List Trial × Except Failure Unit :=
  carryOut kind (answers environment files kind) (plan settings kind) []

namespace Session

/-- The files of a session, with the place of the dataset in them, and the number of programs started. -/
structure IsAt (session : Session) (fs : FileSystem) (handle : Handle) (started : Nat) : Prop where
  fs_eq : session.fs = fs
  handle_eq : session.handle = handle
  started_eq : session.started = started

variable {environment : Environment} {session : Session} {fs : FileSystem} {handle : Handle}
  {started : Nat}

theorem IsAt.log (h : session.IsAt fs handle started) (filter : Log.Filter) (line : Log.Line) :
    (session.log filter line).IsAt fs handle started :=
  ⟨h.fs_eq, h.handle_eq, h.started_eq⟩

/-- What is noted goes to the log, unless it is a row. -/
theorem IsAt.note (h : session.IsAt fs handle started) (filter : Log.Filter) {event : Event}
    (hevent : ∀ bytes, event ≠ .row bytes) : (note filter event session).IsAt fs handle started := by
  unfold Session.note
  split
  · next bytes => exact absurd rfl (hevent bytes)
  · split
    · exact h.log filter _
    · exact h

/-- A row goes to the file. -/
theorem IsAt.row (h : session.IsAt fs handle started) (filter : Log.Filter) {bytes : Bytes}
    {fs' : FileSystem} {handle' : Handle} (hwrite : fs.write handle bytes = .ok (fs', handle')) :
    (Session.note filter (.row bytes) session).IsAt fs' handle' started := by
  rw [Session.note, addRow, h.fs_eq, h.handle_eq, hwrite]
  exact ⟨rfl, rfl, h.started_eq⟩

/-- A program answers, and one more has been started. -/
theorem IsAt.start (h : session.IsAt fs handle started) (hkeeps : environment.KeepsFiles)
    (call : Invocation) : ∃ session',
      Session.start environment call session =
        ((environment.start started call fs).result, session') ∧
      session'.IsAt fs handle (started + 1) := by
  obtain ⟨rfl, rfl, rfl⟩ := h
  exact ⟨_, rfl, hkeeps _ _ _, rfl, rfl⟩

end Session

/-- A sweep has written some trials to an intake, and this many programs have been started. -/
structure HasWritten (intake : Intake) (kind : Kind) (done : List Trial) (started : Nat)
    (s : State Session) : Prop where
  writer_eq : s.writer = (Writer.new kind).withRows done
  isAt : s.runner.IsAt (intake.files (contentOf kind done)) (intake.handle (contentOf kind done)) started

variable {environment : Environment} {intake : Intake} {kind : Kind} {done : List Trial}
  {s : State Session}

theorem contentOf_append (kind : Kind) (done : List Trial) (trial : Trial) :
    contentOf kind (done ++ [trial]) = contentOf kind done ++ encodeTrial trial := by
  rw [contentOf, contentOf, List.flatMap_append, List.flatMap_singleton, List.append_assoc]

/-- What an action does to a sweep that has written the trials that are done: it completes the trials of
its plan and writes them.  If it ends well, one program was started for each. -/
def Completes (environment : Environment) (action : Action Session) (plan : List Entry) : Prop :=
  ∀ (intake : Intake) (kind : Kind) (done : List Trial) (s : State Session),
    HasWritten intake kind done done.length s → ∀ done' result,
      carryOut kind (answers environment intake.files kind) plan done = (done', result) →
        ∃ s' started, action s = (result, s') ∧ HasWritten intake kind done' started s' ∧
          (result = .ok () → started = done'.length)

namespace Completes

theorem skip : Completes environment Sweep.skip [] := by
  intro intake kind done s hs done' result hcarry
  cases hcarry
  exact ⟨s, done.length, rfl, hs, fun _ => rfl⟩

theorem report {event : Event} (hevent : ∀ bytes, event ≠ .row bytes) :
    Completes environment (Sweep.report (Session.runner environment) event) [] := by
  intro intake kind done s hs done' result hcarry
  cases hcarry
  exact ⟨_, done.length, rfl, ⟨hs.writer_eq, hs.isAt.note _ hevent⟩, fun _ => rfl⟩

theorem andThen {first second : Action Session} {plan plan' : List Entry}
    (h : Completes environment first plan) (h' : Completes environment second plan') :
    Completes environment (Sweep.andThen first second) (plan ++ plan') := by
  intro intake kind done s hs done' result hcarry
  cases hfirst : carryOut kind (answers environment intake.files kind) plan done with
  | mk between ending =>
    obtain ⟨s', started, haction, hwritten, hstarted⟩ := h intake kind done s hs _ _ hfirst
    rw [Sweep.andThen, haction]
    cases ending with
    | error failure =>
      rw [Sweep.carryOut_append_of_error hfirst] at hcarry
      cases hcarry
      exact ⟨s', started, rfl, hwritten, hstarted⟩
    | ok =>
      rw [Sweep.carryOut_append_of_ok hfirst] at hcarry
      obtain rfl := hstarted rfl
      exact h' intake kind between s' hwritten _ _ hcarry

/-- A trial is reported and its row is written; whatever goes wrong, nothing more is written. -/
theorem runEntry (hkeeps : environment.KeepsFiles) (entry : Entry) :
    Completes environment (Sweep.runEntry (Session.runner environment) entry) [entry] := by
  intro intake kind done s hs done' result hcarry
  have hkind : s.writer.kind = kind := by
    rw [hs.writer_eq]
    rfl
  obtain ⟨session, hstart, hsession⟩ := hs.isAt.start hkeeps entry.call
  have hrunner : (Session.runner environment).run entry.call s.runner = (_, session) := hstart
  have hreported (trial : Trial) := hsession.note environment.filter
    (by simp : ∀ bytes, Event.trial trial ≠ .row bytes)
  rw [carryOut, answers] at hcarry
  obtain ⟨trial, houtcome, hrun⟩ | ⟨failure, session', houtcome, hrun, hsession'⟩ :=
    Sweep.runEntry_of_outcome hrunner
  · rw [hkind] at houtcome
    rw [houtcome] at hcarry
    cases hcarry
    rw [hrun]
    refine ⟨_, _, rfl, ⟨?_, ?_⟩, fun _ => List.length_append.symm⟩
    · rw [hs.writer_eq, Writer.withRows_append]
    · have hwrite := intake.write_files (contentOf kind done) (encodeTrial trial)
      rw [← contentOf_append] at hwrite
      exact (hreported trial).row environment.filter hwrite
  · rw [hkind] at houtcome
    rw [houtcome] at hcarry
    cases hcarry
    rw [hrun]
    refine ⟨_, done.length + 1, rfl, ⟨hs.writer_eq, ?_⟩, fun hok => by cases hok⟩
    rcases hsession' with rfl | ⟨trial, rfl⟩
    · exact hsession
    · exact hreported trial

end Completes

/-- What is put together from entries completes them. -/
theorem completes_of_composed (hkeeps : environment.KeepsFiles) {action : Script}
    {entries : List Entry} (h : Composed action entries) :
    Completes environment (action Session (Session.runner environment)) entries := by
  induction h with
  | skip => exact .skip
  | report hevent => exact .report hevent
  | runEntry entry => exact .runEntry hkeeps entry
  | andThen _ _ ih ih' => exact ih.andThen ih'

/-! ## Collecting -/

theorem fs_logEnding (filter : Log.Filter) (path : String) (rows : Nat) (session : Session)
    (result : Except Failure Nat) : (logEnding filter path rows session result).fs = session.fs := by
  unfold logEnding
  split
  · rfl
  · split <;> rfl

variable {settings : Settings} {path : String} {fs : FileSystem}

/-- A sweep that is run leaves what its actions leave, and ends well when they do. -/
theorem run_sweep {σ : Type} (runner : Sweep.Runner σ) (settings : Settings) (s : State σ) :
    (Sweep.run runner settings s).2 = (Sweep.sweepOf runner settings s.writer.kind s).2 ∧
      ((∃ rows, (Sweep.run runner settings s).1 = .ok rows) ↔
        (Sweep.sweepOf runner settings s.writer.kind s).1 = .ok ()) := by
  rw [Sweep.run, Sweep.named]
  obtain ⟨result, s'⟩ := Sweep.sweepOf runner settings s.writer.kind s
  cases result with
  | error failure => exact ⟨rfl, iff_of_false (by rintro ⟨rows, h⟩; cases h) fun h => by cases h⟩
  | ok => exact ⟨rfl, iff_of_true ⟨_, rfl⟩ rfl⟩

/-- What a run of collecting leaves once its dataset has been made. -/
theorem collect_of_create (environment : Environment) (settings : Settings) {fs' : FileSystem}
    {dataset : Dataset.Open} (h : Dataset.create fs path kind = .ok (fs', dataset)) :
    (collect environment settings kind path fs).fs =
        (Sweep.run (Session.runner environment) settings
          ⟨⟨fs', dataset.handle, 0, []⟩, dataset.writer⟩).2.runner.fs ∧
      ((collect environment settings kind path fs).status = 0 ↔ ∃ rows,
        (Sweep.run (Session.runner environment) settings
          ⟨⟨fs', dataset.handle, 0, []⟩, dataset.writer⟩).1 = .ok rows) := by
  have hduring : during .dataset (Dataset.create fs path kind) = .ok (fs', dataset) := by
    rw [h]
    rfl
  rw [collect, hduring]
  dsimp only
  obtain ⟨result, s⟩ := Sweep.run (Session.runner environment) settings
    ⟨⟨fs', dataset.handle, 0, []⟩, dataset.writer⟩
  cases result with
  | ok rows => exact ⟨fs_logEnding _ _ _ _ _, iff_of_true rfl ⟨rows, rfl⟩⟩
  | error failure =>
    refine ⟨fs_logEnding _ _ _ _ _, iff_of_false (by simp [during, Except.mapError, Outcome.failed]) ?_⟩
    rintro ⟨rows, h⟩
    cases h

/-- Where an intake can be made, a dataset is, and it takes the header. -/
theorem create_of_intake (kind : Kind)
    (hcreate : fs.create path = .ok (intake.files [], intake.handle [])) :
    Dataset.create fs path kind =
      .ok (intake.files (encodeHeader kind), ⟨.new kind, intake.handle (encodeHeader kind)⟩) := by
  have hwrite := intake.write_files [] (Writer.new kind).sink
  rw [Writer.sink_new, List.nil_append] at hwrite
  rw [Dataset.create, hcreate]
  refine bind_eq_ok_iff.mpr ⟨_, rfl, ?_⟩
  dsimp only
  rw [Writer.sink_new, hwrite]
  rfl

/-- A dataset that can be made holds the header and the rows of the completed trials in the end, and the
run ends well when all trials of the plan were completed. -/
theorem collect_of_intake (settings : Settings) (kind : Kind) (intake : Intake)
    (hkeeps : environment.KeepsFiles)
    (hcreate : fs.create path = .ok (intake.files [], intake.handle [])) :
    (collect environment settings kind path fs).fs =
        intake.files (contentOf kind (sweepInto environment settings kind intake.files).1) ∧
      ((collect environment settings kind path fs).status = 0 ↔
        (sweepInto environment settings kind intake.files).2 = .ok ()) := by
  obtain ⟨hfs, hstatus⟩ := collect_of_create environment settings (create_of_intake kind hcreate)
  rw [hfs, hstatus]
  have hempty : contentOf kind [] = encodeHeader kind := List.append_nil _
  have hstart : HasWritten intake kind [] 0
      ⟨⟨intake.files (encodeHeader kind), intake.handle (encodeHeader kind), 0, []⟩, .new kind⟩ :=
    ⟨rfl, by rw [hempty]; exact ⟨rfl, rfl, rfl⟩⟩
  obtain ⟨s', started, hsweep, hwritten, -⟩ :=
    completes_of_composed hkeeps (Sweep.sweepOf_composed settings kind) intake kind [] _ hstart _ _ rfl
  obtain ⟨hrun, hrows⟩ := run_sweep (Session.runner environment) settings
    ⟨⟨intake.files (encodeHeader kind), intake.handle (encodeHeader kind), 0, []⟩, .new kind⟩
  rw [hrun, hrows]
  have hkind : (Writer.new kind).kind = kind := rfl
  simp only [hkind, hsweep]
  exact ⟨hwritten.isAt.fs_eq, Iff.rfl⟩

/-- Where a file can be made, it is the dataset, and nothing else changes. -/
theorem collect_of_makesFile (settings : Settings) (kind : Kind) (hkeeps : environment.KeepsFiles)
    {location : Host.Location} (h : fs.MakesFile path location) :
    (collect environment settings kind path fs).fs = fs.insert location (.file (contentOf kind
        (sweepInto environment settings kind fun content => fs.insert location (.file content)).1)) ∧
      ((collect environment settings kind path fs).status = 0 ↔
        (sweepInto environment settings kind fun content =>
          fs.insert location (.file content)).2 = .ok ()) :=
  collect_of_intake settings kind (.file fs location h.leads.1) hkeeps h

/-- A dataset that cannot be made leaves the files as they are. -/
theorem collect_of_create_error (environment : Environment) (settings : Settings) {failure : Failure}
    (h : Dataset.create fs path kind = .error failure) :
    (collect environment settings kind path fs).fs = fs := by
  rw [collect, h]
  rfl

theorem create_of_error {fault : Host.SystemFault} (h : fs.create path = .error fault) :
    ∃ failure, Dataset.create fs path kind = .error failure := by
  rw [Dataset.create, h]
  exact ⟨_, rfl⟩

theorem create_of_full {location : Host.Location}
    (hcreate : fs.create path = .ok (fs, ⟨location, 0⟩)) (h : fs.lookup location = some .full) :
    ∃ failure, Dataset.create fs path kind = .error failure := by
  refine ⟨⟨[.flush], .system .noSpace⟩, ?_⟩
  rw [Dataset.create, hcreate]
  refine bind_eq_error_iff.mpr (.inr ⟨_, rfl, ?_⟩)
  dsimp only
  rw [Host.FileSystem.write_full h]
  rfl

/-- Where no file can be made, collecting changes nothing. -/
theorem collect_of_not_makesFile (settings : Settings) (kind : Kind) (hkeeps : environment.KeepsFiles)
    (h : ¬ ∃ location, fs.MakesFile path location) :
    (collect environment settings kind path fs).fs = fs := by
  cases hcreate : fs.create path with
  | error fault =>
    obtain ⟨failure, hfailure⟩ := create_of_error hcreate
    exact collect_of_create_error environment settings hfailure
  | ok made =>
    obtain ⟨created, handle⟩ := made
    cases Host.FileSystem.created_of_create hcreate with
    | file => exact absurd ⟨_, hcreate⟩ h
    | device hdevice =>
      rcases hdevice with hnull | hfull
      · exact (collect_of_intake settings kind (.null fs _ hnull) hkeeps hcreate).1
      · obtain ⟨failure, hfailure⟩ := create_of_full hcreate hfull
        exact collect_of_create_error environment settings hfailure

/-! ## The whole run -/

/-- Showing a dataset changes no file. -/
theorem fs_present (fs : FileSystem) (path : String) (kind : Kind)
    (render : List Trial → Except Chart.Fault String) : (present fs path kind render).fs = fs := by
  rw [present]
  split
  · rfl
  · split <;> rfl

/-- A run that does not come to collecting changes no file. -/
theorem fs_run (environment : Environment) (words : List String) (fs : FileSystem) :
    (run environment words fs).fs = fs ∨ ∃ kind dataset config settings,
      Arguments.parse words = .ok ⟨config, .collect kind dataset⟩ ∧
      settingsOf fs config = .ok settings ∧
      run environment words fs = collect environment settings kind (datasetPath dataset kind) fs := by
  rw [run]
  split
  · next stop _ => cases stop <;> exact .inl rfl
  · next arguments hparse =>
    split
    · exact .inl rfl
    · next settings hsettings =>
      obtain ⟨config, command⟩ := arguments
      cases command with
      | collect kind dataset => exact .inr ⟨kind, dataset, config, settings, hparse, hsettings, rfl⟩
      | summary => exact .inl (fs_present _ _ _ _)
      | trend => exact .inl (fs_present _ _ _ _)
      | bars => exact .inl (fs_present _ _ _ _)

/-- **Files after a run.**  When the programs leave the files alone, a run changes no file unless it is a
well-formed call for collecting whose settings could be loaded.  Then it changes only what its dataset's
path leads to.  If a file can be made there, the path leads in the end to the header and the rows of the
trials that were completed, and to nothing else; and if none can, because there is no such place or there
is a device, nothing changes. -/
theorem run_changes_dataset_only (environment : Environment)
    (hkeeps : ∀ n call fs, (environment.start n call fs).fs = fs) (words : List String)
    (fs : FileSystem) :
    ((¬ ∃ kind dataset config settings,
        Arguments.parse words = .ok ⟨config, .collect kind dataset⟩ ∧
        settingsOf fs config = .ok settings) → (run environment words fs).fs = fs) ∧
      ∀ kind dataset config settings,
        Arguments.parse words = .ok ⟨config, .collect kind dataset⟩ →
        settingsOf fs config = .ok settings →
          (run environment words fs).fs.workingDir = fs.workingDir ∧
          (∀ location, (run environment words fs).fs.lookup location ≠ fs.lookup location →
            fs.Leads (datasetPath dataset kind) location) ∧
          (∀ location, fs.MakesFile (datasetPath dataset kind) location →
            (run environment words fs).fs.read (datasetPath dataset kind) = .ok (contentOf kind
              (sweepInto environment settings kind fun content =>
                fs.insert location (.file content)).1) ∧
            ((run environment words fs).status = 0 ↔
              (sweepInto environment settings kind fun content =>
                fs.insert location (.file content)).2 = .ok ())) ∧
          ((¬ ∃ location, fs.MakesFile (datasetPath dataset kind) location) →
            (run environment words fs).fs = fs) := by
  constructor
  · intro hnone
    obtain hfs | ⟨kind, dataset, config, settings, hparse, hsettings, -⟩ := fs_run environment words fs
    · exact hfs
    · exact absurd ⟨kind, dataset, config, settings, hparse, hsettings⟩ hnone
  · intro kind dataset config settings hparse hsettings
    have hrun : run environment words fs =
        collect environment settings kind (datasetPath dataset kind) fs := by
      rw [run, hparse]
      dsimp only
      rw [hsettings]
      rfl
    rw [hrun]
    by_cases hmakes : ∃ location, fs.MakesFile (datasetPath dataset kind) location
    · obtain ⟨location, hfile⟩ := hmakes
      obtain ⟨-, hleads, -⟩ := hfile.leads
      have hfs := (collect_of_makesFile settings kind hkeeps hfile).1
      refine ⟨?_, ?_, ?_, fun hnone => absurd ⟨location, hfile⟩ hnone⟩
      · rw [hfs, Host.FileSystem.workingDir_insert]
      · intro location' hchanged
        by_cases hlocation : location' = location
        · rwa [hlocation]
        · rw [hfs] at hchanged
          exact absurd (Host.FileSystem.lookup_insert_of_ne hlocation) hchanged
      · intro location' hfile'
        obtain ⟨hfs', hstatus⟩ := collect_of_makesFile settings kind hkeeps hfile'
        rw [hfs']
        exact ⟨hfile'.leads.2.2 _, hstatus⟩
    · have hfs := collect_of_not_makesFile settings kind hkeeps hmakes
      rw [hfs]
      exact ⟨rfl, fun _ hchanged => absurd rfl hchanged,
        fun location hfile => absurd ⟨location, hfile⟩ hmakes, fun _ => rfl⟩

/-- Programs of which the third prints no time.  Nothing is logged. -/
def thirdFails : Environment where
  colored := false
  filter := .off
  start n _ fs := ⟨.ok (if n < 2 then "1.5\n" else "?\n"), [], fs⟩

/-- A working directory with a file in it. -/
def withOldFile : FileSystem := .put .empty "d.csv" (Text.Utf8.encode "old\n")

/-- A run of which the third trial fails: in the place of what was in the file there are two rows. -/
theorem run_changes_dataset_only_third_fails :
    (∀ n call fs, (thirdFails.start n call fs).fs = fs) ∧
    withOldFile.read "d.csv" = .ok (Text.Utf8.encode "old\n") ∧
    (run thirdFails ["collect", "benchmarks", "--dataset", "d.csv"] withOldFile).fs.read "d.csv" =
      .ok (Text.Utf8.encode
        "lang,benchmark,time\nrubylox,binary_trees,1.5\njlox,binary_trees,1.5\n") ∧
    (run thirdFails ["collect", "benchmarks", "--dataset", "d.csv"] withOldFile).status ≠ 0 := by
  have hkeeps : ∀ n call fs, (thirdFails.start n call fs).fs = fs := fun _ _ _ => rfl
  have hparse : Arguments.parse ["collect", "benchmarks", "--dataset", "d.csv"] =
      .ok ⟨none, .collect .benchmarks (some "d.csv")⟩ := by decide +kernel
  have hsettings : settingsOf withOldFile none = .ok .default := by decide +kernel
  have hmakes : withOldFile.MakesFile "d.csv" ["tmp", "work", "d.csv"] := by
    rw [Host.FileSystem.MakesFile]
    decide +kernel
  obtain ⟨hread, hstatus⟩ := ((run_changes_dataset_only thirdFails hkeeps
    ["collect", "benchmarks", "--dataset", "d.csv"] withOldFile).2 .benchmarks (some "d.csv") none
    .default hparse hsettings).2.2.1 _ hmakes
  refine ⟨hkeeps, by decide +kernel, hread.trans ?_, ?_⟩
  · decide +kernel
  · rw [Ne, hstatus]
    decide +kernel

end TimeTrials.Cli
