import TimeTrials.Proofs.Sweep.Execution

/-!
# What a writer holds after any history

A writer can be used for as many things as one likes: single trials are written, sweeps are run for its
kind or for the other one, each of them with a runner of its own, and any of these can fail halfway.
Whatever is done, the writer grows by the rows of the trials it accepts and by nothing else.

* `Operation.accepted`: the trials that an operation adds.  For a sweep they are computed from what was
  exchanged with the runner, and not from what was written.
* `writer_perform`: the step.  One operation adds the rows of what it accepts.
* `writer_performAll`: the run.
* `writer_performAll_new`: the sink, its growth and the counts, at every point of a history that starts
  with a new writer.
-/

namespace TimeTrials.Sweep

open Dataset (Writer encodeHeader encodeTrial)

/-! ## Accepted trials -/

/-- The trial that comes of an entry, if it does not go wrong on the answer. -/
def Entry.trial? (kind : Kind) (entry : Entry) : Except LaunchFault String → Option Trial
  | .error _ => none
  | .ok output =>
    match Timing.read entry.place output with
    | .error _ => none
    | .ok time => if entry.param.kind = kind then some (entry.trial time) else none

/-- The trials that come of a plan, as far as it was carried out. -/
def acceptedOf (kind : Kind) (plan : List Entry) (log : List Exchange) : List Trial :=
  (plan.zip log).filterMap fun (entry, exchange) => entry.trial? kind exchange.answer

theorem FailsAt.trial?_eq {kind : Kind} {entry : Entry} {answer : Except LaunchFault String}
    {stage : Stage} {failure : Failure} (h : FailsAt kind entry answer stage failure) :
    entry.trial? kind answer = none := by
  cases h with
  | launch fault => rfl
  | parse hread => simp only [Entry.trial?, hread]
  | schema hread hkind => simp only [Entry.trial?, hread, if_neg hkind]

theorem Measurement.trial?_eq {kind : Kind} (m : Measurement kind) :
    m.entry.trial? kind m.exchange.answer = some m.trial := by
  simp only [Entry.trial?, exchange, m.read_output, if_pos m.kind_param, trial]

/-- What went well is accepted. -/
theorem acceptedOf_append {kind : Kind} (done : List (Measurement kind)) (plan : List Entry)
    (log : List Exchange) :
    acceptedOf kind (done.map (·.entry) ++ plan) (done.map Measurement.exchange ++ log) =
      done.map Measurement.trial ++ acceptedOf kind plan log := by
  induction done with
  | nil => rfl
  | cons m done ih =>
    have hm : acceptedOf kind ((m :: done).map (·.entry) ++ plan)
        ((m :: done).map Measurement.exchange ++ log) =
        m.trial :: acceptedOf kind (done.map (·.entry) ++ plan)
          (done.map Measurement.exchange ++ log) :=
      List.filterMap_cons_some m.trial?_eq
    rw [hm, ih, List.map_cons, List.cons_append]

/-- Progress with a plan is the acceptance of what went well. -/
theorem Progress.acceptedOf_eq {kind : Kind} {plan : List Entry} {done : List (Measurement kind)}
    {log : List Exchange} {result : Except Failure Unit} (h : Progress plan done log result) :
    acceptedOf kind plan log = done.map Measurement.trial := by
  cases h with
  | completed hplan =>
    have haccepted := acceptedOf_append done [] []
    rw [List.append_nil, List.append_nil] at haccepted
    rw [hplan, haccepted]
    exact List.append_nil _
  | @stopped entry rest answer stage failure hplan hfails =>
    have hlast : acceptedOf kind (entry :: rest) [⟨entry.call, answer⟩] = [] := by
      simp [acceptedOf, hfails.trial?_eq]
    rw [hplan, acceptedOf_append, hlast, List.append_nil]

variable {σ : Type}

/-- A sweep adds the rows of the trials that come of it, whether it ends well or not. -/
theorem writer_sweepOf (runner : Runner σ) (settings : Settings) (kind : Kind) (s : State σ) :
    (sweepOf runner settings kind s).2.writer = s.writer.withRows
      (acceptedOf s.writer.kind (plan settings kind) (exchanges runner settings kind s)) := by
  obtain ⟨done, hwriter, hprogress⟩ := exists_progress runner settings kind s
  rw [hwriter, hprogress.acceptedOf_eq]

/-- A sweep that ends well adds a row for every entry of its plan. -/
theorem rows_sweepOf_of_ok {runner : Runner σ} {settings : Settings} {kind : Kind} {s s' : State σ}
    (h : sweepOf runner settings kind s = (.ok (), s')) :
    s'.writer.rows = s.writer.rows + (plan settings kind).length := by
  obtain ⟨done, hwriter, hprogress⟩ := exists_progress runner settings kind s
  rw [h] at hwriter hprogress
  obtain ⟨hplan, -⟩ := hprogress.eq_map_of_ok
  rw [hwriter, Writer.rows_withRows, hplan, List.length_map, List.length_map]

/-! ## The counted sweep -/

theorem snd_run (runner : Runner σ) (settings : Settings) (s : State σ) :
    (run runner settings s).2 = (sweepOf runner settings s.writer.kind s).2 := by
  cases h : sweepOf runner settings s.writer.kind s with
  | mk result s' =>
    cases result with
    | ok => simp only [run, named, h, during, Except.mapError]
    | error failure => simp only [run, named, h, during, Except.mapError]

/-- The counted sweep ends well when the sweep does, and counts all rows there are. -/
theorem run_eq_ok {runner : Runner σ} {settings : Settings} {s s' : State σ} {count : Nat}
    (h : run runner settings s = (.ok count, s')) :
    sweepOf runner settings s.writer.kind s = (.ok (), s') ∧ count = s'.writer.rows := by
  cases hsweep : sweepOf runner settings s.writer.kind s with
  | mk result s₁ =>
    cases result with
    | ok =>
      simp only [run, named, hsweep, during, Except.mapError] at h
      cases h
      exact ⟨rfl, rfl⟩
    | error failure =>
      simp only [run, named, hsweep, during, Except.mapError] at h
      cases h

/-! ## Histories -/

/-- Something that is done with a writer. -/
inductive Operation (σ : Type) where
  /-- One trial is written. -/
  | write (trial : Trial)
  /-- The sweep for the writer's kind is run, and rows are counted at its end. -/
  | sweep (runner : Runner σ) (settings : Settings)
  /-- The sweep for some kind is run, be it the writer's or not. -/
  | sweepOf (runner : Runner σ) (settings : Settings) (kind : Kind)

namespace Operation

/-- The state after an operation, whether it ends well or fails. -/
def perform : Operation σ → State σ → State σ
  | write trial, s =>
    match s.writer.write trial with
    | .ok writer => { s with writer }
    | .error _ => s
  | sweep runner settings, s => (run runner settings s).2
  | sweepOf runner settings kind, s => (Sweep.sweepOf runner settings kind s).2

/-- The trials that the writer accepts of an operation. -/
def accepted : Operation σ → State σ → List Trial
  | write trial, s => if trial.param.kind = s.writer.kind then [trial] else []
  | sweep runner settings, s =>
    acceptedOf s.writer.kind (plan settings s.writer.kind)
      (exchanges runner settings s.writer.kind s)
  | sweepOf runner settings kind, s =>
    acceptedOf s.writer.kind (plan settings kind) (exchanges runner settings kind s)

theorem perform_write_of_other_kind {trial : Trial} {s : State σ}
    (h : trial.param.kind ≠ s.writer.kind) : (write trial).perform s = s := by
  rw [perform, Writer.write_of_other_kind h]

/-- One operation adds the rows of the trials that are accepted of it. -/
theorem writer_perform (op : Operation σ) (s : State σ) :
    (op.perform s).writer = s.writer.withRows (op.accepted s) := by
  cases op with
  | write trial =>
    by_cases h : trial.param.kind = s.writer.kind
    · rw [perform, Writer.write_of_kind h, accepted, if_pos h]
    · rw [perform_write_of_other_kind h, accepted, if_neg h, Writer.withRows_nil]
  | sweep runner settings => rw [perform, snd_run, writer_sweepOf, accepted]
  | sweepOf runner settings kind => rw [perform, writer_sweepOf, accepted]

end Operation

/-- The state after operations that are performed one after the other. -/
def performAll (ops : List (Operation σ)) (s : State σ) : State σ :=
  ops.foldl (fun s op => op.perform s) s

/-- The trials that are accepted of operations performed one after the other. -/
def acceptedAll : List (Operation σ) → State σ → List Trial
  | [], _ => []
  | op :: ops, s => op.accepted s ++ acceptedAll ops (op.perform s)

/-- A history adds the rows of the trials that are accepted in it. -/
theorem writer_performAll (ops : List (Operation σ)) (s : State σ) :
    (performAll ops s).writer = s.writer.withRows (acceptedAll ops s) := by
  induction ops generalizing s with
  | nil => exact (Writer.withRows_nil s.writer).symm
  | cons op ops ih =>
    have hcons : performAll (op :: ops) s = performAll ops (op.perform s) := List.foldl_cons ..
    rw [hcons, ih, op.writer_perform, acceptedAll, Writer.withRows_append]

/-- **The invariant of a writer.**  After any history that starts with a new writer, the sink is the
header and the rows of what has been accepted, and the count of rows is right.  Whatever is done next
only adds to the sink; a trial of the other kind is refused and adds nothing; and a counted sweep that
ends well gives the rows that were there and one for each entry of its plan. -/
theorem writer_performAll_new (kind : Kind) (initial : σ) (ops : List (Operation σ)) :
    let start : State σ := ⟨initial, Writer.new kind⟩
    let s := performAll ops start
    s.writer.kind = kind ∧
    s.writer.sink = encodeHeader kind ++ (acceptedAll ops start).flatMap encodeTrial ∧
    s.writer.rows = (acceptedAll ops start).length ∧
    (∀ op : Operation σ, s.writer.sink <+: (op.perform s).writer.sink) ∧
    (∀ trial : Trial, trial.param.kind ≠ kind →
      s.writer.write trial = .error (.header kind.column trial.param.kind.column) ∧
      ((Operation.write trial).perform s).writer.sink = s.writer.sink ∧
      ((Operation.write trial).perform s).writer.rows = s.writer.rows) ∧
    (∀ runner settings count s', run runner settings s = (.ok count, s') →
      s' = (Operation.sweep runner settings).perform s ∧ count = s'.writer.rows ∧
      count = s.writer.rows + (plan settings kind).length) := by
  intro start s
  have hs : s.writer = (Writer.new kind).withRows (acceptedAll ops start) :=
    writer_performAll ops start
  have hkind : s.writer.kind = kind := by
    rw [hs, Writer.kind_withRows]
    rfl
  refine ⟨hkind, ?_, ?_, ?_, ?_, ?_⟩
  · rw [hs, Writer.sink_withRows, Writer.sink_new]
  · rw [hs, Writer.rows_withRows]
    exact Nat.zero_add _
  · intro op
    rw [op.writer_perform, Writer.sink_withRows]
    exact List.prefix_append _ _
  · intro trial htrial
    have hother : trial.param.kind ≠ s.writer.kind := by rwa [hkind]
    rw [Operation.perform_write_of_other_kind hother]
    refine ⟨?_, rfl, rfl⟩
    rw [Writer.write_of_other_kind hother, hkind]
  · intro runner settings count s' hrun
    obtain ⟨hsweep, hcount⟩ := run_eq_ok hrun
    refine ⟨?_, hcount, ?_⟩
    · rw [Operation.perform, hrun]
    · rw [hcount, rows_sweepOf_of_ok hsweep, hkind]

/-- A trial, a refused trial and a sweep of ten outputs come to eleven rows. -/
theorem writer_performAll_new_prepared :
    let settings : Settings := { Settings.default with sizes := ⟨1, 2⟩ }
    let refused : Trial := ⟨"jlox", .benchmark "zoo", .zero⟩
    let answers : List (Except LaunchFault String) := List.replicate 10 (.ok "1.5")
    let ops := [.write ⟨"jlox", .size 7, .zero⟩, .write refused]
    let s := performAll ops ⟨answers, Writer.new .sizes⟩
    s.writer.sink = Text.Utf8.encode "lang,n,time\njlox,7,0.0\n" ∧
      s.writer.write refused = .error (.header "n" "benchmark") ∧
      (run .prepared settings s).1 = .ok 11 ∧
      11 = s.writer.rows + (plan settings .sizes).length ∧
      (run .prepared settings s).2.writer.sink = Text.Utf8.encode ("lang,n,time\njlox,7,0.0\n" ++
        String.join (List.replicate 5 "rubylox,1,1.5\n" ++ List.replicate 5 "jlox,1,1.5\n")) := by
  intro settings refused answers ops s
  obtain ⟨-, hsink, -, -, hrefused, hcounted⟩ := writer_performAll_new .sizes answers ops
  obtain ⟨-, hsink', -⟩ :=
    writer_performAll_new .sizes answers (ops ++ [.sweep .prepared settings])
  have hrun : (run .prepared settings s).1 = .ok 11 := by decide +kernel
  cases hs' : run .prepared settings s with
  | mk result s' =>
    obtain rfl : result = .ok 11 := (congrArg Prod.fst hs').symm.trans hrun
    obtain ⟨hperform, -, hcount⟩ := hcounted .prepared settings 11 s' hs'
    have hlast : performAll (ops ++ [.sweep .prepared settings]) ⟨answers, Writer.new .sizes⟩ = s' := by
      rw [hperform, performAll, List.foldl_append]
      rfl
    rw [hlast] at hsink'
    refine ⟨hsink.trans ?_, (hrefused refused (by decide)).1, rfl, hcount, hsink'.trans ?_⟩
    · decide +kernel
    · decide +kernel

end TimeTrials.Sweep
