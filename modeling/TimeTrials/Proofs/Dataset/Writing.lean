import TimeTrials.Dataset.Writer
import TimeTrials.Proofs.Results

/-!
# What a writer has written

A writer changes in one way only: rows are added behind the ones that are there.  So a writer that has
gone on from another one is that one with the rows of some list of trials, and this is the form in which
every later statement speaks about writers.

* `withRows` and its small lemmas: the sink and the count of rows move together.
* `write_of_kind`, `write_of_other_kind`: writing adds the one row or is refused, and the kind decides.
* `writeAll_eq_ok_iff`: when a list of trials is written, and what is written then.
-/

namespace TimeTrials.Dataset.Writer

/-! ## More rows -/

/-- The writer after the rows of more trials. -/
def withRows (writer : Writer) (trials : List Trial) : Writer where
  kind := writer.kind
  rows := writer.rows + trials.length
  pieces := (trials.map encodeTrial).reverse ++ writer.pieces

@[simp] theorem kind_withRows (writer : Writer) (trials : List Trial) :
    (writer.withRows trials).kind = writer.kind := rfl

@[simp] theorem rows_withRows (writer : Writer) (trials : List Trial) :
    (writer.withRows trials).rows = writer.rows + trials.length := rfl

@[simp] theorem sink_withRows (writer : Writer) (trials : List Trial) :
    (writer.withRows trials).sink = writer.sink ++ trials.flatMap encodeTrial := by
  rw [sink, withRows, List.reverse_append, List.reverse_reverse, List.flatten_append, sink,
    List.flatMap_def]

@[simp] theorem withRows_nil (writer : Writer) : writer.withRows [] = writer := rfl

theorem withRows_append (writer : Writer) (first second : List Trial) :
    writer.withRows (first ++ second) = (writer.withRows first).withRows second := by
  rw [withRows, withRows, withRows, List.map_append, List.reverse_append, List.length_append,
    Nat.add_assoc, List.append_assoc]

/-- Beyond itself a writer with one more row has that row. -/
theorem since_withRows (writer : Writer) (trial : Trial) :
    (writer.withRows [trial]).since writer = encodeTrial trial := by
  simp [since, withRows]

/-! ## Writing -/

theorem write_of_kind {writer : Writer} {trial : Trial} (h : trial.param.kind = writer.kind) :
    writer.write trial = .ok (writer.withRows [trial]) := if_pos h

theorem write_of_other_kind {writer : Writer} {trial : Trial}
    (h : trial.param.kind ≠ writer.kind) :
    writer.write trial = .error (.header writer.kind.column trial.param.kind.column) := if_neg h

/-- Writes trials one after the other, up to the first that is refused. -/
def writeAll (writer : Writer) (trials : List Trial) : Except Fault Writer :=
  trials.foldlM write writer

/-- A list of trials is written exactly when all of them are of the writer's kind. -/
theorem writeAll_eq_ok_iff {writer writer' : Writer} {trials : List Trial} :
    writer.writeAll trials = .ok writer' ↔
      (∀ trial ∈ trials, trial.param.kind = writer.kind) ∧ writer' = writer.withRows trials := by
  induction trials generalizing writer with
  | nil =>
    rw [writeAll, List.foldlM_nil]
    exact ⟨fun h => ⟨by simp, (Except.ok.inj h).symm⟩, fun h => congrArg Except.ok h.2.symm⟩
  | cons trial trials ih =>
    rw [writeAll, List.foldlM_cons, bind_eq_ok_iff, List.forall_mem_cons]
    by_cases h : trial.param.kind = writer.kind
    · rw [write_of_kind h]
      constructor
      · rintro ⟨next, hnext, hrest⟩
        cases hnext
        obtain ⟨hkind, rfl⟩ := ih.mp hrest
        exact ⟨⟨h, hkind⟩, (withRows_append writer [trial] trials).symm⟩
      · rintro ⟨⟨-, hkind⟩, rfl⟩
        exact ⟨_, rfl, ih.mpr ⟨hkind, withRows_append writer [trial] trials⟩⟩
    · rw [write_of_other_kind h]
      constructor
      · rintro ⟨_, herror, -⟩
        cases herror
      · rintro ⟨⟨hkind, -⟩, -⟩
        exact absurd hkind h

end TimeTrials.Dataset.Writer
