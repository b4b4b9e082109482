import TimeTrials.Sweep.Run

/-!
# What sweeps are put together from

Loops are one action after the other, so a sweep is put together from reports and entries, and it is the
same for all runners.  What is to be shown of sweeps is shown of the parts and of one action after the
other, and never of a loop.

* `Composed`: an action that is put together from reports and entries, and its plan.
* `Composed.forEach`, `Composed.countUp`: the loops.
* `sweepOf_composed`: the sweeps are put together from their plans.
-/

namespace TimeTrials.Sweep

/-- An action for every runner. -/
abbrev Script : Type 1 := ∀ σ : Type, Runner σ → Action σ

/-- A script that is put together from reports and entries, and the entries in their order.  Rows are
reported by entries only. -/
inductive Composed : Script → List Entry → Prop
  | skip : Composed (fun _ _ => skip) []
  | report {event : Event} (hevent : ∀ bytes, event ≠ .row bytes) :
      Composed (fun _ runner => report runner event) []
  | runEntry (entry : Entry) : Composed (fun _ runner => runEntry runner entry) [entry]
  | andThen {first second : Script} {plan plan' : List Entry} (h : Composed first plan)
      (h' : Composed second plan') :
      Composed (fun σ runner => andThen (first σ runner) (second σ runner)) (plan ++ plan')

namespace Composed

theorem forEach {α : Type} {action : α → Script} {plan : α → List Entry}
    (h : ∀ a, Composed (action a) (plan a)) (as : List α) :
    Composed (fun σ runner => forEach (fun a => action a σ runner) as) (as.flatMap plan) := by
  induction as with
  | nil => exact skip
  | cons a as ih =>
    rw [List.flatMap_cons]
    exact (h a).andThen ih

theorem countUp {action : Nat → Script} {plan : Nat → List Entry}
    (h : ∀ n, Composed (action n) (plan n)) (first count : Nat) :
    Composed (fun σ runner => countUp (fun n => action n σ runner) first count)
      ((List.range' first count).flatMap plan) := by
  induction count generalizing first with
  | zero => exact skip
  | succ count ih =>
    rw [List.range'_succ, List.flatMap_cons]
    exact (h first).andThen (ih (first + 1))

end Composed

/-! ## The sweeps -/

theorem sweepSizes_composed (settings : Settings) :
    Composed (fun _ runner => sweepSizes runner settings) (sizesPlan settings) := by
  have hloops := Composed.forEach (fun language : Language =>
    (Composed.report (by simp : ∀ bytes, Event.language language.name ≠ .row bytes)).andThen
      (Composed.countUp (fun n =>
        Composed.countUp (fun trial =>
          Composed.runEntry (sizeEntry settings language (.ofNat n) trial)) 0 settings.trials)
        settings.sizes.start.toNat settings.sizes.count)) settings.languages
  have hplan : sizesPlan settings = settings.languages.flatMap fun language =>
      [] ++ (List.range' settings.sizes.start.toNat settings.sizes.count).flatMap fun n =>
        (List.range' 0 settings.trials).flatMap fun trial =>
          [sizeEntry settings language (.ofNat n) trial] := by
    simp only [sizesPlan, sizesOf, List.flatMap_map, List.range_eq_range', List.nil_append]
    simp only [List.map_eq_flatMap]
  rw [hplan]
  exact hloops

theorem sweepBenchmarks_composed (settings : Settings) :
    Composed (fun _ runner => sweepBenchmarks runner settings) (benchmarksPlan settings) := by
  have hloops := Composed.forEach (fun benchmark : String =>
    (Composed.report (by simp :
      ∀ bytes, Event.benchmark benchmark (settings.benchmarkPath benchmark) ≠ .row bytes)).andThen
      (Composed.forEach (fun language =>
        Composed.runEntry (benchmarkEntry settings benchmark language)) settings.languages))
    settings.benchmarks
  have hplan : benchmarksPlan settings = settings.benchmarks.flatMap fun benchmark =>
      [] ++ settings.languages.flatMap fun language =>
        [benchmarkEntry settings benchmark language] := by
    simp only [benchmarksPlan, List.map_eq_flatMap, List.nil_append]
  rw [hplan]
  exact hloops

/-- A sweep is put together from the entries of its plan. -/
theorem sweepOf_composed (settings : Settings) (kind : Kind) :
    Composed (fun _ runner => sweepOf runner settings kind) (plan settings kind) := by
  cases kind with
  | sizes => exact sweepSizes_composed settings
  | benchmarks => exact sweepBenchmarks_composed settings

end TimeTrials.Sweep
