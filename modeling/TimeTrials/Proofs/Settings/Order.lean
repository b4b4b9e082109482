import TimeTrials.Proofs.Settings.Fields

/-!
# The order of keys

What a value says does not change when the keys of its tables come in another order: a relation between
values and what they say with that property is `OrderFree`.  A table is told apart by its keys and by what
the values at them say, so the property passes from the fields of a record to the record, and from there to
the document.
-/

namespace TimeTrials.Settings

open Toml (Value Table)
open Toml.Value (Reordered SameTable)

variable {α : Type} {entries entries' document document' : Table} {key : String} {v w : Value}
variable {has : Value → α → Prop} {p : Value → Prop} {initial a : α}

/-- Reordered values say the same. -/
def OrderFree (has : Value → α → Prop) : Prop := ∀ ⦃v w a⦄, Reordered v w → has v a → has w a

/-! ## Values -/

theorem IsText.orderFree : OrderFree IsText := by
  rintro v w text h rfl
  exact h.eq_of_scalar (fun _ heq => by cases heq) (fun _ heq => by cases heq)

theorem IsCount.orderFree : OrderFree IsCount := by
  rintro v w n h rfl
  exact h.eq_of_scalar (fun _ heq => by cases heq) (fun _ heq => by cases heq)

theorem IsSize.orderFree : OrderFree IsSize := by
  rintro v w size h rfl
  exact h.eq_of_scalar (fun _ heq => by cases heq) (fun _ heq => by cases heq)

theorem IsList.orderFree (hhas : OrderFree has) : OrderFree (IsList has) := by
  rintro v w as h ⟨vs, rfl, hvs⟩
  obtain ⟨ws, rfl, hws⟩ := h.of_array
  have hback : List.Forall₂ (fun w v => Reordered v w) ws vs := hws.flip
  refine ⟨ws, rfl, forall₂_trans ?_ hback hvs⟩
  exact fun _ _ _ hvw hv => hhas hvw hv

theorem IsTable.orderFree {told : Table → α → Prop}
    (htold : ∀ {entries entries' a}, SameTable entries entries' → told entries a → told entries' a) :
    OrderFree (IsTable told) := by
  rintro v w a h ⟨entries, rfl, ha⟩
  obtain ⟨entries', rfl, hsame⟩ := h.of_table
  exact ⟨entries', rfl, htold hsame ha⟩

theorem Given.orderFree (hhas : OrderFree has) : OrderFree (Given has) := by
  rintro v w _ h ⟨a, rfl, ha⟩
  exact ⟨a, rfl, hhas h ha⟩

/-- An empty table stays empty. -/
theorem eq_nil_of_reordered (h : Reordered (.table []) v) : v = .table [] := by
  obtain ⟨entries, rfl, hsame⟩ := h.of_table
  rw [List.map_eq_nil_iff.mp hsame.keys.nil_eq.symm]

/-- A table of one entry keeps it, with a reordered value. -/
theorem eq_singleton_of_reordered (h : Reordered (.table [(key, v)]) w) :
    ∃ v', w = .table [(key, v')] ∧ Reordered v v' := by
  obtain ⟨entries, rfl, hsame⟩ := h.of_table
  obtain ⟨v', hv', hvv'⟩ := hsame.forth key v List.mem_cons_self
  have hlength := hsame.keys.length_eq
  rw [List.length_map, List.length_map] at hlength
  obtain ⟨entry, rfl⟩ := List.length_eq_one_iff.mp hlength.symm
  rw [List.mem_singleton] at hv'
  exact ⟨v', by rw [hv'], hvv'⟩

theorem IsColor.orderFree : OrderFree IsColor := by
  intro v w color h hv
  cases hv with
  | name =>
    rw [h.eq_of_scalar (fun _ heq => by cases heq) (fun _ heq => by cases heq)]
    exact .name color
  | table =>
    obtain ⟨v', rfl, hv'⟩ := eq_singleton_of_reordered h
    rw [eq_nil_of_reordered hv']
    exact .table color
  | array =>
    obtain ⟨v', rfl, hv'⟩ := eq_singleton_of_reordered h
    obtain ⟨ws, rfl, hws⟩ := hv'.of_array
    rw [List.forall₂_nil_left_iff.mp hws]
    exact .array color

/-! ## Tables -/

theorem KnownKeys.same {known : List String} (hsame : SameTable entries entries')
    (h : KnownKeys known entries) : KnownKeys known entries' := by
  rintro ⟨k, v'⟩ hv'
  obtain ⟨v, hv, -⟩ := hsame.back k v' hv'
  exact h (k, v) hv

theorem Present.same (hsame : SameTable entries entries')
    (hp : ∀ v w, Reordered v w → p v → p w) (h : Present entries key p) : Present entries' key p := by
  obtain ⟨v, hv, hpv⟩ := h
  obtain ⟨v', hv', hvv'⟩ := hsame.forth key v hv
  exact ⟨v', hv', hp v v' hvv' hpv⟩

theorem IfPresent.same (hsame : SameTable entries entries')
    (hp : ∀ v w, Reordered v w → p v → p w) (h : IfPresent entries key p) :
    IfPresent entries' key p := by
  intro v' hv'
  obtain ⟨v, hv, hvv'⟩ := hsame.back key v' hv'
  exact hp v v' hvv'.symm (h v hv)

theorem Holds.same (hsame : SameTable entries entries') (hhas : OrderFree has)
    (h : Holds entries key has initial a) : Holds entries' key has initial a := by
  refine ⟨h.1.same hsame fun v w => @hhas v w a, fun hnone => h.2 fun v hv => ?_⟩
  obtain ⟨v', hv', -⟩ := hsame.forth key v hv
  exact hnone v' hv'

theorem DescribesRange.same {range : SizeRange} (hsame : SameTable entries entries')
    (h : DescribesRange entries range) : DescribesRange entries' range where
  known := h.known.same hsame
  start := h.start.same hsame fun _ _ hvw => IsSize.orderFree hvw
  stop := h.stop.same hsame fun _ _ hvw => IsSize.orderFree hvw

theorem DescribesLanguage.same {language : Language} (hsame : SameTable entries entries')
    (h : DescribesLanguage entries language) : DescribesLanguage entries' language where
  known := h.known.same hsame
  name := h.name.same hsame fun _ _ hvw => IsText.orderFree hvw
  command := h.command.same hsame fun _ _ hvw => IsList.orderFree IsText.orderFree hvw
  color := h.color.same hsame (Given.orderFree IsColor.orderFree)

theorem DescribesChart.same {chart : ChartSettings} (hsame : SameTable entries entries')
    (h : DescribesChart entries chart) : DescribesChart entries' chart where
  known := h.known.same hsame
  width := h.width.same hsame IsCount.orderFree
  trendTitle := h.trendTitle.same hsame IsText.orderFree
  barsTitle := h.barsTitle.same hsame IsText.orderFree

theorem Describes.same {settings : Settings} (hsame : SameTable document document')
    (h : Describes document settings) : Describes document' settings where
  known := h.known.same hsame
  languages := h.languages.same hsame (IsList.orderFree (IsTable.orderFree DescribesLanguage.same))
  program := h.program.same hsame IsText.orderFree
  sizes := h.sizes.same hsame (IsTable.orderFree DescribesRange.same)
  trials := h.trials.same hsame IsCount.orderFree
  benchmarkDir := h.benchmarkDir.same hsame IsText.orderFree
  extension := h.extension.same hsame IsText.orderFree
  benchmarks := h.benchmarks.same hsame (IsList.orderFree IsText.orderFree)
  excluded := h.excluded.same hsame (IsList.orderFree IsText.orderFree)
  chart := h.chart.same hsame (IsTable.orderFree DescribesChart.same)

theorem GivenAsTables.same (hsame : SameTable document document') (h : GivenAsTables document) :
    GivenAsTables document' where
  sizes := h.sizes.same hsame fun _ _ hvw hv hw => hv (hvw.symm.isArray hw)
  chart := h.chart.same hsame fun _ _ hvw hv hw => hv (hvw.symm.isArray hw)
  languages := h.languages.same hsame fun v w hvw hv ws hws w' hw' hw'' => by
    subst hws
    obtain ⟨vs, rfl, hvs⟩ := hvw.symm.of_array
    obtain ⟨v', hv', hwv⟩ := exists_of_mem_of_forall₂ hvs hw'
    exact hv vs rfl v' hv' (hwv.isArray hw'')

end TimeTrials.Settings
