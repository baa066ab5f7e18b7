import TopDown.Proofs.Snapshot

/-!
# The average true range of a snapshot

Bars without a column for the average true range get one from their own ranges. Whether there is such
a column is read off the facts that the columns have left, and a column leaves no fact of its own
where its newest value is missing, infinite or undefined. So the column itself plays no part: the mean
of the bars' own ranges stands in wherever the newest value is not known, in a column that has been
kept for all bars but the newest as well as in none at all (`TopDown.Snapshot.build_trueRange`).

The two are different measures: a column brings the average that its source has computed, over a period
of the source's own. A condition on the range cannot tell them apart. It is decided on the mean where
the newest value of the column is not known, and it misses data only where there are fewer than two
bars, where the mean is not finite or where the price is not known
(`TopDown.Snapshot.standIn?_eq_none_iff`, `TopDown.Context.readsRange`).
-/

namespace TopDown

namespace Context

/-- A range as a fraction of the price. -/
def fractionOf (c : Context) (range : Option Float) : Option Float :=
  range.bind fun x => ((c.number "close").filter (· > 0.0)).map (x / ·)

theorem fractionOf_eq_none_iff {c : Context} {range : Option Float} : c.fractionOf range = none ↔
    range = none ∨ (c.number "close").filter (· > 0.0) = none := by
  cases range <;> simp [fractionOf]

/-- **The conditions on the range read this range**: the checks of the context's own timeframe and the
conditions with a threshold. They miss data exactly if it is not known or the price is not, and else
they have looked at the fraction. -/
structure ReadsRange (c : Context) (range : Option Float) : Prop where
  /-- Checks miss data. -/
  range_missing : ∀ name min max adapts,
    ((Check.range min max [] adapts).evaluate name c).missing = true ↔
      range = none ∨ (c.number "close").filter (· > 0.0) = none
  /-- Checks look at the fraction. -/
  range_value : ∀ name min max adapts x, c.fractionOf range = some x →
    ((Check.range min max [] adapts).evaluate name c).value =
      Json.ofFields [(c.timeframe.name, Json.ofFloat x)]
  /-- Conditions miss data. -/
  atrBelow_missing : ∀ name, (Condition.atrBelow name c).missing = true ↔
    range = none ∨ (c.number "close").filter (· > 0.0) = none
  /-- Conditions look at the fraction. -/
  atrBelow_value : ∀ name x, c.fractionOf range = some x →
    (Condition.atrBelow name c).value = Json.ofFloat x

/-- **Without a fraction of its own** a context has that of the average true range. -/
theorem readsRange {c : Context} (h : c.number "atr_pct" = none) :
    c.ReadsRange (c.number "atr") := by
  have hrange : c.atrFraction "" = c.fractionOf (c.number "atr") := by
    rw [atrFraction, String.append_empty, String.append_empty, h]
    cases c.number "atr" <;> cases hclose : (c.number "close").filter (· > 0.0) <;>
      simp [fractionOf, hclose]
  have hbelow (name : String) : Condition.atrBelow name c =
      (c.fractionOf (c.number "atr")).elim (.undecided "atr unavailable") fun x =>
        .decided (x <= c.thresholdOr name 0.03) (Json.ofFloat x)
          (some (c.thresholdOr name 0.03)) := by
    rw [Condition.atrBelow, h]
    cases c.number "atr" <;> cases hclose : (c.number "close").filter (· > 0.0) <;>
      simp [fractionOf, hclose]
  have hsamples (min max : Float) (adapts : Bool) (name : String) :
      (Check.range min max [] adapts).evaluate name c = evaluateRange min max [] adapts c := rfl
  refine ⟨fun name min max adapts => ?_, fun name min max adapts x hx => ?_, fun name => ?_,
    fun name x hx => ?_⟩
  · rw [← fractionOf_eq_none_iff, hsamples, evaluateRange, atrSamples, if_pos List.isEmpty_nil,
      hrange]
    cases c.fractionOf (c.number "atr") with
    | some x => exact iff_of_false (by rintro ⟨⟩) (by rintro ⟨⟩)
    | none => exact iff_of_true rfl rfl
  · rw [hsamples, evaluateRange, atrSamples, if_pos List.isEmpty_nil, hrange, hx]
    rfl
  · rw [← fractionOf_eq_none_iff, hbelow]
    cases c.fractionOf (c.number "atr") with
    | some x => exact iff_of_false (by rintro ⟨⟩) (by rintro ⟨⟩)
    | none => exact iff_of_true rfl rfl
  · rw [hbelow, hx]
    rfl

end Context

namespace Snapshot

/-! ### The mean of the ranges -/

/-- What stands in for the newest value of the column: the mean true range of the latest bars, if it
is finite. -/
def standIn? (period : Nat) (bars : List Bar) : Option Float :=
  (meanTrueRange? (max 1 period) bars).filter Float.isFinite

theorem meanTrueRange?_eq_none_iff {period : Nat} (hperiod : 0 < period) {bars : List Bar} :
    meanTrueRange? period bars = none ↔ bars.length < 2 := by
  have hranges (f : Bar × Bar → Float) :
      ((bars.zip (bars.drop 1)).map f).reverse.take period = [] ↔ bars.length < 2 := by
    rw [← List.length_eq_zero_iff]
    simp only [List.length_take, List.length_reverse, List.length_map, List.length_zip,
      List.length_drop]
    omega
  rw [meanTrueRange?]
  split
  · rename_i h
    exact iff_of_true rfl ((hranges _).mp (List.isEmpty_iff.mp h))
  · rename_i h
    exact iff_of_false (by simp) fun hfew => h (List.isEmpty_iff.mpr ((hranges _).mpr hfew))

/-- **Nothing stands in** where there are fewer than two bars, or where the mean is infinite or
undefined. -/
theorem standIn?_eq_none_iff {period : Nat} {bars : List Bar} : standIn? period bars = none ↔
    bars.length < 2 ∨ ∃ x, meanTrueRange? (max 1 period) bars = some x ∧ x.isFinite = false := by
  have hperiod : 0 < max 1 period := by omega
  rw [standIn?, Option.filter_eq_none_iff, ← meanTrueRange?_eq_none_iff hperiod]
  cases meanTrueRange? (max 1 period) bars <;> simp

/-! ### The fact of the average true range -/

/-- The columns leave the newest value, if there is one. -/
theorem lookup_columnFacts_atr {bars : List Bar} (hbars : bars ≠ []) :
    (columnFacts bars).lookup "atr" = (newest? bars "atr").map .number := by
  have hcore : ∀ e ∈ coreColumns, "atr" ≠ e.1 := by decide
  have hprevious : ∀ n, "atr" ≠ Context.previousKey n := Context.ne_previousKey_iff.mpr (by decide)
  have hseries : ∀ n, "atr" ≠ Context.seriesKey n := Context.ne_seriesKey_iff.mpr (by decide)
  by_cases hcolumn : HasColumn bars "atr"
  · exact lookup_self hbars hcolumn hcore hprevious hseries
  · have hnot {n : String} (hne : "atr" ≠ n) : "atr" ∉ keysOf n := by
      rw [mem_keysOf]
      rintro (h | h | h)
      · exact hne h
      · exact hprevious n h
      · exact hseries n h
    have hnewest : newest? bars "atr" = none := by
      refine Option.eq_none_iff_forall_ne_some.mpr fun x hx => hcolumn ?_
      obtain ⟨b, hb, hx⟩ := Option.bind_eq_some_iff.mp hx
      exact hasColumn_of_value? (List.mem_of_getLast? hb) hx
    rw [hnewest]
    exact columnFacts_eq_none hbars (fun e he => hnot (hcore e he)) fun n hn =>
      entry_eq_none (hnot fun h => hcolumn (h ▸ hn)) _

/-- **Among the facts of the bars** is the newest value of the column, or else the mean. -/
theorem lookup_barFacts_atr {bars : List Bar} (hbars : bars ≠ []) (period : Nat) :
    (barFacts period bars).lookup "atr" =
      ((newest? bars "atr").or (meanTrueRange? period bars)).map .number := by
  unfold barFacts
  extract_lets columns averages facts
  have hfacts : facts.lookup "atr" = (newest? bars "atr").map .number := by
    refine Eq.trans ?_ (lookup_columnFacts_atr hbars)
    unfold facts
    split
    · rfl
    · exact Table.lookup_put_of_ne (by decide) _ _
  rw [Table.has, hfacts]
  cases hnewest : newest? bars "atr" with
  | some x => exact hfacts.trans (congrArg _ hnewest)
  | none =>
    cases meanTrueRange? period bars with
    | some x => exact Table.lookup_put_self _ _ _
    | none => exact hfacts.trans (congrArg _ hnewest)

/-- **The average true range of a snapshot**: an older value of the column is not found, but the mean
is. -/
theorem number_atr {bars : List Bar} (hbars : bars ≠ []) {period : Nat} {symbol : String}
    {tf : Timeframe} {runId : Option String} {known : List KnownSignal} {c : Context}
    (hbuild : build period symbol tf bars runId known = .ok c) :
    c.number "atr" = (newest? bars "atr").or (standIn? period bars) := by
  have hc : OfColumns bars c := by
    obtain ⟨c', hbuild', hc'⟩ := build_ofColumns hbars period symbol tf runId known
    cases hbuild.symm.trans hbuild'
    exact hc'
  have hget : c.get? "atr" =
      ((newest? bars "atr").or (meanTrueRange? (max 1 period) bars)).map .number := by
    cases hbuild.symm.trans (build_eq hbars period symbol tf runId known)
    exact (lookup_ownFacts (.inl (by decide)) _ _ _ _ _ _).trans (lookup_barFacts_atr hbars _)
  have hfilter : (newest? bars "atr").or (standIn? period bars) =
      ((newest? bars "atr").or (meanTrueRange? (max 1 period) bars)).filter Float.isFinite := by
    rw [standIn?]
    cases h : newest? bars "atr" with
    | none => rfl
    | some x =>
      have hx := filter_newest? bars "atr"
      rw [h] at hx
      exact hx.symm
  rw [Context.number_eq_filter hc.thresholds, hfilter]
  cases hfound : (newest? bars "atr").or (meanTrueRange? (max 1 period) bars) with
  | some x =>
    rw [hfound] at hget
    rw [Context.storedNumber?_of_number hget]
  | none =>
    -- the series ends in the newest value, which is not known, and there is no dot in the name
    rw [hfound] at hget
    cases hstored : c.storedSeries? (Context.seriesKey "atr") with
    | some xs =>
      obtain ⟨-, rfl⟩ := hc.eq_of_storedSeries? hbars (by decide) hstored
      rw [Context.storedNumber?_behind hget hstored, ← newest?_eq]
      exact (Option.or_eq_none_iff.mp hfound).1
    | none =>
      rw [Context.storedNumber?_beyond hget hstored, Text.cutFirst_eq_none (by decide)]
      rfl

/-! ### What is reported -/

/-- **What a snapshot makes of the average true range**, whether or not there is a column for it: the
newest value of the column, or else the mean. It keeps to the column exactly if that has a newest value
or nothing stands in for one, and the conditions on the range follow. -/
theorem build_trueRange {bars : List Bar} (hbars : bars ≠ []) (period : Nat) (symbol : String)
    (tf : Timeframe) (runId : Option String) (known : List KnownSignal) :
    ∃ c, build period symbol tf bars runId known = .ok c ∧
      c.number "atr" = (newest? bars "atr").or (standIn? period bars) ∧
      (c.number "atr" = newest? bars "atr" ↔
        (newest? bars "atr").isSome = true ∨ standIn? period bars = none) ∧
      (c.number "atr_pct" = none →
        c.ReadsRange ((newest? bars "atr").or (standIn? period bars))) := by
  obtain ⟨c, hbuild, -⟩ := build_ofColumns hbars period symbol tf runId known
  have hatr := number_atr hbars hbuild
  refine ⟨c, hbuild, hatr, ?_, fun hpct => ?_⟩
  · rw [hatr]
    cases newest? bars "atr" <;> simp
  · rw [← hatr]
    exact Context.readsRange hpct

/-- Where the column has a newest value, that one is found. -/
theorem build_trueRange_known : twoBars [("atr", 0.5)] [("atr", 0.75)] ≠ [] ∧
    ∃ c, build 14 "AUSDT" .h1 (twoBars [("atr", 0.5)] [("atr", 0.75)]) none [] = .ok c ∧
      c.number "atr" = some 0.75 := by
  have hbars : twoBars [("atr", 0.5)] [("atr", 0.75)] ≠ [] := twoBars_ne_nil
  obtain ⟨c, hbuild, hatr, -⟩ := build_trueRange hbars 14 "AUSDT" .h1 none []
  have hnewest : newest? (twoBars [("atr", 0.5)] [("atr", 0.75)]) "atr" = some 0.75 :=
    newest?_twoBars rfl (by decide +kernel)
  rw [hnewest, Option.some_or] at hatr
  exact ⟨hbars, c, hbuild, hatr⟩

/-- Two bars with prices, of which the first has a value in the column for the average true range. -/
def gapBars : List Bar :=
  [⟨"AUSDT", .m1, ⟨0, 0⟩, 1.0, 2.0, 1.0, 1.0, 5.0, [("atr", 0.5)]⟩,
    ⟨"AUSDT", .m1, ⟨60, 0⟩, 1.0, 2.0, 1.0, 2.0, 5.0, []⟩]

/-- **A value that is missing is made up for**: there is a column, its newest value is not known, and
the conditions on the range are decided on another measure. -/
theorem gapBars_decided : HasColumn gapBars "atr" ∧ ¬HasColumn gapBars "atr_series" ∧
    newest? gapBars "atr" = none ∧
    ∃ c, build 14 "AUSDT" .m1 gapBars none [] = .ok c ∧ c.number "atr" = some 1.0 ∧
      ((Check.range 0.0 1.0 [] false).evaluate "range" c).missing = false ∧
      ((Check.range 0.0 1.0 [] false).evaluate "range" c).passed = true ∧
      (Condition.atrBelow "atr_pct_max" c).missing = false := by
  have hbuild : ((build 14 "AUSDT" .m1 gapBars none []).toOption.map fun c =>
      (c.number "atr", ((Check.range 0.0 1.0 [] false).evaluate "range" c).missing,
        ((Check.range 0.0 1.0 [] false).evaluate "range" c).passed,
        (Condition.atrBelow "atr_pct_max" c).missing)) = some (some 1.0, false, true, false) := by
    decide +kernel
  obtain ⟨c, hc, hanswers⟩ := Option.map_eq_some_iff.mp hbuild
  obtain ⟨hatr, hanswers⟩ := Prod.mk.inj hanswers
  obtain ⟨hmissing, hanswers⟩ := Prod.mk.inj hanswers
  obtain ⟨hpassed, hbelow⟩ := Prod.mk.inj hanswers
  exact ⟨by decide, by decide, rfl, c, toOption_eq_some.mp hc, hatr, hmissing, hpassed, hbelow⟩

end Snapshot

end TopDown
