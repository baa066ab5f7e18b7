import TopDown.Proofs.Columns
import TopDown.Proofs.Thresholds

/-!
# What an extension leaves alone

A context is extended in two ways: thresholds are laid over its facts, and a fact is added. The same
number can be asked for under differently spelled keys, so one more entry may change the answer to a
question that does not name it.

Here we say where a number is read from (`TopDown.Context.NumberKey`): there are three keys at most,
and two contexts that agree on them, and on the threshold laid over the key, know the same number
(`TopDown.Context.number_congr`). From this we have what each extension leaves as it was
(`TopDown.Context.extension_frame`). None of the three keys can be left out: a fact under each of them
changes the number in some context (`TopDown.Context.exists_number_withFact_ne`).

So the side, which is told to the rules that choose a timeframe as a fact, changes no number that goes
by another name (`TopDown.SelectionInput.number_withSide`).
-/

namespace TopDown

namespace Context

/-! ### Where answers are read -/

/-- **The keys of the facts that a number is read from.** -/
inductive NumberKey : String → String → Prop
  /-- The key itself. -/
  | own (k : String) : NumberKey k k
  /-- The key of its series. -/
  | series (k : String) : NumberKey k (seriesKey k)
  /-- What stands before its first dot, which is the name of a table. -/
  | table {head : String} (hhead : '.' ∉ head.toList) (tail : String) :
      NumberKey (head ++ "." ++ tail) head

variable {c c' : Context} {k key : String}

theorem toList_dotted (head tail : String) :
    (head ++ "." ++ tail).toList = head.toList ++ '.' :: tail.toList := by
  rw [String.toList_append, String.toList_append, List.append_assoc]
  rfl

/-- A key that is cut is read from the table before the cut. -/
theorem numberKey_of_cutFirst {head tail : String} (h : Text.cutFirst '.' k = some (head, tail)) :
    NumberKey k head := by
  obtain ⟨hk, hhead⟩ := Text.cutFirst_eq_some_iff.mp h
  have hdotted : k = head ++ "." ++ tail := by rw [← String.toList_inj, hk, toList_dotted]
  rw [hdotted]
  exact .table hhead tail

/-- A key that is not that of a series is read for itself, and for the entries of its table. -/
theorem NumberKey.own_or_table (h : NumberKey k key) (hkey : ∀ name, key ≠ seriesKey name) :
    k = key ∨ ∃ tail, k = key ++ "." ++ tail := by
  cases h with
  | own => exact .inl rfl
  | series => exact absurd rfl (hkey k)
  | table _ tail => exact .inr ⟨tail, rfl⟩

theorem storedSeries?_congr (h : c.get? key = c'.get? key) :
    c.storedSeries? key = c'.storedSeries? key := by
  rw [storedSeries?, storedSeries?, h]

/-- **A stored number is read under the keys for it.** -/
theorem storedNumber?_congr (h : ∀ key, NumberKey k key → c.get? key = c'.get? key) :
    c.storedNumber? k = c'.storedNumber? k := by
  rw [storedNumber?, storedNumber?, h k (.own k), storedSeries?_congr (h _ (.series k))]
  cases hcut : Text.cutFirst '.' k with
  | none => rfl
  | some e => simp only [h e.1 (numberKey_of_cutFirst hcut)]

/-- **A number is read under the keys for it**, and among the thresholds. -/
theorem number_congr (hthreshold : c.thresholds.lookup k = c'.thresholds.lookup k)
    (h : ∀ key, NumberKey k key → c.get? key = c'.get? key) : c.number k = c'.number k := by
  rw [number, number, hthreshold, storedNumber?_congr h]

theorem series_congr (hseries : c.get? (seriesKey k) = c'.get? (seriesKey k))
    (hown : c.get? k = c'.get? k) : c.series k = c'.series k := by
  rw [series, series, storedSeries?_congr hseries, storedSeries?_congr hown]

theorem previous_congr (hnumber : c.number (previousKey k) = c'.number (previousKey k))
    (hseries : c.series k = c'.series k) : c.previous k = c'.previous k := by
  rw [previous, previous, hnumber, hseries]

/-- A threshold comes before all facts. -/
theorem number_of_threshold {t : Float} (h : c.thresholds.lookup k = some t) :
    c.number k = some t := by
  rw [number, h]

/-! ### Further thresholds -/

section WithThresholds

variable {named : List (String × Float)}

theorem number_withThresholds_of_last {n : String} {t : Float} (h : Table.LastUnder named n t) :
    (c.withThresholds named).number (thresholdKey n) = some t := by
  refine number_of_threshold ?_
  show (c.withThresholds named).threshold? n = some t
  rw [lookup_withThresholds, Table.lastUnder_iff.mp h, Option.some_or]

theorem number_withThresholds_of_none (h : ¬∃ n t, Table.LastUnder named n t ∧ k = thresholdKey n) :
    (c.withThresholds named).number k = c.number k := by
  refine number_congr (lookup_withThresholds_of_ne fun e he hk => h ?_) fun _ _ => rfl
  obtain ⟨t, ht⟩ := Table.exists_lastUnder.mpr (List.mem_map_of_mem (f := (·.1)) he)
  exact ⟨e.1, t, ht, hk⟩

end WithThresholds

/-! ### One more fact -/

section WithFact

variable {fact : Fact}

theorem get?_withFact_of_ne (h : key ≠ k) : (c.withFact key fact).get? k = c.get? k :=
  Table.lookup_put_of_ne h.symm fact c.facts

/-- **A fact changes the numbers that are read under its key**, and no others. -/
theorem number_withFact (h : ¬NumberKey k key) : (c.withFact key fact).number k = c.number k :=
  number_congr rfl fun _ hread => get?_withFact_of_ne fun heq => h (heq ▸ hread)

theorem previous_withFact (hown : key ≠ k) (hseries : key ≠ seriesKey k)
    (hnumber : (c.withFact key fact).number (previousKey k) = c.number (previousKey k)) :
    (c.withFact key fact).previous k = c.previous k :=
  previous_congr hnumber (series_congr (get?_withFact_of_ne hseries) (get?_withFact_of_ne hown))

end WithFact

/-- **What an extension leaves alone.** Where thresholds are laid over the facts, a key for the
threshold of a name gives the last threshold that is laid under the name; every other number is as
before, and so are the facts and the series, texts and flags that are read from them. Where a fact is
added, the numbers that are not read under its key are as before, and all thresholds are kept and still
come first. Either way the value of a field one bar ago is as before if the number that stands for it
is, and if the fact is neither the field nor its series. -/
theorem extension_frame (c : Context) :
    (∀ named : List (String × Float),
      (∀ n t, Table.LastUnder named n t →
        (c.withThresholds named).number (thresholdKey n) = some t) ∧
      (∀ k, (¬∃ n t, Table.LastUnder named n t ∧ k = thresholdKey n) →
        (c.withThresholds named).number k = c.number k) ∧
      (∀ k, (c.withThresholds named).get? k = c.get? k ∧
        (c.withThresholds named).series k = c.series k ∧
        (c.withThresholds named).text? k = c.text? k ∧
        (c.withThresholds named).flag? k = c.flag? k) ∧
      ∀ k, (c.withThresholds named).number (previousKey k) = c.number (previousKey k) →
        (c.withThresholds named).previous k = c.previous k) ∧
    ∀ key fact,
      (∀ k, ¬NumberKey k key → (c.withFact key fact).number k = c.number k) ∧
      (c.withFact key fact).thresholds = c.thresholds ∧
      (∀ k t, c.thresholds.lookup k = some t → (c.withFact key fact).number k = some t) ∧
      ∀ k, key ≠ k → key ≠ seriesKey k →
        (c.withFact key fact).number (previousKey k) = c.number (previousKey k) →
        (c.withFact key fact).previous k = c.previous k := by
  refine ⟨fun named => ⟨fun n t => number_withThresholds_of_last,
    fun k => number_withThresholds_of_none, fun k => ⟨rfl, rfl, rfl, rfl⟩,
    fun k hnumber => previous_congr hnumber rfl⟩, fun key fact => ?_⟩
  exact ⟨fun k => number_withFact, rfl, fun k t ht => number_of_threshold ht,
    fun k hown hseries hnumber => previous_withFact hown hseries hnumber⟩

/-- A close, averages by length and the two latest values of an index. -/
def closeAndAverages : Context :=
  .ofFacts "BTCUSDT" .h1 [("close", .number 101.0), ("ema", .map [("50", 99.5)]),
    ("rsi_series", .series [50.0, 55.0])]

/-- Of two thresholds for a name the last counts, and an average is still known. After the side has
been added as a fact the average is the same, and so is the value of the index one bar ago. -/
theorem extension_frame_closeAndAverages :
    (closeAndAverages.withThresholds [("rsi_bullish", 40.0), ("rsi_bullish", 60.0)]).number
        "rsi_bullish_threshold" = some 60.0 ∧
      (closeAndAverages.withThresholds [("rsi_bullish", 40.0), ("rsi_bullish", 60.0)]).number
        "ema.50" = some 99.5 ∧
      (closeAndAverages.withFact "signal_side" (.text "long")).number "ema.50" = some 99.5 ∧
      (closeAndAverages.withFact "signal_side" (.text "long")).previous "rsi" = some 50.0 := by
  obtain ⟨hthresholds, hfact⟩ := extension_frame closeAndAverages
  obtain ⟨hlast, hothers, -⟩ := hthresholds [("rsi_bullish", 40.0), ("rsi_bullish", 60.0)]
  obtain ⟨hnumber, -, -, hprevious⟩ := hfact "signal_side" (.text "long")
  have haverage : closeAndAverages.number "ema.50" = some 99.5 := by
    have hstored : closeAndAverages.storedNumber? "ema.50" = some 99.5 := rfl
    have hfinite : (99.5 : Float).isFinite = true := by decide +kernel
    rw [number_eq_filter rfl, hstored, Option.filter_some, if_pos hfinite]
  have hbefore : closeAndAverages.previous "rsi" = some 50.0 := by
    have hnone : closeAndAverages.number (previousKey "rsi") = none := rfl
    have hseries : (closeAndAverages.series "rsi").bind lastButOne? = some 50.0 := rfl
    have hfinite : (50.0 : Float).isFinite = true := by decide +kernel
    rw [previous, hnone, hseries, Option.filter_some, if_pos hfinite]
  have hside {k : String} (hown : k ≠ "signal_side")
      (hhead : ¬"signal_side".toList <+: k.toList) : ¬NumberKey k "signal_side" := by
    intro h
    rcases h.own_or_table (ne_seriesKey_iff.mpr (by decide)) with hk | ⟨tail, hk⟩
    · exact hown hk
    · exact hhead ⟨'.' :: tail.toList, by rw [hk, toList_dotted]⟩
  refine ⟨hlast "rsi_bullish" 60.0 ⟨[("rsi_bullish", 40.0)], [], rfl, List.not_mem_nil⟩, ?_, ?_, ?_⟩
  · rw [hothers, haverage]
    rintro ⟨n, t, -, hn⟩
    exact Condition.isFactKey_of_getLast? (by decide) n hn
  · rw [hnumber _ (hside (by decide) (by decide)), haverage]
  · rw [hprevious _ (by decide) (by decide) (hnumber _ (hside (by decide) (by decide))), hbefore]

/-! ### Each key counts -/

/-- The context without facts and thresholds. -/
def blank : Context :=
  ofFacts "BTCUSDT" .h1 []

theorem number_blank (k : String) : blank.number k = none := by
  rw [number_eq_filter rfl, storedNumber?_beyond rfl rfl]
  cases Text.cutFirst '.' k <;> rfl

/-- The name of a table is shorter than a key into it. -/
theorem ne_dotted (head tail : String) : head ≠ head ++ "." ++ tail ∧
    head ≠ seriesKey (head ++ "." ++ tail) := by
  have hshort {s : String} (h : head.toList.length < s.toList.length) : head ≠ s := by
    rintro rfl
    exact absurd h (Nat.lt_irrefl _)
  refine ⟨hshort ?_, hshort ?_⟩
  · rw [toList_dotted, List.length_append, List.length_cons]
    omega
  · rw [toList_seriesKey, toList_dotted, List.length_append, List.length_append, List.length_cons]
    omega

/-- **Each of the keys counts**: whichever of them it is, a fact under it can change the number. -/
theorem exists_number_withFact_ne (h : NumberKey k key) :
    ∃ (c : Context) (fact : Fact), (c.withFact key fact).number k ≠ c.number k := by
  have hget (fact : Fact) : (blank.withFact key fact).get? key = some fact :=
    Table.lookup_put_self key fact []
  -- nothing is known in the blank context, and in each case the fact makes one the number
  suffices h : ∃ fact, (blank.withFact key fact).storedNumber? k = some 1.0 by
    obtain ⟨fact, hstored⟩ := h
    have hone : (1.0 : Float).isFinite = true := by decide +kernel
    refine ⟨blank, fact, ?_⟩
    rw [number_blank, number_eq_filter rfl, hstored, Option.filter_some, if_pos hone]
    exact Option.some_ne_none _
  cases h with
  | own => exact ⟨.number 1.0, storedNumber?_of_number (hget _)⟩
  | series =>
    refine ⟨.series [1.0], storedNumber?_behind ?_ (storedSeries?_eq_some.mpr (hget _))⟩
    exact get?_withFact_of_ne (ne_seriesKey_self k).symm
  | table hhead tail =>
    obtain ⟨hown, hseries⟩ := ne_dotted key tail
    have hcut : Text.cutFirst '.' (key ++ "." ++ tail) = some (key, tail) :=
      Text.cutFirst_eq_some_iff.mpr ⟨toList_dotted key tail, hhead⟩
    have hstored : (blank.withFact key (.map [(tail, 1.0)])).storedSeries?
        (seriesKey (key ++ "." ++ tail)) = none := by
      rw [storedSeries?, get?_withFact_of_ne hseries]
      rfl
    refine ⟨.map [(tail, 1.0)], ?_⟩
    rw [storedNumber?_beyond (get?_withFact_of_ne hown) hstored, hcut, Option.bind_some, hget]
    simp

end Context

/-! ### The side of a choice -/

/-- **The side changes no number that goes by another name.** -/
theorem SelectionInput.number_withSide (input : SelectionInput) (c : Context) {k : String}
    (hown : k ≠ "signal_side") (htable : ∀ tail, k ≠ "signal_side" ++ "." ++ tail) :
    (input.withSide c).number k = c.number k := by
  refine Context.number_withFact fun h => ?_
  rcases h.own_or_table (Context.ne_seriesKey_iff.mpr (by decide)) with hk | ⟨tail, hk⟩
  · exact hown hk
  · exact htable tail hk

end TopDown
