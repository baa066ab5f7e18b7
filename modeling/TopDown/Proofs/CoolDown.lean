import TopDown.Proofs.WellFormed
import TopDown.Proofs.Windows

/-!
# How far apart crossings are

A hysteresis that asks for the side it comes from passes where the level is crossed, and its
cool-down asks that before the crossing the field has kept to one side for some bars. It is checked
on one prefix of a series after the other, each prefix ending at the newest bar. We ask how far apart
two prefixes are on which it passes.

The bar of the first crossing is on the far side of the level, and the cool-down of the second one
looks back on the near side. So the first crossing lies before everything that the second one looks
at (`TopDown.hysteresis_separates`). The gap does not help here: what is needed is that the crossing
value is on the far side at all, whatever is lost in adding the gap (`TopDown.Number.le_of_add_le`).

The sides are told apart by asking which values are below the level, in both directions. Coming from
above, a value that meets the level has crossed it and still counts as one above; this is the one way
in which two crossings may be closer (`TopDown.hysteresis_meets`).
-/

namespace TopDown

/-- The series is that of the field in the context. If the context has a number for the field, it is
the last one of the series. -/
structure Context.Shows (c : Context) (field : String) (xs : List Float) : Prop where
  /-- The series is that of the field. -/
  series : c.series field = some xs
  /-- The number of the field is the last one. -/
  number : ∀ x, c.number field = some x → xs.getLast? = some x

/-- A context with nothing but a series shows it. -/
theorem shows_ofFacts (symbol : String) (tf : Timeframe) (field : String) (xs : List Float) :
    (Context.ofFacts symbol tf [(field, .series xs)]).Shows field xs := by
  have hget : (Context.ofFacts symbol tf [(field, .series xs)]).get? field = some (.series xs) :=
    List.lookup_cons_self
  have hkey : Context.seriesKey field ≠ field := by
    intro h
    have hlength := congrArg String.length h
    rw [Context.seriesKey, String.length_append] at hlength
    have hsuffix : "_series".length = 7 := by decide
    omega
  have hother : (Context.ofFacts symbol tf [(field, .series xs)]).get? (Context.seriesKey field)
      = none := by
    rw [Context.get?, Context.ofFacts, List.lookup_cons, beq_false_of_ne hkey]
    rfl
  constructor
  · simp only [Context.series, Context.storedSeries?, hget, hother]
  · intro x hx
    have hnumber : (Context.ofFacts symbol tf [(field, .series xs)]).number field
        = xs.getLast?.filter Float.isFinite := by
      simp only [Context.number, Context.storedNumber?, hget]
      rfl
    rw [hnumber] at hx
    exact (Option.filter_eq_some_iff.mp hx).1

/-! ### The window -/

/-- The window at the end of a prefix of at least two. -/
theorem window?_take {xs : List Float} {n : Nat} (hn : n + 1 < xs.length) {length : UInt64}
    {coolDown : Nat} (hlength : length.toNat = coolDown + 2) :
    window? length (xs.take (n + 2)) =
      if coolDown ≤ n then some ((xs.take n).drop (n - coolDown) ++ [xs[n], xs[n + 1]]) else none := by
  have htake : xs.take (n + 2) = xs.take n ++ [xs[n], xs[n + 1]] := by
    rw [List.take_succ_eq_append_getElem hn, List.take_succ_eq_append_getElem (by omega),
      List.append_assoc]
    rfl
  have hlen : (xs.take n).length = n := List.length_take_of_le (by omega)
  rw [window?, hlength, htake, List.length_append, hlen]
  by_cases hle : coolDown ≤ n
  · have hdrop : n + 2 - (coolDown + 2) = n - coolDown := by omega
    rw [if_pos hle, if_pos (by simp; omega)]
    change some (List.drop (n + 2 - (coolDown + 2)) _) = _
    rw [hdrop, List.drop_append_of_le_length (by omega)]
  · rw [if_neg hle, if_neg (by simp; omega)]

variable {field : String} {level gap : Float} {coolDown : UInt64} {fromBelow fromAbove : Bool}
  {c : Context} {xs : List Float}

/-- **Passing behind the first bar**: there are bars for the cool-down, the level is crossed, and the
bars of the cool-down are on the side of the bar before. -/
theorem evaluateHysteresis_settled (hlong : coolDown.toNat + 2 < UInt64.size) {n : Nat}
    (hn : n + 1 < xs.length) (hc : c.Shows field (xs.take (n + 2)))
    (h : (evaluateHysteresis field level gap coolDown fromBelow fromAbove c).passed = true) :
    coolDown.toNat ≤ n ∧ crosses fromBelow fromAbove level gap xs[n] xs[n + 1] = true ∧
      ∀ k (hk : k < n), n ≤ k + coolDown.toNat →
        decide (xs[k] < level) = decide (xs[n] < level) := by
  obtain ⟨needed, hneeded, hlength⟩ := exists_windowOfCoolDown hlong
  rw [evaluateHysteresis, hneeded] at h
  dsimp only [onceCounted] at h
  rw [hc.series, Option.bind_some, window?_take hn hlength] at h
  by_cases hle : coolDown.toNat ≤ n
  · rw [if_pos hle] at h
    dsimp only at h
    split at h
    · cases h
    · obtain ⟨hcrossed, hsettled⟩ := evaluateCrossing_passed_iff.mp h
      refine ⟨hle, hcrossed, fun k hk hback => hsettled _ ?_⟩
      refine List.mem_iff_getElem.mpr ⟨k - (n - coolDown.toNat), ?_, ?_⟩
      · rw [List.length_drop, List.length_take_of_le (by omega)]
        omega
      · have hindex : n - coolDown.toNat + (k - (n - coolDown.toNat)) = k := by omega
        simp only [List.getElem_drop, List.getElem_take, hindex]
  · rw [if_neg hle] at h
    dsimp only at h
    rw [if_neg (fun hzero => hle (by rw [hzero]; exact Nat.zero_le n))] at h
    cases h

/-- Wherever it passes, the newest value has crossed the level. -/
theorem evaluateHysteresis_crossed (hlong : coolDown.toNat + 2 < UInt64.size) {i : Nat}
    (hi : i < xs.length) (hc : c.Shows field (xs.take (i + 1)))
    (h : (evaluateHysteresis field level gap coolDown fromBelow fromAbove c).passed = true) :
    ∃ before, crosses fromBelow fromAbove level gap before xs[i] = true := by
  cases i with
  | succ n => exact ⟨xs[n], (evaluateHysteresis_settled hlong hi hc h).2.1⟩
  | zero =>
    -- a single bar is too short for any window
    have hone : (xs.take (0 + 1)).length = 1 := List.length_take_of_le hi
    obtain ⟨needed, hneeded, hlength⟩ := exists_windowOfCoolDown hlong
    have hshort : window? needed (xs.take (0 + 1)) = none := by
      rw [window?, hlength, hone, if_neg (by omega)]
    rw [evaluateHysteresis, hneeded] at h
    dsimp only [onceCounted] at h
    rw [hc.series, Option.bind_some, hshort] at h
    dsimp only at h
    split at h
    · split at h
      · rename_i before now _ hnow
        have hlast := hc.number now hnow
        have hfirst : xs[0] = now := by
          rw [List.take_succ_eq_append_getElem hi, List.getLast?_append] at hlast
          exact Option.some.inj hlast
        -- there is nothing earlier than these two values
        have hpassed : (evaluateCrossing level gap fromBelow fromAbove
            ([] ++ [before, now])).passed = true := h
        rw [hfirst]
        exact ⟨before, (evaluateCrossing_passed_iff.mp hpassed).1⟩
      · cases h
    · cases h

/-! ### Two crossings -/

/-- Where the level is crossed from below, the newest value has reached it. -/
theorem crosses_fromBelow {before now : Float} (hgap : ¬gap < 0.0)
    (h : crosses true fromAbove level gap before now = true) :
    before < level ∧ level ≤ now := by
  obtain ⟨hbefore, hnow⟩ := Bool.and_eq_true_iff.mp h
  exact ⟨of_decide_eq_true hbefore, Number.le_of_add_le hgap (of_decide_eq_true hnow)⟩

/-- The same from above. -/
theorem crosses_fromAbove {before now : Float} (hgap : ¬gap < 0.0)
    (h : crosses false true level gap before now = true) :
    level < before ∧ now ≤ level := by
  obtain ⟨hbefore, hnow⟩ := Bool.and_eq_true_iff.mp h
  exact ⟨of_decide_eq_true hbefore, Number.le_of_le_sub hgap (of_decide_eq_true hnow)⟩

/-- **The crossings of a hysteresis are apart** by more than the bars of its cool-down, unless it
comes from above and the first crossing value meets the level. Even then they are not on bars next to
each other. -/
theorem hysteresis_separates {p : Path} {v : Json} (hv : v.Genuine) {level? : Option Float}
    (hrule : Rule.parse p v =
      .ok (.check (.hysteresis field level? gap coolDown fromBelow fromAbove)))
    (hside : fromBelow = true ∨ fromAbove = true) (hlong : coolDown.toNat + 2 < UInt64.size)
    {name : String} {c c' : Context} (hlevel : ((c.threshold? name).or level?).getD 0.0 = level)
    (hlevel' : ((c'.threshold? name).or level?).getD 0.0 = level)
    {i j : Nat} (hij : i < j) (hj : j < xs.length)
    (hc : c.Shows field (xs.take (i + 1))) (hc' : c'.Shows field (xs.take (j + 1)))
    (hpassed : (Check.evaluate name c
      (.hysteresis field level? gap coolDown fromBelow fromAbove)).passed = true)
    (hpassed' : (Check.evaluate name c'
      (.hysteresis field level? gap coolDown fromBelow fromAbove)).passed = true) :
    i + coolDown.toNat + 2 ≤ j ∨
      fromAbove = true ∧ i + 2 ≤ j ∧ (xs[i] == level) = true := by
  have hgap : ¬gap < 0.0 := by
    have hwell := (Rule.parse_wellFormed p v hv hrule).1
    simp only [Rule.WellFormed] at hwell
    exact Number.not_lt_of_le hwell.inOrder.1
  rw [Check.evaluate, hlevel] at hpassed
  rw [Check.evaluate, hlevel'] at hpassed'
  obtain ⟨n, rfl⟩ : ∃ n, j = n + 1 := ⟨j - 1, by omega⟩
  obtain ⟨before, hcrossed⟩ := evaluateHysteresis_crossed hlong (by omega) hc hpassed
  obtain ⟨hbars, hcrossed', hsettled⟩ := evaluateHysteresis_settled hlong hj hc' hpassed'
  by_cases hapart : i + coolDown.toNat + 2 ≤ n + 1
  · exact .inl hapart
  · -- the first crossing is among the bars that have settled for the second one
    have hsame : decide (xs[i] < level) = decide (xs[n] < level) := by
      rcases Nat.lt_or_eq_of_le (Nat.le_of_lt_succ hij) with hlt | rfl
      · exact hsettled i hlt (by omega)
      · rfl
    cases fromBelow with
    | true =>
      have hreached := (crosses_fromBelow hgap hcrossed).2
      have hbelow := (crosses_fromBelow hgap hcrossed').1
      rw [decide_eq_true hbelow] at hsame
      exact absurd (of_decide_eq_true hsame) (Number.not_lt_of_le hreached)
    | false =>
      obtain rfl : fromAbove = true := hside.resolve_left Bool.false_ne_true
      have hreached := (crosses_fromAbove hgap hcrossed).2
      have habove := (crosses_fromAbove hgap hcrossed').1
      have hnot : ¬xs[i] < level := by
        rw [decide_eq_false (Number.not_lt_of_lt habove)] at hsame
        exact of_decide_eq_false hsame
      refine .inr ⟨rfl, ?_, Number.beq_of_le hreached hnot⟩
      rcases Nat.lt_or_eq_of_le (Nat.le_of_lt_succ hij) with hlt | rfl
      · omega
      · exact absurd habove (Number.not_lt_of_le hreached)

/-- A field that rises through its level twice, three bars apart, with a cool-down of one bar. -/
theorem hysteresis_separates_rising :
    (Check.evaluate "h" (Context.ofFacts "S" .h1 [("x", .series [48.0, 49.0, 51.0])])
      (.hysteresis "x" (some 50.0) 0.0 1 true false)).passed = true ∧
    (Check.evaluate "h"
      (Context.ofFacts "S" .h1 [("x", .series [48.0, 49.0, 51.0, 49.0, 48.0, 52.0])])
      (.hysteresis "x" (some 50.0) 0.0 1 true false)).passed = true ∧
    (2 + (1 : UInt64).toNat + 2 ≤ 5 ∨
      false = true ∧ 2 + 2 ≤ 5 ∧ ((51.0 : Float) == 50.0) = true) := by
  have hfirst : (Check.evaluate "h" (Context.ofFacts "S" .h1 [("x", .series [48.0, 49.0, 51.0])])
      (.hysteresis "x" (some 50.0) 0.0 1 true false)).passed = true := by decide +kernel
  have hsecond : (Check.evaluate "h"
      (Context.ofFacts "S" .h1 [("x", .series [48.0, 49.0, 51.0, 49.0, 48.0, 52.0])])
      (.hysteresis "x" (some 50.0) 0.0 1 true false)).passed = true := by decide +kernel
  have hlevel : (50.0 : Float).isFinite = true := by decide +kernel
  have hgap : (0.0 : Float).isFinite = true := by decide +kernel
  have hgenuine : Json.Genuine (.obj [("cool_down_bars", .int 1), ("field", .str "x"),
      ("level", .real 50.0), ("min_gap", .real 0.0), ("require_prev_below", .bool true)]) :=
    ⟨⟨by decide, by decide⟩, trivial, hlevel, hgap, trivial, trivial⟩
  have hrule : Rule.parse [] (.obj [("cool_down_bars", .int 1), ("field", .str "x"),
      ("level", .real 50.0), ("min_gap", .real 0.0), ("require_prev_below", .bool true)]) =
      .ok (.check (.hysteresis "x" (some 50.0) 0.0 1 true false)) := rfl
  have hshort : (Context.ofFacts "S" .h1 [("x", .series [48.0, 49.0, 51.0])]).Shows "x"
      ([48.0, 49.0, 51.0, 49.0, 48.0, 52.0].take (2 + 1)) := shows_ofFacts _ _ _ _
  have hwhole : (Context.ofFacts "S" .h1
      [("x", .series [48.0, 49.0, 51.0, 49.0, 48.0, 52.0])]).Shows "x"
      ([48.0, 49.0, 51.0, 49.0, 48.0, 52.0].take (5 + 1)) := shows_ofFacts _ _ _ _
  have hfixed (facts : Table Fact) :
      (((Context.ofFacts "S" .h1 facts).threshold? "h").or (some 50.0)).getD 0.0 = 50.0 := rfl
  have hapart := hysteresis_separates hgenuine hrule (by decide) (by decide) (hfixed _) (hfixed _)
    (by decide) (by decide) hshort hwhole hfirst hsecond
  exact ⟨hfirst, hsecond, hapart⟩

/-- **A value that meets the level counts twice**: coming from above, with a cool-down of one bar,
the level is crossed at the third bar and again at the fifth. -/
theorem hysteresis_meets :
    Rule.parse [] (.obj [("cool_down_bars", .int 1), ("field", .str "x"), ("level", .real 50.0),
      ("min_gap", .real 0.0), ("require_prev_above", .bool true)]) =
        .ok (.check (.hysteresis "x" (some 50.0) 0.0 1 false true)) ∧
    (Check.evaluate "h" (Context.ofFacts "S" .h1 [("x", .series [51.0, 51.0, 50.0])])
      (.hysteresis "x" (some 50.0) 0.0 1 false true)).passed = true ∧
    (Check.evaluate "h" (Context.ofFacts "S" .h1 [("x", .series [51.0, 51.0, 50.0, 51.0, 49.0])])
      (.hysteresis "x" (some 50.0) 0.0 1 false true)).passed = true ∧
    ¬4 - 2 ≥ (1 : UInt64).toNat + 2 :=
  ⟨rfl, by decide +kernel, by decide +kernel, by decide⟩

end TopDown
