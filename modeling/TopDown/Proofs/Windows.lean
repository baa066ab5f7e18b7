import TopDown.Rule.Evaluate

/-!
# Windows and their lengths

A check that looks back in time first counts how long its window is. Counts are added as far as 64 bits
go (`TopDown.sumOfCounts_eq_ok`), and a count at the upper end of the range leaves no room for the one or
two values that are to be added (`TopDown.Check.Countable`). Such a check breaks down in every context,
and nothing else makes a check break down (`TopDown.Check.crash_evaluate`): a window that has been
counted has the last value and the one before it, so looking at these two never leads out of it
(`TopDown.evaluateCrossing_append`).
-/

namespace TopDown

/-! ### Lengths -/

section Lengths

variable {m n k : UInt64} {crash : Crash}

/-- **The sum of two counts** is their sum as numbers. -/
theorem sumOfCounts_eq_ok : sumOfCounts m n = .ok k ↔ k.toNat = m.toNat + n.toNat := by
  unfold sumOfCounts
  have hsum : m.toNat + n.toNat < UInt64.size → (m + n).toNat = m.toNat + n.toNat := by
    intro hlt
    rw [UInt64.toNat_add]
    exact Nat.mod_eq_of_lt hlt
  constructor
  · intro h
    split at h
    · rename_i hlt
      cases h
      exact hsum hlt
    · cases h
  · intro h
    have hlt : m.toNat + n.toNat < UInt64.size := h ▸ k.toNat_lt_size
    rw [if_pos hlt, ← UInt64.toNat_inj.mp (h.trans (hsum hlt).symm)]

/-- **There is none** where this number does not fit. -/
theorem sumOfCounts_eq_error :
    sumOfCounts m n = .error crash ↔ UInt64.size ≤ m.toNat + n.toNat ∧ crash = .countSum := by
  unfold sumOfCounts
  split
  · rename_i hlt
    exact iff_of_false (by simp) fun h => absurd hlt (Nat.not_lt.mpr h.1)
  · rename_i hlt
    rw [Except.error.injEq, eq_comm]
    exact (and_iff_right (Nat.not_lt.mp hlt)).symm

theorem windowAfter_eq_ok : windowAfter n = .ok k ↔ k.toNat = n.toNat + 1 :=
  sumOfCounts_eq_ok

theorem windowAfter_eq_error :
    windowAfter n = .error crash ↔ UInt64.size ≤ n.toNat + 1 ∧ crash = .countSum :=
  sumOfCounts_eq_error

theorem windowOfCoolDown_eq_ok : windowOfCoolDown n = .ok k ↔ k.toNat = n.toNat + 2 := by
  rw [Nat.add_comm]
  exact sumOfCounts_eq_ok

theorem windowOfCoolDown_eq_error :
    windowOfCoolDown n = .error crash ↔ UInt64.size ≤ n.toNat + 2 ∧ crash = .countSum := by
  rw [Nat.add_comm]
  exact sumOfCounts_eq_error

/-- A length that fits is counted. -/
theorem exists_windowAfter (h : n.toNat + 1 < UInt64.size) :
    ∃ k, windowAfter n = .ok k ∧ k.toNat = n.toNat + 1 :=
  ⟨_, windowAfter_eq_ok.mpr (UInt64.toNat_ofNat_of_lt h), UInt64.toNat_ofNat_of_lt h⟩

theorem exists_windowOfCoolDown (h : n.toNat + 2 < UInt64.size) :
    ∃ k, windowOfCoolDown n = .ok k ∧ k.toNat = n.toNat + 2 :=
  ⟨_, windowOfCoolDown_eq_ok.mpr (UInt64.toNat_ofNat_of_lt h), UInt64.toNat_ofNat_of_lt h⟩

end Lengths

/-! ### Values -/

/-- The window of a series is its end of that length. -/
theorem window?_eq_some_iff {length : UInt64} {xs window : List Float} :
    window? length xs = some window ↔ window <:+ xs ∧ window.length = length.toNat := by
  unfold window?
  constructor
  · intro h
    split at h
    · rename_i hle
      cases h
      refine ⟨List.drop_suffix _ _, ?_⟩
      rw [List.length_drop]
      omega
    · cases h
  · rintro ⟨⟨before, rfl⟩, hlength⟩
    have hle : length.toNat ≤ (before ++ window).length := by
      rw [List.length_append]
      omega
    have hbefore : (before ++ window).length - length.toNat = before.length := by
      rw [List.length_append]
      omega
    rw [if_pos hle, hbefore, List.drop_left]

theorem hasGap_eq_false {xs : List Float} :
    hasGap xs = false ↔ ∀ x ∈ xs, x.isFinite = true := by
  simp [hasGap]

/-- A window of two values or more has a last value and one before it. -/
theorem exists_last_two {window : List Float} (h : 2 ≤ window.length) :
    ∃ earlier before now, window = earlier ++ [before, now] := by
  obtain ⟨now, before, earlier, hreverse⟩ : ∃ now before earlier,
      window.reverse = now :: before :: earlier := by
    match hr : window.reverse with
    | now :: before :: earlier => exact ⟨now, before, earlier, rfl⟩
    | [_] | [] =>
      have hlength := congrArg List.length hr
      simp only [List.length_reverse, List.length_cons, List.length_nil] at hlength
      omega
  refine ⟨earlier.reverse, before, now, ?_⟩
  rw [← window.reverse_reverse, hreverse]
  simp

section Crossing

variable {fromBelow fromAbove : Bool} {level gap : Float} {window : List Float}

/-- **The verdict on a window with a last value and one before it** is decided, and says whether the
level is crossed at its end and all before the end keep to one side. -/
theorem evaluateCrossing_append (earlier : List Float) (before now : Float) :
    let v := evaluateCrossing level gap fromBelow fromAbove (earlier ++ [before, now])
    v.crash = none ∧ v.missing = false ∧
      v.passed = (crosses fromBelow fromAbove level gap before now &&
        keepsSide level before (earlier ++ [before])) := by
  have hreverse : (earlier ++ [before, now]).reverse = now :: before :: earlier.reverse := by simp
  have hearlier : (before :: earlier.reverse).reverse = earlier ++ [before] := by simp
  dsimp only [evaluateCrossing]
  rw [hreverse, ← hearlier]
  exact ⟨rfl, rfl, rfl⟩

theorem evaluateCrossing_passed_iff {earlier : List Float} {before now : Float} :
    (evaluateCrossing level gap fromBelow fromAbove (earlier ++ [before, now])).passed = true ↔
      crosses fromBelow fromAbove level gap before now = true ∧
        ∀ x ∈ earlier, decide (x < level) = decide (before < level) := by
  rw [(evaluateCrossing_append earlier before now).2.2, Bool.and_eq_true]
  simp [keepsSide]

theorem evaluateCrossing_crash (h : 2 ≤ window.length) :
    (evaluateCrossing level gap fromBelow fromAbove window).crash = none := by
  obtain ⟨earlier, before, now, rfl⟩ := exists_last_two h
  exact (evaluateCrossing_append earlier before now).1

end Crossing

/-! ### Checks that break down -/

namespace Check

/-- **The window of the check can be counted** in 64 bits. -/
def Countable : Check → Prop
  | trend _ _ n _ => n.toNat + 1 < UInt64.size
  | derivative _ _ _ persist => persist.toNat + 1 < UInt64.size
  | hysteresis _ _ _ coolDown _ _ => coolDown.toNat + 2 < UInt64.size
  | compare _ _ _ _ | fieldOrder _ _ | range _ _ _ _ | bounds _ _ _ => True

variable {k : Check} (name : String) (c : Context)

/-- A check whose window can be counted does not break down. -/
theorem crash_evaluate_of_countable (hk : k.Countable) : (k.evaluate name c).crash = none := by
  cases k with
  | compare left op right eps =>
    simp only [evaluate]
    split <;> rfl
  | fieldOrder direction fields =>
    simp only [evaluate]
    split <;> rfl
  | trend direction field n eps =>
    obtain ⟨needed, hneeded, -⟩ := exists_windowAfter hk
    simp only [evaluate, hneeded, onceCounted]
    split <;> rfl
  | range min max timeframes adapts =>
    simp only [evaluate, evaluateRange]
    split <;> rfl
  | hysteresis field level gap coolDown fromBelow fromAbove =>
    obtain ⟨needed, hneeded, hlength⟩ := exists_windowOfCoolDown hk
    simp only [evaluate, evaluateHysteresis, hneeded, onceCounted]
    split
    · rename_i window hwindow
      obtain ⟨xs, -, hxs⟩ := Option.bind_eq_some_iff.mp hwindow
      split
      · rfl
      · refine evaluateCrossing_crash ?_
        rw [(window?_eq_some_iff.mp hxs).2, hlength]
        exact Nat.le_add_left 2 _
    · split
      · split
        · exact evaluateCrossing_crash (Nat.le_refl 2)
        · rfl
      · rfl
  | derivative field above below persist =>
    obtain ⟨needed, hneeded, -⟩ := exists_windowAfter hk
    simp only [evaluate, hneeded, onceCounted]
    split <;> rfl
  | bounds field min max =>
    simp only [evaluate]
    split <;> rfl

/-- Any other one does, whatever the series. -/
theorem evaluate_of_not_countable (hk : ¬k.Countable) :
    k.evaluate name c = .broken .countSum := by
  cases k with
  | trend direction field n eps =>
    rw [evaluate, windowAfter_eq_error.mpr ⟨Nat.not_lt.mp hk, rfl⟩]
    rfl
  | derivative field above below persist =>
    rw [evaluate, windowAfter_eq_error.mpr ⟨Nat.not_lt.mp hk, rfl⟩]
    rfl
  | hysteresis field level gap coolDown fromBelow fromAbove =>
    rw [evaluate, evaluateHysteresis, windowOfCoolDown_eq_error.mpr ⟨Nat.not_lt.mp hk, rfl⟩]
    rfl
  | compare _ _ _ _ | fieldOrder _ _ | range _ _ _ _ | bounds _ _ _ => exact absurd trivial hk

/-- **A check breaks down only for a window that cannot be counted**, and then it does so in every
context. -/
theorem crash_evaluate {crash : Crash} :
    (k.evaluate name c).crash = some crash ↔ ¬k.Countable ∧ crash = .countSum := by
  constructor
  · intro h
    have hk : ¬k.Countable := by
      intro hk
      rw [crash_evaluate_of_countable name c hk] at h
      cases h
    rw [evaluate_of_not_countable name c hk] at h
    cases h
    exact ⟨hk, rfl⟩
  · rintro ⟨hk, rfl⟩
    rw [evaluate_of_not_countable name c hk]
    rfl

end Check

end TopDown
