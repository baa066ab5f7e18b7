import TopDown.Proofs.CoolDown

/-!
# What a look back in time rests on

Three kinds of checks look at the latest values of a field: a trend and a derivative at its last
changes, and a hysteresis at the bars of its cool-down and the two after them. Such a check asks for
a number of values, and its verdict is honest if it rests on that many: they stand at the end of the
series of the field (`TopDown.Context.Latest`), or are the two values that a hysteresis without a
cool-down may use in their place (`TopDown.Check.Sees`). Where they are not to be had the check stays
undecided, and where they are it says of them what it is meant to say (`TopDown.Check.Says`).

The window has one value more than there are changes, and two more than the cool-down has bars. Its
length is counted in 64 bits like the other counts, and a count at the upper end has none. In whatever
context, a check is honest exactly if its window can be counted (`TopDown.Check.honest_iff`). If not, it
breaks down, also where the series is short and the check could as well stay undecided
(`TopDown.trend_uncountable`).
-/

namespace TopDown

/-! ### The latest values -/

/-- **The latest values of a field**: so many at the end of its series, all of them finite. -/
structure Context.Latest (c : Context) (field : String) (count : Nat) (latest : List Float) : Prop where
  /-- They stand at the end of the series. -/
  series : ∃ xs, c.series field = some xs ∧ latest <:+ xs
  /-- There are so many. -/
  length_eq : latest.length = count
  /-- They are finite. -/
  finite : ∀ x ∈ latest, x.isFinite = true

/-- The change from each value to the next is as asked. -/
def EachChange (asked : Float → Bool) (xs : List Float) : Prop :=
  ∀ i x y, xs[i]? = some x → xs[i + 1]? = some y → asked (y - x) = true

theorem eachChange_cons {asked : Float → Bool} {x y : Float} {rest : List Float} :
    EachChange asked (x :: y :: rest) ↔ asked (y - x) = true ∧ EachChange asked (y :: rest) := by
  constructor
  · exact fun h => ⟨h 0 x y rfl rfl, fun i => h (i + 1)⟩
  · rintro ⟨hfirst, hrest⟩ i x' y' hx hy
    cases i with
    | zero =>
      cases hx
      cases hy
      exact hfirst
    | succ i => exact hrest i x' y' hx hy

/-- Asking it of the differences of consecutive values is asking it of each change. -/
theorem all_consecutive_iff (asked : Float → Bool) (xs : List Float) :
    ((consecutive xs).map fun (x, y) => y - x).all asked = true ↔ EachChange asked xs := by
  induction xs with
  | nil => exact iff_of_true rfl fun i x y hx => by simp at hx
  | cons x rest ih =>
    cases rest with
    | nil => exact iff_of_true rfl fun i x' y' _ hy => by simp at hy
    | cons y rest =>
      rw [consecutive, List.map_cons, List.all_cons, Bool.and_eq_true, eachChange_cons, ih]

variable {c : Context} {field : String} {count : UInt64}

/-- **The window of a field that has no gap** is made of its latest values. -/
theorem window_latest {window : List Float} :
    (c.series field).bind (window? count) = some window ∧ hasGap window = false ↔
      c.Latest field count.toNat window := by
  rw [Option.bind_eq_some_iff, hasGap_eq_false]
  constructor
  · rintro ⟨⟨xs, hxs, hwindow⟩, hfinite⟩
    obtain ⟨hsuffix, hlength⟩ := window?_eq_some_iff.mp hwindow
    exact ⟨⟨xs, hxs, hsuffix⟩, hlength, hfinite⟩
  · rintro ⟨⟨xs, hxs, hsuffix⟩, hlength, hfinite⟩
    exact ⟨⟨xs, hxs, window?_eq_some_iff.mpr ⟨hsuffix, hlength⟩⟩, hfinite⟩

/-- There is one window of the latest values at most. -/
theorem Context.Latest.unique {n : Nat} {latest other : List Float} (h : c.Latest field n latest)
    (h' : c.Latest field n other) : latest = other := by
  obtain ⟨xs, hxs, hsuffix⟩ := h.series
  obtain ⟨xs', hxs', hsuffix'⟩ := h'.series
  obtain rfl : xs = xs' := Option.some.inj (hxs.symm.trans hxs')
  exact List.IsSuffix.eq_of_length_le
    (List.suffix_of_suffix_length_le hsuffix hsuffix' (h.length_eq.trans h'.length_eq.symm).le)
    (h'.length_eq.trans h.length_eq.symm).le

/-- The changes of a field are those of its latest values. -/
theorem changes_eq_some_iff {changes : List Float} : c.changes field count = some changes ↔
    ∃ latest, c.Latest field count.toNat latest ∧
      changes = (consecutive latest).map fun (x, y) => y - x := by
  have hunfold : c.changes field count = ((c.series field).bind (window? count)).bind
      fun w => if hasGap w then none else some ((consecutive w).map fun (x, y) => y - x) := by
    unfold Context.changes
    cases c.series field <;> rfl
  rw [hunfold, Option.bind_eq_some_iff]
  constructor
  · rintro ⟨w, hw, h⟩
    split at h
    · cases h
    · rename_i hgap
      cases h
      exact ⟨w, window_latest.mp ⟨hw, Bool.not_eq_true _ ▸ hgap⟩, rfl⟩
  · rintro ⟨w, hw, rfl⟩
    obtain ⟨hwindow, hgap⟩ := window_latest.mpr hw
    exact ⟨w, hwindow, by rw [hgap]; rfl⟩

/-! ### Checks that look back -/

namespace Check

/-- The check looks at the latest values of a field. -/
inductive LooksBack : Check → Prop
  /-- A trend. -/
  | trend (direction : Direction) (field : String) (n : UInt64) (eps : Float) :
    LooksBack (.trend direction field n eps)
  /-- A derivative. -/
  | derivative (field : String) (above below : Option Float) (persist : UInt64) :
    LooksBack (.derivative field above below persist)
  /-- A hysteresis. -/
  | hysteresis (field : String) (level : Option Float) (gap : Float) (coolDown : UInt64)
    (fromBelow fromAbove : Bool) :
    LooksBack (.hysteresis field level gap coolDown fromBelow fromAbove)

/-- **What the check sees in a context**, if it sees enough: as many of the latest values as it speaks
of. -/
inductive Sees (c : Context) : Check → List Float → Prop
  /-- A trend asks for the values between which the changes lie. -/
  | trend {direction : Direction} {field : String} {n : UInt64} {eps : Float} {latest : List Float}
    (h : c.Latest field (n.toNat + 1) latest) : Sees c (.trend direction field n eps) latest
  /-- So does a derivative. -/
  | derivative {field : String} {above below : Option Float} {persist : UInt64}
    {latest : List Float} (h : c.Latest field (persist.toNat + 1) latest) :
    Sees c (.derivative field above below persist) latest
  /-- A hysteresis asks for the values of its cool-down and the two after them. -/
  | hysteresis {field : String} {level : Option Float} {gap : Float} {coolDown : UInt64}
    {fromBelow fromAbove : Bool} {latest : List Float}
    (h : c.Latest field (coolDown.toNat + 2) latest) :
    Sees c (.hysteresis field level gap coolDown fromBelow fromAbove) latest
  /-- Without a cool-down, and with a series that is too short, the value one bar ago and the current
  one will do. -/
  | pair {field : String} {level : Option Float} {gap before now : Float}
    {fromBelow fromAbove : Bool} (hshort : ∀ xs, c.series field = some xs → xs.length < 2)
    (hbefore : c.previous field = some before) (hnow : c.number field = some now) :
    Sees c (.hysteresis field level gap 0 fromBelow fromAbove) [before, now]

/-- **What the check says of the values that it sees**: each change is as asked, or the last value has
crossed the level that all before it have kept to one side of. -/
def Says (name : String) (c : Context) (values : List Float) : Check → Prop
  | .trend direction _ _ eps => EachChange (direction.clears eps) values
  | .derivative _ above below _ => EachChange (fun x =>
      (above.map (c.thresholdOr name)).all (fun a => x > a) && below.all (fun b => x < b)) values
  | .hysteresis _ level gap _ fromBelow fromAbove =>
    let level := ((c.threshold? name).or level).getD 0.0
    ∃ earlier before now, values = earlier ++ [before, now] ∧
      crosses fromBelow fromAbove level gap before now = true ∧
      ∀ x ∈ earlier, decide (x < level) = decide (before < level)
  | _ => True

/-- **The check is honest in a context**: it does not break down, it is decided if and only if it sees
enough, and then its verdict is what it says of what it sees. -/
structure Honest (name : String) (c : Context) (k : Check) : Prop where
  /-- The check does not break down. -/
  returns : (k.evaluate name c).crash = none
  /-- It is decided where it sees enough. -/
  decided_iff : (k.evaluate name c).missing = false ↔ ∃ values, k.Sees c values
  /-- It passes if what it says is true. -/
  passed_iff : ∀ values, k.Sees c values →
    ((k.evaluate name c).passed = true ↔ k.Says name c values)

end Check

/-! ### Windows that can be counted -/

/-- The changes of a field are the ones that its latest values show. -/
theorem changes_of_latest {latest : List Float} (h : c.Latest field count.toNat latest) :
    c.changes field count = some ((consecutive latest).map fun (x, y) => y - x) :=
  changes_eq_some_iff.mpr ⟨latest, h, rfl⟩

theorem changes_of_blind (h : ∀ latest, ¬c.Latest field count.toNat latest) :
    c.changes field count = none := by
  refine Option.eq_none_iff_forall_ne_some.mpr fun changes hchanges => ?_
  obtain ⟨latest, hlatest, -⟩ := changes_eq_some_iff.mp hchanges
  exact h latest hlatest

variable {fromBelow fromAbove : Bool} {level gap : Float}

/-- A window of two values or more passes when the level is crossed at its end and all before the end
keep to one side. -/
theorem evaluateCrossing_says {window : List Float} (h : 2 ≤ window.length) :
    (evaluateCrossing level gap fromBelow fromAbove window).passed = true ↔
      ∃ earlier before now, window = earlier ++ [before, now] ∧
        crosses fromBelow fromAbove level gap before now = true ∧
        ∀ x ∈ earlier, decide (x < level) = decide (before < level) := by
  constructor
  · intro hpassed
    obtain ⟨earlier, before, now, rfl⟩ := exists_last_two h
    exact ⟨earlier, before, now, rfl, evaluateCrossing_passed_iff.mp hpassed⟩
  · rintro ⟨earlier, before, now, rfl, hsays⟩
    exact evaluateCrossing_passed_iff.mpr hsays

/-- A window of two values is missing where the series is shorter. -/
theorem window?_eq_none_of_two (htwo : count.toNat = 2) {xs : List Float} :
    window? count xs = none ↔ xs.length < 2 := by
  rw [window?, htwo]
  split
  · rename_i hle
    exact iff_of_false (by simp) (Nat.not_lt.mpr hle)
  · rename_i hlt
    exact iff_of_true rfl (Nat.not_le.mp hlt)

/-- Where a series has a window and no gap, the verdict of a hysteresis is the one on the window. -/
theorem evaluateHysteresis_latest (hcount : count.toNat + 2 < UInt64.size) {latest : List Float}
    (h : c.Latest field (count.toNat + 2) latest) :
    evaluateHysteresis field level gap count fromBelow fromAbove c
      = evaluateCrossing level gap fromBelow fromAbove latest := by
  obtain ⟨needed, hneeded, hlength⟩ := exists_windowOfCoolDown hcount
  rw [← hlength] at h
  obtain ⟨hwindow, hgap⟩ := window_latest.mpr h
  simp only [evaluateHysteresis, hneeded, onceCounted, hwindow, hgap]
  rfl

/-- With a series that is too short, and without a cool-down, it is the one on the pair. -/
theorem evaluateHysteresis_pair (hshort : ∀ xs, c.series field = some xs → xs.length < 2)
    {before now : Float} (hbefore : c.previous field = some before)
    (hnow : c.number field = some now) :
    evaluateHysteresis field level gap 0 fromBelow fromAbove c
      = evaluateCrossing level gap fromBelow fromAbove [before, now] := by
  have hzero : (0 : UInt64).toNat + 2 < UInt64.size := by decide
  obtain ⟨needed, hneeded, hlength⟩ := exists_windowOfCoolDown hzero
  have hwindow : (c.series field).bind (window? needed) = none :=
    Option.bind_eq_none_iff.mpr fun xs hxs => (window?_eq_none_of_two hlength).mpr (hshort xs hxs)
  simp only [evaluateHysteresis, hneeded, onceCounted, hwindow, hbefore, hnow]
  rfl

namespace Check

variable {name : String} {k : Check}

/-- A check is honest if it is decided as it should be where it sees enough, and undecided where it
does not. -/
theorem Honest.of_sees
    (hsees : ∀ values, k.Sees c values → (k.evaluate name c).crash = none ∧
      (k.evaluate name c).missing = false ∧
      ((k.evaluate name c).passed = true ↔ k.Says name c values))
    (hblind : (∀ values, ¬k.Sees c values) →
      (k.evaluate name c).crash = none ∧ (k.evaluate name c).missing = true) :
    k.Honest name c where
  returns := by
    by_cases h : ∃ values, k.Sees c values
    · obtain ⟨values, hvalues⟩ := h
      exact (hsees values hvalues).1
    · exact (hblind fun values hvalues => h ⟨values, hvalues⟩).1
  decided_iff := by
    constructor
    · intro hdecided
      by_contra h
      have hmissing := (hblind fun values hvalues => h ⟨values, hvalues⟩).2
      rw [hdecided] at hmissing
      cases hmissing
    · rintro ⟨values, hvalues⟩
      exact (hsees values hvalues).2.1
  passed_iff values hvalues := (hsees values hvalues).2.2

/-- **A check that asks the same of each change** is honest, if its window can be counted. -/
theorem Honest.of_changes {asked : Float → Bool} {verdict : List Float → Verdict}
    (hcount : count.toNat + 1 < UInt64.size)
    (heval : k.evaluate name c = onceCounted (windowAfter count) fun needed =>
      match c.changes field needed with
      | none => tooShort needed field
      | some changes => verdict changes)
    (hsees : ∀ values, k.Sees c values ↔ c.Latest field (count.toNat + 1) values)
    (hasks : ∀ values, k.Says name c values ↔ EachChange asked values)
    (hverdict : ∀ changes, (verdict changes).crash = none ∧ (verdict changes).missing = false ∧
      (verdict changes).passed = changes.all asked) : k.Honest name c := by
  obtain ⟨needed, hneeded, hlength⟩ := exists_windowAfter hcount
  rw [hneeded] at heval
  refine .of_sees ?_ ?_
  · intro latest hlatest
    rw [hsees, ← hlength] at hlatest
    have hchanges : k.evaluate name c = verdict ((consecutive latest).map fun (x, y) => y - x) := by
      rw [heval, onceCounted, changes_of_latest hlatest]
    obtain ⟨hcrash, hmissing, hpassed⟩ := hverdict ((consecutive latest).map fun (x, y) => y - x)
    rw [hchanges, hasks, hpassed]
    exact ⟨hcrash, hmissing, all_consecutive_iff asked latest⟩
  · intro hblind
    have hnone : c.changes field needed = none :=
      changes_of_blind fun latest h => hblind latest ((hsees latest).mpr (hlength ▸ h))
    rw [heval, onceCounted, hnone]
    exact ⟨rfl, rfl⟩

theorem honest_trend {direction : Direction} {eps : Float} (hcount : count.toNat + 1 < UInt64.size) :
    (trend direction field count eps).Honest name c := by
  refine .of_changes hcount rfl (fun values => ⟨?_, .trend⟩) (fun values => Iff.rfl) fun changes =>
    ⟨rfl, rfl, rfl⟩
  rintro (h | _)
  exact h

theorem honest_derivative {above below : Option Float} (hcount : count.toNat + 1 < UInt64.size) :
    (derivative field above below count).Honest name c := by
  refine .of_changes hcount rfl (fun values => ⟨?_, .derivative⟩) (fun values => Iff.rfl)
    fun changes => ⟨rfl, rfl, rfl⟩
  rintro (_ | h)
  exact h

/-- **A hysteresis that does not see enough** stays undecided. -/
theorem evaluateHysteresis_blind {level? : Option Float} (hcount : count.toNat + 2 < UInt64.size)
    (hblind : ∀ values, ¬(hysteresis field level? gap count fromBelow fromAbove).Sees c values) :
    (evaluateHysteresis field level gap count fromBelow fromAbove c).crash = none ∧
      (evaluateHysteresis field level gap count fromBelow fromAbove c).missing = true := by
  obtain ⟨needed, hneeded, hlength⟩ := exists_windowOfCoolDown hcount
  simp only [evaluateHysteresis, hneeded, onceCounted]
  split
  · rename_i window hwindow
    split
    · exact ⟨rfl, rfl⟩
    · rename_i hgap
      have hlatest := window_latest.mp ⟨hwindow, Bool.not_eq_true _ ▸ hgap⟩
      rw [hlength] at hlatest
      exact absurd (.hysteresis hlatest) (hblind window)
  · rename_i hwindow
    split
    · rename_i hzero
      subst hzero
      split
      · rename_i before now hbefore hnow
        have hshort (xs : List Float) (hxs : c.series field = some xs) : xs.length < 2 :=
          (window?_eq_none_of_two hlength).mp (Option.bind_eq_none_iff.mp hwindow xs hxs)
        exact absurd (.pair hshort hbefore hnow) (hblind [before, now])
      · exact ⟨rfl, rfl⟩
    · exact ⟨rfl, rfl⟩

theorem honest_hysteresis {level? : Option Float} (hcount : count.toNat + 2 < UInt64.size) :
    (hysteresis field level? gap count fromBelow fromAbove).Honest name c := by
  -- both kinds of windows have two values or more
  have hwindow {values : List Float} (hlength : 2 ≤ values.length)
      (heval : evaluate name c (hysteresis field level? gap count fromBelow fromAbove) =
        evaluateCrossing (((c.threshold? name).or level?).getD 0.0) gap fromBelow fromAbove values) :
      (evaluate name c (hysteresis field level? gap count fromBelow fromAbove)).crash = none ∧
        (evaluate name c (hysteresis field level? gap count fromBelow fromAbove)).missing = false ∧
        ((evaluate name c (hysteresis field level? gap count fromBelow fromAbove)).passed = true ↔
          (hysteresis field level? gap count fromBelow fromAbove).Says name c values) := by
    rw [heval]
    refine ⟨evaluateCrossing_crash hlength, ?_, evaluateCrossing_says hlength⟩
    obtain ⟨earlier, before, now, rfl⟩ := exists_last_two hlength
    exact (evaluateCrossing_append earlier before now).2.1
  refine .of_sees ?_ fun hblind => ?_
  · rintro values (_ | _ | hlatest | ⟨hshort, hbefore, hnow⟩)
    · refine hwindow ?_ (evaluateHysteresis_latest hcount hlatest)
      rw [hlatest.length_eq]
      exact Nat.le_add_left 2 _
    · exact hwindow (Nat.le_refl 2) (evaluateHysteresis_pair hshort hbefore hnow)
  · rw [evaluate]
    exact evaluateHysteresis_blind hcount hblind

end Check

/-! ### Honest checks -/

/-- **A check that looks back is honest if and only if its window can be counted**, whatever the
context; and if it cannot be, the check breaks down in every one. -/
theorem Check.honest_iff {k : Check} (hk : k.LooksBack) (name : String) (c : Context) :
    (k.Honest name c ↔ k.Countable) ∧
      (¬k.Countable → k.evaluate name c = .broken .countSum) := by
  refine ⟨⟨fun honest => ?_, fun hcount => ?_⟩, evaluate_of_not_countable name c⟩
  · by_contra hcount
    have hreturns := honest.returns
    rw [evaluate_of_not_countable name c hcount] at hreturns
    cases hreturns
  · cases hk with
    | trend => exact honest_trend hcount
    | derivative => exact honest_derivative hcount
    | hysteresis => exact honest_hysteresis hcount

/-- A trend over two changes is honest where there are three values, and sees them. -/
theorem Check.honest_twice : (trend .up "rsi" 2 0.0).LooksBack ∧
    (trend .up "rsi" 2 0.0).Honest "up" (.ofFacts "S" .h1 [("rsi", .series [50.0, 51.0, 52.0])]) ∧
    (trend .up "rsi" 2 0.0).Sees (.ofFacts "S" .h1 [("rsi", .series [50.0, 51.0, 52.0])])
      [50.0, 51.0, 52.0] := by
  have hcount : (trend .up "rsi" 2 0.0).Countable := show 3 < UInt64.size by decide
  have hfinite : ∀ x ∈ [50.0, 51.0, 52.0], Float.isFinite x = true := by decide +kernel
  exact ⟨.trend _ _ _ _, (honest_iff (.trend _ _ _ _) _ _).1.mpr hcount,
    .trend ⟨⟨_, (shows_ofFacts _ _ _ _).series, List.suffix_rfl⟩, rfl, hfinite⟩⟩

/-- **A trend that breaks down instead of staying undecided**: it asks for more changes than one window
can count, and the field has a single value. -/
theorem trend_uncountable :
    ∃ k : Check, Rule.parse [] (.obj [("increasing", .str "rsi"),
        ("n", .int 18446744073709551615)]) = .ok (.check k) ∧
      (k.evaluate "up" (.ofFacts "S" .h1 [("rsi", .series [50.0])])).crash = some .countSum ∧
      ∀ values, ¬k.Sees (.ofFacts "S" .h1 [("rsi", .series [50.0])]) values := by
  refine ⟨.trend .up "rsi" 18446744073709551615 0.0, rfl, rfl, ?_⟩
  rintro values (hlatest | _)
  obtain ⟨xs, hxs, hsuffix⟩ := hlatest.series
  rw [(shows_ofFacts "S" .h1 "rsi" [50.0]).series] at hxs
  cases hxs
  have hle := hsuffix.length_le
  rw [hlatest.length_eq] at hle
  exact absurd hle (by decide)

end TopDown
