import TopDown.Proofs.Account
import TopDown.Proofs.Calls

/-!
# How long a shortfall lasts

A step with too few bars is skipped, and its symbol is disabled until the missing bars have arrived.
The time that they take is added to the present. Two things may go wrong with it. The number of the
missing bars is counted as a signed number of 32 bits, so a large shortfall may come to a short time,
to none, or to one in the past. And the end may lie beyond the calendar, in which case the step breaks
down.

What we ask for is told of the symbol as a whole (`TopDown.Proportional`): from the present until the
missing bars have arrived it is refused on every timeframe. `TopDown.takeStep_shortfall` says that
this is so, whatever has been switched off before, exactly if the number of the missing bars fits and
their end lies in the calendar. `TopDown.takeStep_bars_lost` is a shortfall that disables nothing.
-/

namespace TopDown

/-! ### Instants ahead -/

namespace Instant

variable {t r : Instant} {seconds more : Int}

/-- The instant a positive number of seconds ahead, in the calendar or beyond it. -/
def ahead (t : Instant) (seconds : Int) : Instant :=
  ⟨t.seconds + seconds, if t.isLeap then t.nanos - nanosOfSecond else t.nanos⟩

theorem before_iff {a b : Instant} : a.before b = true ↔
    a.seconds < b.seconds ∨ (a.seconds = b.seconds ∧ a.nanos < b.nanos) := by
  simp [before]

theorem before_ahead (h : 0 < seconds) : t.before (t.ahead seconds) = true := by
  refine before_iff.mpr (.inl ?_)
  show t.seconds < t.seconds + seconds
  omega

theorem ahead_before_ahead (h : seconds < more) :
    (t.ahead seconds).before (t.ahead more) = true := by
  refine before_iff.mpr (.inl ?_)
  show t.seconds + seconds < t.seconds + more
  omega

/-- Adding some seconds ends there, if this lies in the calendar. -/
theorem later_of_pos (h : 0 < seconds) : t.later seconds =
    if inCalendar (t.seconds + seconds) = true then .ok (t.ahead seconds) else .error .instantSum := by
  have hback : (t.isLeap && decide (seconds < 0)) = false := by
    rw [decide_eq_false h.asymm, Bool.and_false]
  unfold later shift?
  simp only [if_neg h.ne', hback, Bool.false_eq_true, if_false, Int.add_zero]
  split <;> rename_i hr <;> split at hr <;> cases hr
  · rename_i hin
    rw [if_pos hin]
    rfl
  · rename_i hout
    rw [if_neg hout]

/-- Adding no time, or less, does not lead ahead. -/
theorem upTo_of_later (h : seconds ≤ 0) (hr : t.later seconds = .ok r) : r.upTo t = true := by
  have hshift : t.shift? seconds = some r := by
    unfold later at hr
    split at hr <;> cases hr
    assumption
  unfold shift? at hshift
  by_cases hzero : seconds = 0
  · rw [if_pos hzero] at hshift
    cases hshift
    exact upTo_refl t
  · have hneg : seconds < 0 := by omega
    dsimp only at hshift
    rw [if_neg hzero, Option.ite_none_right_eq_some] at hshift
    obtain ⟨-, heq⟩ := hshift
    cases heq
    rw [upTo_iff]
    dsimp only
    by_cases hleap : t.isLeap = true
    · -- going back counts the leap second as one more, and leaves it
      have hnanos : nanosOfSecond ≤ t.nanos := of_decide_eq_true hleap
      simp only [hleap, hneg, decide_true, Bool.and_true, if_true]
      omega
    · simp only [hleap, Bool.false_and, Bool.false_eq_true, if_false]
      omega

theorem later_error {crash : Crash} (h : t.later seconds = .error crash) : crash = .instantSum := by
  unfold later at h
  split at h <;> cases h
  rfl

/-- **A time that is counted too short** is over before the true one: there is an instant between the
two, or the present is one, where the end of the time that is counted lies behind it. -/
theorem exists_between (hcalendar : inCalendar t.seconds = true) (hr : t.later seconds = .ok r)
    (hless : seconds < more) (hmore : 0 < more) : ∃ time, t.upTo time = true ∧
      time.before (t.ahead more) = true ∧ inCalendar time.seconds = true ∧ r.upTo time = true := by
  rcases lt_or_ge 0 seconds with hsome | hnone
  · rw [later_of_pos hsome] at hr
    split at hr
    · rename_i hin
      cases hr
      exact ⟨_, upTo_of_before (before_ahead hsome), ahead_before_ahead hless, hin, upTo_refl _⟩
    · cases hr
  · exact ⟨t, upTo_refl t, before_ahead hmore, hcalendar, upTo_of_later hnone hr⟩

end Instant

/-! ### Disabling -/

/-- **A symbol that is disabled until an instant** is refused before it, and otherwise allowed as it
was. -/
theorem KillSwitch.allows_disableUntil (k : KillSwitch) (symbol : String) (t : Instant)
    (tf : Timeframe) (time : Instant) :
    (k.disableUntil symbol t).allows symbol tf time =
      (k.allows symbol tf time && t.upTo time) := by
  have hends : (k.disableUntil symbol t).disabledUntil symbol =
      some (((k.disabledUntil symbol).map fun earlier => earlier.latest t).getD t) :=
    Table.lookup_put_self _ _ _
  have hoff : (k.disableUntil symbol t).off = k.off := rfl
  rw [allows, allows, hends, hoff, Bool.and_assoc]
  congr 1
  cases k.disabledUntil symbol with
  | none => rfl
  | some earlier =>
    obtain ⟨hone, hearlier, ht⟩ := Instant.latest_spec earlier t
    show (earlier.latest t).upTo time = (earlier.upTo time && t.upTo time)
    rw [Bool.eq_iff_iff, Bool.and_eq_true]
    refine ⟨fun h => ⟨Instant.upTo_trans hearlier h, Instant.upTo_trans ht h⟩, fun h => ?_⟩
    rcases hone with hone | hone
    · rw [hone]
      exact h.1
    · rw [hone]
      exact h.2

/-! ### Shortfalls -/

theorem Timeframe.stepSeconds_pos (tf : Timeframe) : 0 < (tf.stepSeconds : Int) := by
  cases tf <;> decide

/-- A number that does not fit is counted as a smaller one. -/
theorem shortfallSeconds_lt (tf : Timeframe) {needed available : Nat} (h : available ≤ needed)
    (hlong : 2 ^ 31 ≤ needed - available) : shortfallSeconds tf needed available <
      tf.stepSeconds * ((needed - available : Nat) : Int) := by
  rw [shortfallSeconds, Int.ofNat_sub h]
  refine Int.mul_lt_mul_of_pos_left ?_ tf.stepSeconds_pos
  have hlt : Int.bmod ((needed : Int) - available) UInt32.size < (UInt32.size + 1) / 2 :=
    Int.bmod_lt (by decide)
  simp only [UInt32.size] at hlt ⊢
  omega

section Steps

variable {σ : Type} (source : BarSource σ) (build : ContextBuilder) (symbol : String)
  (view : RunView) (tf : Timeframe) (w : World σ)

/-- **The step disables its symbol in proportion** to the bars that are missing: it is skipped for
them, and from then on the symbol is refused until they have arrived. -/
structure Proportional (missing : Nat) : Prop where
  /-- The step is skipped. -/
  skipped : (takeStep source build tf symbol view w).1 = .ok (.skipped tf .insufficientData)
  /-- The symbol is refused on every timeframe. -/
  refuses : ∀ other time, view.now.upTo time = true →
    time.before (view.now.ahead (tf.stepSeconds * missing)) = true →
    Instant.inCalendar time.seconds = true →
    (takeStep source build tf symbol view w).2.switch.allows symbol other time = false

variable {source symbol view tf} {bars : List Bar} {s : σ}

/-- **What a step with too few bars comes to**: it is skipped, and its symbol is disabled until the end
of the time that the bars take as they are counted; or that end lies beyond the calendar, and the step
breaks down without disabling anything. -/
theorem takeStep_few
    (hbars : source.bars symbol tf (view.book.minBars tf) w.source = (.ok bars, s))
    (hfew : bars.length < (view.book.minBars tf).toNat) :
    let seconds := shortfallSeconds tf (view.book.minBars tf).toNat bars.length
    (∃ t, view.now.later seconds = .ok t ∧
      takeStep source build tf symbol view w =
        (.ok (.skipped tf .insufficientData), ⟨w.switch.disableUntil symbol t, s⟩)) ∨
    view.now.later seconds = .error .instantSum ∧
      takeStep source build tf symbol view w = (.error .instantSum, ⟨w.switch, s⟩) := by
  dsimp only
  have hstep : takeStep source build tf symbol view w =
      stepShortOfBars tf symbol view (view.book.minBars tf).toNat bars.length ⟨w.switch, s⟩ := by
    simp only [takeStep, hbars, if_pos hfew]
  rw [hstep, stepShortOfBars, KillSwitch.disableFor]
  cases hlater : view.now.later
      (shortfallSeconds tf (view.book.minBars tf).toNat bars.length) with
  | ok t => exact .inl ⟨t, rfl, rfl⟩
  | error crash =>
    obtain rfl := Instant.later_error hlater
    exact .inr ⟨rfl, rfl⟩

/-- **A shortfall disables the symbol in proportion**, whatever is switched off already, exactly if
the missing bars can be counted and their end lies in the calendar. -/
theorem takeStep_shortfall (hnow : Instant.inCalendar view.now.seconds = true) {before : σ}
    (hbars : source.bars symbol tf (view.book.minBars tf) before = (.ok bars, s))
    (hfew : bars.length < (view.book.minBars tf).toNat) :
    let missing := (view.book.minBars tf).toNat - bars.length
    (∀ switch, Proportional source build symbol view tf ⟨switch, before⟩ missing) ↔
      missing < 2 ^ 31 ∧
        Instant.inCalendar (view.now.seconds + tf.stepSeconds * missing) = true := by
  intro missing
  have hpos : 0 < missing := Nat.sub_pos_of_lt hfew
  have hahead : 0 < (tf.stepSeconds : Int) * missing :=
    Int.mul_pos tf.stepSeconds_pos (Int.natCast_pos.mpr hpos)
  constructor
  · intro hall
    -- we look at a switch that nothing has been switched off on
    obtain ⟨hskipped, hrefuses⟩ := hall .clear
    obtain ⟨t, ht, hstep⟩ | ⟨-, hstep⟩ := takeStep_few build ⟨.clear, before⟩ hbars hfew
    · have hshort : missing < 2 ^ 31 := by
        by_contra hmany
        have hless := shortfallSeconds_lt tf hfew.le (Nat.not_lt.mp hmany)
        obtain ⟨time, hfrom, hbefore, hin, hover⟩ := Instant.exists_between hnow ht hless hahead
        have hrefused := hrefuses tf time hfrom hbefore hin
        rw [hstep, KillSwitch.allows_disableUntil, hover] at hrefused
        cases hrefused
      rw [shortfallSeconds_eq hfew.le hshort, Instant.later_of_pos hahead] at ht
      split at ht
      · exact ⟨hshort, ‹_›⟩
      · cases ht
    · rw [hstep] at hskipped
      cases hskipped
  · rintro ⟨hshort, hend⟩ switch
    obtain ⟨t, ht, hstep⟩ | ⟨hcrash, -⟩ := takeStep_few build ⟨switch, before⟩ hbars hfew
    · rw [shortfallSeconds_eq hfew.le hshort, Instant.later_of_pos hahead, if_pos hend] at ht
      cases ht
      refine ⟨by rw [hstep], fun other time _ hbefore _ => ?_⟩
      rw [hstep, KillSwitch.allows_disableUntil, Instant.upTo, hbefore, Bool.not_true,
        Bool.and_false]
    · rw [shortfallSeconds_eq hfew.le hshort, Instant.later_of_pos hahead, if_pos hend] at hcrash
      cases hcrash

end Steps

/-- Forty-nine bars of fifteen minutes are missing: the symbol is disabled for twelve hours and a
quarter. -/
theorem takeStep_shortfall_quarters : ∃ b, Book.compile .builtin (.obj plainConfig) = .ok b ∧
    ((viewAfterTwoHours b).book.minBars .m15).toNat = 50 ∧
    Instant.inCalendar (viewAfterTwoHours b).now.seconds = true ∧
    ∀ switch, Proportional Pipeline.steadySource Pipeline.emptyBuilder "BTCUSDT"
      (viewAfterTwoHours b) .m15 ⟨switch, ()⟩ 49 := by
  have hrun : ((Book.compile .builtin (.obj plainConfig)).toOption.map fun b =>
      (b.minBars .m15).toNat) = some 50 := by decide +kernel
  obtain ⟨b, hb, hmin⟩ := Option.map_eq_some_iff.mp hrun
  have hnow : Instant.inCalendar (viewAfterTwoHours b).now.seconds = true :=
    show Instant.inCalendar 7320 = true by decide +kernel
  have hbook : ((viewAfterTwoHours b).book.minBars .m15).toNat = 50 := hmin
  have hbars : Pipeline.steadySource.bars "BTCUSDT" .m15
      ((viewAfterTwoHours b).book.minBars .m15) () = (.ok _, ()) := rfl
  have hiff := takeStep_shortfall Pipeline.emptyBuilder hnow hbars (by rw [hbook]; decide)
  rw [hbook] at hiff
  refine ⟨b, toOption_eq_some.mp hb, hbook, hnow, hiff.mpr ⟨by decide, ?_⟩⟩
  exact show Instant.inCalendar (7320 + 900 * 49) = true by decide +kernel

/-- A configuration that asks for a bar more than 32 bits can count. -/
def manyBars : Table Json :=
  [("validation", .obj [("timeframe", .obj [("5m", .obj [("long", .arr [.str "rsi_bullish"]),
    ("min_bars", .int 4294967297)])])])]

/-- **A shortfall that disables nothing**: with one bar at hand as many are missing as there are
numbers of 32 bits, which is counted as none. The step is skipped for them, and at the same instant
the symbol is allowed. -/
theorem takeStep_bars_lost : ∃ b, Book.compile .builtin (.obj manyBars) = .ok b ∧
    (b.minBars .m5).toNat - 1 = 4294967296 ∧
    ∃ w, takeStep Pipeline.steadySource Pipeline.emptyBuilder .m5 "BTCUSDT" (viewAfterTwoHours b)
        ⟨.clear, ()⟩ = (.ok (.skipped .m5 .insufficientData), w) ∧
      w.switch.allows "BTCUSDT" .m5 (viewAfterTwoHours b).now = true := by
  have hrun : ((Book.compile .builtin (.obj manyBars)).toOption.map fun b =>
      (b.minBars .m5).toNat) = some 4294967297 := by decide +kernel
  obtain ⟨b, hb, hmin⟩ := Option.map_eq_some_iff.mp hrun
  have hbook : ((viewAfterTwoHours b).book.minBars .m5).toNat = 4294967297 := hmin
  have hbars : Pipeline.steadySource.bars "BTCUSDT" .m5
      ((viewAfterTwoHours b).book.minBars .m5) () = (.ok _, ()) := rfl
  have hfew := takeStep_few Pipeline.emptyBuilder ⟨.clear, ()⟩ hbars (by rw [hbook]; decide)
  have hnone : shortfallSeconds .m5 4294967297 1 = 0 := by decide
  rw [hbook] at hfew
  change (∃ t, (viewAfterTwoHours b).now.later (shortfallSeconds .m5 4294967297 1) = .ok t ∧ _) ∨
    (viewAfterTwoHours b).now.later (shortfallSeconds .m5 4294967297 1) = _ ∧ _ at hfew
  rw [hnone] at hfew
  refine ⟨b, toOption_eq_some.mp hb, by rw [hmin], ?_⟩
  obtain ⟨t, ht, hstep⟩ | ⟨hcrash, -⟩ := hfew
  · cases ht
    exact ⟨_, hstep, rfl⟩
  · cases hcrash

end TopDown
