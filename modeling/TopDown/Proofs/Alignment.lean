import TopDown.Proofs.Shortfall

/-!
# Where bars open

The bars of a timeframe follow one another without gaps, and one of them opens at the epoch. So an
instant at which a bar opens (`TopDown.Instant.OpensBar`) is a whole number of bars away from the
epoch, before it or after it, and the bar that an instant falls into opens at the last of them that
has come (`TopDown.Timeframe.upTo_barOpen_iff`). All the rest is read off this: the opening is
reached once and for all, it does not go back as time passes, and the bars of a coarser timeframe
are made of whole bars of a finer one.

A bar is closed when it is no longer the one of the present. There are two more ways to say so, which
count the seconds differently: its opening is not after the instant one bar ago, or its close is not
after the present. `TopDown.Timeframe.barOpen_aligned` says that the three agree wherever the clock can
count.
-/

namespace TopDown

namespace Instant

/-- **An instant that the clock shows**: it lies in the calendar and not in a leap second. -/
structure Regular (t : Instant) : Prop where
  /-- It lies in the calendar. -/
  inCalendar : Instant.inCalendar t.seconds = true
  /-- It does not lie in a leap second. -/
  noLeap : t.isLeap = false

/-- **A bar of the timeframe may open there**: a whole number of bars lies between the instant and the
epoch. -/
structure OpensBar (tf : Timeframe) (t : Instant) : Prop where
  /-- It is a whole second. -/
  nanos : t.nanos = 0
  /-- The seconds since the epoch, or until then, make whole bars. -/
  dvd : (tf.stepSeconds : Int) ∣ t.seconds

variable {t : Instant} {seconds : Int}

theorem Regular.nanos_lt (h : t.Regular) : t.nanos < nanosOfSecond := by
  have := h.noLeap
  rw [isLeap, decide_eq_false_iff_not] at this
  exact Nat.not_le.mp this

/-- Going back outside of leap seconds. -/
theorem earlier_of_pos (hleap : t.isLeap = false) (h : 0 < seconds)
    (hin : inCalendar (t.seconds - seconds) = true) :
    t.earlier seconds = .ok ⟨t.seconds - seconds, t.nanos⟩ := by
  have hne : -seconds ≠ 0 := by omega
  unfold earlier shift?
  simp only [if_neg hne, hleap, Bool.false_and, Bool.false_eq_true, if_false, Int.add_zero,
    ← Int.sub_eq_add_neg, if_pos hin]

end Instant

namespace Timeframe

open Instant (OpensBar)

variable {tf : Timeframe} {t u g : Instant}

/-! ### Bars and days -/

/-- A bar of a coarser timeframe is made of whole bars of a finer one. -/
theorem stepSeconds_dvd {coarse fine : Timeframe} (h : coarse.rank ≤ fine.rank) :
    (fine.stepSeconds : Int) ∣ coarse.stepSeconds := by
  cases coarse <;> cases fine <;> first | decide | exact absurd h (by decide)

theorem stepSeconds_dvd_day (tf : Timeframe) : (tf.stepSeconds : Int) ∣ Instant.secondsOfDay := by
  cases tf <;> decide

/-- A bar opens with the calendar. -/
theorem stepSeconds_dvd_firstSecond (tf : Timeframe) :
    (tf.stepSeconds : Int) ∣ Instant.firstSecond :=
  Dvd.dvd.mul_left tf.stepSeconds_dvd_day _

/-- The last multiple of a number that is not above another. -/
theorem le_sub_emod_iff {n a b : Int} (hn : 0 < n) (ha : n ∣ a) : a ≤ b - b % n ↔ a ≤ b := by
  obtain ⟨k, rfl⟩ := ha
  have hb : b - b % n = n * (b / n) := by
    have := Int.mul_ediv_add_emod b n
    omega
  rw [hb, Int.mul_le_mul_left hn, Int.le_ediv_iff_mul_le hn, Int.mul_comm]

/-! ### The opening of a bar -/

/-- The opening never lies before the calendar. -/
theorem barOpen_eq (tf : Timeframe) (ht : Instant.inCalendar t.seconds = true) :
    tf.barOpen t = ⟨t.seconds - t.seconds % tf.stepSeconds, 0⟩ := by
  have hin : Instant.inCalendar (t.seconds - t.seconds % tf.stepSeconds) = true := by
    rw [Instant.inCalendar, Bool.and_eq_true, decide_eq_true_eq, decide_eq_true_eq] at ht ⊢
    have hrest := Int.emod_nonneg t.seconds tf.stepSeconds_pos.ne'
    exact ⟨(le_sub_emod_iff tf.stepSeconds_pos tf.stepSeconds_dvd_firstSecond).mpr ht.1, by omega⟩
  rw [barOpen, Instant.ofSeconds?, if_pos hin]
  rfl

theorem inCalendar_barOpen (tf : Timeframe) (ht : Instant.inCalendar t.seconds = true) :
    Instant.inCalendar (tf.barOpen t).seconds = true := by
  unfold barOpen Instant.ofSeconds?
  split
  · assumption
  · exact ht

/-- A bar opens at the opening of a bar. -/
theorem opensBar_barOpen (tf : Timeframe) (ht : Instant.inCalendar t.seconds = true) :
    (tf.barOpen t).OpensBar tf := by
  rw [barOpen_eq tf ht]
  exact ⟨rfl, Int.dvd_self_sub_emod⟩

/-- **The opening is the last that has come**: of the instants at which a bar opens, those that are not
after it are those that are not after the present. -/
theorem upTo_barOpen_iff (ht : Instant.inCalendar t.seconds = true) (hg : g.OpensBar tf) :
    g.upTo (tf.barOpen t) = true ↔ g.upTo t = true := by
  have hseconds := le_sub_emod_iff (b := t.seconds) tf.stepSeconds_pos hg.dvd
  rw [barOpen_eq tf ht, Instant.upTo_iff, Instant.upTo_iff, hg.nanos]
  dsimp only
  omega

theorem barOpen_upTo (tf : Timeframe) (ht : Instant.inCalendar t.seconds = true) :
    (tf.barOpen t).upTo t = true :=
  (upTo_barOpen_iff ht (opensBar_barOpen tf ht)).mp (Instant.upTo_refl _)

/-- Two instants have one opening if the same openings have come by then. -/
theorem barOpen_congr (ht : Instant.inCalendar t.seconds = true)
    (hu : Instant.inCalendar u.seconds = true)
    (h : ∀ g : Instant, g.OpensBar tf → (g.upTo t = true ↔ g.upTo u = true)) :
    tf.barOpen t = tf.barOpen u := by
  have hto := opensBar_barOpen tf ht
  have huo := opensBar_barOpen tf hu
  refine Instant.upTo_antisymm ?_ ?_
  · exact (upTo_barOpen_iff hu hto).mpr ((h _ hto).mp (barOpen_upTo tf ht))
  · exact (upTo_barOpen_iff ht huo).mpr ((h _ huo).mpr (barOpen_upTo tf hu))

/-- **Bars of two timeframes**: a bar of a coarser timeframe opens where one of a finer one does, so
the bar that an instant falls into may be told from the opening of its bar on the finer one. -/
theorem barOpen_barOpen {coarse fine : Timeframe} (h : coarse.rank ≤ fine.rank)
    (ht : Instant.inCalendar t.seconds = true) :
    coarse.barOpen (fine.barOpen t) = coarse.barOpen t :=
  barOpen_congr (inCalendar_barOpen fine ht) ht fun _ hg =>
    upTo_barOpen_iff ht ⟨hg.nanos, (stepSeconds_dvd h).trans hg.dvd⟩

/-- Less than a bar has passed since the opening. -/
theorem nanosSince_barOpen_lt (tf : Timeframe) (ht : t.Regular) :
    t.nanosSince (tf.barOpen t) < tf.stepSeconds * Instant.nanosOfSecond := by
  have hrest := Int.emod_lt_of_pos t.seconds tf.stepSeconds_pos
  have hnanos := ht.nanos_lt
  rw [barOpen_eq tf ht.inCalendar, Instant.nanosSince]
  dsimp only
  rw [Int.sub_sub_self]
  simp only [Instant.nanosOfSecond] at hnanos ⊢
  omega

end Timeframe

/-! ### Bars that are closed -/

namespace Instant.OpensBar

variable {tf : Timeframe} {g h : Instant}

theorem noLeap (hg : g.OpensBar tf) : g.isLeap = false := by
  rw [isLeap, hg.nanos]
  rfl

/-- One bar later the next one opens. -/
theorem ahead (hg : g.OpensBar tf) : (g.ahead tf.stepSeconds).OpensBar tf where
  nanos := by
    show (if g.isLeap = true then _ else g.nanos) = 0
    rw [hg.noLeap]
    exact hg.nanos
  dvd := Int.dvd_add hg.dvd (Int.dvd_refl _)

/-- Between two openings there is room for a bar. -/
theorem before_iff (hg : g.OpensBar tf) (hh : h.OpensBar tf) :
    g.before h = true ↔ (g.ahead tf.stepSeconds).upTo h = true := by
  obtain ⟨k, hk⟩ := hg.dvd
  obtain ⟨l, hl⟩ := hh.dvd
  have hpos := tf.stepSeconds_pos
  have hroom : g.seconds < h.seconds ↔ g.seconds + tf.stepSeconds ≤ h.seconds := by
    have hnext : (tf.stepSeconds : Int) * k + tf.stepSeconds = tf.stepSeconds * (k + 1) := by ring
    rw [hk, hl, hnext, Int.mul_le_mul_left hpos, Int.mul_lt_mul_left hpos, Int.add_one_le_iff]
  rw [Instant.before_iff, Instant.upTo_iff, hg.ahead.nanos, hg.nanos, hh.nanos]
  show g.seconds < h.seconds ∨ _ ↔ g.seconds + tf.stepSeconds < h.seconds ∨
    g.seconds + tf.stepSeconds = h.seconds ∧ _
  omega

end Instant.OpensBar

namespace Bar

open Instant (OpensBar)

variable {b : Bar} {now : Instant}

/-- When a bar closes. -/
theorem closeTime_eq
    (hin : Instant.inCalendar (b.openTime.seconds + b.timeframe.stepSeconds) = true) :
    b.closeTime = .ok (b.openTime.ahead b.timeframe.stepSeconds) := by
  rw [closeTime, Instant.later_of_pos b.timeframe.stepSeconds_pos, if_pos hin]

/-- **Going back from the present is going on from the opening**: the bar is closed once its close has
come. -/
theorem isClosedAt_eq (hopen : b.openTime.OpensBar b.timeframe) (hnow : now.Regular)
    (hin : Instant.inCalendar (now.seconds - b.timeframe.stepSeconds) = true) :
    b.isClosedAt now = .ok ((b.openTime.ahead b.timeframe.stepSeconds).upTo now) := by
  rw [isClosedAt, Instant.earlier_of_pos hnow.noLeap b.timeframe.stepSeconds_pos hin]
  refine congrArg Except.ok (Bool.eq_iff_iff.mpr ?_)
  rw [Instant.upTo_iff, Instant.upTo_iff, hopen.ahead.nanos, hopen.nanos]
  show _ ↔ b.openTime.seconds + b.timeframe.stepSeconds < now.seconds ∨
    b.openTime.seconds + b.timeframe.stepSeconds = now.seconds ∧ _
  dsimp only
  omega

/-- The close has come when the bar is no longer the one of the present. -/
theorem ahead_upTo_iff (hopen : b.openTime.OpensBar b.timeframe)
    (hnow : Instant.inCalendar now.seconds = true) :
    (b.openTime.ahead b.timeframe.stepSeconds).upTo now = true ↔
      b.openTime.before (b.timeframe.barOpen now) = true := by
  rw [hopen.before_iff (Timeframe.opensBar_barOpen _ hnow),
    Timeframe.upTo_barOpen_iff hnow hopen.ahead]

end Bar

/-- **How bars divide time**, before the epoch and after it: the bar that an instant falls into opens a
whole number of bars from the epoch, not after the instant, and less than a bar before it. The opening
of an opening is itself, later instants have no earlier openings, and a bar of a coarser timeframe
opens where the bar of its opening on a finer one does. A bar that opens where it should is closed
exactly if it opened before the bar of the present, and exactly if its close is not after the
present. -/
theorem Timeframe.barOpen_aligned {t : Instant} (ht : t.Regular) (tf : Timeframe) :
    ((tf.barOpen t).OpensBar tf ∧ (tf.barOpen t).upTo t = true ∧
      t.nanosSince (tf.barOpen t) < tf.stepSeconds * Instant.nanosOfSecond) ∧
    tf.barOpen (tf.barOpen t) = tf.barOpen t ∧
    (∀ u : Instant, u.Regular → t.upTo u = true → (tf.barOpen t).upTo (tf.barOpen u) = true) ∧
    (∀ coarse : Timeframe, coarse.rank ≤ tf.rank →
      coarse.barOpen (tf.barOpen t) = coarse.barOpen t) ∧
    ∀ b : Bar, b.timeframe = tf → b.openTime.OpensBar tf →
      Instant.inCalendar (t.seconds - tf.stepSeconds) = true →
      Instant.inCalendar (b.openTime.seconds + tf.stepSeconds) = true →
      ∃ close closed, b.closeTime = .ok close ∧ b.isClosedAt t = .ok closed ∧
        (closed = true ↔ b.openTime.before (tf.barOpen t) = true) ∧
        (closed = true ↔ close.upTo t = true) := by
  have hin := ht.inCalendar
  refine ⟨⟨opensBar_barOpen tf hin, barOpen_upTo tf hin, nanosSince_barOpen_lt tf ht⟩,
    barOpen_barOpen (Nat.le_refl _) hin, fun u hu hle => ?_, fun coarse h => barOpen_barOpen h hin, ?_⟩
  · exact (upTo_barOpen_iff hu.inCalendar (opensBar_barOpen tf hin)).mpr
      (Instant.upTo_trans (barOpen_upTo tf hin) hle)
  · rintro b rfl hopen hback hahead
    exact ⟨_, _, Bar.closeTime_eq hahead, Bar.isClosedAt_eq hopen ht hback,
      Bar.ahead_upTo_iff hopen hin, Iff.rfl⟩

/-- A bar of four hours that opens so many seconds after the epoch. -/
def Bar.fourHours (opened : Int) : Bar :=
  ⟨"BTCUSDT", .h4, ⟨opened, 0⟩, 1, 1, 1, 1, 1, []⟩

/-- Half a second before the epoch, the bar of the present is not closed, and the one before it is. -/
theorem Timeframe.barOpen_aligned_beforeEpoch :
    Instant.Regular ⟨-1, 500000000⟩ ∧ h4.barOpen ⟨-1, 500000000⟩ = ⟨-14400, 0⟩ ∧
    (Bar.fourHours (-14400)).isClosedAt ⟨-1, 500000000⟩ = .ok false ∧
    ∃ close, (Bar.fourHours (-28800)).closeTime = .ok close ∧
      (Bar.fourHours (-28800)).isClosedAt ⟨-1, 500000000⟩ = .ok true ∧
      close.upTo ⟨-1, 500000000⟩ = true := by
  have hnow : Instant.Regular ⟨-1, 500000000⟩ := ⟨by decide, by decide⟩
  have hopening : h4.barOpen ⟨-1, 500000000⟩ = ⟨-14400, 0⟩ := by decide
  obtain ⟨-, -, -, -, hbars⟩ := barOpen_aligned hnow .h4
  rw [hopening] at hbars
  refine ⟨hnow, hopening, ?_, ?_⟩
  · obtain ⟨close, closed, -, hclosed, hbefore, -⟩ := hbars (Bar.fourHours (-14400)) rfl
      ⟨rfl, by decide⟩ (by decide) (by decide)
    rw [hclosed, Bool.eq_false_iff.mpr (mt hbefore.mp (by decide))]
  · obtain ⟨close, closed, hclose, hclosed, hbefore, hcome⟩ := hbars (Bar.fourHours (-28800)) rfl
      ⟨rfl, by decide⟩ (by decide) (by decide)
    have htrue : closed = true := hbefore.mpr (by decide)
    exact ⟨close, hclose, by rw [hclosed, htrue], hcome.mp htrue⟩

end TopDown
