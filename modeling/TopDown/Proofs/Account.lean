import Mathlib.Tactic.IntervalCases
import TopDown.Proofs.Counts
import TopDown.Proofs.Force

/-!
# What a step comes to

A step asks its surroundings up to three times: for bars, for the newest bar, and for a context. In
between it passes four gates (`TopDown.Gate`), and behind them the rules are checked. What it comes to
is decided by the first thing that keeps it from going on. So there are three ways for a step to
end, and here each of them is told without the step: a question that it comes to is not answered
(`TopDown.Stops`), a gate that it comes to is shut and those before it are not
(`TopDown.ShutFirst`), or it has its context and the rules decide (`TopDown.Reads`).

`TopDown.takeStep_account` says that one of the three always happens, and what the step is in each
case. The order of the gates matters only here, in `TopDown.Gate.earlier`. Whether a gate is shut
does not depend on the others, although the program does not look at a gate behind one that is shut.

The book has to be a compiled one with short counts, since the rules of another might break down, or
ask for no bar at all; and the times have to stay within the calendar (`TopDown.RunView.InTime`).
-/

namespace TopDown

/-! ### Times -/

namespace Instant

variable {t : Instant} {seconds : Int}

theorem exists_later (hseconds : 0 ≤ seconds) (h : inCalendar (t.seconds + seconds) = true) :
    ∃ r, t.later seconds = .ok r := by
  unfold later shift?
  by_cases hzero : seconds = 0
  · exact ⟨t, by rw [if_pos hzero]⟩
  · have hleap : (t.isLeap && decide (seconds < 0)) = false := by
      rw [decide_eq_false (Int.not_lt.mpr hseconds), Bool.and_false]
    simp only [if_neg hzero, hleap, Bool.false_eq_true, if_false, Int.add_zero, if_pos h]
    exact ⟨_, rfl⟩

/-- Going back out of a leap second counts one second less, so the instant itself has to lie in the
calendar as well. -/
theorem exists_earlier (hseconds : 0 < seconds) (h : inCalendar (t.seconds - seconds) = true)
    (hself : inCalendar t.seconds = true) : ∃ r, t.earlier seconds = .ok r := by
  have htarget : inCalendar (t.seconds + -seconds +
      (if t.isLeap && decide (-seconds < 0) then 1 else 0)) = true := by
    simp only [inCalendar, Bool.and_eq_true, decide_eq_true_eq] at h hself ⊢
    split <;> omega
  unfold earlier shift?
  simp only [if_neg (show ¬-seconds = 0 by omega), htarget, if_true]
  exact ⟨_, rfl⟩

end Instant

/-- **The times that a step comes to lie in the calendar**: one bar of any timeframe ago, and when all
the bars that the rules need have passed, or some of them. -/
structure RunView.InTime (view : RunView) (tf : Timeframe) : Prop where
  /-- Going back by one bar. -/
  back : ∀ t : Timeframe, Instant.inCalendar (view.now.seconds - t.stepSeconds) = true
  /-- Going ahead by the bars that are missing. -/
  ahead : ∀ missing ≤ (view.book.minBars tf).toNat,
    Instant.inCalendar (view.now.seconds + tf.stepSeconds * missing) = true

section Times

variable {view : RunView} {tf : Timeframe}

/-- Whether a bar is closed can be told. -/
theorem RunView.InTime.isClosedAt (htime : view.InTime tf) (last : Bar) :
    ∃ closed, last.isClosedAt view.now = .ok closed := by
  have hself := htime.ahead 0 (Nat.zero_le _)
  rw [Int.natCast_zero, Int.mul_zero, Int.add_zero] at hself
  have hpos : 0 < (last.timeframe.stepSeconds : Int) := by cases last.timeframe <;> decide
  obtain ⟨limit, hlimit⟩ := Instant.exists_earlier hpos (htime.back last.timeframe) hself
  exact ⟨last.openTime.upTo limit, by rw [Bar.isClosedAt, hlimit]; rfl⟩

/-- A short number of bars is counted as it is. -/
theorem shortfallSeconds_eq {needed available : Nat} (h : available ≤ needed)
    (hshort : needed - available < 2 ^ 31) :
    shortfallSeconds tf needed available = tf.stepSeconds * ((needed - available : Nat) : Int) := by
  have hmod : Int.bmod ((needed : Int) - available) UInt32.size = (needed : Int) - available := by
    refine Int.bmod_eq_of_le ?_ ?_ <;> · simp only [UInt32.size]; omega
  rw [shortfallSeconds, hmod, Int.ofNat_sub h]

/-- A step with too few bars is skipped for that, and does not break down. -/
theorem stepShortOfBars_skips {σ : Type} (htime : view.InTime tf)
    (hcount : IsShort (view.book.minBars tf)) {symbol : String} {available : Nat}
    (h : available < (view.book.minBars tf).toNat) (w : World σ) :
    (stepShortOfBars tf symbol view (view.book.minBars tf).toNat available w).1 =
      .ok (.skipped tf .insufficientData) := by
  have hahead := htime.ahead _ (Nat.sub_le (view.book.minBars tf).toNat available)
  obtain ⟨t, ht⟩ := Instant.exists_later
    (Int.mul_nonneg (Int.natCast_nonneg _) (Int.natCast_nonneg _)) hahead
  unfold stepShortOfBars KillSwitch.disableFor
  rw [shortfallSeconds_eq h.le ((Nat.sub_le _ _).trans_lt hcount), ht]
  rfl

end Times

/-! ### Gates -/

/-- The gates of a step, in the order in which it comes to them. -/
inductive Gate where
  /-- There are enough bars. -/
  | bars
  /-- The newest bar is closed. -/
  | closed
  /-- The kill switch allows the symbol. -/
  | switch
  /-- The grace window of the current bar is over. -/
  | grace
  deriving DecidableEq

namespace Gate

/-- The gates that a step comes to before this one. -/
def earlier : Gate → List Gate
  | bars => []
  | closed => [bars]
  | switch => [bars, closed]
  | grace => [bars, closed, switch]

/-- The result of a step that this gate decides. -/
def result (tf : Timeframe) : Gate → StepResult
  | bars => .skipped tf .insufficientData
  | closed => .skipped tf .tooRecent
  | switch => .skipped tf .killSwitchOff
  | grace => .graceWindow tf

/-- The gate is the first that is shut. -/
def First (shut : Gate → Prop) (g : Gate) : Prop :=
  shut g ∧ ∀ e ∈ g.earlier, ¬shut e

/-- **Where a gate is shut, one is the first.** -/
theorem exists_first {shut : Gate → Prop} (h : ¬∀ g, ¬shut g) : ∃ g, First shut g := by
  by_cases hbars : shut bars
  · exact ⟨bars, hbars, by simp [earlier]⟩
  by_cases hclosed : shut closed
  · exact ⟨closed, hclosed, by simp [earlier, hbars]⟩
  by_cases hswitch : shut switch
  · exact ⟨switch, hswitch, by simp [earlier, hbars, hclosed]⟩
  by_cases hgrace : shut grace
  · exact ⟨grace, hgrace, by simp [earlier, hbars, hclosed, hswitch]⟩
  refine absurd (fun g => ?_) h
  cases g with
  | bars => exact hbars
  | closed => exact hclosed
  | switch => exact hswitch
  | grace => exact hgrace

/-- A result of a gate is that of its timeframe, for no side, and neither valid nor an error. -/
theorem result_plain (tf : Timeframe) (g : Gate) :
    (g.result tf).timeframe = tf ∧ (g.result tf).side = .none ∧ (g.result tf).status ≠ .error := by
  cases g with
  | bars | closed | switch | grace => exact ⟨rfl, rfl, by simp [result, StepResult.skipped,
      StepResult.graceWindow]⟩

section Shut

variable (tf : Timeframe) (symbol : String) (view : RunView) (killSwitch : KillSwitch)
  (atHand : List Bar) (newest : Option Bar)

/-- **The gate is shut**, for the bars that are at hand and the newest bar of the source. Where the
source has none, the last of the bars at hand counts. -/
def Shut : Gate → Prop
  | bars => atHand.length < (view.book.minBars tf).toNat
  | closed => view.flags.forceRun = false ∧ view.flags.forceFresh = false ∧
      ∃ last, newest.or atHand.getLast? = some last ∧ last.isClosedAt view.now = .ok false
  | switch => view.flags.forceRun = false ∧ killSwitch.allows symbol tf view.now = false
  | grace => view.flags.forceRun = false ∧
      ∃ block, view.book.blocks tf = some block ∧ ¬PastGrace block tf view.now

end Shut

end Gate

theorem inGraceWindow_iff {b : Book} {tf : Timeframe} {now : Instant} :
    inGraceWindow b tf now = true ↔
      ∃ block, b.blocks tf = some block ∧ ¬PastGrace block tf now := by
  unfold inGraceWindow
  cases b.blocks tf with
  | none => simp
  | some block => simp [PastGrace]

section Gates

variable {tf : Timeframe} {symbol : String} {view : RunView} {switch : KillSwitch}
  {bars : List Bar} {newest : Option Bar} {last : Bar}

/-- Whether the newest bar is closed is what the gate asks, unless it is passed by. -/
theorem freshness_of_not_shut (hlast : newest.or bars.getLast? = some last)
    (hclosed : ∃ closed, last.isClosedAt view.now = .ok closed)
    (h : ¬Gate.closed.Shut tf symbol view switch bars newest) : freshness view last = .ok true := by
  obtain ⟨closed, hclosed⟩ := hclosed
  unfold freshness
  split
  · rfl
  · rename_i hskip
    obtain ⟨hrun, hforce⟩ := Bool.or_eq_false_iff.mp (Bool.eq_false_iff.mpr hskip)
    cases closed with
    | true => exact hclosed
    | false => exact absurd ⟨hrun, hforce, last, hlast, hclosed⟩ h

/-- **No gate decides the step** where none of them is shut. -/
theorem shutGate_eq_none (hlast : newest.or bars.getLast? = some last)
    (hclosed : ∃ closed, last.isClosedAt view.now = .ok closed)
    (h : ∀ g : Gate, ¬g.Shut tf symbol view switch bars newest) :
    shutGate tf symbol view switch last = .ok none := by
  rw [shutGate_eq, freshness_of_not_shut hlast hclosed (h .closed)]
  show Except.ok _ = _
  rw [if_neg (by decide)]
  by_cases hrun : view.flags.forceRun = true
  · rw [if_pos hrun]
  · have hrun' := Bool.eq_false_iff.mpr hrun
    rw [if_neg hrun, if_neg fun hoff => h .switch ⟨hrun', hoff⟩,
      if_neg fun hgrace => h .grace ⟨hrun', inGraceWindow_iff.mp hgrace⟩]

/-- **The first gate that is shut decides the step**, behind the bars. -/
theorem shutGate_eq_some (hlast : newest.or bars.getLast? = some last)
    (hclosed : ∃ closed, last.isClosedAt view.now = .ok closed) {g : Gate} (hg : g ≠ .bars)
    (h : g.First (Gate.Shut tf symbol view switch bars newest)) :
    shutGate tf symbol view switch last = .ok (some (g.result tf)) := by
  obtain ⟨hshut, hbefore⟩ := h
  rw [shutGate_eq]
  cases g with
  | bars => exact absurd rfl hg
  | closed =>
    obtain ⟨hrun, hforce, last', hlast', hopen⟩ := hshut
    rw [hlast, Option.some.injEq] at hlast'
    subst hlast'
    have hfresh : freshness view last = .ok false := by
      rw [freshness, if_neg (by simp [Flags.skipsFreshness, hrun, hforce]), hopen]
    rw [hfresh]
    rfl
  | switch =>
    obtain ⟨hrun, hoff⟩ := hshut
    rw [freshness_of_not_shut hlast hclosed (hbefore .closed (by decide))]
    show Except.ok _ = _
    rw [if_neg (by decide), if_neg (Bool.eq_false_iff.mp hrun), if_pos hoff]
    rfl
  | grace =>
    obtain ⟨hrun, hgrace⟩ := hshut
    rw [freshness_of_not_shut hlast hclosed (hbefore .closed (by decide))]
    show Except.ok _ = _
    rw [if_neg (by decide), if_neg (Bool.eq_false_iff.mp hrun),
      if_neg fun hoff => hbefore .switch (by decide) ⟨hrun, hoff⟩,
      if_pos (inGraceWindow_iff.mpr hgrace)]
    rfl

end Gates

/-! ### Rules -/

/-- **What the rules of a timeframe make of a step.** -/
inductive Book.Decides (b : Book) (tf : Timeframe) (c : Context) (step : StepResult) : Prop
  /-- There are none. -/
  | noRules (hnone : ∀ block, b.blocks tf = some block → block.long = [] ∧ block.short = [])
      (hstatus : step.status = .invalid) (hreason : step.reason = some .noRules)
  /-- None of them is decided. -/
  | undecided {block : Block} (hblock : b.blocks tf = some block)
      (hrules : ¬(block.long = [] ∧ block.short = []))
      (hall : ∀ l ∈ b.evaluateList c block.long ++ b.evaluateList c block.short,
        l.verdict.missing = true)
      (hstatus : step.status = .invalid) (hreason : step.reason = some .undecided)
  /-- Some of them are, and they tell the side. -/
  | valid {block : Block} (hblock : b.blocks tf = some block)
      (hrules : ¬(block.long = [] ∧ block.short = []))
      (hsome : ∃ l ∈ b.evaluateList c block.long ++ b.evaluateList c block.short,
        l.verdict.missing = false)
      (hstatus : step.status = .valid)
      (hlong : step.side = .long ↔ Carries (b.evaluateList c block.long))
      (hshort : step.side = .short ↔
        Carries (b.evaluateList c block.short) ∧ ¬Carries (b.evaluateList c block.long))

/-- The rules decide the status of a step, its reason and its side, and nothing else of it. -/
theorem Book.Decides.congr {b : Book} {tf : Timeframe} {c : Context} {step step' : StepResult}
    (h : b.Decides tf c step) (hstatus : step'.status = step.status)
    (hreason : step'.reason = step.reason) (hside : step'.side = step.side) :
    b.Decides tf c step' := by
  cases h with
  | noRules hnone hs hr => exact .noRules hnone (hstatus.trans hs) (hreason.trans hr)
  | undecided hblock hrules hall hs hr =>
    exact .undecided hblock hrules hall (hstatus.trans hs) (hreason.trans hr)
  | valid hblock hrules hsome hs hlong hshort =>
    exact .valid hblock hrules hsome (hstatus.trans hs) (by rw [hside, hlong])
      (by rw [hside, hshort])

theorem Book.Decides.status_ne {b : Book} {tf : Timeframe} {c : Context} {step : StepResult}
    (h : b.Decides tf c step) : step.status ≠ .error := by
  cases h with
  | noRules _ hs _ | undecided _ _ _ hs _ | valid _ _ _ hs _ _ => simp [hs]

theorem Speaks.long_iff {side : Side} {long short : List Labelled} (h : Speaks side long short) :
    side = .long ↔ Carries long := by
  cases side with
  | long => exact iff_of_true rfl h
  | short => exact iff_of_false (by simp) h.2
  | none => exact iff_of_false (by simp) h.2

theorem Speaks.short_iff {side : Side} {long short : List Labelled} (h : Speaks side long short) :
    side = .short ↔ Carries short ∧ ¬Carries long := by
  cases side with
  | long => exact iff_of_false (by simp) fun hboth => hboth.2 h
  | short => exact iff_of_true rfl h
  | none => exact iff_of_false (by simp) fun hboth => h.1 hboth.1

theorem undecided_iff (long short : List Labelled) :
    Verdict.decidedCount (long.map (·.verdict)) + Verdict.decidedCount (short.map (·.verdict)) = 0 ↔
      ∀ l ∈ long ++ short, l.verdict.missing = true := by
  simp [Verdict.decidedCount, List.countP_eq_zero, or_imp, forall_and]

section Rules

variable {b : Book} {tf : Timeframe} {c : Context}

/-- A judgement is that of its timeframe, and for a side only if it is valid. -/
theorem judge_plain (tf : Timeframe) (long short : List Labelled) :
    (judge tf long short).timeframe = tf ∧
      ((judge tf long short).status ≠ .valid → (judge tf long short).side = .none) := by
  simp only [judge]
  split
  · exact ⟨rfl, fun _ => rfl⟩
  · exact ⟨rfl, fun hne => absurd rfl hne⟩

/-- The judgement on the lists of a block with rules. -/
theorem decides_judge {block : Block} (hblock : b.blocks tf = some block)
    (hrules : ¬(block.long = [] ∧ block.short = [])) :
    b.Decides tf c (judge tf (b.evaluateList c block.long) (b.evaluateList c block.short)) := by
  by_cases hzero : ∀ l ∈ b.evaluateList c block.long ++ b.evaluateList c block.short,
      l.verdict.missing = true
  · have hcount := (undecided_iff _ _).mpr hzero
    refine .undecided hblock hrules hzero ?_ ?_
    · simp only [judge, if_pos hcount]
      rfl
    · simp only [judge, if_pos hcount]
      rfl
  · have hcount := mt (undecided_iff _ _).mp hzero
    have hspeaks := speaks_resolve (b.evaluateList c block.long) (b.evaluateList c block.short)
    refine .valid hblock hrules ?_ ?_ ?_ ?_
    · simpa using hzero
    · simp only [judge, if_neg hcount]
      rfl
    · simp only [judge, if_neg hcount]
      exact hspeaks.long_iff
    · simp only [judge, if_neg hcount]
      exact hspeaks.short_iff

/-- The verdicts on a list do not break down where those on its rules do not. -/
theorem crash_of_mem_evaluateList {ids : List Node.Id}
    (hcrash : ∀ c, ∀ id ∈ ids, (b.evaluate c id).crash = none) {l : Labelled}
    (hl : l ∈ b.evaluateList c ids) : l.verdict.crash = none := by
  obtain ⟨id, hid, rfl⟩ := List.mem_map.mp hl
  exact hcrash _ id hid

/-- **Checking the rules gives what the rules make of the step**, if none of them breaks down. -/
theorem checkRules_decides (tf : Timeframe) (c : Context)
    (hcrash : ∀ c, ∀ id ∈ b.ids, (b.evaluate c id).crash = none) :
    ∃ result, checkRules b tf c = .ok result ∧ b.Decides tf c result ∧ result.timeframe = tf ∧
      (result.status ≠ .valid → result.side = .none) := by
  unfold checkRules
  cases hblock : b.blocks tf with
  | none =>
    refine ⟨_, rfl, .noRules (fun block h => ?_) rfl rfl, rfl, fun _ => rfl⟩
    rw [hblock] at h
    cases h
  | some block =>
    have hmem {ids : List Node.Id} (hids : ∀ id ∈ ids, id ∈ block.ids) {l : Labelled}
        (hl : l ∈ b.evaluateList c ids) : l.verdict.crash = none :=
      crash_of_mem_evaluateList (fun c id hid => hcrash c id
        (List.mem_append_left _ (ByTimeframe.mem_ids.mpr ⟨tf, block, hblock, hids id hid⟩))) hl
    by_cases hempty : block.isEmpty = true
    · refine ⟨_, if_pos hempty, .noRules (fun block' h => ?_) rfl rfl, rfl, fun _ => rfl⟩
      rw [hblock, Option.some.injEq] at h
      subst h
      simpa [Block.isEmpty] using hempty
    · have hrules : ¬(block.long = [] ∧ block.short = []) := by
        simpa [Block.isEmpty] using hempty
      have hnone : Verdict.firstCrash ((b.evaluateList c block.long ++
          b.evaluateList c block.short).map (·.verdict)) = none := by
        refine Verdict.firstCrash_eq_none.mpr fun v hv => ?_
        obtain ⟨l, hl, rfl⟩ := List.mem_map.mp hv
        rcases List.mem_append.mp hl with hl | hl
        · exact hmem (fun id hid => List.mem_append_left _ hid) hl
        · exact hmem (fun id hid => List.mem_append_right _ hid) hl
      refine ⟨judge tf (b.evaluateList c block.long) (b.evaluateList c block.short), ?_,
        decides_judge hblock hrules, judge_plain tf _ _⟩
      simp only [if_neg hempty, hnone]

end Rules

/-! ### Steps -/

section Steps

variable {σ : Type} (source : BarSource σ) (build : ContextBuilder) (symbol : String)
  (view : RunView) (tf : Timeframe) (w : World σ)

/-- **What the source tells a step**: the bars at hand and, if there are enough of them, the newest
one. It is not asked for the newest bar where there are too few. -/
inductive Told : List Bar → Option Bar → Prop
  /-- Too few bars. -/
  | few {bars : List Bar} {s : σ}
      (hbars : source.bars symbol tf (view.book.minBars tf) w.source = (.ok bars, s))
      (hfew : bars.length < (view.book.minBars tf).toNat) : Told bars none
  /-- Enough bars. -/
  | enough {bars : List Bar} {newest : Option Bar} {s s' : σ}
      (hbars : source.bars symbol tf (view.book.minBars tf) w.source = (.ok bars, s))
      (henough : (view.book.minBars tf).toNat ≤ bars.length)
      (hnewest : source.last symbol tf s = (.ok newest, s')) : Told bars newest

/-- **A gate decides the step**: it is the first that is shut. -/
def ShutFirst (g : Gate) : Prop :=
  ∃ bars newest, Told source symbol view tf w bars newest ∧
    g.First (Gate.Shut tf symbol view w.switch bars newest)

/-- All gates are open, and these are the bars behind them. -/
def AllOpen (bars : List Bar) : Prop :=
  ∃ newest, Told source symbol view tf w bars newest ∧
    ∀ g : Gate, ¬g.Shut tf symbol view w.switch bars newest

/-- **A question is not answered**, and the step has come to it. -/
inductive Stops : Stop → Prop
  /-- The source fails to give bars. -/
  | bars {stop : Stop} {s : σ}
      (h : source.bars symbol tf (view.book.minBars tf) w.source = (.error stop, s)) : Stops stop
  /-- It fails to give the newest bar, and there are enough bars. -/
  | newest {stop : Stop} {bars : List Bar} {s s' : σ}
      (hbars : source.bars symbol tf (view.book.minBars tf) w.source = (.ok bars, s))
      (henough : (view.book.minBars tf).toNat ≤ bars.length)
      (h : source.last symbol tf s = (.error stop, s')) : Stops stop
  /-- No context can be made of the bars, and all gates are open. -/
  | context {stop : Stop} {bars : List Bar} (hopen : AllOpen source symbol view tf w bars)
      (h : build symbol tf bars view.runId view.prior = .error stop) : Stops stop

/-- **The rules decide the step**: all gates are open, and this is the context. -/
def Reads (c : Context) : Prop :=
  ∃ bars, AllOpen source symbol view tf w bars ∧
    build symbol tf bars view.runId view.prior = .ok c

/-- **An account of a step**, by what has kept it from going on. -/
structure Account (outcome : Except Crash StepResult) : Prop where
  /-- A question was not answered, a gate was shut, or the rules have been read. -/
  covers : (∃ stop, Stops source build symbol view tf w stop) ∨
    (∃ g, ShutFirst source symbol view tf w g) ∨ ∃ c, Reads source build symbol view tf w c
  /-- A question that is not answered ends the step: a fault makes an error of it. -/
  stopped : ∀ stop, Stops source build symbol view tf w stop →
    outcome = StepResult.ofStop tf stop
  /-- The step is an error only then. -/
  error_iff : ∀ step, outcome = .ok step →
    (step.status = .error ↔ ∃ f, Stops source build symbol view tf w (.fault f))
  /-- The first gate that is shut decides the step. -/
  shut : ∀ g, ShutFirst source symbol view tf w g → outcome = .ok (g.result tf)
  /-- Behind the gates the rules do. -/
  decided : ∀ c, Reads source build symbol view tf w c →
    ∃ step, outcome = .ok step ∧ view.book.Decides tf c step
  /-- The step comes to an end, unless the surroundings break down. -/
  returns : (∀ crash, ¬Stops source build symbol view tf w (.crash crash)) →
    ∃ step, outcome = .ok step
  /-- It is that of the timeframe. -/
  timeframe_eq : ∀ step, outcome = .ok step → step.timeframe = tf
  /-- It is for no side unless it is valid. -/
  side_eq : ∀ step, outcome = .ok step → step.status ≠ .valid → step.side = .none

/-- One of the three always happens. -/
theorem stops_or_shutFirst_or_reads : (∃ stop, Stops source build symbol view tf w stop) ∨
    (∃ g, ShutFirst source symbol view tf w g) ∨ ∃ c, Reads source build symbol view tf w c := by
  rcases hbars : source.bars symbol tf (view.book.minBars tf) w.source with ⟨stop | bars, s⟩
  · exact .inl ⟨stop, .bars hbars⟩
  rcases Nat.lt_or_ge bars.length (view.book.minBars tf).toNat with hfew | henough
  · exact .inr (.inl ⟨.bars, bars, none, .few hbars hfew, hfew, by simp [Gate.earlier]⟩)
  rcases hnewest : source.last symbol tf s with ⟨stop | newest, s'⟩
  · exact .inl ⟨stop, .newest hbars henough hnewest⟩
  have htold : Told source symbol view tf w bars newest := .enough hbars henough hnewest
  by_cases hopen : ∀ g : Gate, ¬g.Shut tf symbol view w.switch bars newest
  · cases hbuild : build symbol tf bars view.runId view.prior with
    | error stop => exact .inl ⟨stop, .context ⟨newest, htold, hopen⟩ hbuild⟩
    | ok c => exact .inr (.inr ⟨c, bars, ⟨newest, htold, hopen⟩, hbuild⟩)
  · obtain ⟨g, hg⟩ := Gate.exists_first hopen
    exact .inr (.inl ⟨g, bars, newest, htold, hg⟩)

variable {source build symbol view tf w}

section Taking

variable {bars : List Bar} {newest : Option Bar} {s s' : σ} (build)

/-- With enough bars the step goes on to the other gates. -/
theorem takeStep_enough (hpos : 0 < (view.book.minBars tf).toNat)
    (hbars : source.bars symbol tf (view.book.minBars tf) w.source = (.ok bars, s))
    (henough : (view.book.minBars tf).toNat ≤ bars.length)
    (hnewest : source.last symbol tf s = (.ok newest, s')) :
    ∃ last, newest.or bars.getLast? = some last ∧
      (takeStep source build tf symbol view w).1 =
        stepBehindBars build tf symbol view w.switch bars last := by
  -- the rules ask for one bar at least, so there is a last one at hand
  have hne : bars ≠ [] := List.ne_nil_of_length_pos (hpos.trans_le henough)
  obtain ⟨last, hlast⟩ : ∃ last, newest.or bars.getLast? = some last := by
    rw [List.getLast?_eq_some_getLast hne]
    cases newest with
    | none => exact ⟨_, rfl⟩
    | some bar => exact ⟨bar, rfl⟩
  refine ⟨last, hlast, ?_⟩
  simp only [takeStep, hbars, if_neg (Nat.not_lt.mpr henough), hnewest, hlast]

variable (htime : view.InTime tf) (hpos : 0 < (view.book.minBars tf).toNat)
include htime hpos

/-- Behind open gates the step asks for a context. -/
theorem takeStep_allOpen (h : AllOpen source symbol view tf w bars) :
    ∃ last, (takeStep source build tf symbol view w).1 =
      match build symbol tf bars view.runId view.prior with
      | .error stop => StepResult.ofStop tf stop
      | .ok c => checkRules view.book tf c >>= fun result => .ok { result with
          barTime := some (Bar.openTime last)
          price := (c.number "close").or (some last.close)
          atr := c.number "atr"
          context := some c } := by
  obtain ⟨newest, htold, hopen⟩ := h
  cases htold with
  | few hbars hfew => exact absurd hfew (hopen .bars)
  | enough hbars henough hnewest =>
    obtain ⟨last, hlast, hstep⟩ := takeStep_enough build hpos hbars henough hnewest
    refine ⟨last, hstep.trans ?_⟩
    rw [stepBehindBars, shutGate_eq_none hlast (htime.isClosedAt last) hopen]
    rfl

theorem takeStep_shutFirst (hcount : IsShort (view.book.minBars tf)) {g : Gate}
    (h : ShutFirst source symbol view tf w g) :
    (takeStep source build tf symbol view w).1 = .ok (g.result tf) := by
  obtain ⟨bars, newest, htold, hfirst⟩ := h
  by_cases hg : g = .bars
  · subst hg
    cases htold with
    | few hbars hfew =>
      simp only [takeStep, hbars, if_pos hfew]
      exact stepShortOfBars_skips htime hcount hfew _
    | enough _ henough _ => exact absurd hfirst.1 (Nat.not_lt.mpr henough)
  · cases htold with
    | few _ hfew =>
      have hbars : Gate.bars ∈ g.earlier := by cases g <;> first | exact absurd rfl hg | decide
      exact absurd hfew (hfirst.2 .bars hbars)
    | enough hbars henough hnewest =>
      obtain ⟨last, hlast, hstep⟩ := takeStep_enough build hpos hbars henough hnewest
      rw [hstep, stepBehindBars, shutGate_eq_some hlast (htime.isClosedAt last) hg hfirst]
      rfl

variable {build}

theorem takeStep_stops {stop : Stop} (h : Stops source build symbol view tf w stop) :
    (takeStep source build tf symbol view w).1 = StepResult.ofStop tf stop := by
  cases h with
  | bars h => simp only [takeStep, h]
  | newest hbars henough h =>
    simp only [takeStep, hbars, if_neg (Nat.not_lt.mpr henough), h]
  | context hopen h =>
    obtain ⟨last, hstep⟩ := takeStep_allOpen build htime hpos hopen
    rw [hstep, h]

theorem takeStep_reads
    (hcrash : ∀ c, ∀ id ∈ view.book.ids, (view.book.evaluate c id).crash = none) {c : Context}
    (h : Reads source build symbol view tf w c) :
    ∃ step, (takeStep source build tf symbol view w).1 = .ok step ∧ view.book.Decides tf c step ∧
      step.timeframe = tf ∧ (step.status ≠ .valid → step.side = .none) := by
  obtain ⟨bars, hopen, hbuild⟩ := h
  obtain ⟨last, hstep⟩ := takeStep_allOpen build htime hpos hopen
  obtain ⟨result, hcheck, hdecides, htf, hside⟩ := checkRules_decides tf c hcrash
  rw [hstep, hbuild]
  simp only [hcheck]
  exact ⟨_, rfl, hdecides.congr rfl rfl rfl, htf, hside⟩

end Taking

/-- **A step by a compiled book is accounted for**, whatever the source and the builder do. The counts
of the configuration are short, and the times of the step lie in the calendar. -/
theorem takeStep_account {base : Registry} {config : Json}
    (hbook : Book.compile base config = .ok view.book) (hordered : config.Ordered)
    (hshort : config.ShortCounts) (hbase : base.Steady) (htime : view.InTime tf) :
    Account source build symbol view tf w (takeStep source build tf symbol view w).1 := by
  obtain ⟨hpos, hcount⟩ := Book.compile_minBars hshort hbook tf
  have hcrash : ∀ c, ∀ id ∈ view.book.ids, (view.book.evaluate c id).crash = none :=
    fun c id hid => Book.compile_evaluate_crash hordered hshort hbase hbook c
      ((Book.compile_coherent hbook).lists id hid)
  have hcovers := stops_or_shutFirst_or_reads source build symbol view tf w
  have hstopped {stop : Stop} (h : Stops source build symbol view tf w stop) :=
    takeStep_stops htime hpos h
  have hshut {g : Gate} (h : ShutFirst source symbol view tf w g) :=
    takeStep_shutFirst build htime hpos hcount h
  have hreads {c : Context} (h : Reads source build symbol view tf w c) :=
    takeStep_reads htime hpos hcrash h
  -- a step that has come out is an error of a call, that of a gate, or that of the rules
  have hplain : ∀ step, (takeStep source build tf symbol view w).1 = .ok step →
      step.timeframe = tf ∧ (step.status ≠ .valid → step.side = .none) ∧
        (step.status = .error → ∃ f, Stops source build symbol view tf w (.fault f)) := by
    intro step hstep
    rcases hcovers with ⟨stop, h⟩ | ⟨g, h⟩ | ⟨c, h⟩
    · rw [hstopped h] at hstep
      cases stop with
      | fault f =>
        cases hstep
        exact ⟨rfl, fun _ => rfl, fun _ => ⟨f, h⟩⟩
      | crash c => cases hstep
    · rw [hshut h, Except.ok.injEq] at hstep
      subst hstep
      obtain ⟨htf, hside, hne⟩ := g.result_plain tf
      exact ⟨htf, fun _ => hside, fun herror => absurd herror hne⟩
    · obtain ⟨step', hstep', hdecides, htf, hside⟩ := hreads h
      rw [hstep', Except.ok.injEq] at hstep
      subst hstep
      exact ⟨htf, hside, fun herror => absurd herror hdecides.status_ne⟩
  refine ⟨hcovers, fun _ => hstopped, fun step hstep => ⟨(hplain step hstep).2.2, ?_⟩,
    fun _ => hshut, fun c h => ?_, fun hnone => ?_, fun step hstep => (hplain step hstep).1,
    fun step hstep => (hplain step hstep).2.1⟩
  · rintro ⟨f, h⟩
    rw [hstopped h] at hstep
    cases hstep
    rfl
  · obtain ⟨step, hstep, hdecides, -⟩ := hreads h
    exact ⟨step, hstep, hdecides⟩
  · rcases hcovers with ⟨stop, h⟩ | ⟨g, h⟩ | ⟨c, h⟩
    · cases stop with
      | fault f => exact ⟨_, hstopped h⟩
      | crash crash => exact absurd h (hnone crash)
    · exact ⟨_, hshut h⟩
    · obtain ⟨step, hstep, -⟩ := hreads h
      exact ⟨step, hstep⟩

end Steps

/-! ### A step that all gates let pass -/

/-- A configuration that wants an index between two bounds, a minute after the bar has opened. -/
def indexBetween : Table Json :=
  [("validation", .obj [("timeframe", .obj [("1h", .obj [
    ("grace_window_secs", .int 60),
    ("long", .arr [.obj [("field", .str "rsi"), ("max", .int 70), ("min", .int 50)]]),
    ("min_bars", .int 1)])])])]

/-- A run by a book, two hours and two minutes after the epoch. -/
def viewAfterTwoHours (b : Book) : RunView where
  runId := "run"
  now := ⟨7320, 0⟩
  prior := []
  flags := {}
  book := b

/-- The index stands between the bounds. -/
def indexAtSixty : Context :=
  .ofFacts "BTCUSDT" .h1 [("rsi", .number 60.0)]

/-- A builder that knows nothing else. -/
def buildSixty : ContextBuilder := fun _ _ _ _ _ =>
  .ok indexAtSixty

section Watched

variable {b : Book} {block : Block} (hblock : b.blocks .h1 = some block)
  (hmin : block.minBars.toNat = 1)
include hblock hmin

theorem minBars_afterTwoHours : ((viewAfterTwoHours b).book.minBars .h1).toNat = 1 := by
  rw [Book.minBars, show (viewAfterTwoHours b).book.blocks .h1 = some block from hblock, ← hmin]

theorem inTime_afterTwoHours : (viewAfterTwoHours b).InTime .h1 := by
  refine ⟨fun t => ?_, fun missing hle => ?_⟩
  · show Instant.inCalendar (7320 - t.stepSeconds) = true
    cases t <;> decide +kernel
  · show Instant.inCalendar (7320 + Timeframe.h1.stepSeconds * missing) = true
    rw [minBars_afterTwoHours hblock hmin] at hle
    interval_cases missing <;> decide +kernel

/-- The one bar of the source opened with the epoch. -/
theorem reads_afterTwoHours (hgrace : block.graceSeconds = 60) :
    Reads Pipeline.steadySource buildSixty "BTCUSDT" (viewAfterTwoHours b) .h1 ⟨.clear, ()⟩
      indexAtSixty := by
  have hcount := minBars_afterTwoHours hblock hmin
  refine ⟨_, ⟨none, .enough rfl hcount.le rfl, fun g => ?_⟩, rfl⟩
  cases g with
  | bars => exact Nat.not_lt.mpr hcount.le
  | closed =>
    rintro ⟨-, -, last, hlast, hopen⟩
    cases hlast
    cases hopen
  | switch =>
    rintro ⟨-, hoff⟩
    cases hoff
  | grace =>
    rintro ⟨-, block', hblock', hgrace'⟩
    obtain rfl : block' = block := Option.some.inj (hblock'.symm.trans hblock)
    refine hgrace' (.inr ?_)
    rw [hgrace]
    show (60 : Int) * Instant.nanosOfSecond ≤
      Instant.nanosSince ⟨7320, 0⟩ (Timeframe.h1.barOpen ⟨7320, 0⟩)
    decide +kernel

end Watched

/-- **All gates let the step of that run pass**, and its rule makes it one for buying. -/
theorem takeStep_account_valid : ∃ b, Book.compile .builtin (.obj indexBetween) = .ok b ∧
    Reads Pipeline.steadySource buildSixty "BTCUSDT" (viewAfterTwoHours b) .h1 ⟨.clear, ()⟩
      indexAtSixty ∧
    ∃ step, (takeStep Pipeline.steadySource buildSixty .h1 "BTCUSDT" (viewAfterTwoHours b)
        ⟨.clear, ()⟩).1 = .ok step ∧
      step.timeframe = .h1 ∧ step.status = .valid ∧ step.side = .long := by
  have hrun : ((Book.compile .builtin (.obj indexBetween)).toOption.map fun b =>
      ((b.blocks .h1).map fun k => (k.long, k.minBars.toNat, k.graceSeconds),
        (b.evaluateListWithin 1 indexAtSixty [0]).map
          (·.map fun l => (l.verdict.missing, l.verdict.passed)))) =
      some (some ([0], 1, 60), some [(false, true)]) := by decide +kernel
  obtain ⟨b, hb, hrun⟩ := Option.map_eq_some_iff.mp hrun
  obtain ⟨hblock, hlist⟩ := Prod.mk.inj hrun
  obtain ⟨block, hblock, hfields⟩ := Option.map_eq_some_iff.mp hblock
  obtain ⟨hlong, hmin, hgrace⟩ : block.long = [0] ∧ block.minBars.toNat = 1 ∧
    block.graceSeconds = 60 := by simpa using hfields
  -- the list has one verdict, which is decided and has passed
  obtain ⟨ls, hls, hverdicts⟩ := Option.map_eq_some_iff.mp hlist
  obtain ⟨l, rfl, hl⟩ := List.map_eq_singleton_iff.mp hverdicts
  obtain ⟨hdecided, hpassed⟩ := Prod.mk.inj hl
  have hlist : (viewAfterTwoHours b).book.evaluateList indexAtSixty [0] = [l] :=
    Book.evaluateList_of_within hls
  have hcompile := toOption_eq_some.mp hb
  have hreads := reads_afterTwoHours hblock hmin hgrace
  have haccount : Account Pipeline.steadySource buildSixty "BTCUSDT" (viewAfterTwoHours b) .h1
      ⟨.clear, ()⟩ _ := takeStep_account hcompile (by decide +kernel)
    (by simp [Json.ShortCounts, Json.ShortCountsFields, Json.ShortCountsItems, indexBetween,
      Json.countKeys, Json.asCount?, IsShort]) Registry.builtin_steady
    (inTime_afterTwoHours hblock hmin)
  obtain ⟨step, hstep, hdecides⟩ := haccount.decided _ hreads
  refine ⟨b, hcompile, hreads, step, hstep, haccount.timeframe_eq step hstep, ?_⟩
  have hfound {block' : Block} (h : (viewAfterTwoHours b).book.blocks .h1 = some block') :
      block' = block := Option.some.inj (h.symm.trans hblock)
  cases hdecides with
  | noRules hnone _ _ =>
    have hempty := (hnone block hblock).1
    rw [hlong] at hempty
    cases hempty
  | undecided hblock' _ hall _ _ =>
    obtain rfl := hfound hblock'
    rw [hlong, hlist] at hall
    rw [hall l (List.mem_append_left _ (List.mem_singleton_self l))] at hdecided
    cases hdecided
  | valid hblock' _ _ hstatus hside _ =>
    obtain rfl := hfound hblock'
    rw [hlong, hlist] at hside
    refine ⟨hstatus, hside.mpr ⟨⟨l, List.mem_singleton_self l, hdecided⟩, fun l' hl' _ => ?_⟩⟩
    rwa [List.mem_singleton.mp hl']

end TopDown
