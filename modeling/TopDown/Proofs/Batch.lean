import TopDown.Pipeline
import TopDown.Proofs.Descent
import TopDown.Proofs.Share

/-!
# Runs that take turns

The runs of a batch may take their steps in any order. A `TopDown.Batch` is a number of runs over one
shared state, and a *schedule* says whose turn it is, one place after the other
(`TopDown.Batch.follow`).

If the processors keep to themselves (`TopDown.Secluded`) and the symbols are distinct, the runs do not
notice each other: under every schedule, each run is where it would be if it had taken its turns alone
from the first state (`TopDown.Batch.follow_runs`). So a batch in which all runs have ended has the
reports of the runs alone, in the order of the symbols (`TopDown.Batch.reports_eq`), and running the
symbols one after the other gives the same (`TopDown.Pipeline.runFrom_eq`).
-/

namespace TopDown

variable {σ τ : Type}

/-! ### Runs of a symbol alone -/

namespace Run

variable {processors : ByTimeframe (Processor σ)} {b : Book} {options : RunOptions}

/-- A run stays with its symbol. -/
theorem advance_symbol (r : Run) (s : σ) :
    (r.advance processors b options s).1.symbol = r.symbol := by
  unfold advance
  split
  · simp only [take]
    split
    · rfl
    · split <;> rfl
  · rfl

theorem advanceTimes_succ (n : Nat) (r : Run) (s : σ) :
    (r.advanceTimes processors b options (n + 1) s).1 =
      ((r.advance processors b options s).1.advanceTimes processors b options n
        (r.advance processors b options s).2.2).1 := rfl

/-- Turns that are taken in two parts are taken one after the other. -/
theorem advanceTimes_add (m n : Nat) (r : Run) (s : σ) :
    (r.advanceTimes processors b options (m + n) s).1 =
      ((r.advanceTimes processors b options m s).1.advanceTimes processors b options n
        (r.advanceTimes processors b options m s).2.2).1 := by
  induction m generalizing r s with
  | zero => rw [Nat.zero_add]; rfl
  | succ m ih =>
    rw [Nat.add_right_comm, advanceTimes_succ, ih]
    rfl

/-- A run that has ended takes no more turns, however many it is given. -/
theorem advanceTimes_of_ended {m n : Nat} {r : Run} {s : σ}
    (h : (r.advanceTimes processors b options m s).1.ending ≠ none) (hmn : m ≤ n) :
    (r.advanceTimes processors b options n s).1 = (r.advanceTimes processors b options m s).1 := by
  obtain ⟨k, rfl⟩ := Nat.exists_eq_add_of_le hmn
  obtain ⟨ending, he⟩ := Option.ne_none_iff_exists'.mp h
  rw [advanceTimes_add, advanceTimes_ended he]

/-- A run that is given a turn for each of its timeframes ends. -/
theorem advanceTimes_ends {symbol : String} {runId : RunId} {n : Nat} (s : σ)
    (hn : (Run.begin symbol runId b options).pending.length ≤ n) :
    ((Run.begin symbol runId b options).advanceTimes processors b options n s).1.ending ≠ none := by
  have hfinished : Finished processors b options symbol runId (options.start.getD b.start) s _ _ :=
    advanceTimes_finished (begin_underway b options symbol runId s) hn rfl
  obtain ⟨ending, _, _, _, _, _, he, _⟩ := hfinished.ending
  rw [he]
  exact Option.some_ne_none ending

/-- **A run that has ended is complete**, whatever the number of its turns. -/
theorem advanceTimes_eq_complete {symbol : String} {runId : RunId} {n : Nat} {s : σ}
    (h : ((Run.begin symbol runId b options).advanceTimes processors b options n s).1.ending ≠
      none) :
    ((Run.begin symbol runId b options).advanceTimes processors b options n s).1 =
      ((Run.begin symbol runId b options).complete processors b options s).1 := by
  have hcomplete :
      ((Run.begin symbol runId b options).complete processors b options s).1.ending ≠ none :=
    advanceTimes_ends s (Nat.le_refl _)
  -- the run has ended by the smaller number of turns, and stands still until the greater one
  rcases Nat.le_total n (Run.begin symbol runId b options).pending.length with hle | hle
  · exact (advanceTimes_of_ended h hle).symm
  · exact advanceTimes_of_ended hcomplete hle

/-! ### Keeping to oneself -/

variable {share : String → σ → τ}

/-- The step that a processor's answer comes to. -/
def stepOf (tf : Timeframe) : Except Crash StepResult → StepResult
  | .ok step => step
  | .error crash => .broken tf crash

theorem attempt_eq {tf : Timeframe} {process : Processor σ} (hp : processors tf = some process)
    (symbol : String) (view : RunView) (s : σ) :
    attempt processors tf symbol view s =
      (stepOf tf (process symbol view s).1, (process symbol view s).2) := by
  unfold attempt
  rw [hp]
  dsimp only
  rcases process symbol view s with ⟨crash | step, s⟩ <;> rfl

theorem private_attempt (hsecluded : Secluded processors share) (tf : Timeframe) (symbol : String)
    (view : RunView) : Private share symbol (attempt processors tf symbol view) := by
  cases hp : processors tf with
  | none =>
    rw [show attempt processors tf symbol view = fun s => (.unattended tf, s) from
      funext fun s => by rw [attempt, hp]]
    exact Private.pure _
  | some process =>
    rw [show attempt processors tf symbol view = _ from funext (attempt_eq hp symbol view)]
    exact (hsecluded tf process hp symbol view).map (stepOf tf)

/-- **One step of a run is private to its symbol.** -/
theorem private_advance (hsecluded : Secluded processors share) (r : Run) :
    Private share r.symbol fun s =>
      ((r.advance processors b options s).1, (r.advance processors b options s).2.2) := by
  unfold advance
  split
  · rename_i tf rest _ _
    exact (private_attempt hsecluded tf r.symbol (r.view b options)).map (r.take tf rest)
  · exact Private.pure r

/-- **A run is private to its symbol**, however many steps it takes. -/
theorem private_advanceTimes (hsecluded : Secluded processors share) (b : Book)
    (options : RunOptions) (n : Nat) {r : Run} {symbol : String} (hr : r.symbol = symbol) :
    Private share symbol fun s =>
      ((r.advanceTimes processors b options n s).1,
        (r.advanceTimes processors b options n s).2.2) := by
  induction n generalizing r with
  | zero => exact Private.pure r
  | succ n ih =>
    subst hr
    exact (private_advance hsecluded r).bind (g := fun r s =>
      ((r.advanceTimes processors b options n s).1, (r.advanceTimes processors b options n s).2.2))
      fun s => ih (advance_symbol r s)

end Run

/-- The reports of some symbols, each of them alone and under a name of its own. -/
def Pipeline.alone (processors : ByTimeframe (Processor σ)) (b : Book) (options : RunOptions)
    (name : Nat → RunId) (symbols : List String) (s : σ) : List (Except Crash SignalReport) :=
  symbols.mapIdx fun i symbol => (runSymbol processors b options (name i) symbol s).1

/-! ### Turns -/

/-- Runs over one shared state. -/
structure Batch (σ : Type) where
  /-- The runs. -/
  runs : List Run
  /-- The shared state. -/
  state : σ

namespace Batch

section Turns

variable (processors : ByTimeframe (Processor σ)) (b : Book) (options : RunOptions)

/-- A batch that is about to start. -/
def begin (name : Nat → RunId) (symbols : List String) (s : σ) : Batch σ :=
  ⟨symbols.mapIdx fun i symbol => Run.begin symbol (name i) b options, s⟩

/-- The run in a place takes its next step. -/
def turn (batch : Batch σ) (i : Nat) : Batch σ :=
  match batch.runs[i]? with
  | none => batch
  | some r =>
    let (r, _, s) := r.advance processors b options batch.state
    ⟨batch.runs.set i r, s⟩

/-- The runs take their turns as the schedule says. -/
def follow (batch : Batch σ) (schedule : List Nat) : Batch σ :=
  schedule.foldl (turn processors b options) batch

end Turns

/-- All runs have ended. -/
def Ended (batch : Batch σ) : Prop :=
  ∀ r ∈ batch.runs, r.ending ≠ none

/-- The reports of the runs, in their order. They cannot be made if that of one run cannot. -/
def reports (b : Book) (batch : Batch σ) : Except Crash (List SignalReport) :=
  batch.runs.mapM (Pipeline.report b)

variable {processors : ByTimeframe (Processor σ)} {b : Book} {options : RunOptions}
  {share : String → σ → τ}

/-- What a turn does to the runs. -/
theorem runs_turn (batch : Batch σ) (i j : Nat) : (batch.turn processors b options i).runs[j]? =
    batch.runs[j]?.map fun r =>
      if i = j then (r.advance processors b options batch.state).1 else r := by
  unfold turn
  cases hi : batch.runs[i]? with
  | none =>
    by_cases hij : i = j
    · subst hij
      rw [hi]
      rfl
    · simp [hij]
  | some r =>
    show (batch.runs.set i _)[j]? = _
    rw [List.getElem?_set]
    by_cases hij : i = j
    · subst hij
      have hlt := (List.getElem?_eq_some_iff.mp hi).1
      rw [if_pos rfl, if_pos hlt, hi]
      simp
    · simp [hij]

/-- **A turn of one symbol is no news to another.** -/
theorem share_turn (hsecluded : Secluded processors share) {batch : Batch σ} {i j : Nat} {r : Run}
    (hnodup : (batch.runs.map Run.symbol).Nodup) (hij : i ≠ j) (hr : batch.runs[j]? = some r) :
    share r.symbol (batch.turn processors b options i).state = share r.symbol batch.state := by
  unfold turn
  cases hi : batch.runs[i]? with
  | none => rfl
  | some r' =>
    have hne : r.symbol ≠ r'.symbol := by
      intro heq
      have hsymbols : (batch.runs.map Run.symbol)[i]? = (batch.runs.map Run.symbol)[j]? := by
        rw [List.getElem?_map, List.getElem?_map, hi, hr, Option.map_some, Option.map_some, heq]
      have hlt : i < (batch.runs.map Run.symbol).length := by
        rw [List.length_map]
        exact (List.getElem?_eq_some_iff.mp hi).1
      exact hij ((List.getElem?_inj hlt hnodup).mp hsymbols)
    exact (Run.private_advance hsecluded r').others batch.state r.symbol hne

theorem symbols_turn (batch : Batch σ) (i : Nat) :
    (batch.turn processors b options i).runs.map Run.symbol = batch.runs.map Run.symbol := by
  refine List.ext_getElem? fun j => ?_
  rw [List.getElem?_map, List.getElem?_map, runs_turn, Option.map_map]
  cases batch.runs[j]? with
  | none => rfl
  | some r =>
    show some (Run.symbol (if i = j then _ else r)) = some r.symbol
    split
    · rw [Run.advance_symbol]
    · rfl

/-- **Under every schedule each run is where it would be alone**, after the same number of turns from
the first state. -/
theorem follow_runs (hsecluded : Secluded processors share) (schedule : List Nat) {batch : Batch σ}
    (hnodup : (batch.runs.map Run.symbol).Nodup) (j : Nat) :
    (batch.follow processors b options schedule).runs[j]? = batch.runs[j]?.map fun r =>
      (r.advanceTimes processors b options (schedule.count j) batch.state).1 := by
  induction schedule generalizing batch with
  | nil =>
    show batch.runs[j]? = batch.runs[j]?.map fun r => r
    rw [Option.map_id']
  | cons i rest ih =>
    have hnodup' : ((batch.turn processors b options i).runs.map Run.symbol).Nodup := by
      rw [symbols_turn]
      exact hnodup
    show ((batch.turn processors b options i).follow processors b options rest).runs[j]? = _
    rw [ih hnodup', runs_turn, Option.map_map]
    refine Option.map_congr fun r hr => ?_
    by_cases hij : i = j
    · -- its own turn, from which its later turns go on
      subst hij
      rw [List.count_cons_self, Run.advanceTimes_succ]
      have hstate : (batch.turn processors b options i).state =
          (r.advance processors b options batch.state).2.2 := by
        unfold turn
        rw [hr]
      rw [hstate]
      simp
    · -- a turn of another symbol
      rw [List.count_cons_of_ne hij]
      have hshare : share r.symbol (batch.turn processors b options i).state =
          share r.symbol batch.state := share_turn hsecluded hnodup hij hr
      have hprivate := Run.private_advanceTimes hsecluded b options (rest.count j) (r := r) rfl
      simp only [Function.comp_apply, if_neg hij]
      exact (hprivate.own _ _ hshare).1

/-! ### Batches that have ended -/

section Begun

variable {name : Nat → RunId} {symbols : List String} {s : σ}

theorem symbols_begin : (Batch.begin b options name symbols s).runs.map Run.symbol = symbols := by
  refine List.ext_getElem? fun i => ?_
  rw [List.getElem?_map, Batch.begin, List.getElem?_mapIdx, Option.map_map]
  exact Option.map_id'

/-- Where the runs of a batch are that has started and gone on for some turns. -/
theorem runs_follow (hsecluded : Secluded processors share) (hnodup : symbols.Nodup)
    (schedule : List Nat) (i : Nat) :
    ((Batch.begin b options name symbols s).follow processors b options schedule).runs[i]? =
      symbols[i]?.map fun symbol => ((Run.begin symbol (name i) b options).advanceTimes
        processors b options (schedule.count i) s).1 := by
  have hsymbols : ((Batch.begin b options name symbols s).runs.map Run.symbol).Nodup := by
    rw [symbols_begin]
    exact hnodup
  rw [follow_runs hsecluded schedule hsymbols, Batch.begin, List.getElem?_mapIdx, Option.map_map]
  rfl

/-- **Enough turns end a batch**: it has ended once every run has had a turn for each of its
timeframes. -/
theorem ended_of_count (hsecluded : Secluded processors share) (hnodup : symbols.Nodup)
    {schedule : List Nat}
    (hturns : ∀ i < symbols.length,
      (options.start.getD b.start).sequence.length ≤ schedule.count i) :
    ((Batch.begin b options name symbols s).follow processors b options schedule).Ended := by
  intro r hr
  obtain ⟨i, hi⟩ := List.getElem?_of_mem hr
  rw [runs_follow hsecluded hnodup] at hi
  obtain ⟨symbol, hsymbol, rfl⟩ := Option.map_eq_some_iff.mp hi
  exact Run.advanceTimes_ends s (hturns i (List.getElem?_eq_some_iff.mp hsymbol).1)

/-- **The runs of a batch that has ended are complete.** -/
theorem runs_of_ended (hsecluded : Secluded processors share) (hnodup : symbols.Nodup)
    {schedule : List Nat}
    (h : ((Batch.begin b options name symbols s).follow processors b options schedule).Ended) :
    ((Batch.begin b options name symbols s).follow processors b options schedule).runs =
      symbols.mapIdx fun i symbol =>
        ((Run.begin symbol (name i) b options).complete processors b options s).1 := by
  refine List.ext_getElem? fun i => ?_
  have hi : ((Batch.begin b options name symbols s).follow processors b options schedule).runs[i]? =
      symbols[i]?.map fun symbol => ((Run.begin symbol (name i) b options).advanceTimes
        processors b options (schedule.count i) s).1 := runs_follow hsecluded hnodup schedule i
  rw [hi, List.getElem?_mapIdx]
  cases hsymbol : symbols[i]? with
  | none => rfl
  | some symbol =>
    rw [hsymbol] at hi
    exact congrArg some (Run.advanceTimes_eq_complete (h _ (List.mem_of_getElem? hi)))

/-- **A batch that has ended has the reports of its symbols alone**, in their order. -/
theorem reports_eq (hsecluded : Secluded processors share) (hnodup : symbols.Nodup)
    {schedule : List Nat}
    (h : ((Batch.begin b options name symbols s).follow processors b options schedule).Ended) :
    ((Batch.begin b options name symbols s).follow processors b options schedule).reports b =
      (Pipeline.alone processors b options name symbols s).mapM id := by
  rw [reports, runs_of_ended hsecluded hnodup h]
  have hreports : Pipeline.alone processors b options name symbols s =
      (symbols.mapIdx fun i symbol =>
        ((Run.begin symbol (name i) b options).complete processors b options s).1).map
        (Pipeline.report b) := by
    rw [Pipeline.alone, List.mapIdx_eq_zipIdx_map, List.mapIdx_eq_zipIdx_map, List.map_map]
    rfl
  rw [hreports, List.mapM_map]
  rfl

end Begun

end Batch

/-! ### One symbol after the other -/

namespace Pipeline

variable {processors : ByTimeframe (Processor σ)} {share : String → σ → τ}

theorem private_runSymbol (hsecluded : Secluded processors share) (b : Book) (options : RunOptions)
    (runId : RunId) (symbol : String) : Private share symbol fun s =>
      ((runSymbol processors b options runId symbol s).1,
        (runSymbol processors b options runId symbol s).2.2) :=
  (Run.private_advanceTimes hsecluded b options _ (r := Run.begin symbol runId b options) rfl).map
    (report b)

/-- **Running distinct symbols one after the other** gives the report of each of them alone. -/
theorem runFrom_eq (hsecluded : Secluded processors share) (b : Book) (options : RunOptions)
    (name : Nat → RunId) {symbols : List String} (hnodup : symbols.Nodup) (place : Nat) (s : σ) :
    (runFrom processors b options name place symbols s).1 =
      (alone processors b options (fun i => name (place + i)) symbols s).mapM id := by
  induction symbols generalizing place s with
  | nil => rfl
  | cons symbol rest ih =>
    obtain ⟨hsymbol, hrest⟩ := List.nodup_cons.mp hnodup
    have hfirst := private_runSymbol hsecluded b options (name place) symbol
    have hothers : alone processors b options (fun i => name (place + 1 + i)) rest
          (runSymbol processors b options (name place) symbol s).2.2 =
        alone processors b options (fun i => name (place + (i + 1))) rest s := by
      refine List.ext_getElem? fun i => ?_
      rw [alone, alone, List.getElem?_mapIdx, List.getElem?_mapIdx]
      refine Option.map_congr fun other hother => ?_
      have hne : other ≠ symbol := fun h => hsymbol (h ▸ List.mem_of_getElem? hother)
      have hother := private_runSymbol hsecluded b options (name (place + 1 + i)) other
      have hreport := (hother.own _ _ (hfirst.others s other hne)).1
      rw [Nat.add_assoc, Nat.add_comm 1] at hreport ⊢
      exact hreport
    -- so the rest may as well start from the first state
    have hlater := ih hrest (place + 1) (runSymbol processors b options (name place) symbol s).2.2
    rw [hothers] at hlater
    rw [alone, List.mapIdx_cons, List.mapM_cons]
    show _ = (do
      let first ← (runSymbol processors b options (name place) symbol s).1
      let others ← (alone processors b options (fun i => name (place + (i + 1))) rest s).mapM id
      return first :: others)
    rw [← hlater]
    rfl

end Pipeline

end TopDown
