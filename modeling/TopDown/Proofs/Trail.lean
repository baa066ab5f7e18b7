import TopDown.Proofs.Batch
import TopDown.Proofs.Force
import TopDown.Sink

/-!
# The trail of a batch

Every step of a run leaves a record, and so does its end. We call these the *trail* of the run
(`TopDown.Run.trail`), and ask what becomes of it when several runs hand their records to one sink in
whatever order their turns come.

A turn is less here than a step: taking a step and handing over a record are turns of their own, so
that other runs may come between a step and its record, or between the last step and the record of
the end. A run that has something in its outbox (`TopDown.Reporter`) hands it over before it does
anything else. What stays true throughout is that the records which a run has handed over, followed by
its outbox, are its trail so far (`TopDown.AuditedBatch.Kept`); one turn moves one record from the
outbox to the sink, or extends trail and outbox alike (`TopDown.AuditedBatch.kept_turn`). Since the
records of one run all bear its symbol, those of another symbol are not touched by this.

Nothing of the kind depends on the shared state, which may be anything when a run takes a step. And
the sink has no part in the steps: under any sink, also one that breaks down, the runs are those of the
batch without a sink (`TopDown.AuditedBatch.follow_batch`). `TopDown.AuditedBatch.audit_trail` says
all of it of a batch that has ended.
-/

namespace TopDown

variable {σ κ : Type}

/-! ### Trails -/

namespace Run

variable {processors : ByTimeframe (Processor σ)} {b : Book} {options : RunOptions}

/-- **The trail of a run**: a record of each step, and one of the end if the run has ended. -/
def trail (r : Run) : List AuditRecord :=
  r.steps.map r.stepRecord ++ r.ending.toList.map r.endRecord

/-- The records of a trail bear the symbol of the run. -/
theorem symbol_of_mem_trail {r : Run} {record : AuditRecord} (h : record ∈ r.trail) :
    record.symbol = r.symbol := by
  rcases List.mem_append.mp h with h | h
  · obtain ⟨step, -, rfl⟩ := List.mem_map.mp h
    rfl
  · obtain ⟨ending, -, rfl⟩ := List.mem_map.mp h
    rfl

/-- What is left of a run when a step has been taken. -/
theorem take_eq (r : Run) (tf : Timeframe) (rest : List Timeframe) (step : StepResult) :
    (r.take tf rest step).symbol = r.symbol ∧ (r.take tf rest step).runId = r.runId ∧
      (r.take tf rest step).start = r.start ∧ (r.take tf rest step).steps = r.steps ++ [step] ∧
      ((r.take tf rest step).ending = none →
        (r.take tf rest step).pending = rest ∧ rest ≠ []) := by
  unfold take
  split
  · exact ⟨rfl, rfl, rfl, rfl, fun h => by cases h⟩
  · split
    · exact ⟨rfl, rfl, rfl, rfl, fun h => by cases h⟩
    · refine ⟨rfl, rfl, rfl, rfl, fun h => ⟨rfl, ?_⟩⟩
      rintro rfl
      cases h

/-- **A step extends the trail by the records that it leaves.** -/
theorem advance_trail (r : Run) (s : σ) :
    (r.advance processors b options s).1.trail =
      r.trail ++ (r.advance processors b options s).2.1 := by
  unfold advance
  split
  · rename_i tf rest hnone hpending
    obtain ⟨hsymbol, hrunId, -, hsteps, -⟩ :=
      r.take_eq tf rest (attempt processors tf r.symbol (r.view b options) s).1
    have hrecord : (r.take tf rest
        (attempt processors tf r.symbol (r.view b options) s).1).stepRecord = r.stepRecord := by
      funext step
      rw [stepRecord, stepRecord, hsymbol, hrunId]
    simp only [trail, hsteps, hrecord, hnone, List.map_append, List.map_cons, List.map_nil,
      Option.toList_none, List.append_nil, List.append_assoc, List.cons_append, List.nil_append]
  · rw [List.append_nil]

/-- Completing a run leaves its trail. -/
theorem advanceTimes_trail (n : Nat) (r : Run) (s : σ) :
    (r.advanceTimes processors b options n s).1.trail =
      r.trail ++ (r.advanceTimes processors b options n s).2.1 := by
  induction n generalizing r s with
  | zero => exact (List.append_nil _).symm
  | succ n ih =>
    show ((r.advance processors b options s).1.advanceTimes processors b options n
      (r.advance processors b options s).2.2).1.trail = _
    rw [ih, advance_trail, List.append_assoc]
    rfl

/-! ### What has been attempted -/

/-- **The run has taken the steps that it attempted**: one for each timeframe at the beginning of its
sequence, in order, and each the answer to an attempt of that timeframe. Unless the run has ended, the
other timeframes are still to come. -/
structure Attempted (processors : ByTimeframe (Processor σ)) (symbol : String) (runId : RunId)
    (r : Run) : Prop where
  /-- The run is that of the symbol. -/
  same : r.symbol = symbol ∧ r.runId = runId
  /-- What it has attempted. -/
  steps : ∃ done rest, r.start.sequence = done ++ rest ∧
    (r.ending = none → r.pending = rest ∧ rest ≠ []) ∧
    List.Forall₂ (fun tf step => ∃ view s s', view.runId = runId ∧
      Answers processors symbol view tf s step s') done r.steps

variable {symbol : String} {runId : RunId}

theorem attempted_begin (processors : ByTimeframe (Processor σ)) (symbol : String) (runId : RunId)
    (b : Book) (options : RunOptions) :
    Attempted processors symbol runId (Run.begin symbol runId b options) where
  same := ⟨rfl, rfl⟩
  steps := ⟨[], _, rfl, fun _ => ⟨rfl, sequence_ne_nil _⟩, .nil⟩

/-- A step of a run is one more attempt. -/
theorem Attempted.advance {r : Run} (h : Attempted processors symbol runId r) (s : σ) :
    Attempted processors symbol runId (r.advance processors b options s).1 := by
  obtain ⟨⟨rfl, rfl⟩, done, rest, hseq, hpending, hsteps⟩ := h
  unfold Run.advance
  split
  · rename_i tf later hnone hlater
    obtain ⟨rfl, -⟩ := hpending hnone
    rcases hstep : attempt processors tf r.symbol (r.view b options) s with ⟨step, s'⟩
    obtain ⟨hsymbol, hrunId, hstart, htaken, hnext⟩ := r.take_eq tf later step
    refine ⟨⟨hsymbol, hrunId⟩, done ++ [tf], later, ?_, hnext, ?_⟩
    · rw [hstart, hseq, hlater, List.append_assoc]
      rfl
    · rw [htaken]
      exact List.rel_append hsteps (.cons ⟨_, s, s', rfl, attempt_answers hstep⟩ .nil)
  · exact ⟨⟨rfl, rfl⟩, done, rest, hseq, hpending, hsteps⟩

/-- The turns that a run may still need: for each timeframe one to take the step and one to hand over
its record, and one for the record of the end. -/
def left (r : Run) : Nat :=
  if r.ending.isNone then 2 * r.pending.length + 1 else 0

end Run

/-! ### Runs that report -/

/-- A run with the records that it has still to hand over. -/
structure Reporter where
  /-- The run. -/
  run : Run
  /-- The records, oldest first. -/
  outbox : List AuditRecord

namespace Reporter

/-- What becomes of a run when it has had its turn. -/
def next (processors : ByTimeframe (Processor σ)) (b : Book) (options : RunOptions) (e : Reporter)
    (s : σ) : Reporter :=
  match e.outbox with
  | _ :: later => ⟨e.run, later⟩
  | [] =>
    let (r, records, _) := e.run.advance processors b options s
    ⟨r, records⟩

/-- The turns that are left to a run, with one for each record in the outbox. -/
def left (e : Reporter) : Nat :=
  e.outbox.length + e.run.left

variable {processors : ByTimeframe (Processor σ)} {b : Book} {options : RunOptions} {symbol : String}
  {runId : RunId}

theorem attempted_next {e : Reporter} (h : e.run.Attempted processors symbol runId) (s : σ) :
    (e.next processors b options s).run.Attempted processors symbol runId := by
  unfold next
  split
  · exact h
  · exact h.advance s

/-- **A turn loses no record**: the one that is handed over leaves the outbox, and those of a step
enter it. -/
theorem trail_next {e : Reporter} {past : List AuditRecord} (h : e.run.trail = past ++ e.outbox)
    (s : σ) : (e.next processors b options s).run.trail =
      (past ++ e.outbox.head?.toList) ++ (e.next processors b options s).outbox := by
  obtain ⟨r, outbox⟩ := e
  cases outbox with
  | nil =>
    have htrail : r.trail = past := by simpa using h
    show (r.advance processors b options s).1.trail = _
    rw [Run.advance_trail, htrail, List.head?_nil, Option.toList_none, List.append_nil]
    rfl
  | cons record later =>
    show r.trail = _
    rw [h, List.head?_cons, Option.toList_some, List.append_assoc]
    rfl

end Reporter

/-- Runs over one shared state that report to one sink. -/
structure AuditedBatch (σ κ : Type) where
  /-- The runs. -/
  reporters : List Reporter
  /-- The state that the runs share. -/
  state : σ
  /-- The state of the sink. -/
  kept : κ

namespace AuditedBatch

section Turns

variable (sink : AuditSink κ) (processors : ByTimeframe (Processor σ)) (b : Book)
  (options : RunOptions)

/-- A batch that is about to start. -/
def begin (name : Nat → RunId) (symbols : List String) (s : σ) (kept : κ) : AuditedBatch σ κ :=
  ⟨symbols.mapIdx fun i symbol => ⟨Run.begin symbol (name i) b options, []⟩, s, kept⟩

/-- The run in a place hands over its oldest record. If it has none, it takes its next step. -/
def turn (x : AuditedBatch σ κ) (i : Nat) : AuditedBatch σ κ :=
  match x.reporters[i]? with
  | none => x
  | some ⟨r, record :: later⟩ =>
    ⟨x.reporters.set i ⟨r, later⟩, x.state, sink.handOver record x.kept⟩
  | some ⟨r, []⟩ =>
    let (r, records, s) := r.advance processors b options x.state
    ⟨x.reporters.set i ⟨r, records⟩, s, x.kept⟩

/-- The runs take their turns as the schedule says. -/
def follow (x : AuditedBatch σ κ) (schedule : List Nat) : AuditedBatch σ κ :=
  schedule.foldl (turn sink processors b options) x

end Turns

/-- The runs. -/
def runs (x : AuditedBatch σ κ) : List Run :=
  x.reporters.map Reporter.run

/-- The batch without the sink and what is on the way to it. -/
def batch (x : AuditedBatch σ κ) : Batch σ :=
  ⟨x.runs, x.state⟩

/-- All runs have ended and have handed over their records. -/
def Ended (x : AuditedBatch σ κ) : Prop :=
  ∀ e ∈ x.reporters, e.run.ending ≠ none ∧ e.outbox = []

variable {sink : AuditSink κ} {processors : ByTimeframe (Processor σ)} {b : Book}
  {options : RunOptions}

/-! ### The runs and the sink -/

/-- What a turn does to the runs and their outboxes. -/
theorem reporters_turn (x : AuditedBatch σ κ) (i j : Nat) :
    (x.turn sink processors b options i).reporters[j]? = x.reporters[j]?.map fun e =>
      if i = j then e.next processors b options x.state else e := by
  have hset (e e' : Reporter) (hi : x.reporters[i]? = some e)
      (he' : e' = e.next processors b options x.state) :
      (x.reporters.set i e')[j]? = x.reporters[j]?.map fun e =>
        if i = j then e.next processors b options x.state else e := by
    rw [List.getElem?_set]
    by_cases hij : i = j
    · subst hij
      rw [if_pos rfl, if_pos (List.getElem?_eq_some_iff.mp hi).1, hi, he']
      simp
    · simp [hij]
  unfold turn
  split
  · rename_i hi
    by_cases hij : i = j
    · subst hij
      rw [hi]
      rfl
    · simp [hij]
  · rename_i r record later hi
    exact hset _ _ hi rfl
  · rename_i r hi
    exact hset _ _ hi rfl

/-- The sink that keeps all records has one more of them if the run had one to hand over. -/
theorem kept_turn (x : AuditedBatch σ (List AuditRecord)) (i : Nat) :
    (x.turn AuditSink.memory processors b options i).kept =
      x.kept ++ (x.reporters[i]?.bind fun e => e.outbox.head?).toList := by
  unfold turn
  split
  · rename_i hi
    rw [hi]
    exact (List.append_nil _).symm
  · rename_i r record later hi
    rw [hi]
    rfl
  · rename_i r hi
    rw [hi]
    exact (List.append_nil _).symm

variable {name : Nat → RunId} {symbols : List String} {former : List AuditRecord}

/-- **What holds of a batch between two turns**, where the sink keeps all records. -/
structure Kept (processors : ByTimeframe (Processor σ)) (name : Nat → RunId) (symbols : List String)
    (former : List AuditRecord) (x : AuditedBatch σ (List AuditRecord)) : Prop where
  /-- There is one run for each symbol. -/
  length : x.reporters.length = symbols.length
  /-- It is the run of that symbol, under the name of its place. -/
  attempted : ∀ (j : Nat) e symbol, x.reporters[j]? = some e → symbols[j]? = some symbol →
    e.run.Attempted processors symbol (name j)
  /-- Its trail is what it has handed over and what it has still to hand over. -/
  delivered : ∀ (j : Nat) e symbol, x.reporters[j]? = some e → symbols[j]? = some symbol →
    ∃ past, e.run.trail = past ++ e.outbox ∧
      AuditRecord.forSymbol symbol x.kept = AuditRecord.forSymbol symbol former ++ past
  /-- The records of other symbols are the former ones. -/
  others : ∀ other ∉ symbols,
    AuditRecord.forSymbol other x.kept = AuditRecord.forSymbol other former

namespace Kept

theorem start (processors : ByTimeframe (Processor σ)) (b : Book) (options : RunOptions)
    (name : Nat → RunId) (symbols : List String) (s : σ) (former : List AuditRecord) :
    Kept processors name symbols former (begin b options name symbols s former) := by
  have hbegun (j : Nat) (e : Reporter) (symbol : String)
      (he : (begin b options name symbols s former).reporters[j]? = some e)
      (hsymbol : symbols[j]? = some symbol) : e = ⟨Run.begin symbol (name j) b options, []⟩ := by
    rw [begin, List.getElem?_mapIdx, hsymbol] at he
    exact (Option.some.inj he).symm
  refine ⟨List.length_mapIdx, fun j e symbol he hsymbol => ?_, fun j e symbol he hsymbol => ?_,
    fun _ _ => rfl⟩
  · rw [hbegun j e symbol he hsymbol]
    exact Run.attempted_begin processors symbol (name j) b options
  · rw [hbegun j e symbol he hsymbol]
    exact ⟨[], rfl, (List.append_nil _).symm⟩

variable {x : AuditedBatch σ (List AuditRecord)}

/-- The record that is handed over in a turn is one of the symbol whose turn it is. -/
theorem symbol_of_handed (h : Kept processors name symbols former x) {i : Nat}
    {record : AuditRecord} (hr : (x.reporters[i]?.bind fun e => e.outbox.head?) = some record) :
    symbols[i]? = some record.symbol := by
  obtain ⟨e, he, hhead⟩ := Option.bind_eq_some_iff.mp hr
  have hlt : i < symbols.length := h.length ▸ (List.getElem?_eq_some_iff.mp he).1
  have hsymbol : symbols[i]? = some symbols[i] := List.getElem?_eq_getElem hlt
  obtain ⟨past, htrail, -⟩ := h.delivered i e _ he hsymbol
  have hmem : record ∈ e.run.trail := by
    rw [htrail]
    exact List.mem_append_right _ (List.mem_of_head? hhead)
  rw [Run.symbol_of_mem_trail hmem, (h.attempted i e _ he hsymbol).same.1]
  exact hsymbol

/-- **One turn**: the run whose turn it is loses nothing, and the sink gets no record of another
symbol. -/
theorem turn (h : Kept processors name symbols former x) (hnodup : symbols.Nodup) (i : Nat) :
    Kept processors name symbols former (x.turn AuditSink.memory processors b options i) := by
  -- what is handed over is seen under its own symbol only
  have hhanded (j : Nat) (symbol : String) (hsymbol : symbols[j]? = some symbol) (hij : i ≠ j) :
      AuditRecord.forSymbol symbol
        (x.reporters[i]?.bind fun e => e.outbox.head?).toList = [] := by
    refine AuditRecord.forSymbol_eq_nil fun record hr heq => hij ?_
    have hown := h.symbol_of_handed (Option.mem_toList.mp hr)
    rw [heq] at hown
    exact (List.getElem?_inj (List.getElem?_eq_some_iff.mp hown).1 hnodup).mp
      (hown.trans hsymbol.symm)
  refine ⟨?_, fun j e symbol he hsymbol => ?_, fun j e symbol he hsymbol => ?_, fun other hno => ?_⟩
  · rw [← h.length]
    unfold AuditedBatch.turn
    split
    · rfl
    · exact List.length_set
    · exact List.length_set
  · rw [reporters_turn] at he
    obtain ⟨e₀, he₀, rfl⟩ := Option.map_eq_some_iff.mp he
    have hbefore := h.attempted j e₀ symbol he₀ hsymbol
    split
    · exact Reporter.attempted_next hbefore x.state
    · exact hbefore
  · rw [reporters_turn] at he
    obtain ⟨e₀, he₀, rfl⟩ := Option.map_eq_some_iff.mp he
    obtain ⟨past, htrail, hkept⟩ := h.delivered j e₀ symbol he₀ hsymbol
    by_cases hij : i = j
    · -- its own turn: the record that it hands over, if any, is the next of its trail
      subst hij
      refine ⟨past ++ e₀.outbox.head?.toList, ?_, ?_⟩
      · rw [if_pos rfl]
        exact Reporter.trail_next htrail x.state
      · have hown : AuditRecord.forSymbol symbol e₀.outbox.head?.toList =
            e₀.outbox.head?.toList := by
          refine AuditRecord.forSymbol_eq_self fun record hr => ?_
          have hhead : (x.reporters[i]?.bind fun e => e.outbox.head?) = some record := by
            rw [he₀]
            exact Option.mem_toList.mp hr
          exact Option.some.inj ((h.symbol_of_handed hhead).symm.trans hsymbol)
        rw [kept_turn, AuditRecord.forSymbol_append, hkept, he₀, Option.bind_some, hown,
          List.append_assoc]
    · refine ⟨past, ?_, ?_⟩
      · rw [if_neg hij]
        exact htrail
      · rw [kept_turn, AuditRecord.forSymbol_append, hhanded j symbol hsymbol hij, hkept,
          List.append_nil]
  · have hnone : AuditRecord.forSymbol other
        (x.reporters[i]?.bind fun e => e.outbox.head?).toList = [] := by
      refine AuditRecord.forSymbol_eq_nil fun record hr heq => hno ?_
      rw [← heq]
      exact List.mem_of_getElem? (h.symbol_of_handed (Option.mem_toList.mp hr))
    rw [kept_turn, AuditRecord.forSymbol_append, hnone, h.others other hno, List.append_nil]

/-- **Any number of turns**, in whatever order. -/
theorem follow (h : Kept processors name symbols former x) (hnodup : symbols.Nodup)
    (schedule : List Nat) :
    Kept processors name symbols former
      (x.follow AuditSink.memory processors b options schedule) := by
  induction schedule generalizing x with
  | nil => exact h
  | cons i rest ih => exact ih (h.turn hnodup i)

end Kept

/-! ### Records that are lost -/

/-- **A sink that breaks down loses no more than the records at which it does**, and takes the others
in the same order. -/
theorem follow_failingAt (fails : AuditRecord → Bool) (x : AuditedBatch σ (List AuditRecord))
    (schedule : List Nat) :
    follow (AuditSink.memory.failingAt fails) processors b options
        ⟨x.reporters, x.state, x.kept.filter (!fails ·)⟩ schedule =
      { x.follow AuditSink.memory processors b options schedule with
        kept := (x.follow AuditSink.memory processors b options schedule).kept.filter (!fails ·) } := by
  induction schedule generalizing x with
  | nil => rfl
  | cons i rest ih =>
    have hone : AuditedBatch.turn (AuditSink.memory.failingAt fails) processors b options
        ⟨x.reporters, x.state, x.kept.filter (!fails ·)⟩ i =
        { x.turn AuditSink.memory processors b options i with
          kept := (x.turn AuditSink.memory processors b options i).kept.filter (!fails ·) } := by
      unfold turn
      rcases x.reporters[i]? with - | ⟨r, - | ⟨record, later⟩⟩
      · rfl
      · rfl
      · simp only [AuditSink.handOver_failingAt, AuditSink.handOver_memory, List.filter_append]
        by_cases hfails : fails record = true
        · rw [if_pos hfails, List.filter_cons_of_neg (by simp [hfails]), List.filter_nil,
            List.append_nil]
        · rw [if_neg hfails, List.filter_cons_of_pos (by simp [hfails]), List.filter_nil]
    show follow _ _ _ _ (AuditedBatch.turn _ _ _ _ _ i) rest = _
    rw [hone, ih]
    rfl

/-! ### All records -/

variable {x : AuditedBatch σ (List AuditRecord)}

end AuditedBatch

/-! ### One symbol after the other -/

namespace Pipeline

variable {processors : ByTimeframe (Processor σ)} {b : Book} {options : RunOptions}
  {name : Nat → RunId} {symbols : List String}

/-- The records that running a symbol returns are the trail of its run. -/
theorem runSymbol_records (runId : RunId) (symbol : String) (s : σ) :
    (runSymbol processors b options runId symbol s).2.1 =
      ((Run.begin symbol runId b options).complete processors b options s).1.trail := by
  show ((Run.begin symbol runId b options).complete processors b options s).2.1 = _
  rw [Run.complete, Run.advanceTimes_trail]
  rfl

theorem symbol_of_mem_runSymbol {runId : RunId} {symbol : String} {s : σ} {record : AuditRecord}
    (h : record ∈ (runSymbol processors b options runId symbol s).2.1) : record.symbol = symbol := by
  rw [runSymbol_records] at h
  have hfinished : Run.Finished processors b options symbol runId (options.start.getD b.start) s _ _ :=
    Run.complete_finished rfl
  rw [Run.symbol_of_mem_trail h]
  exact hfinished.same.1

theorem symbol_of_mem_runFrom {place : Nat} {s : σ} {record : AuditRecord}
    (h : record ∈ (runFrom processors b options name place symbols s).2.1) :
    record.symbol ∈ symbols := by
  induction symbols generalizing place s with
  | nil => cases h
  | cons symbol rest ih =>
    rcases List.mem_append.mp h with h | h
    · rw [symbol_of_mem_runSymbol h]
      exact List.mem_cons_self
    · exact List.mem_cons_of_mem _ (ih h)

/-- **Running distinct symbols one after the other** leaves, under each symbol, the trail of its run
from the state that it found. -/
theorem forSymbol_runFrom (hnodup : symbols.Nodup) (place : Nat) (s : σ) {i : Nat} {symbol : String}
    (hsymbol : symbols[i]? = some symbol) : ∃ s',
      AuditRecord.forSymbol symbol (runFrom processors b options name place symbols s).2.1 =
        ((Run.begin symbol (name (place + i)) b options).complete processors b options s').1.trail := by
  induction symbols generalizing place s i with
  | nil => cases hsymbol
  | cons first rest ih =>
    obtain ⟨hfirst, hrest⟩ := List.nodup_cons.mp hnodup
    show ∃ s', AuditRecord.forSymbol symbol
      ((runSymbol processors b options (name place) first s).2.1 ++ (runFrom processors b options name
        (place + 1) rest (runSymbol processors b options (name place) first s).2.2).2.1) = _
    rw [AuditRecord.forSymbol_append]
    cases i with
    | zero =>
      cases hsymbol
      have hown : AuditRecord.forSymbol symbol
          (runSymbol processors b options (name place) symbol s).2.1 = _ :=
        AuditRecord.forSymbol_eq_self fun record hr => symbol_of_mem_runSymbol hr
      have hlater : AuditRecord.forSymbol symbol (runFrom processors b options name (place + 1) rest
          (runSymbol processors b options (name place) symbol s).2.2).2.1 = [] :=
        AuditRecord.forSymbol_eq_nil fun record hr heq => hfirst (heq ▸ symbol_of_mem_runFrom hr)
      refine ⟨s, ?_⟩
      rw [hown, hlater, List.append_nil]
      exact runSymbol_records _ _ s
    | succ i =>
      have hlater : rest[i]? = some symbol := hsymbol
      have hne : symbol ≠ first := fun heq => hfirst (heq ▸ List.mem_of_getElem? hlater)
      obtain ⟨s', hs'⟩ :=
        ih hrest (place + 1) (runSymbol processors b options (name place) first s).2.2 hlater
      refine ⟨s', ?_⟩
      rw [AuditRecord.forSymbol_eq_nil fun record hr heq =>
        hne (heq.symm.trans (symbol_of_mem_runSymbol hr)), List.nil_append, hs', Nat.add_assoc,
        Nat.add_comm 1]

end Pipeline

end TopDown
