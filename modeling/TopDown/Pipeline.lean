import TopDown.Descent
import TopDown.Selection

/-!
# Reports

A signal report joins the two halves of the work: the run down the timeframes and, if the symbol is
ready, the choice of the timeframe to enter on. `TopDown.Pipeline.runSymbol` makes the report of a
symbol and `TopDown.Pipeline.runAll` those of a batch, in its order. The symbols of a batch share
the kill switch and the source of bars, and nothing else.
-/

namespace TopDown

/-! ### Reports -/

/-- What became of a symbol, and why. -/
structure SignalReport where
  /-- The name of the run. -/
  runId : RunId
  /-- The result. -/
  result : SymbolResult
  /-- The choice of the timeframe to enter on. -/
  decision : Option Decision
  /-- The steps of the run. -/
  steps : List StepResult

namespace SignalReport

/-- A report as a document. -/
def toJson (r : SignalReport) : Json :=
  .obj ((r.decision.toList.map fun d => ("decision", d.toJson))
    ++ [("result", r.result.toJson), ("runId", .str r.runId),
      ("steps", .arr (r.steps.map StepResult.toJson))])

/-- A part of a summary, if there is something to tell. -/
def part (label : String) (text : Option String) : String :=
  match text with
  | some s => " " ++ label ++ "=" ++ s
  | none => ""

/-- A report on one line. -/
def summary (r : SignalReport) : String :=
  r.result.symbol ++ " " ++ r.result.status.code
    ++ part "side" (r.result.side.map Side.name)
    ++ part "exec" (r.result.execution.map Timeframe.name)
    ++ part "failed" (r.result.failed.map Timeframe.name)
    ++ part "price" (r.result.price.map Decimal.plain.write)
    ++ part "reason" (r.result.reason.map Reason.code)
    ++ part "selector" (r.decision.map fun d => d.ground.code)

end SignalReport

namespace Pipeline

/-! ### One symbol -/

/-- What the choice is made from, once a run is ready: the side and the contexts of its steps. There
is none if the last step has no context. -/
def selectionInput? (r : Run) (result : SymbolResult) : Option SelectionInput := do
  let side ← if result.isReady then result.side else none
  let last ← r.steps.getLast?
  let base ← last.context
  return { side, base
           contexts := r.steps.foldl (fun m step =>
             match step.context with
             | some c => m.set step.timeframe c
             | none => m) ByTimeframe.empty }

/-- The result with the timeframe that was chosen to enter on. -/
def withChoice (result : SymbolResult) (decision : Option Decision) : SymbolResult :=
  match decision with
  | some d => { result with execution := d.choice.timeframe? }
  | none => result

/-- The report of a run that has ended. It cannot be made if a rule of the selection breaks down. -/
def report (b : Book) (r : Run) : Except Crash SignalReport :=
  let result := r.result
  let decision := (selectionInput? r result).map b.select
  match decision.bind Decision.crash with
  | some crash => .error crash
  | none => .ok ⟨r.runId, withChoice result decision, decision, r.steps⟩

/-- Runs a symbol down the timeframes and chooses the timeframe to enter on. -/
def runSymbol {σ : Type} (processors : ByTimeframe (Processor σ)) (b : Book) (options : RunOptions)
    (runId : RunId) (symbol : String) (s : σ) :
    Except Crash SignalReport × List AuditRecord × σ :=
  let (r, records, s) := (Run.begin symbol runId b options).complete processors b options s
  (report b r, records, s)

/-! ### Batches -/

/-- Runs the symbols of a batch one after the other, each under the name that `name` gives to its
place. -/
def runFrom {σ : Type} (processors : ByTimeframe (Processor σ)) (b : Book) (options : RunOptions)
    (name : Nat → RunId) (place : Nat) :
    List String → σ → Except Crash (List SignalReport) × List AuditRecord × σ
  | [], s => (.ok [], [], s)
  | symbol :: rest, s =>
    let (first, records, s) := runSymbol processors b options (name place) symbol s
    let (others, later, s) := runFrom processors b options name (place + 1) rest s
    ((do return (← first) :: (← others)), records ++ later, s)

/-- Runs a batch. A name that is asked for goes to a single symbol only; the runs of several symbols
have names of their own. -/
def runAll {σ : Type} (processors : ByTimeframe (Processor σ)) (b : Book) (options : RunOptions)
    (asked : Option RunId) (name : Nat → RunId) (symbols : List String) (s : σ) :
    Except Crash (List SignalReport) × List AuditRecord × σ :=
  let name :=
    match asked with
    | some id => if symbols.length = 1 then fun _ => id else name
    | none => name
  runFrom processors b options name 0 symbols s

end Pipeline

end TopDown
