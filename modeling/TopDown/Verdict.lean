import TopDown.Crash
import TopDown.Json.Value

/-!
# Verdicts

A condition that is checked against a context has passed, has failed, or could not be decided
because data are missing. A `TopDown.Verdict` says which, and keeps what a reader of the audit wants
to know: the value that was looked at, the threshold, and details.

In a group the undecided verdicts do not count. `TopDown.Verdict.allPassed` asks for a decided
verdict and for no decided failure; `TopDown.Verdict.anyPassed` asks for a decided pass. A group with
no decided verdict satisfies neither.
-/

namespace TopDown

/-- What became of a condition. -/
structure Verdict where
  /-- The condition holds. -/
  passed : Bool
  /-- Data that the condition needs are missing. -/
  missing : Bool
  /-- The value that was looked at. -/
  value : Json
  /-- The threshold that it was compared with. -/
  threshold : Option Float
  /-- Further details for the audit. -/
  details : Table Json
  /-- The check broke down and has no outcome. -/
  crash : Option Crash
  deriving Inhabited

namespace Verdict

/-- A decided verdict. -/
def decided (passed : Bool) (value : Json) (threshold : Option Float) : Verdict :=
  ⟨passed, false, value, threshold, [], none⟩

/-- A verdict that data are missing for. -/
def undecided (reason : String) : Verdict :=
  ⟨false, true, .null, none, [("reason", .str reason)], none⟩

/-- The verdict of a check that broke down. -/
def broken (crash : Crash) : Verdict :=
  ⟨false, false, .null, none, [], some crash⟩

/-- The verdict with one more detail. -/
def withDetail (v : Verdict) (key : String) (detail : Json) : Verdict :=
  { v with details := Table.put key detail v.details }

/-- The condition could be decided and holds. -/
def holds (v : Verdict) : Bool :=
  !v.missing && v.passed

/-- The condition could be decided and does not hold. -/
def fails (v : Verdict) : Bool :=
  !v.missing && !v.passed

/-! ### Groups -/

/-- How many verdicts are decided. -/
def decidedCount (vs : List Verdict) : Nat :=
  vs.countP fun v => !v.missing

/-- Some verdict is decided, and every decided one has passed. -/
def allPassed (vs : List Verdict) : Bool :=
  vs.any (fun v => !v.missing) && !vs.any fails

/-- Some decided verdict has passed. -/
def anyPassed (vs : List Verdict) : Bool :=
  vs.any holds

/-- The first breakdown among several verdicts. -/
def firstCrash (vs : List Verdict) : Option Crash :=
  vs.findSome? (·.crash)

/-! ### The audit -/

/-- The remarks on a verdict: whether data are missing, and its details. -/
def remarks (v : Verdict) : Json :=
  .obj (Table.put "missing_data" (.bool v.missing) v.details)

/-- The fields of a verdict in the audit. -/
def fields (v : Verdict) : Table Json :=
  [("meta", v.remarks), ("passed", .bool v.passed)]
    ++ (match v.threshold with
      | some t => [("threshold", Json.ofFloat t)]
      | none => [])
    ++ [("value", v.value)]

/-- A verdict in the audit. -/
def toJson (v : Verdict) : Json :=
  .obj v.fields

end Verdict

/-- A verdict under the name of what was checked. -/
structure Labelled where
  /-- The name. -/
  label : String
  /-- The verdict. -/
  verdict : Verdict
  deriving Inhabited

/-- A named verdict in the audit. -/
def Labelled.toJson (l : Labelled) : Json :=
  .obj (Table.put "name" (.str l.label) l.verdict.fields)

end TopDown
