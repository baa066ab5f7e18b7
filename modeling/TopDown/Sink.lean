import TopDown.Descent

/-!
# Sinks of the audit

The records of a run are handed to a `TopDown.AuditSink`, one after the other and as they come. A sink
belongs to the surroundings. It has a state of its own and may break down, but whoever hands a record
over does not mind (`TopDown.AuditSink.handOver`).

`TopDown.AuditSink.memory` keeps every record that it is handed, from whatever run it comes, and
`TopDown.AuditRecord.forSymbol` picks out those of a symbol.
-/

namespace TopDown

/-- What takes the records of the audit. It may break down, and it may change its own state. -/
abbrev AuditSink (κ : Type) := AuditRecord → κ → Except Crash Unit × κ

namespace AuditSink

variable {κ : Type}

/-- Hands a record to a sink. A breakdown ends here, with the state that it has left. -/
def handOver (sink : AuditSink κ) (record : AuditRecord) (kept : κ) : κ :=
  match sink record kept with
  | (.ok (), kept) => kept
  | (.error _, kept) => kept

/-- The sink that keeps all records, in the order in which they come. -/
def memory : AuditSink (List AuditRecord) :=
  fun record kept => (.ok (), kept ++ [record])

/-- A sink that breaks down at some records and treats the others as before. -/
def failingAt (fails : AuditRecord → Bool) (sink : AuditSink κ) : AuditSink κ :=
  fun record kept =>
    if fails record then (.error (.collaborator none), kept) else sink record kept

@[simp] theorem handOver_memory (record : AuditRecord) (kept : List AuditRecord) :
    memory.handOver record kept = kept ++ [record] := rfl

theorem handOver_failingAt (fails : AuditRecord → Bool) (sink : AuditSink κ)
    (record : AuditRecord) (kept : κ) : (sink.failingAt fails).handOver record kept =
      if fails record then kept else sink.handOver record kept := by
  unfold handOver failingAt
  by_cases h : fails record = true
  · rw [if_pos h, if_pos h]
  · rw [if_neg h, if_neg h]

end AuditSink

namespace AuditRecord

/-- The records of a symbol, in the order in which they were kept. -/
def forSymbol (symbol : String) (kept : List AuditRecord) : List AuditRecord :=
  kept.filter fun record => record.symbol == symbol

@[simp] theorem forSymbol_nil (symbol : String) : forSymbol symbol [] = [] := rfl

@[simp] theorem forSymbol_append (symbol : String) (kept later : List AuditRecord) :
    forSymbol symbol (kept ++ later) = forSymbol symbol kept ++ forSymbol symbol later :=
  List.filter_append kept later

/-- All records are those of the symbol. -/
theorem forSymbol_eq_self {symbol : String} {kept : List AuditRecord}
    (h : ∀ record ∈ kept, record.symbol = symbol) : forSymbol symbol kept = kept :=
  List.filter_eq_self.mpr fun record hr => beq_iff_eq.mpr (h record hr)

/-- No record is one of the symbol. -/
theorem forSymbol_eq_nil {symbol : String} {kept : List AuditRecord}
    (h : ∀ record ∈ kept, record.symbol ≠ symbol) : forSymbol symbol kept = [] :=
  List.filter_eq_nil_iff.mpr fun record hr hs => h record hr (beq_iff_eq.mp hs)

end AuditRecord

end TopDown
