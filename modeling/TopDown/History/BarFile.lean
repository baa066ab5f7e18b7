import TopDown.Bar
import TopDown.Decimal.Numeral
import TopDown.Text.Csv
import TopDown.Time.Rfc3339

/-!
# Files of bars

A file holds the bars of one symbol on one timeframe, one record each. Its header names six columns
in a fixed order and then any number of further ones. The time of a bar is an instant in writing, or
the number of milliseconds since the epoch. A blank cell of a further column is no value.

`TopDown.BarFile.parse` reads the bars of a file and puts them in the order of time; bars of the same
time keep the order of the file. One bad record spoils the whole file.
-/

namespace TopDown.BarFile

/-- What is wrong with a file of bars. -/
inductive Mistake where
  /-- The header does not start with the six columns. -/
  | badHeader
  /-- The record of a row has another number of fields than the header. -/
  | fieldCount (row : Nat) (place : Text.Csv.Place) (found expected : Nat)
  /-- The time of a row cannot be read. -/
  | badTime (row : Nat) (cell : String)
  /-- A number of a row cannot be read. -/
  | badNumber (row : Nat) (column cell : String)
  deriving DecidableEq, Repr

/-- The columns that every file has. -/
def coreColumns : List String :=
  ["open_time", "open", "high", "low", "close", "volume"]

/-- The wording of what is wrong with a row. -/
def inRow (row : Nat) (wrong : String) : String :=
  "row " ++ toString row ++ ": " ++ wrong

/-- The wording of a mistake. -/
def Mistake.message : Mistake → String
  | .badHeader => "header must start with " ++ ",".intercalate coreColumns
  | .fieldCount row place found expected =>
    "CSV parse error: CSV error: record " ++ toString row ++ " (line: " ++ toString place.line
      ++ ", byte: " ++ toString place.byte ++ "): found record with " ++ toString found
      ++ " fields, but the previous record has " ++ toString expected ++ " fields"
  | .badTime row cell => inRow row ("invalid open_time '" ++ cell ++ "'")
  | .badNumber row column cell => inRow row ("invalid " ++ column ++ " value '" ++ cell ++ "'")

/-- The instant that a cell spells: milliseconds since the epoch, or a written instant. -/
def parseTime? (cell : String) : Option Instant :=
  match Decimal.parseInt64? cell with
  | some millis => Instant.ofMillis? millis
  | none => Instant.parse? cell

/-- The number that a cell spells. -/
def number (row : Nat) (column cell : String) : Except Mistake Float :=
  match Decimal.parseReal? cell with
  | some x => .ok x
  | none => .error (.badNumber row column cell)

/-- The further columns of a row that are not blank. -/
def extras (row : Nat) : List (String × String) → Table Float → Except Mistake (Table Float)
  | [], t => .ok t
  | (column, cell) :: rest, t =>
    if cell.isEmpty then extras row rest t
    else do
      let x ← number row column cell
      extras row rest (Table.put column x t)

/-- The bar of a row, whose cells have no blanks around them. -/
def parseRow (symbol : String) (tf : Timeframe) (header : List String) (row : Nat)
    (cells : List String) : Except Mistake Bar := do
  let cell (i : Nat) : String := cells.getD i ""
  let openTime ←
    match parseTime? (cell 0) with
    | some t => pure t
    | none => .error (.badTime row (cell 0))
  let extras ← extras row ((header.zip cells).drop coreColumns.length) []
  let opening ← number row "open" (cell 1)
  let high ← number row "high" (cell 2)
  let low ← number row "low" (cell 3)
  let close ← number row "close" (cell 4)
  let volume ← number row "volume" (cell 5)
  return { symbol, timeframe := tf, openTime, opening, high, low, close, volume, extras }

/-- The bars of the rows, counted from `row`, in the order of the file. -/
def parseRows (symbol : String) (tf : Timeframe) (header : List String) (row : Nat) :
    List Text.Csv.Record → Except Mistake (List Bar)
  | [] => .ok []
  | r :: rest =>
    if r.fields.length = header.length then do
      let bar ← parseRow symbol tf header row (r.fields.map Text.trim)
      let bars ← parseRows symbol tf header (row + 1) rest
      return bar :: bars
    else .error (.fieldCount row r.place r.fields.length header.length)

/-- The bars in the order of time. -/
def sortByTime (bars : List Bar) : List Bar :=
  bars.mergeSort fun a b => a.openTime.upTo b.openTime

/-- The name of a column: in lower case and without blanks around it. -/
def columnName (cell : String) : String :=
  Text.lower (Text.trim cell)

/-- The bars of a file. -/
def parse (symbol : String) (tf : Timeframe) (text : String) : Except Mistake (List Bar) :=
  let records := Text.Csv.records text
  let header := ((records.map (·.fields)).headD []).map columnName
  if header.take coreColumns.length = coreColumns then
    (parseRows symbol tf header 1 records.tail).map sortByTime
  else .error .badHeader

end TopDown.BarFile
