/-!
# Records set apart by commas

`TopDown.Text.Csv.records` cuts a text into records and each record into fields. A comma ends a
field, a line feed or a carriage return ends a record, and empty lines count for nothing. A field
that begins with a quote runs to the next quote that stands alone; two quotes within it stand for
one. What follows the closing quote belongs to the field as it is. A text may end anywhere, even
between quotes.

The cutter looks at one character at a time. `TopDown.Text.Csv.State` is where it stands in the
field, and `TopDown.Text.Csv.Cut` what it has cut so far. A record remembers its place in the text, for
whoever has to complain of it: where the cutter stood when the record before had ended. Empty lines in
between, or the line feed of a pair that began with a carriage return, come after that place.
-/

namespace TopDown.Text.Csv

/-- Where a cutter stands. -/
inductive State where
  /-- Before a record. -/
  | beforeRecord
  /-- Before a field. -/
  | beforeField
  /-- In a field without quotes, or after the closing quote. -/
  | inField
  /-- Between quotes. -/
  | inQuotes
  /-- After a quote within a quoted field. -/
  | afterQuote
  deriving DecidableEq, Repr

/-- A place in a text. -/
structure Place where
  /-- The line, counted from one. -/
  line : Nat
  /-- The bytes before it. -/
  byte : Nat
  deriving DecidableEq, Repr

/-- The place after a character. -/
def Place.after (p : Place) (c : Char) : Place :=
  ⟨if c = '\n' then p.line + 1 else p.line, p.byte + c.utf8Size⟩

/-- A record. -/
structure Record where
  /-- The place from which it was looked for. -/
  place : Place
  /-- Its fields. -/
  fields : List String
  deriving DecidableEq, Repr

/-- What a cutter has cut so far. The latest comes first. -/
structure Cut where
  /-- Where it stands in the field. -/
  state : State
  /-- Where it stands in the text. -/
  place : Place
  /-- Where it stood after the latest record. -/
  since : Place
  /-- The characters of the current field. -/
  field : List Char
  /-- The fields of the current record. -/
  fields : List String
  /-- The records. -/
  records : List Record

namespace Cut

/-- Nothing has been cut, and the first character is in the given place. -/
def start (place : Place) : Cut :=
  ⟨.beforeRecord, place, ⟨1, 0⟩, [], [], []⟩

/-- The cut with a further character in the field. -/
def keep (k : Cut) (c : Char) (state : State) : Cut :=
  { k with state, field := c :: k.field }

/-- The cut with the current field ended. -/
def endField (k : Cut) : Cut :=
  { k with
    state := .beforeField, field := []
    fields := String.ofList k.field.reverse :: k.fields }

/-- The cut with the current record ended. -/
def endRecord (k : Cut) : Cut :=
  let k := k.endField
  { k with
    state := .beforeRecord, since := k.place, fields := []
    records := ⟨k.since, k.fields.reverse⟩ :: k.records }

/-- The character ends a record. -/
def isLineEnd (c : Char) : Bool :=
  c = '\n' || c = '\r'

/-- A character outside quotes. -/
def plain (k : Cut) (c : Char) : Cut :=
  if c = ',' then k.endField else if isLineEnd c then k.endRecord else k.keep c .inField

/-- The first character of a field. -/
def first (k : Cut) (c : Char) : Cut :=
  if c = '"' then { k with state := .inQuotes } else k.plain c

/-- The cut after one more character, which has been counted. -/
def consume (k : Cut) (c : Char) : Cut :=
  match k.state with
  | .beforeRecord => if isLineEnd c then k else k.first c
  | .beforeField => k.first c
  | .inField => k.plain c
  | .inQuotes => if c = '"' then { k with state := .afterQuote } else k.keep c .inQuotes
  | .afterQuote => if c = '"' then k.keep c .inQuotes else k.plain c

/-- The cut after one more character. -/
def next (k : Cut) (c : Char) : Cut :=
  { k with place := k.place.after c }.consume c

/-- The cut after the last character. -/
def finish (k : Cut) : Cut :=
  if k.state = .beforeRecord then k else k.endRecord

end Cut

/-- The cut of a text. A mark that may open a file belongs to no record. -/
def cut : List Char → Cut
  | c :: s =>
    if c.toNat = 0xFEFF then s.foldl Cut.next (.start ⟨1, c.utf8Size⟩)
    else (c :: s).foldl Cut.next (.start ⟨1, 0⟩)
  | [] => .start ⟨1, 0⟩

/-- The records of a text. -/
def records (s : String) : List Record :=
  (cut s.toList).finish.records.reverse

end TopDown.Text.Csv
