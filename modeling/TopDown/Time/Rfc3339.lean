import TopDown.Time.Instant
import TopDown.Decimal.Numeral

/-!
# Instants in writing

Instants are written and read in the notation of RFC 3339, such as `2024-03-01T12:00:30Z`.

* `TopDown.Instant.render` writes an instant in universal time. The part of a second has as many
  groups of three digits as it needs, and years beyond four digits carry a sign.
* `TopDown.Instant.parse?` reads an instant. The date and the time of day are set apart by a `T` or
  by a blank, the time may be that of any zone, and digits beyond nanoseconds are dropped.
-/

namespace TopDown.Instant

/-! ### Writing -/

/-- The number in decimal digits, filled up with zeros to a width. -/
def padded (width n : Nat) : String :=
  let digits := Nat.toDigits 10 n
  String.ofList (List.replicate (width - digits.length) '0' ++ digits)

/-- A year: four digits, or a sign and as many digits as it takes. -/
def renderYear (year : Int) : String :=
  if 0 ≤ year && year ≤ 9999 then padded 4 year.toNat
  else (if year < 0 then "-" else "+") ++ padded 4 year.natAbs

/-- The part of a second, with a point before it. -/
def renderFraction (nanos : Nat) : String :=
  if nanos = 0 then ""
  else if nanos % 1000000 = 0 then "." ++ padded 3 (nanos / 1000000)
  else if nanos % 1000 = 0 then "." ++ padded 6 (nanos / 1000)
  else "." ++ padded 9 nanos

/-- The instant in universal time. -/
def render (t : Instant) : String :=
  let date := Calendar.ofDayNumber (t.seconds / secondsOfDay)
  let second := (t.seconds % secondsOfDay).toNat
  let shownSecond := second % 60 + (if t.isLeap then 1 else 0)
  let nanos := if t.isLeap then t.nanos - nanosOfSecond else t.nanos
  renderYear date.year ++ "-" ++ padded 2 date.month ++ "-" ++ padded 2 date.day ++ "T"
    ++ padded 2 (second / 3600) ++ ":" ++ padded 2 (second / 60 % 60) ++ ":"
    ++ padded 2 shownSecond ++ renderFraction nanos ++ "Z"

/-! ### Reading -/

/-- A number of exactly the given count of digits, and the rest. -/
def takeNumber? (count : Nat) (s : List Char) : Option (Nat × List Char) :=
  let digits := s.take count
  if digits.length = count && digits.all Char.isDigit then
    some (Decimal.digitsValue digits, s.drop count)
  else none

/-- The text after one of the given characters. -/
def takeMark? (marks : List Char) : List Char → Option (List Char)
  | c :: s => if marks.contains c then some s else none
  | [] => none

/-- A date and the rest. -/
def takeDate? (s : List Char) : Option (Calendar.Date × List Char) := do
  let (year, s) ← takeNumber? 4 s
  let s ← takeMark? ['-'] s
  let (month, s) ← takeNumber? 2 s
  let s ← takeMark? ['-'] s
  let (day, s) ← takeNumber? 2 s
  let date : Calendar.Date := ⟨year, month, day⟩
  if date.isValid then some (date, s) else none

/-- The part of a second in nanoseconds, and the rest. -/
def takeFraction? : List Char → Option (Nat × List Char)
  | '.' :: s =>
    let (digits, rest) := Decimal.spanDigits s
    if digits.isEmpty then none
    else
      let kept := digits.take 9
      some (Decimal.digitsValue (kept ++ List.replicate (9 - kept.length) '0'), rest)
  | s => some (0, s)

/-- A time of day, as the second of the day and nanoseconds, and the rest. The sixtieth second of a
minute is a leap second. -/
def takeTime? (s : List Char) : Option ((Nat × Nat) × List Char) := do
  let (hour, s) ← takeNumber? 2 s
  let s ← takeMark? [':'] s
  let (minute, s) ← takeNumber? 2 s
  let s ← takeMark? [':'] s
  let (second, s) ← takeNumber? 2 s
  let (nanos, s) ← takeFraction? s
  if hour ≤ 23 && minute ≤ 59 && second ≤ 60 then
    if second = 60 then some ((hour * 3600 + minute * 60 + 59, nanos + nanosOfSecond), s)
    else some ((hour * 3600 + minute * 60 + second, nanos), s)
  else none

/-- The seconds by which a zone is ahead of universal time, up to the end of the text. -/
def parseZone? (s : List Char) : Option Int := do
  match s with
  | ['Z'] | ['z'] => some 0
  | mark :: s =>
    let sign ← if mark = '+' then some 1 else if mark = '-' || mark = '−' then some (-1) else none
    let (hours, s) ← takeNumber? 2 s
    let s ← takeMark? [':'] s
    let (minutes, s) ← takeNumber? 2 s
    if hours ≤ 23 && minutes ≤ 59 && s.isEmpty then some (sign * (hours * 3600 + minutes * 60))
    else none
  | [] => none

/-- The instant written in a text. -/
def parse? (s : String) : Option Instant := do
  let (date, s) ← takeDate? s.toList
  let s ← takeMark? ['T', 't', ' '] s
  let ((second, nanos), s) ← takeTime? s
  let zone ← parseZone? s
  some ⟨Calendar.dayNumber date * secondsOfDay + second - zone, nanos⟩

end TopDown.Instant
