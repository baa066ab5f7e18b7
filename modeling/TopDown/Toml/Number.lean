import TopDown.Time.Rfc3339
import TopDown.Toml.Text

/-!
# Numbers and times in TOML

A number is an integer of 64 signed bits, in decimal or with one of three prefixes, or a real number;
underscores may stand between its digits. Four digits and a hyphen open a date, two digits and a
colon a time of day.

An infinite or undefined number has no counterpart in a document and becomes the absent value. A date
or time becomes an object with its text (`TopDown.Toml.timeKey`).
-/

namespace TopDown.Toml

/-! ### Digits -/

/-- The complaint where a digit is missing. -/
def digitWanted : Complaint := .wanted ["digit"]

/-- Digits with single underscores between them, of which the first is already known to be there. -/
def readDigits (isDigit : Char → Bool) : List Char → Read (List Char)
  | '_' :: c :: r =>
    if isDigit c then (readDigits isDigit r).map fun (ds, r) => (c :: ds, r)
    else flawAt (c :: r) digitWanted
  | ['_'] => flawAt [] digitWanted
  | c :: r =>
    if isDigit c then (readDigits isDigit r).map fun (ds, r) => (c :: ds, r)
    else .ok ([], c :: r)
  | [] => .ok ([], [])

/-- At least one digit, with single underscores between the digits. -/
def readSomeDigits (isDigit : Char → Bool) (s : List Char) : Read (List Char) :=
  match s with
  | c :: _ => if isDigit c then readDigits isDigit s else flawAt s .silent
  | [] => flawAt s .silent

/-- The digits of a decimal integer: one zero, or digits that do not start with zero. -/
def readWhole (s : List Char) : Read (List Char) :=
  match s with
  | '0' :: r => .ok (['0'], r)
  | _ => onComplaint (·.within "integer") (readSomeDigits Char.isDigit s)

/-! ### Integers -/

/-- A value and the characters after it. -/
abbrev Found := Node × List Char

/-- An integer, read from the characters `s` on. -/
def integerNode (n : Int) (s r : List Char) : Except Flaw Found :=
  if Int64.maxValue.toInt < n then flawAt s (.because "number too large to fit in target type")
  else if n < Int64.minValue.toInt then flawAt s (.because "number too small to fit in target type")
  else .ok (.value .integer (.int n), r)

/-- A way to write integers other than the decimal one. -/
structure Radix where
  /-- The letter of the prefix. -/
  letter : Char
  /-- The base. -/
  base : Nat
  /-- What such an integer is called. -/
  name : String

/-- The ways to write integers other than the decimal one. -/
def radices : List Radix :=
  [⟨'x', 16, "hexadecimal integer"⟩, ⟨'o', 8, "octal integer"⟩, ⟨'b', 2, "binary integer"⟩]

/-- The digit of a base. -/
def digit? (base : Nat) (c : Char) : Option Nat :=
  (Json.hexValue? c).filter (· < base)

/-- The value of digits of a base. -/
def valueOf (base : Nat) (ds : List Char) : Nat :=
  ds.foldl (fun n c => base * n + (digit? base c).getD 0) 0

/-- An integer with a prefix, which stands at the start of `s` and before `r`. -/
def readPrefixed (x : Radix) (s r : List Char) : Except Flaw Found := do
  let (ds, r) ← onComplaint (·.within x.name)
    (readSomeDigits (fun c => (digit? x.base c).isSome) r)
  integerNode (valueOf x.base ds) s r

/-! ### Reals -/

/-- What is left of a number after its whole part. -/
structure Tail where
  /-- The digits after the point. -/
  fraction : List Char
  /-- The exponent. -/
  exponent : Int

/-- The result, with a flaw blamed on a real number. -/
def asReal {α : Type} : Except Flaw α → Except Flaw α :=
  onComplaint (·.within "floating-point number")

/-- The exponent, if there is one. -/
def readExponent? (s : List Char) : Except Flaw (Option (Int × List Char)) :=
  match s with
  | c :: r =>
    if c = 'e' || c = 'E' then do
      let (negative, r) := Decimal.spanSign r
      let (ds, r) ← asReal (readSomeDigits Char.isDigit r)
      let n : Int := Decimal.digitsValue ds
      return some (if negative then -n else n, r)
    else .ok none
  | [] => .ok none

/-- What makes a number real: a fraction, an exponent, or both. -/
def readTail? (s : List Char) : Except Flaw (Option (Tail × List Char)) := do
  match s with
  | '.' :: r =>
    let (ds, r) ← asReal (onComplaint (·.orElse ["digit"]) (readSomeDigits Char.isDigit r))
    match ← readExponent? r with
    | some (e, r) => return some (⟨ds, e⟩, r)
    | none => return some (⟨ds, 0⟩, r)
  | _ => return (← readExponent? s).map fun (e, r) => (⟨[], e⟩, r)

/-- A real number, or the absent value in place of an infinite or undefined one. -/
def realNode (x : Float) : Node :=
  .value .real (Json.ofFloat x)

/-- A decimal number without sign, read from the characters `s` on. A real number above the range of
the format is refused; one below it is infinite. -/
def readDecimal (negative : Bool) (s r : List Char) : Except Flaw Found := do
  let (whole, r) ← readWhole r
  match ← readTail? r with
  | some (tail, r) =>
    let x := Decimal.ofParts negative whole tail.fraction tail.exponent
    if x == 1.0 / 0.0 then flawAt s (.invalid "floating-point number")
    else return (realNode x, r)
  | none =>
    let n : Int := Decimal.digitsValue whole
    integerNode (if negative then -n else n) s r

/-- The number of a word: infinite or undefined. -/
def readNamed? : List Char → Option Found
  | 'i' :: 'n' :: 'f' :: r => some (.value .real .null, r)
  | 'n' :: 'a' :: 'n' :: r => some (.value .real .null, r)
  | _ => none

/-! ### Dates and times -/

/-- The key under which a document has the text of a date or time. -/
def timeKey : String := "$__toml_private_datetime"

/-- A date or time as a value. -/
def timeNode (text : String) : Node :=
  .value .time (.obj [(timeKey, .str text)])

/-- A number of two digits between bounds. -/
def readTwo (lo hi : Nat) (s : List Char) : Read Nat :=
  match Instant.takeNumber? 2 s with
  | some (n, r) =>
    if lo ≤ n && n ≤ hi then .ok (n, r) else flawAt s (.because "value is out of range")
  | none => flawAt s .silent

/-- The characters after a mark. -/
def readMark (mark : Char) (s : List Char) : Except Flaw (List Char) :=
  match s with
  | c :: r => if c = mark then .ok r else flawAt s .silent
  | [] => flawAt s .silent

/-- A number of two digits as it is written. -/
def two (n : Nat) : String := Instant.padded 2 n

/-- The part of a second after the point, if there is one: nine digits at most, and no zeros at the
end. -/
def readFraction : List Char → String × List Char
  | '.' :: r =>
    let (ds, rest) := Decimal.spanDigits r
    if ds.isEmpty then ("", '.' :: r)
    else
      let kept := ((ds.take 9).reverse.dropWhile (· = '0')).reverse
      (if kept.isEmpty then "" else "." ++ String.ofList kept, rest)
  | s => ("", s)

/-- A time of day after its hour and colon. -/
def readMinutes (hour : Nat) (s : List Char) : Except Flaw (String × List Char) := do
  let (minute, r) ← readTwo 0 59 s
  let r ← readMark ':' r
  let (second, r) ← readTwo 0 60 r
  let (fraction, r) := readFraction r
  return (two hour ++ ":" ++ two minute ++ ":" ++ two second ++ fraction, r)

/-- The hour of a time of day and what follows its colon, if this is one. -/
def hour? (s : List Char) : Option (Nat × List Char) :=
  match Instant.takeNumber? 2 s with
  | some (n, ':' :: r) => if n ≤ 23 then some (n, r) else none
  | _ => none

/-- The zone of a time, if there is one. -/
def readZone (s : List Char) : Except Flaw (String × List Char) :=
  match s with
  | c :: r =>
    if c = 'Z' || c = 'z' then .ok ("Z", r)
    else if c = '+' || c = '-' then
      onComplaint (·.within "time offset") do
        let (hour, r) ← readTwo 0 23 r
        let r ← readMark ':' r
        let (minute, r) ← readTwo 0 59 r
        let sign := if c = '-' && hour + minute ≠ 0 then "-" else "+"
        return (sign ++ two hour ++ ":" ++ two minute, r)
    else .ok ("", s)
  | [] => .ok ("", s)

/-- The time of day and the zone that may follow a date. -/
def readTimeOfDate (s : List Char) : Except Flaw (String × List Char) :=
  match s with
  | c :: r =>
    if c = 'T' || c = 't' || c = ' ' then
      match hour? r with
      | some (hour, r) => do
        let (time, r) ← readMinutes hour r
        let (zone, r) ← readZone r
        return ("T" ++ time ++ zone, r)
      | none => .ok ("", s)
    else .ok ("", s)
  | [] => .ok ("", s)

/-- A date after its year and hyphen, with the time that may follow it. -/
def readMonth (year : Nat) (s : List Char) : Except Flaw Found := do
  let (month, r) ← readTwo 1 12 s
  let r ← readMark '-' r
  let (day, rest) ← readTwo 1 31 r
  if Calendar.daysOfMonth year month < day then flawAt r (.because "value is out of range")
  else
    let (time, rest) ← readTimeOfDate rest
    return (timeNode (Instant.padded 4 year ++ "-" ++ two month ++ "-" ++ two day ++ time), rest)

/-! ### Numbers and times -/

/-- A value that opens with a digit. -/
def readFromDigit (s : List Char) : Except Flaw Found :=
  match Instant.takeNumber? 4 s with
  | some (year, '-' :: r) => onComplaint (·.within "date-time") (readMonth year r)
  | _ =>
    match hour? s with
    | some (hour, r) =>
      onComplaint (·.within "time") ((readMinutes hour r).map fun (t, r) => (timeNode t, r))
    | none =>
      match s with
      | '0' :: c :: r =>
        match radices.find? fun x => x.letter = c with
        | some x => readPrefixed x s r
        | none => readDecimal false s s
      | _ => readDecimal false s s

/-- A value that opens with a sign. -/
def readSigned (s : List Char) : Except Flaw Found :=
  let (negative, r) := Decimal.spanSign s
  if (r.head?.map Char.isDigit).getD false then readDecimal negative s r
  else
    match readNamed? r with
    | some found => .ok found
    | none => flawAt r (.invalid "integer")

end TopDown.Toml
