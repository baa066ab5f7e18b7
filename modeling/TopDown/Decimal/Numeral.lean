import TopDown.Text.Case

/-!
# Reading numerals

Tables, rule files and settings spell their numbers in slightly different ways. What they share is
here: runs of decimal digits (`TopDown.Decimal.spanDigits`), the value of such a run, the nearest
floating-point number to a decimal (`TopDown.Decimal.toFloat`), and the two spellings used for the
cells of a table: `TopDown.Decimal.parseReal?` and `TopDown.Decimal.parseInt?`.
-/

namespace TopDown.Decimal

/-! ### Digits -/

/-- The leading digits of a text and what follows them. -/
def spanDigits (s : List Char) : List Char × List Char :=
  s.span Char.isDigit

/-- The value of a run of decimal digits. -/
def digitsValue (ds : List Char) : Nat :=
  ds.foldl (fun n c => 10 * n + (c.toNat - '0'.toNat)) 0

/-- The floating-point number nearest to `n · 10 ^ e`. A decimal far outside the range of the format
is settled by the place of its leading digit. -/
def toFloat (n : Nat) (e : Int) : Float :=
  if n = 0 then 0.0
  else
    let lead := e + (Nat.toDigits 10 n).length
    if 310 < lead then 1.0 / 0.0
    else if lead < -330 then 0.0
    else Float.ofScientific n (decide (e < 0)) e.natAbs

/-- The number with the given sign and magnitude. -/
def signed (negative : Bool) (x : Float) : Float :=
  if negative then -x else x

/-- The number nearest to a decimal with whole digits, fraction digits and an exponent. -/
def ofParts (negative : Bool) (whole fraction : List Char) (e : Int) : Float :=
  signed negative (toFloat (digitsValue (whole ++ fraction)) (e - fraction.length))

/-! ### Exponents and signs -/

/-- An optional sign; the flag says that it is a minus. -/
def spanSign : List Char → Bool × List Char
  | '-' :: s => (true, s)
  | '+' :: s => (false, s)
  | s => (false, s)

/-- An integer of decimal digits with an optional sign, up to the end of the text. -/
def parseInt? (s : List Char) : Option Int :=
  let (negative, ds) := spanSign s
  if ds.isEmpty || !ds.all Char.isDigit then none
  else
    let n := digitsValue ds
    some (if negative then -n else n)

/-- The exponent part that may end a numeral: nothing, or `e` and an integer. -/
def parseExponent? : List Char → Option Int
  | [] => some 0
  | c :: s => if c = 'e' || c = 'E' then parseInt? s else none

/-! ### The cells of a table -/

/-- The names of the infinities and of the undefined number, in any case. -/
def parseNamed? (s : List Char) : Option Float :=
  match String.ofList (s.map Char.toLower) with
  | "inf" | "infinity" => some (1.0 / 0.0)
  | "nan" => some (0.0 / 0.0)
  | _ => none

/-- A decimal with at least one digit around an optional point, and an optional exponent. -/
def parseMagnitude? (negative : Bool) (s : List Char) : Option Float :=
  let (whole, rest) := spanDigits s
  let (fraction, rest) :=
    match rest with
    | '.' :: r => spanDigits r
    | r => ([], r)
  if whole.isEmpty && fraction.isEmpty then none
  else (parseExponent? rest).map (ofParts negative whole fraction)

/-- A real number: an optional sign before a decimal or a name. A magnitude beyond the range of the
format reads as infinite. -/
def parseReal? (s : String) : Option Float :=
  let (negative, r) := spanSign s.toList
  match parseNamed? r with
  | some x => some (signed negative x)
  | none => parseMagnitude? negative r

/-- An integer that fits 64 signed bits. -/
def parseInt64? (s : String) : Option Int :=
  match parseInt? s.toList with
  | some n => if Int64.minValue.toInt ≤ n && n ≤ Int64.maxValue.toInt then some n else none
  | none => none

end TopDown.Decimal
