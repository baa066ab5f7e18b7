import TopDown.Decimal.Shortest

/-!
# How a number is written

`TopDown.Decimal.shortest` says which digits a number is written with; a
`TopDown.Decimal.Style` says how they are laid out: where positional notation gives way to an
exponent, and whether a whole number shows its point. The library writes numbers in two notations:

* `TopDown.Decimal.plain`, for the running text of messages;
* `TopDown.Decimal.data`, for the values of a report.
-/

namespace TopDown.Decimal

/-- The decisions that turn digits into a text. -/
structure Style where
  /-- The powers of ten of the leading digit that are written positionally. -/
  positional : Int → Bool
  /-- A whole number in positional notation ends in `.0`. -/
  wholePoint : Bool
  /-- The digits of a number halfway between two candidates. -/
  tie : Tie

/-- Messages: positional throughout, whole numbers without a point. -/
def plain : Style where
  positional _ := true
  wholePoint := false
  tie := .up

/-- Reports: positional from `0.00001` to below `10 ^ 16`, whole numbers with a point. -/
def data : Style where
  positional e := decide (-5 ≤ e) && decide (e < 16)
  wholePoint := true
  tie := .toEven

/-- The digits of a number in base ten, most significant first. -/
def digitChars (n : Nat) : List Char :=
  Nat.toDigits 10 n

/-- Positional notation of `d · 10 ^ e`, where `d` has the given digits. -/
def positionalChars (style : Style) (digits : List Char) (e : Int) : List Char :=
  if 0 ≤ e then
    digits ++ List.replicate e.toNat '0' ++ (if style.wholePoint then ['.', '0'] else [])
  else
    let places := (-e).toNat
    if places < digits.length then
      digits.take (digits.length - places) ++ '.' :: digits.drop (digits.length - places)
    else ['0', '.'] ++ List.replicate (places - digits.length) '0' ++ digits

/-- Exponent notation of a number whose leading digit stands for `10 ^ lead`. -/
def exponentChars (digits : List Char) (lead : Int) : List Char :=
  (match digits with
    | d :: r => d :: (if r.isEmpty then [] else '.' :: r)
    | [] => [])
    ++ ['e', if 0 ≤ lead then '+' else '-'] ++ digitChars lead.natAbs

/-- A finite magnitude, written in the notation. -/
def Style.layOut (style : Style) (d : Digits) : List Char :=
  let digits := digitChars d.coefficient
  let lead := d.exponent + digits.length - 1
  if style.positional lead then positionalChars style digits d.exponent else exponentChars digits lead

/-- The sign bit is set. -/
def isSigned (x : Float) : Bool :=
  x.toBits >>> 63 == 1

/-- The text of a number. Zero keeps its sign; the infinities and the undefined number have names. -/
def Style.write (style : Style) (x : Float) : String :=
  if x.isNaN then "NaN"
  else if x.isInf then if isSigned x then "-inf" else "inf"
  else String.ofList ((if isSigned x then ['-'] else []) ++ style.layOut (shortest style.tie x))

end TopDown.Decimal
