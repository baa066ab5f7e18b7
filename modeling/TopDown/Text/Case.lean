import TopDown.Text.Blank
import TopDown.Text.CaseTable

/-!
# Upper and lower case

Symbols are compared in upper case, the sections, keys and columns of files in lower case.
`TopDown.Text.upper` and `TopDown.Text.lower` are the full mappings of the Unicode standard: a
character may become several (`ß` becomes `SS`), and the lower case of a capital sigma depends on
its place (`TopDown.Text.endsWord`).
-/

namespace TopDown.Text

/-! ### Single characters -/

/-- The counterpart of a code point that belongs to the run. -/
def CaseRun.map? (r : CaseRun) (n : Nat) : Option Nat :=
  if r.first ≤ n && n ≤ r.last && (n - r.first) % r.step == 0 then some (n + r.shift).toNat
  else none

/-- The counterpart of a code point under the first run that has it, else the code point itself. -/
def mapByRuns (runs : List CaseRun) (n : Nat) : Nat :=
  (runs.findSome? fun r => r.map? n).getD n

/-- The upper case of a character, one to three characters. -/
def upperChar (c : Char) : List Char :=
  if c.toNat < 128 then [c.toUpper]
  else
    match upperExpansions.lookup c.toNat with
    | some codes => codes.map Char.ofNat
    | none => [Char.ofNat (mapByRuns upperRuns c.toNat)]

/-- The lower case of a character that stands alone, one or two characters. -/
def lowerChar (c : Char) : List Char :=
  if c.toNat < 128 then [c.toLower]
  else if c.toNat = 0x130 then ['i', Char.ofNat 0x307]
  else [Char.ofNat (mapByRuns lowerRuns c.toNat)]

/-! ### Texts -/

/-- The text in upper case. -/
def upper (s : String) : String :=
  String.ofList (s.toList.flatMap upperChar)

/-- The first character that is no ignorable mark is a cased letter. -/
def startsCased (s : List Char) : Bool :=
  match s.dropWhile (fun c => inRanges caseIgnorableRanges c.toNat) with
  | [] => false
  | c :: _ => inRanges casedRanges c.toNat

/-- A sigma ends a word when a letter stands before it and none after it. The characters before it
come nearest first. -/
def endsWord (before after : List Char) : Bool :=
  startsCased before && !startsCased after

/-- Lower case with the characters already passed at hand, nearest first. -/
def lowerFrom (before : List Char) : List Char → List Char
  | [] => []
  | c :: s =>
    (if c.toNat = 0x3A3 then [if endsWord before s then 'ς' else 'σ'] else lowerChar c)
      ++ lowerFrom (c :: before) s

/-- The text in lower case. -/
def lower (s : String) : String :=
  String.ofList (lowerFrom [] s.toList)

/-- The text with its ASCII letters in lower case. -/
def lowerAscii (s : String) : String :=
  String.ofList (s.toList.map Char.toLower)

end TopDown.Text
