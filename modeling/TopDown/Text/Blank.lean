/-!
# Blank characters and the pieces of a text

Configuration files, symbol lists and bar tables are cut at separators, and their pieces are trimmed.
Blank is the Unicode property of that name: 25 characters in ten ranges, of which only six are ASCII.

* `TopDown.Text.trim` drops the blanks at both ends of a text.
* `TopDown.Text.pieces` cuts a text at every occurrence of a character, and `TopDown.Text.cutFirst`
  at the first one.
* `TopDown.Text.lines` cuts a text into lines, whose end is a line feed with or without a carriage
  return before it.
-/

namespace TopDown.Text

/-! ### Blanks -/

/-- Closed ranges of the blank characters, ascending and apart. -/
def blankRanges : List (Nat × Nat) :=
  [(0x09, 0x0D), (0x20, 0x20), (0x85, 0x85), (0xA0, 0xA0), (0x1680, 0x1680), (0x2000, 0x200A),
   (0x2028, 0x2029), (0x202F, 0x202F), (0x205F, 0x205F), (0x3000, 0x3000)]

/-- A code point lies in one of the closed ranges. -/
def inRanges (ranges : List (Nat × Nat)) (n : Nat) : Bool :=
  ranges.any fun r => decide (r.1 ≤ n) && decide (n ≤ r.2)

/-- The character is blank. -/
def isBlank (c : Char) : Bool :=
  inRanges blankRanges c.toNat

/-- The characters without the blanks at either end. -/
def trimChars (s : List Char) : List Char :=
  ((s.dropWhile isBlank).reverse.dropWhile isBlank).reverse

/-- The text without the blanks at either end. -/
def trim (s : String) : String :=
  String.ofList (trimChars s.toList)

/-- The text has nothing but blanks. -/
def isAllBlank (s : String) : Bool :=
  s.toList.all isBlank

/-! ### Pieces -/

/-- The pieces between the occurrences of `sep`: one more than there are occurrences. -/
def piecesOf (sep : Char) : List Char → List (List Char)
  | [] => [[]]
  | c :: s =>
    if c = sep then [] :: piecesOf sep s
    else
      match piecesOf sep s with
      | [] => [[c]]
      | p :: ps => (c :: p) :: ps

/-- The pieces of a text between the occurrences of `sep`. -/
def pieces (sep : Char) (s : String) : List String :=
  (piecesOf sep s.toList).map String.ofList

/-- What stands before and after the first occurrence of `sep`. -/
def cutFirstOf (sep : Char) : List Char → Option (List Char × List Char)
  | [] => none
  | c :: s =>
    if c = sep then some ([], s)
    else (cutFirstOf sep s).map fun (a, b) => (c :: a, b)

/-- What stands before and after the first occurrence of `sep` in a text. -/
def cutFirst (sep : Char) (s : String) : Option (String × String) :=
  (cutFirstOf sep s.toList).map fun (a, b) => (String.ofList a, String.ofList b)

/-- The text that follows a given beginning. -/
def afterStart? : List Char → List Char → Option (List Char)
  | [], s => some s
  | _ :: _, [] => none
  | a :: start, c :: s => if a = c then afterStart? start s else none

/-- A line without the carriage return that may end it. -/
def chompReturn (line : List Char) : List Char :=
  match line.reverse with
  | '\r' :: r => r.reverse
  | _ => line

/-- The lines of a text. A line feed at the very end opens no further line. -/
def lines (s : String) : List String :=
  let ps := piecesOf '\n' s.toList
  let ps := if ps.getLast? = some [] then ps.dropLast else ps
  ps.map fun p => String.ofList (chompReturn p)

end TopDown.Text
