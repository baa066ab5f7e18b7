import TopDown.Text.Blank

/-!
# What is wrong with a TOML text

A reader that meets something out of place says where, what it was about to read, what it expected,
and why it stopped (`TopDown.Toml.Flaw`). The place is kept as the number of characters that were
left; `TopDown.Toml.Flaw.message` finds it again in the text and shows the line with a mark under it.
-/

namespace TopDown.Toml

/-- What is wrong at some place. Every part may be missing. -/
structure Complaint where
  /-- What was being read. -/
  part : Option String
  /-- What would have been right. -/
  expected : List String
  /-- What went wrong. -/
  cause : Option String
  deriving DecidableEq, Repr

namespace Complaint

/-- Nothing to say. -/
def silent : Complaint := ⟨none, [], none⟩

/-- A part cannot be read. -/
def invalid (part : String) : Complaint := ⟨some part, [], none⟩

/-- One of some things was expected. -/
def wanted (expected : List String) : Complaint := ⟨none, expected, none⟩

/-- Something went wrong. -/
def because (cause : String) : Complaint := ⟨none, [], some cause⟩

/-- The complaint within a part. An inner part is more telling and stays. -/
def within (part : String) (c : Complaint) : Complaint :=
  { c with part := c.part.orElse fun _ => some part }

/-- The complaint with more things that were expected. -/
def orElse (more : List String) (c : Complaint) : Complaint :=
  { c with expected := c.expected ++ more }

/-- The lines of a complaint. -/
def lines (c : Complaint) : List String :=
  (c.part.map ("invalid " ++ ·)).toList
    ++ (if c.expected.isEmpty then [] else ["expected " ++ ", ".intercalate c.expected])
    ++ c.cause.toList

/-- The wording of a complaint. -/
def message (c : Complaint) : String :=
  "\n".intercalate c.lines

end Complaint

/-- A complaint and its place. -/
structure Flaw where
  /-- How many characters were left. -/
  left : Nat
  /-- What is wrong. -/
  complaint : Complaint
  deriving DecidableEq, Repr

/-- What a reader returns: a flaw, or a value and the characters after it. -/
abbrev Read (α : Type) := Except Flaw (α × List Char)

/-- The flaw at the given characters. -/
def flawAt {α : Type} (rest : List Char) (c : Complaint) : Except Flaw α :=
  .error ⟨rest.length, c⟩

/-- The result, with its complaint changed. -/
def onComplaint {α : Type} (change : Complaint → Complaint) : Except Flaw α → Except Flaw α
  | .ok a => .ok a
  | .error f => .error { f with complaint := change f.complaint }

/-! ### Showing the place -/

/-- A place in a text. -/
structure Place where
  /-- The line, counted from zero. -/
  line : Nat
  /-- The column, counted from zero. -/
  column : Nat
  deriving DecidableEq, Repr

/-- The size of a text in bytes. -/
def byteSize (s : List Char) : Nat :=
  s.foldl (fun n c => n + c.utf8Size) 0

/-- The characters since the last line feed. -/
def sinceLineFeed (before : List Char) : List Char :=
  (before.reverse.takeWhile (· ≠ '\n')).reverse

/-- How many line feeds there are. -/
def lineFeeds (s : List Char) : Nat :=
  s.countP (· = '\n')

/-- The place of the character that some characters stand before. Before a character outside ASCII
the column counts bytes. The end of a text belongs to the line of its last character, be it a line
feed. -/
def placeOf (before : List Char) (next : Option Char) : Place :=
  match next with
  | some c =>
    let column := sinceLineFeed before
    ⟨lineFeeds before, if c.toNat < 128 then column.length else byteSize column⟩
  | none =>
    let line := before.dropLast
    ⟨lineFeeds line, (sinceLineFeed line).length + (before.length - line.length)⟩

/-- A flaw of a text in full: its place, the line with a mark under it, and the complaint. -/
def Flaw.message (f : Flaw) (text : String) : String :=
  let s := text.toList
  let before := s.take (s.length - f.left)
  let next := s[s.length - f.left]?
  let place := placeOf before next
  let line := ((Text.piecesOf '\n' s)[place.line]?).getD []
  let number := toString (place.line + 1)
  let gutter := String.ofList (List.replicate (number.length + 1) ' ')
  let width := min ((next.map Char.utf8Size).getD 0) (byteSize line)
  let mark := String.ofList
    (List.replicate (place.column + 1) ' ' ++ List.replicate (max width 1) '^')
  "TOML parse error at line " ++ number ++ ", column " ++ toString (place.column + 1) ++ "\n"
    ++ gutter ++ "|\n"
    ++ number ++ " | " ++ String.ofList line ++ "\n"
    ++ gutter ++ "|" ++ mark ++ "\n"
    ++ f.complaint.message ++ "\n"

end TopDown.Toml
