import TopDown.Json.Value

/-!
# Writing documents

A document is written on one line without blanks (`TopDown.Json.compact`), as messages quote it, or
with one field or item a line (`TopDown.Json.pretty`), as reports are printed.
-/

namespace TopDown.Json

/-! ### Texts -/

/-- The lower-case hexadecimal digit of a number below sixteen. -/
def hexDigit (n : Nat) : Char :=
  if n < 10 then Char.ofNat ('0'.toNat + n) else Char.ofNat ('a'.toNat + n - 10)

/-- What stands for a character between quotes. Only the quote, the backslash and the control
characters do not stand for themselves. -/
def escape (c : Char) : List Char :=
  match c with
  | '"' => ['\\', '"']
  | '\\' => ['\\', '\\']
  | '\n' => ['\\', 'n']
  | '\r' => ['\\', 'r']
  | '\t' => ['\\', 't']
  | c =>
    if c.toNat = 0x08 then ['\\', 'b']
    else if c.toNat = 0x0C then ['\\', 'f']
    else if c.toNat < 0x20 then ['\\', 'u', '0', '0', hexDigit (c.toNat / 16), hexDigit (c.toNat % 16)]
    else [c]

/-- The text between quotes. -/
def quoted (s : String) : String :=
  String.ofList ('"' :: s.toList.flatMap escape ++ ['"'])

/-! ### Documents -/

/-- The text of a number written as a real; an infinite or undefined one has none. -/
def writeReal (x : Float) : String :=
  if x.isFinite then Decimal.data.write x else "null"

/-- The pieces, with a separator between each two. -/
def separated (sep : String) : List String → String
  | [] => ""
  | [p] => p
  | p :: ps => p ++ sep ++ separated sep ps

mutual

/-- The document on one line. -/
def compact : Json → String
  | .null => "null"
  | .bool b => if b then "true" else "false"
  | .int n => toString n
  | .real x => writeReal x
  | .str s => quoted s
  | .arr items => "[" ++ separated "," (compactItems items) ++ "]"
  | .obj fields => "\x7b" ++ separated "," (compactFields fields) ++ "\x7d"

/-- The items of a list, each on one line. -/
def compactItems : List Json → List String
  | [] => []
  | v :: rest => v.compact :: compactItems rest

/-- The fields of an object, each on one line. -/
def compactFields : List (String × Json) → List String
  | [] => []
  | (k, v) :: rest => (quoted k ++ ":" ++ v.compact) :: compactFields rest

end

/-- The start of a line at a depth of nesting. -/
def indentation (depth : Nat) : String :=
  String.ofList ('\n' :: List.replicate (2 * depth) ' ')

/-- The parts of a container on lines of their own, between its brackets. -/
def block (opening closing : String) (depth : Nat) (parts : List String) : String :=
  if parts.isEmpty then opening ++ closing
  else
    opening ++ separated "," (parts.map (indentation (depth + 1) ++ ·)) ++ indentation depth ++ closing

mutual

/-- The document over several lines, two blanks deeper for each level. -/
def prettyAt (depth : Nat) : Json → String
  | .arr items => block "[" "]" depth (prettyItems (depth + 1) items)
  | .obj fields => block "\x7b" "\x7d" depth (prettyFields (depth + 1) fields)
  | v => v.compact

/-- The items of a list. -/
def prettyItems (depth : Nat) : List Json → List String
  | [] => []
  | v :: rest => v.prettyAt depth :: prettyItems depth rest

/-- The fields of an object. -/
def prettyFields (depth : Nat) : List (String × Json) → List String
  | [] => []
  | (k, v) :: rest => (quoted k ++ ": " ++ v.prettyAt depth) :: prettyFields depth rest

end

/-- The document over several lines. -/
def pretty (v : Json) : String :=
  v.prettyAt 0

end TopDown.Json
