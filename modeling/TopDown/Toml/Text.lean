import TopDown.Json.Reader
import TopDown.Toml.Document
import TopDown.Toml.Flaw

/-!
# Texts and keys in TOML

A text stands between quotes, where a backslash opens an escape, or between apostrophes, where every
character stands for itself. Three quotes or three apostrophes open a text that may run over several
lines. A key is a word or a text of a single line, and several keys with points between them are a
path.

The readers take the characters that are left and return what they read with the characters that
follow.
-/

namespace TopDown.Toml

/-! ### Characters -/

/-- The character is a blank within a line. -/
def isGap (c : Char) : Bool :=
  c = ' ' || c = '\t'

/-- The characters from the next one that is no blank. -/
def skipGap (s : List Char) : List Char :=
  s.dropWhile isGap

/-- The character may stand within a line. -/
def isInLine (c : Char) : Bool :=
  c = '\t' || (0x20 ≤ c.toNat && c.toNat ≠ 0x7F)

/-- The characters after a line end, if one comes next. -/
def lineEnd? : List Char → Option (List Char)
  | '\n' :: r => some r
  | '\r' :: '\n' :: r => some r
  | _ => none

/-! ### Escapes -/

/-- What may follow a backslash. -/
def escapes : List String :=
  ["b", "f", "n", "r", "t", "u", "U", "\\", "\""].map fun e => "\x60" ++ e ++ "\x60"

/-- The character of a code with so many hexadecimal digits. -/
def readCode (digits : Nat) (s : List Char) : Read Char :=
  let ds := (s.take digits).takeWhile fun c => (Json.hexValue? c).isSome
  let part := "unicode " ++ toString digits ++ "-digit hex code"
  if ds.length < digits then flawAt s (.invalid part)
  else
    let n := (Json.hexNumber? ds).getD 0
    if n.isValidChar then .ok (Char.ofNat n, s.drop digits)
    else flawAt s ((Complaint.because "value is out of range").within part)

/-- The character of an escape, whose backslash is already read. -/
def readEscape : List Char → Read Char
  | 'b' :: r => .ok (Char.ofNat 0x08, r)
  | 'f' :: r => .ok (Char.ofNat 0x0C, r)
  | 'n' :: r => .ok ('\n', r)
  | 'r' :: r => .ok ('\r', r)
  | 't' :: r => .ok ('\t', r)
  | '\\' :: r => .ok ('\\', r)
  | '"' :: r => .ok ('"', r)
  | 'u' :: r => readCode 4 r
  | 'U' :: r => readCode 8 r
  | s => flawAt s.tail ((Complaint.wanted escapes).within "escape sequence")

/-! ### Texts on one line -/

/-- The rest of a text between quotes, after the characters `done`, the last one first. -/
def readQuoted : Nat → List Char → List Char → Read String
  | 0, _, s => flawAt s .silent
  | fuel + 1, done, s =>
    match s with
    | '"' :: r => .ok (String.ofList done.reverse, r)
    | '\\' :: e :: r =>
      match readEscape (e :: r) with
      | .ok (c, r) => readQuoted fuel (c :: done) r
      | .error f => .error f
    | c :: r =>
      if isInLine c && c ≠ '\\' then readQuoted fuel (c :: done) r
      else flawAt s (.invalid "basic string")
    | [] => flawAt s (.invalid "basic string")

/-- The rest of a text between apostrophes. -/
def readLiteral (s : List Char) : Read String :=
  let plain := fun c => isInLine c && c ≠ '\''
  match s.dropWhile plain with
  | '\'' :: r => .ok (String.ofList (s.takeWhile plain), r)
  | r => flawAt r (.invalid "literal string")

/-! ### Texts on several lines -/

/-- What follows a run of marks within a text: its end, or more of it. Up to two marks before the
closing three belong to the text. -/
def closing? (mark : Char) (s : List Char) : Option (Nat × List Char) :=
  let run := (s.takeWhile (· = mark)).length
  if run < 3 then none else some (min run 5 - 3, s.drop (min run 5))

/-- What follows a backslash that ends a line: all blanks and line ends are left out. -/
def afterBrokenLine? (s : List Char) : Option (List Char) :=
  (lineEnd? (skipGap s)).map dropGaps
where
  /-- Leaves out blanks and line ends. -/
  dropGaps : List Char → List Char
    | [] => []
    | '\r' :: '\n' :: r => dropGaps r
    | c :: r => if isGap c || c = '\n' then dropGaps r else c :: r

/-- The rest of a text between three quotes, after the characters `done`, the last one first. -/
def readLongQuoted : Nat → List Char → List Char → Read String
  | 0, _, s => flawAt s .silent
  | fuel + 1, done, s =>
    let flaw (s : List Char) := flawAt s (.invalid "multiline basic string")
    match s with
    | [] => flaw s
    | '"' :: r =>
      match closing? '"' s with
      | some (kept, r) => .ok (String.ofList (List.replicate kept '"' ++ done).reverse, r)
      | none => if r.all (· = '"') then flaw s else readLongQuoted fuel ('"' :: done) r
    | '\\' :: e :: r =>
      match afterBrokenLine? (e :: r) with
      | some r => readLongQuoted fuel done r
      | none =>
        match readEscape (e :: r) with
        | .ok (c, r) => readLongQuoted fuel (c :: done) r
        | .error f => .error f
    | '\r' :: '\n' :: r => readLongQuoted fuel ('\n' :: done) r
    | c :: r =>
      if c = '\n' || (isInLine c && c ≠ '\\') then readLongQuoted fuel (c :: done) r else flaw s

/-- The rest of a text between three apostrophes, after the characters `done`, the last one first. -/
def readLongLiteral : List Char → List Char → Read String
  | done, s =>
    let flaw (s : List Char) := flawAt s (.invalid "multiline literal string")
    match s with
    | [] => flaw s
    | '\r' :: '\n' :: r => readLongLiteral ('\n' :: done) r
    | c :: r =>
      if c = '\'' then
        match closing? '\'' s with
        | some (kept, r) => .ok (String.ofList (List.replicate kept '\'' ++ done).reverse, r)
        | none => if r.all (· = '\'') then flaw s else readLongLiteral (c :: done) r
      else if c = '\n' || isInLine c then readLongLiteral (c :: done) r
      else flaw s

/-- The text without a line end at its very start. -/
def dropLineEnd (s : List Char) : List Char :=
  (lineEnd? s).getD s

/-- A text that opens with a quote or an apostrophe. -/
def readText (s : List Char) : Read String :=
  match s with
  | '"' :: '"' :: '"' :: r => readLongQuoted (s.length + 1) [] (dropLineEnd r)
  | '"' :: r => readQuoted (s.length + 1) [] r
  | '\'' :: '\'' :: '\'' :: r => readLongLiteral [] (dropLineEnd r)
  | '\'' :: r => readLiteral r
  | _ => flawAt s .silent

/-! ### Keys -/

/-- A key can begin with the next character. -/
def startsKey (s : List Char) : Bool :=
  match s with
  | c :: _ => c = '"' || c = '\'' || isBare c
  | [] => false

/-- A single key. -/
def readKey (s : List Char) : Read String :=
  match s with
  | '"' :: r => readQuoted (s.length + 1) [] r
  | '\'' :: r => readLiteral r
  | _ =>
    let word := s.takeWhile isBare
    if word.isEmpty then flawAt s .silent else .ok (String.ofList word, s.dropWhile isBare)

/-- The keys of a path, with the blanks around them. A point that no key follows is left. -/
def readKeys : Nat → List Char → Read KeyPath
  | 0, s => flawAt s .silent
  | fuel + 1, s =>
    match readKey (skipGap s) with
    | .error f => .error f
    | .ok (key, r) =>
      match skipGap r with
      | '.' :: r =>
        if startsKey (skipGap r) then (readKeys fuel r).map fun (path, r) => (key :: path, r)
        else .ok ([key], '.' :: r)
      | r => .ok ([key], r)

/-- How deep values and keys may be nested, that is, one less than this. -/
def nestingLimit : Nat := 80

/-- The complaint about too deep a nesting. -/
def tooDeep : Complaint := .because "recursion limit exceeded"

/-- A path of keys: those before the last, and the last. -/
def readPath (s : List Char) : Read (KeyPath × String) :=
  match onComplaint (·.within "key") (readKeys (s.length + 1) s) with
  | .error f => .error f
  | .ok (path, r) =>
    if path.length < nestingLimit then .ok ((path.dropLast, path.getLast?.getD ""), r)
    else flawAt s tooDeep

end TopDown.Toml
