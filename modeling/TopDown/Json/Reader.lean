import TopDown.Decimal.Numeral
import TopDown.Json.Value

/-!
# Reading documents

`TopDown.Json.parse` reads a text as one document and nothing after it. The grammar is the strict
one: no comments, no trailing commas, no signs or points out of place. At most 127 containers may be
nested, so that no text can exhaust the stack. A number too large for the floating-point format is
refused.

The readers take the characters that are left and return what they read with the characters that
follow. Their first argument counts down at every value, item and field; the number of characters
is always enough for it.
-/

namespace TopDown.Json

/-! ### Refusals -/

/-- Why a text is not a document. -/
inductive Defect where
  /-- The text ends too early. -/
  | endOfText
  /-- A character stands where the grammar has no place for it. -/
  | unexpected
  /-- A numeral is malformed. -/
  | numeral
  /-- A numeral is beyond the range of numbers. -/
  | outOfRange
  /-- A backslash is not followed by an escape. -/
  | badEscape
  /-- A control character stands in a text. -/
  | controlCharacter
  /-- The containers are nested too deeply. -/
  | tooDeep

/-- The wording of a defect. -/
def Defect.message : Defect → String
  | .endOfText => "unexpected end of text"
  | .unexpected => "unexpected character"
  | .numeral => "invalid number"
  | .outOfRange => "number out of range"
  | .badEscape => "invalid escape"
  | .controlCharacter => "control character in a string"
  | .tooDeep => "nesting limit exceeded"

/-- A defect and the characters that were left when it was met. -/
structure Refusal where
  /-- What is wrong. -/
  defect : Defect
  /-- The characters from the defect on. -/
  rest : List Char

/-- What a reader returns: a refusal, or a value and the characters after it. -/
abbrev Read (α : Type) := Except Refusal (α × List Char)

/-- A refusal at the given characters: at their end when there are none. -/
def refuse {α : Type} (defect : Defect) (rest : List Char) : Read α :=
  .error ⟨if rest.isEmpty then .endOfText else defect, rest⟩

/-! ### Lexical parts -/

/-- The blanks that may stand between the parts of a document. -/
def isGap (c : Char) : Bool :=
  c = ' ' || c = '\t' || c = '\n' || c = '\r'

/-- The characters from the next part on. -/
def skipGap (s : List Char) : List Char :=
  s.dropWhile isGap

/-- The value of a hexadecimal digit. -/
def hexValue? (c : Char) : Option Nat :=
  if c.isDigit then some (c.toNat - '0'.toNat)
  else if 'a' ≤ c && c ≤ 'f' then some (c.toNat - 'a'.toNat + 10)
  else if 'A' ≤ c && c ≤ 'F' then some (c.toNat - 'A'.toNat + 10)
  else none

/-- The value of hexadecimal digits. -/
def hexNumber? (ds : List Char) : Option Nat :=
  ds.foldlM (fun n c => (hexValue? c).map (16 * n + ·)) 0

/-- The character of a single-letter escape. -/
def unescape? : Char → Option Char
  | '"' => some '"'
  | '\\' => some '\\'
  | '/' => some '/'
  | 'b' => some (Char.ofNat 0x08)
  | 'f' => some (Char.ofNat 0x0C)
  | 'n' => some '\n'
  | 'r' => some '\r'
  | 't' => some '\t'
  | _ => none

/-- The character of a `\u` escape, whose backslash and letter are already read. A code above the
basic plane is written as two escapes, and neither half may stand alone. -/
def readUnicode (s : List Char) : Read Char :=
  match hexNumber? (s.take 4), s.drop 4 with
  | some n, r =>
    if s.length < 4 then refuse .badEscape []
    else if 0xDC00 ≤ n && n < 0xE000 then refuse .badEscape s
    else if 0xD800 ≤ n && n < 0xDC00 then
      match r with
      | '\\' :: 'u' :: r' =>
        match hexNumber? (r'.take 4) with
        | some m =>
          if r'.length < 4 then refuse .badEscape []
          else if 0xDC00 ≤ m && m < 0xE000 then
            .ok (Char.ofNat (0x10000 + (n - 0xD800) * 0x400 + (m - 0xDC00)), r'.drop 4)
          else refuse .badEscape r'
        | none => refuse .badEscape r'
      | _ => refuse .badEscape r
    else .ok (Char.ofNat n, r)
  | none, _ => refuse .badEscape s

/-- The rest of a text whose opening quote is already read. `done` has the characters so far, the
last one first. -/
def readText : Nat → List Char → List Char → Read String
  | 0, _, s => refuse .unexpected s
  | fuel + 1, done, s =>
    match s with
    | [] => refuse .endOfText []
    | '"' :: r => .ok (String.ofList done.reverse, r)
    | '\\' :: 'u' :: r =>
      match readUnicode r with
      | .ok (c, r') => readText fuel (c :: done) r'
      | .error e => .error e
    | '\\' :: c :: r =>
      match unescape? c with
      | some d => readText fuel (d :: done) r
      | none => refuse .badEscape (c :: r)
    | ['\\'] => refuse .endOfText []
    | c :: r => if c.toNat < 0x20 then refuse .controlCharacter (c :: r) else readText fuel (c :: done) r

/-- The digits before a point: one zero, or digits that start with none. -/
def readWhole (s : List Char) : Read (List Char) :=
  match s with
  | '0' :: r => if (r.head?.map Char.isDigit).getD false then refuse .numeral r else .ok (['0'], r)
  | _ =>
    let (ds, r) := Decimal.spanDigits s
    if ds.isEmpty then refuse .numeral s else .ok (ds, r)

/-- The digits after a point, when there is one. -/
def readFraction (s : List Char) : Read (Option (List Char)) :=
  match s with
  | '.' :: r =>
    let (ds, r') := Decimal.spanDigits r
    if ds.isEmpty then refuse .numeral r else .ok (some ds, r')
  | _ => .ok (none, s)

/-- The exponent, when there is one. -/
def readExponent (s : List Char) : Read (Option Int) :=
  match s with
  | c :: r =>
    if c = 'e' || c = 'E' then
      let (negative, r') := Decimal.spanSign r
      let (ds, r'') := Decimal.spanDigits r'
      if ds.isEmpty then refuse .numeral r'
      else
        let n := Decimal.digitsValue ds
        .ok (some (if negative then -n else n), r'')
    else .ok (none, s)
  | [] => .ok (none, [])

/-- The number that a numeral without point and exponent stands for: an integer where 64 bits can
hold it, else a real. A negative zero is a real. -/
def wholeNumber (negative : Bool) (ds : List Char) : Json :=
  let n := Decimal.digitsValue ds
  if negative then
    if n ≠ 0 && n ≤ Nat.pow 2 63 then .int (-n) else .real (Decimal.ofParts true ds [] 0)
  else if n < UInt64.size then .int n
  else .real (Decimal.ofParts false ds [] 0)

/-- A number. -/
def readNumber (s : List Char) : Except Refusal (Json × List Char) := do
  let (negative, r) : Bool × List Char :=
    match s with
    | '-' :: r => (true, r)
    | r => (false, r)
  let (whole, r) ← readWhole r
  let (fraction, r) ← readFraction r
  let (exponent, r) ← readExponent r
  let v :=
    match fraction, exponent with
    | none, none => wholeNumber negative whole
    | _, _ => .real (Decimal.ofParts negative whole (fraction.getD []) (exponent.getD 0))
  match v with
  | .real x => if x.isFinite then pure (v, r) else .error ⟨.outOfRange, s⟩
  | _ => pure (v, r)

/-- The word that a literal consists of, and its value. -/
def readLiteral (s : List Char) : Read Json :=
  match s with
  | 'n' :: 'u' :: 'l' :: 'l' :: r => .ok (.null, r)
  | 't' :: 'r' :: 'u' :: 'e' :: r => .ok (.bool true, r)
  | 'f' :: 'a' :: 'l' :: 's' :: 'e' :: r => .ok (.bool false, r)
  | _ => refuse .unexpected s

/-! ### Documents -/

mutual

/-- A value, with `depth` more levels of containers allowed. -/
def readValue : Nat → Nat → List Char → Read Json
  | 0, _, s => refuse .unexpected s
  | fuel + 1, depth, s =>
    match skipGap s with
    | [] => refuse .endOfText []
    | '"' :: r => (readText (r.length + 1) [] r).map fun (t, r') => (.str t, r')
    | '[' :: r =>
      if depth = 0 then refuse .tooDeep ('[' :: r)
      else
        match skipGap r with
        | ']' :: r' => .ok (.arr [], r')
        | _ => (readItems fuel (depth - 1) r).map fun (vs, r') => (.arr vs, r')
    | '{' :: r =>
      if depth = 0 then refuse .tooDeep ('{' :: r)
      else
        match skipGap r with
        | '}' :: r' => .ok (.obj [], r')
        | _ => (readFields fuel (depth - 1) r).map fun (fs, r') => (ofFields fs, r')
    | c :: r => if c = '-' || c.isDigit then readNumber (c :: r) else readLiteral (c :: r)

/-- The items of a list, up to its closing bracket. -/
def readItems : Nat → Nat → List Char → Except Refusal (List Json × List Char)
  | 0, _, s => refuse .unexpected s
  | fuel + 1, depth, s => do
    let (v, r) ← readValue fuel depth s
    match skipGap r with
    | ',' :: r' =>
      let (vs, r'') ← readItems fuel depth r'
      pure (v :: vs, r'')
    | ']' :: r' => pure ([v], r')
    | r' => refuse .unexpected r'

/-- The fields of an object in the order of the text, up to its closing brace. -/
def readFields : Nat → Nat → List Char → Except Refusal (List (String × Json) × List Char)
  | 0, _, s => refuse .unexpected s
  | fuel + 1, depth, s =>
    match skipGap s with
    | '"' :: r => do
      let (k, r) ← readText (r.length + 1) [] r
      match skipGap r with
      | ':' :: r => do
        let (v, r) ← readValue fuel depth r
        match skipGap r with
        | ',' :: r' =>
          let (fs, r'') ← readFields fuel depth r'
          pure ((k, v) :: fs, r'')
        | '}' :: r' => pure ([(k, v)], r')
        | r' => refuse .unexpected r'
      | r => refuse .unexpected r
    | r => refuse .unexpected r

end

/-- The deepest nesting of containers. -/
def nestingLimit : Nat := 127

/-- The place of a refusal in its text, as a line and a column counted from one. -/
def Refusal.position (e : Refusal) (text : List Char) : Nat × Nat :=
  let before := text.take (text.length - e.rest.length)
  ((before.filter (· = '\n')).length + 1, (before.reverse.takeWhile (· ≠ '\n')).length + 1)

/-- What to say about a refusal. -/
def Refusal.message (e : Refusal) (text : List Char) : String :=
  let (line, column) := e.position text
  s!"{e.defect.message} at line {line} column {column}"

/-- The document that a text consists of, or why it is none. -/
def parse (text : String) : Except String Json :=
  let s := text.toList
  let result : Except Refusal (Json × List Char) := do
    let (v, r) ← readValue (2 * s.length + 2) nestingLimit s
    match skipGap r with
    | [] => pure (v, [])
    | r' => refuse .unexpected r'
  match result with
  | .ok (v, _) => .ok v
  | .error e => .error (e.message s)

end TopDown.Json
