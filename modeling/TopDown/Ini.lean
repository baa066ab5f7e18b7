import TopDown.Decimal.Numeral
import TopDown.Text.Case

/-!
# Files of keys and values

A settings file has areas, and under each area keys with values. An area opens with its name between
brackets; a key and its value stand on one line, with an equality sign or a colon between them. What
follows a semicolon or a hash is a remark.

* `TopDown.Ini.parse` reads the text of such a file, line by line, into the list of its entries.
* `TopDown.Ini.text?` looks an entry up. Names of areas and keys count in lower case, and of several
  entries under one name the last counts.
* `TopDown.Ini.integer` and `TopDown.Ini.list` look up a number and a list.
-/

namespace TopDown

/-- A key of an area, and its value if it has one. -/
structure IniEntry where
  /-- The area, in lower case. -/
  area : String
  /-- The key, in lower case. -/
  key : String
  /-- The value, without blanks around it. -/
  value : Option String
  deriving DecidableEq, Repr

/-- The entries of a settings file, in its order. -/
structure Ini where
  /-- The entries. -/
  entries : List IniEntry
  deriving Repr

/-- What is wrong with a line of a settings file. -/
inductive IniFlaw where
  /-- The name of an area has no closing bracket. -/
  | unclosedArea
  /-- There is no key before the value. -/
  | noKey
  deriving DecidableEq, Repr

/-- The first line of a settings file that cannot be read. -/
structure IniError where
  /-- Its number, counted from one. -/
  line : Nat
  /-- What is wrong with it. -/
  flaw : IniFlaw
  deriving DecidableEq, Repr

/-- The wording of the error. -/
def IniError.message (e : IniError) : String :=
  "line " ++ toString e.line ++ ": "
    ++ match e.flaw with
      | .unclosedArea => "the section has no closing bracket"
      | .noKey => "the key is empty"

namespace Ini

/-! ### Lines -/

/-- What a line says. -/
inductive Line where
  /-- Nothing. -/
  | blank
  /-- An area opens. -/
  | area (name : String)
  /-- A key has a value, or none. -/
  | entry (key : String) (value : Option String)
  deriving DecidableEq, Repr

/-- The area of the entries that stand before any area. -/
def defaultArea : String := "default"

/-- The character opens a remark. -/
def opensRemark (c : Char) : Bool :=
  c = ';' || c = '#'

/-- The character stands between a key and its value. -/
def isDivider (c : Char) : Bool :=
  c = '=' || c = ':'

/-- A line without its remark and the blanks around it. -/
def content (line : List Char) : List Char :=
  Text.trimChars (line.takeWhile fun c => !opensRemark c)

/-- A name without the blanks around it, in lower case. -/
def name (s : List Char) : String :=
  Text.lower (String.ofList (Text.trimChars s))

/-- The characters before the last closing bracket. -/
def beforeLastBracket? (s : List Char) : Option (List Char) :=
  match s.reverse.dropWhile (· != ']') with
  | [] => none
  | _ :: before => some before.reverse

/-- An entry, with the key before the first divider. -/
def readEntry (s : List Char) : Except IniFlaw Line :=
  match s.dropWhile fun c => !isDivider c with
  | [] => .ok (.entry (name s) none)
  | _ :: value =>
    let key := name (s.takeWhile fun c => !isDivider c)
    if key.isEmpty then .error .noKey
    else .ok (.entry key (some (String.ofList (Text.trimChars value))))

/-- What a line says, given its content. -/
def readContent : List Char → Except IniFlaw Line
  | [] => .ok .blank
  | '[' :: s =>
    match beforeLastBracket? s with
    | some s => .ok (.area (name s))
    | none => .error .unclosedArea
  | s => readEntry s

/-- What a line says. -/
def readLine (line : String) : Except IniFlaw Line :=
  readContent (content line.toList)

/-! ### Files -/

/-- The entries of the lines from number `n` on, within an area that is already open. -/
def parseLines (n : Nat) (area : String) : List String → Except IniError (List IniEntry)
  | [] => .ok []
  | line :: rest =>
    match readLine line with
    | .error flaw => .error ⟨n, flaw⟩
    | .ok .blank => parseLines (n + 1) area rest
    | .ok (.area opened) => parseLines (n + 1) opened rest
    | .ok (.entry key value) =>
      (parseLines (n + 1) area rest).map (⟨area, key, value⟩ :: ·)

/-- Reads a settings file. -/
def parse (s : String) : Except IniError Ini :=
  (parseLines 1 defaultArea (Text.lines s)).map Ini.mk

/-! ### Looking up -/

/-- The last entry of a key in an area. -/
def entry? (ini : Ini) (area key : String) : Option IniEntry :=
  ini.entries.reverse.find? fun e => e.area = Text.lower area && e.key = Text.lower key

/-- The value of a key. -/
def value? (ini : Ini) (area key : String) : Option String :=
  (ini.entry? area key).bind IniEntry.value

/-- The value of a key, unless it is blank. -/
def text? (ini : Ini) (area key : String) : Option String :=
  (ini.value? area key).filter fun v => !Text.isAllBlank v

/-- The integer that a key has, or else the given one. -/
def integer (ini : Ini) (area key : String) (default : Int) : Int :=
  ((ini.value? area key).bind Decimal.parseInt64?).getD default

/-- The entries of a list in writing: set apart by commas, without blank ones. -/
def listEntries (s : String) : List String :=
  ((Text.pieces ',' s).map Text.trim).filter fun e => !e.isEmpty

/-- The entries of the list that a key has. -/
def list (ini : Ini) (area key : String) : List String :=
  ((ini.text? area key).map listEntries).getD []

end Ini

end TopDown
