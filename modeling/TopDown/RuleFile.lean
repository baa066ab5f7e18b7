import TopDown.Fault
import TopDown.Json.Reader
import TopDown.Toml.Reader

/-!
# Files of rules

A rule configuration is written as JSON or as TOML; the ending of the file's name tells which
(`TopDown.RuleFormat.ofPath`). `TopDown.RuleFile.parse` reads the text of such a file. Either way the
configuration must be an object.
-/

namespace TopDown

/-- The notation of a file of rules. -/
inductive RuleFormat where
  /-- JSON. -/
  | json
  /-- TOML. -/
  | toml
  deriving DecidableEq, Repr

namespace RuleFormat

/-- The name of the file at the end of a path. -/
def fileName? (path : String) : Option (List Char) :=
  let parts := (Text.piecesOf '/' path.toList).filter fun p => p ≠ [] && p ≠ ['.']
  match parts.getLast? with
  | some ['.', '.'] => none
  | name? => name?

/-- What follows the last point of a name. A point at the very start does not count. -/
def ending? (name : List Char) : Option (List Char) :=
  match (name.reverse.dropWhile (· ≠ '.')) with
  | [] | ['.'] => none
  | _ => some (name.reverse.takeWhile (· ≠ '.')).reverse

/-- The notation of the file at a path: TOML if its name ends so, else JSON. -/
def ofPath (path : String) : RuleFormat :=
  match (fileName? path).bind ending? with
  | some ending => if Text.lowerAscii (String.ofList ending) = "toml" then .toml else .json
  | none => .json

end RuleFormat

namespace RuleFile

/-- The document that a text is in a notation, or why it is none. -/
def document (format : RuleFormat) (text : String) : Except String Json :=
  match format with
  | .json => Json.parse text
  | .toml => Toml.parse text

/-- The configuration that a text is in a notation. The faults name the file. -/
def parse (format : RuleFormat) (file text : String) : Except Fault Json :=
  match document format text with
  | .error reason => .error (.configParse file reason)
  | .ok (.obj fields) => .ok (.obj fields)
  | .ok _ => .error (.configParse file Refusal.notObject.message)

end RuleFile

end TopDown
