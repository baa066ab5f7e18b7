import TopDown.Json.Value

/-!
# Places in a document

A finding about a rule configuration names the place it is about. A `TopDown.Path` is the list of
steps that lead there from the root, `TopDown.Path.render` is how it is shown
(`rules.trend.all_of[1]`), and `TopDown.Json.at?` follows it.
-/

namespace TopDown

/-- One step into a document. -/
inductive Step where
  /-- Into the field of an object. -/
  | key (name : String)
  /-- Into the item of a list, counted from zero. -/
  | index (i : Nat)
  deriving DecidableEq, Repr

/-- A place in a document: the steps that lead to it from the root. -/
abbrev Path := List Step

namespace Path

/-- The field of the object at this place. -/
def key (p : Path) (name : String) : Path :=
  p ++ [.key name]

/-- The item of the list at this place. -/
def index (p : Path) (i : Nat) : Path :=
  p ++ [.index i]

/-- The text of a place with one more step. -/
def renderStep (shown : String) : Step → String
  | .key name => if shown.isEmpty then name else shown ++ "." ++ name
  | .index i => shown ++ "[" ++ toString i ++ "]"

/-- The text of a place: keys are set apart by points, positions stand in brackets. -/
def render (p : Path) : String :=
  p.foldl renderStep ""

end Path

/-- The value one step into a document. -/
def Json.step? : Json → Step → Option Json
  | .obj fields, .key name => fields.lookup name
  | .arr items, .index i => items[i]?
  | _, _ => none

/-- The value at a place. -/
def Json.at? : Json → Path → Option Json
  | v, [] => some v
  | v, s :: p => (v.step? s).bind fun w => w.at? p

end TopDown
