import TopDown.Decimal.Style
import TopDown.Table

/-!
# Documents

Rule configurations, condition values and reports are all documents: trees of objects and lists over
texts, flags and numbers. A number keeps how it was written, as an integer or as a real
(`TopDown.Json.int`, `TopDown.Json.real`), because some settings accept integers only.

The fields of an object stand in the order of their keys, code point by code point, with no key
twice. `TopDown.Json.ofFields` builds such objects, and `TopDown.Json.Ordered` says that a document
has no others.
-/

namespace TopDown

/-- A document. -/
inductive Json where
  /-- The absent value. -/
  | null
  /-- A flag. -/
  | bool (b : Bool)
  /-- A number written as an integer. -/
  | int (n : Int)
  /-- A number written with a point, an exponent or more digits than an integer may have. -/
  | real (x : Float)
  /-- A text. -/
  | str (s : String)
  /-- A list. -/
  | arr (items : List Json)
  /-- An object, with its fields in the order of their keys. -/
  | obj (fields : List (String × Json))
  deriving Inhabited

namespace Json

/-! ### Building -/

/-- The object with the given fields. Of several values for a key the last counts. -/
def ofFields (fields : List (String × Json)) : Json :=
  .obj (Table.ofEntries fields)

/-- A number, or the absent value in place of an infinite or undefined one. -/
def ofFloat (x : Float) : Json :=
  if x.isFinite then .real x else .null

/-- The numbers of a series, each as `TopDown.Json.ofFloat` has it. -/
def ofSeries (xs : List Float) : Json :=
  .arr (xs.map ofFloat)

/-- A value that may be absent. -/
def ofOption {α : Type} (write : α → Json) : Option α → Json
  | none => .null
  | some a => write a

/-! ### Looking -/

/-- The value under a key, with an absent value read as no value. -/
def given? (fields : Table Json) (key : String) : Option Json :=
  match fields.lookup key with
  | none | some .null => none
  | some v => some v

/-- The fields of an object. -/
def asObject? : Json → Option (Table Json)
  | .obj fields => some fields
  | _ => none

/-- The characters of a text. -/
def asText? : Json → Option String
  | .str s => some s
  | _ => none

/-- The flag. -/
def asFlag? : Json → Option Bool
  | .bool b => some b
  | _ => none

/-- The number, however it was written. -/
def asReal? : Json → Option Float
  | .int n => some (Float.ofInt n)
  | .real x => some x
  | _ => none

/-- The number, when it was written as an integer of 64 bits that is not negative. -/
def asCount? : Json → Option UInt64
  | .int n => if 0 ≤ n && n < UInt64.size then some (UInt64.ofNat n.toNat) else none
  | _ => none

/-- What a value is called in a message. -/
def kindName : Json → String
  | .null => "null"
  | .bool _ => "boolean"
  | .int _ => "number"
  | .real _ => "number"
  | .str _ => "string"
  | .arr _ => "list"
  | .obj _ => "object"

/-! ### Order -/

mutual

/-- Every object of the document has its fields in the strict order of their keys. -/
def Ordered : Json → Prop
  | .arr items => OrderedItems items
  | .obj fields => Table.Ordered fields ∧ OrderedFields fields
  | _ => True

/-- Every item is ordered. -/
def OrderedItems : List Json → Prop
  | [] => True
  | v :: rest => v.Ordered ∧ OrderedItems rest

/-- Every value is ordered. -/
def OrderedFields : List (String × Json) → Prop
  | [] => True
  | (_, v) :: rest => v.Ordered ∧ OrderedFields rest

end

end Json

end TopDown
