import TopDown.Json.Writer

/-!
# Building a TOML document

The lines of a TOML text build one tree of tables. A header opens a table, or a further element of a
list of tables; a line with a key and a value adds the value to the table that was opened last. Keys
may be dotted, and lead through tables of their own.

A table knows how it came about (`TopDown.Toml.Origin`), because this decides who may add to it. A
table with a header of its own is never opened again, and dotted keys may only add to tables that
dotted keys made. `TopDown.Toml.Node.insert`, `TopDown.Toml.Node.openTable` and
`TopDown.Toml.Node.openElement` are the three ways to build, and a `TopDown.Toml.Conflict` says why
one is refused. `TopDown.Toml.Node.toJson` is the document that was built.
-/

namespace TopDown.Toml

/-- A path of keys. -/
abbrev KeyPath := List String

/-- The kinds of values. -/
inductive Kind where
  /-- A text. -/
  | text
  /-- An integer. -/
  | integer
  /-- A real number. -/
  | real
  /-- A flag. -/
  | flag
  /-- A date, a time of day or both. -/
  | time
  /-- A list between brackets. -/
  | list
  /-- A table between braces. -/
  | inlineTable
  deriving DecidableEq, Repr

/-- What a kind is called. -/
def Kind.name : Kind → String
  | .text => "string"
  | .integer => "integer"
  | .real => "float"
  | .flag => "boolean"
  | .time => "datetime"
  | .list => "array"
  | .inlineTable => "inline table"

/-- How a table came about. -/
inductive Origin where
  /-- It has a header, braces or the whole text for itself. -/
  | written
  /-- A longer header leads through it. -/
  | implied
  /-- A dotted key leads through it. -/
  | dotted
  deriving DecidableEq, Repr

/-- A part of a document under construction. -/
inductive Node where
  /-- A value, to which nothing can be added. -/
  | value (kind : Kind) (v : Json)
  /-- A table. -/
  | table (origin : Origin) (fields : List (String × Node))
  /-- A list of tables, the latest first. -/
  | tables (elements : List Node)

/-- Why something cannot be added. -/
inductive Conflict where
  /-- The key is taken, in the table of the path if that is to be told. -/
  | duplicate (key : String) (home : Option KeyPath)
  /-- The path leads through a value. -/
  | notTable (path : KeyPath) (kind : Kind)
  deriving DecidableEq, Repr

/-! ### Wording -/

/-- The character may stand in a key without quotes. -/
def isBare (c : Char) : Bool :=
  c.isAlphanum || c = '-' || c = '_'

/-- The character stands for itself between apostrophes. -/
def isPlain (c : Char) : Bool :=
  c ≠ '\'' && 0x20 ≤ c.toNat && c.toNat ≠ 0x7F

/-- A key as it is written: quoted only if it must be, and between apostrophes where quotes would
need escapes. -/
def writeKey (key : String) : String :=
  let s := key.toList
  if !s.isEmpty && s.all isBare then key
  else if s.all isPlain && s.any (fun c => c = '"' || c = '\\') then "'" ++ key ++ "'"
  else (Json.str key).compact

/-- A path as it is written. -/
def writePath (path : KeyPath) : String :=
  ".".intercalate (path.map writeKey)

/-- The wording of a conflict. -/
def Conflict.message : Conflict → String
  | .duplicate key none => "duplicate key \x60" ++ key ++ "\x60"
  | .duplicate key (some []) => "duplicate key \x60" ++ key ++ "\x60 in document root"
  | .duplicate key (some home) =>
    "duplicate key \x60" ++ key ++ "\x60 in table \x60" ++ writePath home ++ "\x60"
  | .notTable path kind =>
    "dotted key \x60" ++ writePath path ++ "\x60 attempted to extend non-table type ("
      ++ kind.name ++ ")"

namespace Node

/-- An empty table. -/
def emptyTable (origin : Origin) : Node :=
  .table origin []

/-! ### Following a path -/

/-- How a path is followed. -/
structure Way where
  /-- The origin of the tables that it makes. -/
  makes : Origin
  /-- The table that the path belongs to, if it is to be told. -/
  home : Option KeyPath

/-- The way of a header. -/
def Way.header : Way := ⟨.implied, some []⟩

/-- The way of a dotted key. -/
def Way.dotted (home : Option KeyPath) : Way := ⟨.dotted, home⟩

/-- The conflict of a path that meets a value. Tables between braces are closed, so that for another
such table around them the key is simply taken. -/
def Way.blocked (w : Way) (path : KeyPath) (kind : Kind) : Conflict :=
  match w.home, kind with
  | none, .inlineTable => .duplicate (path.getLast?.getD "") none
  | _, _ => .notTable path kind

/-- Changes what a table has under a key. -/
def alter (key : String) (change : Option Node → Except Conflict Node) :
    Node → Except Conflict Node
  | .table origin fields =>
    (change (fields.lookup key)).map fun n => .table origin (Table.put key n fields)
  | n => .ok n

/-- Enters a table, or the latest table of a list, on a path that has come to it. -/
def enter (w : Way) (path : KeyPath) (change : Node → Except Conflict Node) :
    Node → Except Conflict Node
  | .value kind _ => .error (w.blocked path kind)
  | .tables [] => .ok (.tables [])
  | .tables (latest :: earlier) => (change latest).map fun n => .tables (n :: earlier)
  | .table origin fields =>
    if w.makes = .dotted && origin = .written then
      .error (.duplicate (path.getLast?.getD "") none)
    else change (.table origin fields)

/-- Changes the table at the end of a path, after the keys `passed`. Tables that are missing on the
way are made. -/
def descend (w : Way) (change : Node → Except Conflict Node) (passed : KeyPath) :
    KeyPath → Node → Except Conflict Node
  | [], n => change n
  | key :: path, n =>
    n.alter key fun
      | none => descend w change (passed ++ [key]) path (emptyTable w.makes)
      | some child =>
        child.enter w (passed ++ [key]) (descend w change (passed ++ [key]) path)

/-! ### Building -/

/-- Adds a value to a table under a key, whose dotted path before it was followed if `dotted`. -/
def addField (home : Option KeyPath) (dotted : Bool) (key : String) (v : Node) :
    Node → Except Conflict Node
  | .table origin fields =>
    if dotted && origin ≠ .dotted then .error (.duplicate key none)
    else if Table.has fields key then .error (.duplicate key home)
    else .ok (.table origin (Table.put key v fields))
  | n => .ok n

/-- Adds a value to a table under a key at the end of a dotted path. -/
def insert (n : Node) (home : Option KeyPath) (path : KeyPath) (key : String) (v : Node) :
    Except Conflict Node :=
  n.descend (.dotted home) (addField home (!path.isEmpty) key v) [] path

/-- Adds a value to the table that a header has opened. -/
def insertAt (n : Node) (home path : KeyPath) (key : String) (v : Node) : Except Conflict Node :=
  n.descend .header (fun t => t.insert (some home) path key v) [] home

/-- Opens a table with a header. -/
def openTable (n : Node) (path : KeyPath) (key : String) : Except Conflict Node :=
  n.descend .header (alter key fun
    | none => .ok (emptyTable .written)
    | some (.table .implied fields) => .ok (.table .written fields)
    | some _ => .error (.duplicate key (some path))) [] path

/-- Opens a further element of a list of tables. -/
def openElement (n : Node) (path : KeyPath) (key : String) : Except Conflict Node :=
  n.descend .header (alter key fun
    | none => .ok (.tables [emptyTable .written])
    | some (.tables elements) => .ok (.tables (emptyTable .written :: elements))
    | some _ => .error (.duplicate key (some path))) [] path

/-! ### The document -/

mutual

/-- The part of the document that has been built. -/
def toJson : Node → Json
  | .value _ v => v
  | .table _ fields => .obj (fieldsToJson fields)
  | .tables elements => .arr (itemsToJson elements).reverse

/-- The items of a list. -/
def itemsToJson : List Node → List Json
  | [] => []
  | n :: rest => n.toJson :: itemsToJson rest

/-- The fields of a table. -/
def fieldsToJson : List (String × Node) → List (String × Json)
  | [] => []
  | (key, n) :: rest => (key, n.toJson) :: fieldsToJson rest

end

end Node

end TopDown.Toml
