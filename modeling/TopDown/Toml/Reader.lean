import TopDown.Toml.Number

/-!
# Reading TOML

`TopDown.Toml.parse` reads a TOML text and returns it as a document. Every line is read to its end and
then added to the document, so that the first line that is out of place is the one complained about.

The readers of values count down at every value and item; the number of characters is always enough
for them.
-/

namespace TopDown.Toml

/-! ### Gaps and line ends -/

/-- The characters after a remark, which runs to the end of the line. -/
def afterRemark (s : List Char) : List Char :=
  match s with
  | '#' :: r => r.dropWhile isInLine
  | s => s

/-- The characters after the blanks, remarks and line ends between the items of a list. -/
def readGaps : Nat → List Char → Except Flaw (List Char)
  | 0, s => flawAt s .silent
  | fuel + 1, s =>
    let s := skipGap s
    match s with
    | '#' :: _ =>
      match lineEnd? (afterRemark s) with
      | some r => readGaps fuel r
      | none => flawAt (afterRemark s) .silent
    | '\n' :: r => readGaps fuel r
    | '\r' :: r =>
      match lineEnd? s with
      | some r => readGaps fuel r
      | none => flawAt r .silent
    | s => .ok s

/-- The characters after the end of a line, which may have a remark. -/
def readLineEnd (s : List Char) : Except Flaw (List Char) :=
  match afterRemark (skipGap s) with
  | [] => .ok []
  | r =>
    match lineEnd? r with
    | some r => .ok r
    | none => flawAt r (.wanted ["newline", "\x60#\x60"])

/-! ### Values -/

/-- What is expected where a text without quotes stands. -/
def textWanted : Complaint :=
  (Complaint.wanted ["\x60\"\x60", "\x60'\x60"]).within "string"

/-- The characters after the sign between a key and its value, and after the blanks there. -/
def readSign (s : List Char) : Except Flaw (List Char) :=
  match s with
  | '=' :: r => .ok (skipGap r)
  | _ => flawAt s (.wanted ["\x60.\x60", "\x60=\x60"])

/-- A value can begin with the next characters. -/
def startsValue (s : List Char) : Bool :=
  match s with
  | [] => false
  | c :: r =>
    if c = '+' || c = '-' then (r.head?.map Char.isDigit).getD false || (readNamed? r).isSome
    else ['"', '\'', '[', '\x7b', 't', 'f'].contains c || c.isDigit || (readNamed? s).isSome

/-- A value that is no list and no table. -/
def readScalar (s : List Char) : Except Flaw Found :=
  match s with
  | 't' :: 'r' :: 'u' :: 'e' :: r => .ok (.value .flag (.bool true), r)
  | 'f' :: 'a' :: 'l' :: 's' :: 'e' :: r => .ok (.value .flag (.bool false), r)
  | [] => flawAt s .silent
  | c :: _ =>
    if c = '"' || c = '\'' then (readText s).map fun (t, r) => (.value .text (.str t), r)
    else if c = '+' || c = '-' then readSigned s
    else if c.isDigit then readFromDigit s
    else if c = '_' then flawAt s ((Complaint.wanted ["leading digit"]).within "integer")
    else if c = '.' then
      flawAt s ((Complaint.wanted ["leading digit"]).within "floating-point number")
    else
      match readNamed? s with
      | some found => .ok found
      | none => flawAt s textWanted

/-- Adds an entry to a table between braces, whose entries start at `s`. -/
def addInline (s : List Char) (path : KeyPath × String) (v n : Node) : Except Flaw Node :=
  match n.insert none path.1 path.2 v with
  | .ok n => .ok n
  | .error e => flawAt s (.because e.message)

/-- The characters after the bracket that closes a list. -/
def closeList : List Char → Except Flaw (List Char)
  | ']' :: r => .ok r
  | s => flawAt s ((Complaint.wanted ["\x60]\x60"]).within "array")

mutual

/-- A value, with `depth` more levels of lists and tables allowed. -/
def readValue : Nat → Nat → List Char → Except Flaw Found
  | 0, _, s => flawAt s .silent
  | fuel + 1, depth, s =>
    match s with
    | '[' :: r =>
      if depth = 0 then flawAt s tooDeep
      else (readItems fuel (depth - 1) r).map fun (vs, r) => (.value .list (.arr vs), r)
    | '\x7b' :: r =>
      if depth = 0 then flawAt s tooDeep
      else do
        let (entries, rest) ← readEntries fuel (depth - 1) r
        let n ← entries.foldlM (fun n e => addInline r e.1 e.2 n) (Node.emptyTable .written)
        match rest with
        | '\x7d' :: rest => return (.value .inlineTable n.toJson, rest)
        | _ => flawAt rest ((Complaint.wanted ["\x60\x7d\x60"]).within "inline table")
    | s => readScalar s

/-- The items of a list, up to its closing bracket. -/
def readItems : Nat → Nat → List Char → Except Flaw (List Json × List Char)
  | 0, _, s => flawAt s .silent
  | fuel + 1, depth, s => do
    let s ← readGaps (s.length + 1) s
    if startsValue s then
      let (n, r) ← readValue fuel depth s
      match ← readGaps (r.length + 1) r with
      | ',' :: r =>
        let (vs, r) ← readItems fuel depth r
        return (n.toJson :: vs, r)
      | r => (closeList r).map fun r => ([n.toJson], r)
    else (closeList s).map fun r => ([], r)

/-- The entries of a table between braces, up to where it should close. -/
def readEntries : Nat → Nat → List Char →
    Except Flaw (List ((KeyPath × String) × Node) × List Char)
  | 0, _, s => flawAt s .silent
  | fuel + 1, depth, s =>
    if startsKey (skipGap s) then do
      let (path, r) ← readPath s
      let (n, r) ← readValue fuel depth (← readSign r)
      match skipGap r with
      | ',' :: r =>
        if startsKey (skipGap r) then
          let (es, r) ← readEntries fuel depth r
          return ((path, n) :: es, r)
        else return ([(path, n)], ',' :: r)
      | r => return ([(path, n)], r)
    else .ok ([], skipGap s)

end

/-! ### Lines -/

/-- A document under construction, and the path of the table that was opened last. -/
structure Draft where
  /-- The document. -/
  root : Node
  /-- The path of the table to which lines add. -/
  home : KeyPath

/-- An empty document. -/
def Draft.start : Draft :=
  ⟨Node.emptyTable .written, []⟩

/-- The draft with a changed document, unless there is a conflict; the line of it starts at `s`. -/
def Draft.change (d : Draft) (s : List Char) (home : KeyPath) (root : Except Conflict Node) :
    Except Flaw Draft :=
  match root with
  | .ok root => .ok { d with root, home }
  | .error e => flawAt s (.because e.message)

/-- The characters after the brackets that close a header. -/
def closeHeader (double : Bool) (s : List Char) : Except Flaw (List Char) :=
  match double, s with
  | false, ']' :: r => .ok r
  | true, ']' :: ']' :: r => .ok r
  | false, s => flawAt s (.wanted ["\x60.\x60", "\x60]\x60"])
  | true, s => flawAt s (.wanted ["\x60.\x60", "\x60]]\x60"])

/-- A header, which starts at `s`; its first bracket is already read. -/
def readHeader (d : Draft) (s r : List Char) : Except Flaw (Draft × List Char) := do
  let (double, r) : Bool × List Char :=
    match r with
    | '[' :: r => (true, r)
    | r => (false, r)
  if s.length < 2 then flawAt s .silent
  let (path, r) ← readPath r
  let r ← readLineEnd (← closeHeader double r)
  let root := if double then d.root.openElement path.1 path.2 else d.root.openTable path.1 path.2
  return (← d.change s (path.1 ++ [path.2]) root, r)

/-- A line with a key and a value. -/
def readAssignment (d : Draft) (s : List Char) : Except Flaw (Draft × List Char) := do
  let (path, r) ← readPath s
  let r ← readSign r
  let (n, r) ← readValue (2 * r.length + 2) (nestingLimit - 1) r
  let r ← readLineEnd r
  return (← d.change s d.home (d.root.insertAt d.home path.1 path.2 n), r)

/-- A line of any kind. -/
def readLine (d : Draft) (s : List Char) : Except Flaw (Draft × List Char) :=
  match s with
  | '[' :: r => onComplaint (·.within "table header") (readHeader d s r)
  | '#' :: _ =>
    match afterRemark s with
    | [] => .ok (d, [])
    | r =>
      match lineEnd? r with
      | some r => .ok (d, r)
      | none => flawAt r .silent
  | _ =>
    match lineEnd? s with
    | some r => .ok (d, r)
    | none => if s.head? = some '\r' then flawAt s .silent else readAssignment d s

/-- The lines of a text. -/
def readLines : Nat → Draft → List Char → Except Flaw Draft
  | 0, _, s => flawAt s .silent
  | fuel + 1, d, s =>
    match skipGap s with
    | [] => .ok d
    | s =>
      match readLine d s with
      | .ok (d, r) => readLines fuel d r
      | .error f => .error f

/-- The characters after the mark that may open a text. -/
def afterMark (s : List Char) : List Char :=
  match s with
  | c :: r => if c.toNat = 0xFEFF then r else s
  | [] => []

/-- The document of a TOML text, or what is wrong with it. -/
def parse (text : String) : Except String Json :=
  let s := afterMark text.toList
  match readLines (s.length + 1) .start s with
  | .ok d => .ok d.root.toJson
  | .error f => .error (f.message text)

end TopDown.Toml
