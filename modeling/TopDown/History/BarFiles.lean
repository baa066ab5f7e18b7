import TopDown.Gate
import TopDown.History.BarFile
import TopDown.History.Disk

/-!
# A folder of bars

The bars of a symbol on a timeframe are in a file of a folder, whose name they give. A symbol without
a file has no bars; a file that cannot be read or is malformed is a fault.

A file that has been read is kept, and read again only when the time of its last change differs. A
fault is not kept, and what was kept before stays. `TopDown.BarFiles.read` is such
a look into a file, `TopDown.BarFiles.fresh` one that keeps nothing, and `TopDown.BarFiles.source`
makes a source of bars of the folder.
-/

namespace TopDown

/-- What has been kept of the files that were read: when each was changed, and its bars. -/
abbrev KeptBars := List ((String × Timeframe) × Int × List Bar)

/-- A folder of bars. -/
structure BarFiles where
  /-- The files. -/
  disk : Disk
  /-- What has been kept. -/
  kept : KeptBars

namespace BarFiles

/-- A folder of which nothing has been read. -/
def unread (disk : Disk) : BarFiles :=
  ⟨disk, []⟩

/-- The path of a symbol's file. -/
def path (folder symbol : String) (tf : Timeframe) : String :=
  Disk.join folder (symbol ++ "_" ++ tf.name ++ ".csv")

/-- The entries without those of a symbol and timeframe. -/
def forget (symbol : String) (tf : Timeframe) (kept : KeptBars) : KeptBars :=
  kept.filter fun e => e.1 != (symbol, tf)

/-- The fault of something that cannot be read. -/
def unreadable (reason : String) : Stop :=
  .fault (.dataSource reason)

/-- The bars of a file, or its fault. -/
def parseFile (folder symbol : String) (tf : Timeframe) (text : String) :
    Except Stop (List Bar) :=
  match BarFile.parse symbol tf text with
  | .ok bars => .ok bars
  | .error m => .error (unreadable (path folder symbol tf ++ ": " ++ m.message))

/-- The bars of a symbol, read from its file as it is now. -/
def fresh (disk : Disk) (folder symbol : String) (tf : Timeframe) : Except Stop (List Bar) :=
  match disk (path folder symbol tf) with
  | .nothing => .ok []
  | .file f => parseFile folder symbol tf f.text
  | .unreadable reason => .error (unreadable reason)

/-- Reads a file and keeps it. -/
def reread (folder symbol : String) (tf : Timeframe) (f : StoredFile) (b : BarFiles) :
    Except Stop (List Bar) × BarFiles :=
  match parseFile folder symbol tf f.text with
  | .ok bars =>
    (.ok bars, { b with kept := ((symbol, tf), f.modified, bars) :: forget symbol tf b.kept })
  | .error stop => (.error stop, b)

/-- The bars of a symbol: kept ones if its file has not changed, else those of the file. -/
def read (folder symbol : String) (tf : Timeframe) (b : BarFiles) :
    Except Stop (List Bar) × BarFiles :=
  match b.disk (path folder symbol tf) with
  | .nothing => (.ok [], { b with kept := forget symbol tf b.kept })
  | .unreadable reason => (.error (unreadable reason), b)
  | .file f =>
    match b.kept.lookup (symbol, tf) with
    | some (modified, bars) =>
      if modified = f.modified then (.ok bars, b) else reread folder symbol tf f b
    | none => reread folder symbol tf f b

/-- The last bars, at most so many. -/
def latest (limit : UInt64) (bars : List Bar) : List Bar :=
  bars.drop (bars.length - limit.toNat)

/-- The bars of a folder as a source. -/
def source (folder : String) : BarSource BarFiles where
  bars symbol tf limit b :=
    let (bars, b) := read folder symbol tf b
    (bars.map (latest limit), b)
  last symbol tf b :=
    let (bars, b) := read folder symbol tf b
    (bars.map List.getLast?, b)

end BarFiles

end TopDown
