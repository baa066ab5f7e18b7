/-!
# Files at hand

A disk is what the library knows of the files around it: what is found under each path, be it nothing,
a text with the time of its writing, or something that cannot be read. Nothing else about files
matters here.
-/

namespace TopDown

/-- A file. -/
structure StoredFile where
  /-- Its text. -/
  text : String
  /-- When it was written, in any unit. -/
  modified : Int
  deriving DecidableEq, Repr

/-- What is found under a path. -/
inductive Found where
  /-- Nothing. -/
  | nothing
  /-- A file. -/
  | file (f : StoredFile)
  /-- Something that cannot be read, and why. -/
  | unreadable (reason : String)
  deriving DecidableEq, Repr

/-- What is found under each path. -/
abbrev Disk := String → Found

namespace Disk

/-- No files. -/
def empty : Disk := fun _ => .nothing

/-- The disk with something else under a path. -/
def update (d : Disk) (path : String) (f : Found) : Disk :=
  fun p => if p = path then f else d p

/-- The disk after a file has been written. -/
def write (d : Disk) (path : String) (f : StoredFile) : Disk :=
  d.update path (.file f)

/-- The disk after a file has been removed. -/
def remove (d : Disk) (path : String) : Disk :=
  d.update path .nothing

/-- The path of a file in a folder. A file name that starts at the root stands for itself. -/
def join (folder file : String) : String :=
  if file.startsWith "/" || folder.isEmpty then file
  else if folder.endsWith "/" then folder ++ file
  else folder ++ "/" ++ file

end Disk

end TopDown
