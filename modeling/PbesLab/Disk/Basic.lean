import PbesLab.Disk.Path

namespace PbesLab

inductive FileFault
  | notFound
  | exists
  | notDirectory
  | isDirectory
  | nameTooLong
  | zeroByte
  | notText
deriving DecidableEq

def FileFault.message : FileFault → String
  | notFound => "No such file or directory (os error 2)"
  | .exists => "File exists (os error 17)"
  | notDirectory => "Not a directory (os error 20)"
  | isDirectory => "Is a directory (os error 21)"
  | nameTooLong => "File name too long (os error 36)"
  | zeroByte => "file name contained an unexpected NUL byte"
  | notText => "stream did not contain valid UTF-8"

/-- The names from the root down. -/
abbrev Location := List String

/-- The sink takes what is written to it and is always empty. -/
inductive Entry
  | file (content : ByteArray) (executable : Bool)
  | directory
  | sink

/-- Files are compared by their bytes. -/
instance : DecidableEq Entry
  | .file content x, .file content' x' =>
    decidable_of_iff (content.data = content'.data ∧ x = x') (by
      rw [Entry.file.injEq, ByteArray.ext_iff])
  | .directory, .directory | .sink, .sink => isTrue rfl
  | .file .., .directory | .file .., .sink | .directory, .file .. | .directory, .sink
  | .sink, .file .. | .sink, .directory => isFalse nofun

/-- What is stored where, without the root, and where relative paths start. There are no symbolic or
hard links, so a file is at one place only, and a write that fails leaves the disk as it was. -/
structure Disk where
  entries : List (Location × Entry)
  current : Location
deriving DecidableEq

namespace Disk

/-- The entries outside the working directory that programs count on. -/
def standard : List (Location × Entry) :=
  [(["dev"], .directory), (["dev", "null"], .sink), (["tmp"], .directory)]

def entry? (d : Disk) (l : Location) : Option Entry :=
  if l = [] then some .directory else d.entries.lookup l

def put (d : Disk) (l : Location) (e : Entry) : Disk :=
  { d with entries := (l, e) :: d.entries.filter (·.1 ≠ l) }

def drop (d : Disk) (l : Location) : Disk :=
  { d with entries := d.entries.filter (·.1 ≠ l) }

def names (d : Disk) (l : Location) : List String :=
  d.entries.filterMap fun (k, _) =>
    match k.getLast? with
    | some name => if k.dropLast = l then some name else none
    | none => none

def maxName : Nat := 255

def maxPath : Nat := 4095

def enter (d : Disk) (l : Location) : Except FileFault Unit :=
  match d.entry? l with
  | some .directory => .ok ()
  | some _ => .error .notDirectory
  | none => .error .notFound

/-- Follows the pieces of a path. All but the last must lead to directories. -/
def follow (d : Disk) (l : Location) : List String → Except FileFault Location
  | [] => .ok l
  | piece :: rest => do
    d.enter l
    if piece = "" ∨ piece = "." then d.follow l rest
    else if piece = ".." then d.follow l.dropLast rest
    else if maxName < piece.utf8ByteSize then .error .nameTooLong
    else d.follow (l ++ [piece]) rest

/-- The place that a path names, which may be empty. -/
def locate (d : Disk) (p : Path) : Except FileFault Location :=
  if p.text.toList.contains '\x00' then .error .zeroByte
  else if p.text = "" then .error .notFound
  else if maxPath < p.text.utf8ByteSize then .error .nameTooLong
  else d.follow (if p.isAbsolute then [] else d.current) p.pieces

def find (d : Disk) (p : Path) : Except FileFault Entry := do
  match d.entry? (← d.locate p) with
  | some e => .ok e
  | none => .error .notFound

def readBytes (d : Disk) (p : Path) : Except FileFault ByteArray := do
  match ← d.find p with
  | .file content _ => .ok content
  | .sink => .ok .empty
  | .directory => .error .isDirectory

def readText (d : Disk) (p : Path) : Except FileFault String := do
  match String.fromUTF8? (← d.readBytes p) with
  | some text => .ok text
  | none => .error .notText

/-- Where a path may be written: a file, the sink or a free place in a directory. -/
def writable (d : Disk) (p : Path) : Except FileFault Location := do
  let l ← d.locate p.withoutSlash
  if p.endsInSlash then .error .isDirectory
  match d.entry? l with
  | some .directory => .error .isDirectory
  | _ => .ok l

/-- Stores bytes at a place. A file keeps its mode. -/
def store (d : Disk) (l : Location) (content : ByteArray) : Disk :=
  match d.entry? l with
  | some .sink => d
  | some (.file _ executable) => d.put l (.file content executable)
  | _ => d.put l (.file content false)

def write (d : Disk) (p : Path) (content : ByteArray) : Except FileFault Disk := do
  return d.store (← d.writable p) content

def writeText (d : Disk) (p : Path) (text : String) : Except FileFault Disk :=
  d.write p text.toUTF8

def remove (d : Disk) (p : Path) : Except FileFault Disk := do
  let l ← d.locate p
  match d.entry? l with
  | none => .error .notFound
  | some .directory => .error .isDirectory
  | some _ => .ok (d.drop l)

def makeDirectory (d : Disk) (p : Path) : Except FileFault Disk := do
  let l ← d.locate p.withoutSlash
  match d.entry? l with
  | none => .ok (d.put l .directory)
  | some _ => .error .exists

end Disk

end PbesLab
