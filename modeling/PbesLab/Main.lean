import PbesLab.CommandLine.Program

namespace PbesLab.Main

def depth : Nat := 2

def isScript (content : ByteArray) : Bool :=
  content.toList.take 2 == [0x23, 0x21]

def load : Nat → String → Location → IO (List (Location × Entry))
  | 0, _, _ => return []
  | n + 1, dir, place => do
    let entries ← (← IO.FS.realPath dir).readDir
    let loaded ← entries.toList.mapM fun e => do
      let here := place ++ [e.fileName]
      if ← e.path.isDir then
        return (here, Entry.directory) :: (← load n e.path.toString here)
      else
        try
          let content ← IO.FS.readBinFile e.path
          return [(here, Entry.file content (isScript content))]
        catch _ => return []
    return loaded.flatten

def ancestors (place : Location) : List (Location × Entry) :=
  (List.range place.length).map fun i => (place.take (i + 1), Entry.directory)

def textOf (place : Location) : String :=
  "/" ++ "/".intercalate place

/-- Writes what is new or changed and removes what is gone. -/
def store (before after : Disk) : IO Unit := do
  for (place, e) in after.entries.reverse do
    if before.entry? place ≠ some e then
      match e with
      | .file content _ => IO.FS.writeBinFile (textOf place) content
      | .directory => IO.FS.createDirAll (textOf place)
      | .sink => pure ()
  for (place, _) in before.entries do
    if (after.entry? place).isNone then
      IO.FS.removeFile (textOf place)

/-- The working directory is taken over as a disk; what a run changes there is written back. -/
def run (args : List String) : IO UInt32 := do
  let current := (Path.mk (← IO.currentDir).toString).pieces.filter (· ≠ "")
  let loaded ← load (depth + 1) "." current
  let disk : Disk := ⟨loaded ++ ancestors current ++ Disk.standard, current⟩
  let seed := UInt64.ofNat (← IO.rand 0 (CommandLine.wordSize - 1))
  let done := CommandLine.run ⟨args, ← IO.getEnv "RUST_LOG", disk, seed⟩
  store disk done.disk
  IO.print done.output
  for m in done.messages do
    IO.eprintln m
  return done.code.toUInt32

end PbesLab.Main

def main (args : List String) : IO UInt32 :=
  PbesLab.Main.run args
