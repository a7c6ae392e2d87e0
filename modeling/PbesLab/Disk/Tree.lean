import PbesLab.Disk.Basic

namespace PbesLab.Disk

def dropTree (d : Disk) (l : Location) : Disk :=
  { d with entries := d.entries.filter fun (k, _) => !l.isPrefixOf k }

/-- Moves an entry with all that it contains, in the place of what is there. -/
def relocate (d : Disk) (l m : Location) : Disk :=
  { d with entries := (d.drop m).entries.map fun (k, e) =>
      (if l.isPrefixOf k then m ++ k.drop l.length else k, e) }

/-- Stores a file with a mode. A file that is there keeps its own. -/
def storeAs (d : Disk) (l : Location) (content : ByteArray) (executable : Bool) : Disk :=
  match d.entry? l with
  | none => d.put l (.file content executable)
  | some _ => d.store l content

def setExecutable (d : Disk) (l : Location) (executable : Bool) : Disk :=
  match d.entry? l with
  | some (.file content _) => d.put l (.file content executable)
  | _ => d

end PbesLab.Disk
