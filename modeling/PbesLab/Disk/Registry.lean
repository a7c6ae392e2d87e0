import PbesLab.Disk.Basic
import PbesLab.Log

namespace PbesLab

structure Registry where
  dir : Path
  files : List Path

namespace Registry

def within (dir : Path) : Registry :=
  ⟨dir, []⟩

def pathOf (r : Registry) (name : String) : Path :=
  r.dir.join ⟨name⟩

/-- Registers a name; a path is registered once. -/
def add (r : Registry) (name : String) : Registry :=
  if r.files.any (r.pathOf name).same then r
  else { r with files := r.files ++ [r.pathOf name] }

def cleared (r : Registry) : Registry :=
  { r with files := [] }

end Registry

/-- Removes a file. One that is not there needs no removal; any other failure is told. -/
def Disk.discard (d : Disk) (p : Path) : Disk × List LogLine :=
  match d.remove p with
  | .ok d => (d, [])
  | .error .notFound => (d, [])
  | .error f => (d, [⟨.trial, .warn, "unable to remove " ++ p.text ++ ": " ++ f.message⟩])

def Disk.discardAll (d : Disk) : List Path → Disk × List LogLine
  | [] => (d, [])
  | p :: ps =>
    let (d, told) := d.discard p
    let (d, more) := d.discardAll ps
    (d, told ++ more)

end PbesLab
