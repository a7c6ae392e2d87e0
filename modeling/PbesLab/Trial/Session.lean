import PbesLab.Disk.Registry
import PbesLab.Failure
import PbesLab.Trial.Verdict

namespace PbesLab

/-- What tools see and change; `τ` is their own state. -/
structure Bench (τ : Type) where
  disk : Disk
  /-- The newest line first. -/
  log : List LogLine
  tools : τ

structure Session (τ : Type) where
  bench : Bench τ
  registry : Registry

/-- An action may fail; what it did before stays done. -/
abbrev Action (σ : Type) := ExceptT Failure (StateM σ)

structure Tools (τ : Type) where
  /-- Converts a text into the format of the other tools. -/
  convert (input output : Path) : Action (Bench τ) Unit
  /-- Tells whether there is a result. -/
  abstract (input output : Path) (strategy : Strategy) : Action (Bench τ) Bool
  /-- The answer, if there is one. -/
  solve (input : Path) : Action (Bench τ) (Option Bool)

variable {τ α : Type}

namespace Bench

def tell (b : Bench τ) (line : LogLine) : Bench τ :=
  { b with log := line :: b.log }

def tellAll (b : Bench τ) (lines : List LogLine) : Bench τ :=
  lines.foldl tell b

def change (f : Disk → Except FileFault Disk) : Action (Bench τ) Unit := fun b =>
  match f b.disk with
  | .ok disk => (.ok (), { b with disk })
  | .error e => (.error (.file e), b)

def say (area : Area) (level : Level) (message : String) : Action (Bench τ) Unit := fun b =>
  (.ok (), b.tell ⟨area, level, message⟩)

end Bench

namespace Session

def tell (s : Session τ) (line : LogLine) : Session τ :=
  { s with bench := s.bench.tell line }

def onBench (a : Action (Bench τ) α) : Action (Session τ) α := fun s =>
  let (r, bench) := a s.bench
  (r, { s with bench })

/-- The path of a name, which is registered for removal. -/
def register (name : String) : Action (Session τ) Path := fun s =>
  (.ok (s.registry.pathOf name), { s with registry := s.registry.add name })

def cleanup (s : Session τ) : Session τ :=
  let (disk, told) := s.bench.disk.discardAll s.registry.files
  { bench := ({ s.bench with disk }).tellAll told, registry := s.registry.cleared }

/-- Ends an operation: cleans up or says where the files are. -/
def finish (keepFiles : Bool) (s : Session τ) : Session τ :=
  if keepFiles then s.tell ⟨.trial, .info, "keeping generated files in " ++ s.registry.dir.text⟩
  else s.cleanup

/-- Runs an action and ends the operation, whatever comes of it. -/
def finishing (keepFiles : Bool) (a : Action (Session τ) α) : Action (Session τ) α := fun s =>
  let (r, s) := a s
  (r, s.finish keepFiles)

end Session

end PbesLab
