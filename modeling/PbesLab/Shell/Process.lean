import PbesLab.Disk.Basic
import PbesLab.Shell.Command

namespace PbesLab.Shell

inductive Sink
  | nowhere
  | pipe (id : Nat)
  | file (l : Location)

/-- Why a shell comes to an end before its last command, or leaves a function or a loop. -/
inductive Stop
  | exit (code : Nat)
  /-- The number of the process that ends, and that of the signal. -/
  | signal (process number : Nat)
  | timeout
  | leave (code : Nat)
  | breakLoops (count : Nat)
  | nextRound (count : Nat)

/-- The settings that `set` changes. -/
structure Options where
  exitOnError : Bool := false
  refuseUnset : Bool := false
  noGlob : Bool := false

structure Variable where
  name : String
  value : String
  exported : Bool := false

structure Process where
  disk : Disk
  input : List UInt8 := []
  /-- The open streams by their numbers. What is said about errors is not written there. -/
  streams : List (Nat × Sink)
  /-- What has been written to each pipe. -/
  pipes : List (Nat × List UInt8) := []
  script : String := ""
  params : List String := []
  vars : List Variable
  functions : List (String × Command) := []
  options : Options := {}
  status : Nat := 0
  /-- The status of the last substitution of output. -/
  outputStatus : Nat := 0
  /-- A failure now is a condition that is tested. -/
  tested : Bool := false
  loops : Nat := 0
  /-- The number by which the shell knows itself. -/
  number : Nat
  /-- The milliseconds since the start, and when the last command in the background ends. -/
  clock : Nat := 0
  background : Nat := 0
  /-- When the shell is killed, if there is a limit. -/
  limit : Option Nat

abbrev Run := ExceptT Stop (StateM Process)

/-- What a command may ask of the shell that runs it: to run a text, a command, or a program or a
script by its name with arguments. -/
structure Host where
  text : String → Run Nat
  command : Command → Run Nat
  program : String → List String → Run Nat

abbrev Program := List String → Run Nat

def firstNumber : Nat := 4711

def bytesOf (text : String) : List UInt8 :=
  text.toUTF8.toList

namespace Process

def sink (p : Process) (stream : Nat) : Sink :=
  (p.streams.lookup stream).getD .nowhere

def written (p : Process) (id : Nat) : List UInt8 :=
  (p.pipes.lookup id).getD []

def setStream (p : Process) (stream : Nat) (s : Sink) : Process :=
  { p with streams := (stream, s) :: p.streams.filter (·.1 ≠ stream) }

def emit (p : Process) (sink : Sink) (bytes : List UInt8) : Process :=
  match sink with
  | .nowhere => p
  | .pipe id => { p with pipes := (id, p.written id ++ bytes) :: p.pipes.filter (·.1 ≠ id) }
  | .file l =>
    match p.disk.entry? l with
    | some (.file content _) => { p with disk := p.disk.store l (content ++ bytes.toByteArray) }
    | _ => p

def var? (p : Process) (name : String) : Option Variable :=
  p.vars.find? (·.name = name)

def setVariable (p : Process) (v : Variable) : Process :=
  { p with vars := v :: p.vars.filter (·.name ≠ v.name) }

end Process

def say (bytes : List UInt8) : Run Unit :=
  modify fun p => p.emit (p.sink 1) bytes

def sayText (text : String) : Run Unit :=
  say (bytesOf text)

def give {α : Type} : Run α :=
  throw (.exit 2)

def takeInput : Run (List UInt8) := do
  let p ← get
  set { p with input := [] }
  return p.input

def streamNamed? (name : String) : Option Nat :=
  match name with
  | "/dev/stdin" => some 0
  | "/dev/stdout" => some 1
  | "/dev/stderr" => some 2
  | _ => none

def readNamed? (name : String) : Run (Option (List UInt8)) := do
  if streamNamed? name = some 0 then return some (← takeInput)
  return (((← get).disk.readBytes ⟨name⟩).map ByteArray.toList).toOption

/-- Opens a file or a stream for writing. What is there may be kept. -/
def openSink? (name : String) (kept : Bool) : Run (Option Sink) := do
  let p ← get
  match streamNamed? name, p.disk.writable ⟨name⟩ with
  | some n, _ => return some (p.sink n)
  | none, .error _ => return none
  | none, .ok l =>
    match p.disk.entry? l with
    | some .sink => return some .nowhere
    | entry =>
      if !kept || entry.isNone then set { p with disk := p.disk.store l .empty }
      return some (.file l)

def capturing {α : Type} (step : Run α) : Run (α × List UInt8) := do
  let p ← get
  let id := p.pipes.length
  set ({ p with pipes := (id, []) :: p.pipes }.setStream 1 (.pipe id))
  let a ← step
  let bytes := (← get).written id
  modify fun q => { q with streams := p.streams, pipes := q.pipes.filter (·.1 ≠ id) }
  return (a, bytes)

/-- Runs a step in a process of its own, of which the disk, the input and the time stay. The status
of a process that a signal ends is above 128. -/
def isolatedAs (enter : Process → Process) (step : Run Nat) : Run Nat := do
  let p ← get
  let inner := enter { p with loops := 0 }
  set inner
  let code ← tryCatch step fun
    | .exit code | .leave code => return code
    | .breakLoops _ | .nextRound _ => do return (← get).status
    | .signal process number =>
      if process = inner.number ∧ process ≠ p.number then return 128 + number
      else throw (.signal process number)
    | stop => throw stop
  modify fun q =>
    { p with
      disk := { q.disk with current := p.disk.current }
      input := q.input
      pipes := q.pipes
      clock := q.clock }
  return code % 256

def isolated (step : Run Nat) : Run Nat :=
  isolatedAs id step

/-- Lets time pass, which may meet the limit. -/
def wait (milliseconds : Nat) : Run Unit := do
  let p ← get
  let moment := p.clock + milliseconds
  match p.limit with
  | some limit => if limit ≤ moment then throw .timeout
  | none => pure ()
  set { p with clock := moment }

def assign (name value : String) : Run Unit :=
  modify fun p =>
    p.setVariable ((p.var? name).elim { name, value } fun v => { v with value })

def change (f : Disk → Except FileFault Disk) : Run Nat := do
  match f (← get).disk with
  | .ok disk =>
    modify fun p => { p with disk }
    return 0
  | .error _ => return 1

/-- Runs a step for each item; the status is the last that is not zero. -/
def forAll {α : Type} (items : List α) (f : α → Run Nat) : Run Nat :=
  items.foldlM (fun status x => do
    let s ← f x
    return if s = 0 then status else s) 0

end PbesLab.Shell
