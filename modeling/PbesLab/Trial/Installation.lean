import PbesLab.Shell.Execution
import PbesLab.Trial.Session

namespace PbesLab

/-- Where the tools are, and how long each may run, in milliseconds. -/
structure Installation where
  converter : Path
  abstractor : Path
  solver : Path
  timeout : Option Nat

def durationText (milliseconds : Nat) : String :=
  if milliseconds = 0 then "0ns"
  else if milliseconds < 1000 then toString milliseconds ++ "ms"
  else
    let digits := Text.trimRight (· == '0')
      ((toString (1000 + milliseconds % 1000)).toList.drop 1)
    toString (milliseconds / 1000) ++
      (if digits.isEmpty then "" else "." ++ String.ofList digits) ++ "s"

def endingText : Shell.Ending → String
  | .exited code => "exit status: " ++ toString code
  | .signalled n => "signal: " ++ toString n ++
    (match Shell.Signal.name? n with
      | some name => " (SIG" ++ name ++ ")"
      | none => "")
  | .timedOut => "timeout"

namespace Installation

def launch (i : Installation) (tool : Path) (args : List String) (output : Shell.Sink) :
    Action (Bench Unit) Shell.Ending := do
  Bench.say .tools .debug ("running " ++ tool.text ++ " " ++ " ".intercalate args)
  let b ← get
  match Shell.runTool? b.disk tool.text args output i.timeout with
  | none => throw (.notExecutable tool.text)
  | some (ending, disk) =>
    set { b with disk := { disk with current := b.disk.current } }
    if ending = .timedOut then
      Bench.say .tools .warn (tool.text ++ " timed out after " ++ durationText (i.timeout.getD 0))
    return ending

/-- The code that is reported; a killed tool has none. -/
def codeOf : Shell.Ending → Int
  | .exited code => code
  | _ => -1

def convert (i : Installation) (input output : Path) : Action (Bench Unit) Unit := do
  let ending ← i.launch i.converter [input.text, output.text] .nowhere
  if ending = .exited 0 then return
  throw (.toolExited i.converter.text (codeOf ending))

def abstract (i : Installation) (input output : Path) (strategy : Strategy) :
    Action (Bench Unit) Bool := do
  let ending ← i.launch i.abstractor
    ["--strategy=" ++ strategy.text, input.text, output.text] .nowhere
  if ending = .exited 0 then return true
  if ending ≠ .timedOut then
    Bench.say .tools .warn (i.abstractor.text ++ " exited with " ++ endingText ending)
  return false

def answerPath (input : Path) : Path :=
  input.withExtension "answer"

/-- Reads a collected answer and removes it. What cannot be read counts as no output. -/
def collect (path : Path) : Action (Bench Unit) String := fun b =>
  let read := b.disk.readText path
  let b := match b.disk.remove path with
    | .ok disk => { b with disk }
    | .error e => b.tell ⟨.tools, .warn, "unable to remove " ++ path.text ++ ": " ++ e.message⟩
  match read with
  | .ok text => (.ok text, b)
  | .error e =>
    (.ok "", b.tell ⟨.tools, .warn, "unable to read " ++ path.text ++ ": " ++ e.message⟩)

def solve (i : Installation) (input : Path) : Action (Bench Unit) (Option Bool) := do
  let path := answerPath input
  Bench.change (·.writeText path "")
  let sink := match (← get).disk.locate path with
    | .ok l => Shell.Sink.file l
    | .error _ => .nowhere
  let ending ← tryCatch (some <$> i.launch i.solver [input.text] sink) fun _ => return none
  let output ← collect path
  match ending with
  | none => throw (.notExecutable i.solver.text)
  | some (.exited 0) => return readAnswer? output
  | some .timedOut => return none
  | some ending => do
    Bench.say .tools .debug (i.solver.text ++ " exited with " ++ endingText ending)
    return none

def tools (i : Installation) : Tools Unit where
  convert := i.convert
  abstract := i.abstract
  solve := i.solve

end Installation

end PbesLab
