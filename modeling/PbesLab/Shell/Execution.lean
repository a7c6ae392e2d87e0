import PbesLab.Shell.Awk
import PbesLab.Shell.Builtin
import PbesLab.Shell.FilePrograms
import PbesLab.Shell.LineSearch
import PbesLab.Shell.Redirection
import PbesLab.Shell.TextPrograms
import PbesLab.Text.Pieces

namespace PbesLab.Shell

def finish (status : Nat) : Run Nat := do
  modify fun p => { p with status }
  return status

def finishChecked (status : Nat) : Run Nat := do
  let p ← get
  if p.options.exitOnError ∧ !p.tested ∧ status ≠ 0 then throw (.exit status)
  finish status

/-- Runs a step whose failure is a condition. -/
def testing (step : Run Nat) : Run Nat := do
  let p ← get
  set { p with tested := true }
  let status ← step
  modify fun q => { q with tested := p.tested }
  return status

inductive Round
  | done (status : Nat)
  | broken
  | skipped

/-- Runs a part of a loop. Leaving more than one loop is left to the next one. -/
def inLoop (step : Run Nat) : Run Round := do
  let p ← get
  set { p with loops := p.loops + 1 }
  let round ← tryCatch (Round.done <$> step) fun
    | .breakLoops n => if n ≤ 1 then return .broken else throw (.breakLoops (n - 1))
    | .nextRound n => if n ≤ 1 then return .skipped else throw (.nextRound (n - 1))
    | stop => throw stop
  modify fun q => { q with loops := p.loops, tested := p.tested }
  return round

/-- How many rounds a loop may take; what takes longer is taken to take forever. -/
def maxRounds : Nat := 20000

/-- Repeats a body as long as a condition has a given outcome. The first argument bounds the
rounds. -/
def repeatWhile (until? : Bool) (condition body : Run Nat) : Nat → Nat → Run Nat
  | 0, _ => throw .timeout
  | rounds + 1, status => do
    match ← inLoop (testing condition) with
    | .broken => return 0
    | .skipped => repeatWhile until? condition body rounds status
    | .done c =>
      if (c == 0) == until? then return status
      match ← inLoop body with
      | .broken => return 0
      | .skipped => repeatWhile until? condition body rounds 0
      | .done s => repeatWhile until? condition body rounds s

def forEach (x : String) (body : Run Nat) : List String → Nat → Run Nat
  | [], status => return status
  | v :: vs, _ => do
    assign x v
    match ← inLoop body with
    | .broken => return 0
    | .skipped => forEach x body vs 0
    | .done s => forEach x body vs s

def firstArm (h : Host) (subject : String) : List (List Word × Command) → Run (Option Command)
  | [] => return none
  | (patterns, body) :: arms => do
    let fits ← patterns.anyM fun w => do
      return Glob.matchItems (Glob.items (← expandPattern h w)) subject.toList
    if fits then return some body else firstArm h subject arms

/-- Runs a command whose output is the input of another, each in a shell of its own. -/
def piped (first second : Run Nat) : Run Nat := do
  let p ← get
  let (_, bytes) ← capturing (isolated first)
  let q ← get
  set { q with input := bytes, clock := p.clock }
  let status ← isolated second
  modify fun r => { r with input := q.input, clock := max q.clock r.clock }
  return status

/-- Runs a command beside the shell. What it does after some time comes too late to be seen. -/
def inBackground (step : Run Nat) : Run Nat := do
  let p ← get
  set { p with input := [], tested := true, limit := none }
  let _ ← isolated step
  modify fun q =>
    { (if p.clock < q.clock then { p with pipes := q.pipes } else q) with
      input := p.input
      tested := p.tested
      limit := p.limit
      clock := p.clock
      background := max p.background q.clock }
  return 0

def callFunction (h : Host) (body : Command) (args : List String) : Run Nat := do
  let p ← get
  set { p with params := args, loops := 0 }
  let status ← tryCatch (h.command body) fun
    | .leave code => return code
    | stop => throw stop
  modify fun q => { q with params := p.params, loops := p.loops, tested := p.tested }
  return status

/-- Runs a command by its name. Functions hide programs and most commands of the shell. -/
def call (h : Host) (name : String) (args : List String) : Run Nat := do
  if name = "exec" then
    match args with
    | [] => return 0
    | x :: xs => throw (.exit (← h.program x xs))
  match Builtin.special.lookup name, (← get).functions.lookup name, Builtin.regular.lookup name with
  | some run, _, _ => run h args
  | none, some body, _ => callFunction h body args
  | none, none, some run => run h args
  | none, none, none => h.program name args

def assignAll (h : Host) (assignments : List (String × Word)) : Run Unit := do
  for (x, w) in assignments do assign x (← expandText h w)

/-- Runs a step with variables that have their values as long as it lasts. -/
def withVariables (h : Host) (assignments : List (String × Word)) (step : Run Nat) : Run Nat := do
  let p ← get
  assignAll h assignments
  for (x, _) in assignments do
    modify fun q => (q.var? x).elim q fun v => q.setVariable { v with exported := true }
  let status ← step
  for (x, _) in assignments do
    modify fun q => match p.var? x with
      | some v => q.setVariable v
      | none => { q with vars := q.vars.filter (·.name ≠ x) }
  return status

def runSimple (h : Host) (assignments : List (String × Word)) (words : List Word)
    (rs : List Redirect) : Run Nat := do
  modify fun p => { p with outputStatus := 0 }
  match (← words.mapM (expand h)).flatten with
  | [] =>
    let status? ← redirected h rs (do
      assignAll h assignments
      return (← get).outputStatus)
    return status?.getD 2
  | name :: rest =>
    if Builtin.isSpecial name then
      let status? ← if name = "exec" ∧ rest.isEmpty then (do
          return if ← redirectAll h rs then some 0 else none)
        else redirected h rs (do
          assignAll h assignments
          call h name rest)
      match status? with
      | some status => return status
      | none => give
    else
      let step := if assignments.isEmpty then call h name rest
        else withVariables h assignments (call h name rest)
      return (← redirected h rs step).getD 2

def runCommand (h : Host) : Command → Run Nat
  | .nothing => do return (← get).status
  | .simple assignments words rs => do finishChecked (← runSimple h assignments words rs)
  | .seq a b => do
    let _ ← h.command a
    h.command b
  | .both a b => do
    let status ← testing (h.command a)
    if status = 0 then h.command b else finish status
  | .either a b => do
    let status ← testing (h.command a)
    if status = 0 then finish 0 else h.command b
  | .negate a => do
    let status ← testing (h.command a)
    finish (if status = 0 then 1 else 0)
  | .pipe a b => do finishChecked (← piped (h.command a) (h.command b))
  | .background a => do finishChecked (← inBackground (h.command a))
  | .branch condition yes no => do
    let status ← testing (h.command condition)
    match status, no with
    | 0, _ => h.command yes
    | _, some no => h.command no
    | _, none => finish 0
  | .loop until? condition body => do
    finish (← repeatWhile until? (h.command condition) (h.command body) maxRounds 0)
  | .each x words body => do
    let values ← match words with
      | some ws => do pure (← ws.mapM (expand h)).flatten
      | none => do pure (← get).params
    finish (← forEach x (h.command body) values 0)
  | .select subject arms => do
    match ← firstArm h (← expandText h subject) arms with
    | none | some .nothing => finish 0
    | some body => h.command body
  | .define name body => do
    modify fun p => { p with functions := (name, body) :: p.functions.filter (·.1 ≠ name) }
    finish 0
  | .group body rs => do finish ((← redirected h rs (h.command body)).getD 2)
  | .sub body rs => do
    finishChecked (← isolated do return (← redirected h rs (h.command body)).getD 2)

/-- Runs a script line by line. What is malformed ends the shell when it is reached. The first
argument bounds the lines. -/
def runLines (h : Host) : Nat → Nat → List Token → Run Nat
  | 0, status, _ => return status
  | fuel + 1, status, ts =>
    match Script.skipLines ts with
    | [] => return status
    | ts =>
      match Script.line? ts with
      | none => give
      | some (c, rest) => do
        let status ← h.command c
        runLines h fuel status rest

def runText (h : Host) (text : String) : Run Nat :=
  let ts := Lexer.tokens text.toList
  runLines h (ts.length + 1) 0 ts

/-- Runs a script in the process of the caller. The arguments are settings, the file or, after its
letter, the text of the script, and its parameters. -/
def startShell (h : Host) : Program := fun args => do
  let inline := args.head? = some "-c"
  match Builtin.readOptions? {} (if inline then args.tail else args) with
  | some (options, some (name :: params)) =>
    let text? ← if inline then pure (some name)
      else do pure ((← readNamed? name).map fun bytes => String.ofList (Text.decodeLossy bytes))
    match text? with
    | none => return 2
    | some text =>
      modify fun p =>
        { p with
          script := if inline then params.headD "sh" else name
          params := if inline then params.tail else params
          vars := p.vars.filter (·.exported)
          functions := []
          options
          status := 0
          tested := false
          loops := 0 }
      h.text text
  | _ => return 2

def shells : List String :=
  ["sh", "dash", "bash"]

def programs (h : Host) : List (String × Program) :=
  filePrograms ++ textPrograms ++ [("grep", grep), ("sed", sed), ("awk", awk), ("pwd", Builtin.pwd),
    ("true", fun _ => return 0), ("false", fun _ => return 1), ("echo", echo), ("printf", printf),
    ("test", test), ("[", bracket), ("kill", Builtin.kill)] ++
    shells.map fun name => (name, startShell h)

def isInstalled (name : String) : Bool :=
  ((programs ⟨fun _ => give, fun _ => give, fun _ _ => give⟩).lookup name).isSome

/-- The name of the program at a place where programs are installed. -/
def installedAt? (path : String) : Option String :=
  match (Path.mk path).pieces with
  | ["", "bin", name] | ["", "usr", "bin", name] => if isInstalled name then some name else none
  | _ => none

/-- The interpreter that the first line of a script names, with an argument for it. -/
def interpreter? (text : List Char) : Option (String × List String) :=
  match text with
  | '#' :: '!' :: cs =>
    let isBlank (c : Char) : Bool := c = ' ' || c = '\t'
    let line := Text.trimRight isBlank ((cs.takeWhile (· ≠ '\n')).dropWhile isBlank)
    let name := line.takeWhile (!isBlank ·)
    let arg := (line.drop name.length).dropWhile isBlank
    some (String.ofList name, if arg.isEmpty then [] else [String.ofList arg])
  | _ => none

inductive Executable
  /-- A program that is installed, with its first arguments. -/
  | program (name : String) (args : List String)
  | missing
  | refused

/-- What is run for a path: an installed program, or the interpreter of a script. Only a shell runs
a script that names none. -/
def executableAt (d : Disk) (byShell : Bool) (path : String) : Executable :=
  match d.find ⟨path⟩ with
  | .ok (.file content true) =>
    match interpreter? (Text.decodeLossy content.toList) with
    | some (name, args) =>
      match installedAt? name with
      | some name => .program name (args ++ [path])
      | none => .missing
    | none => if byShell then .program "sh" [path] else .refused
  | .ok _ | .error .notDirectory => .refused
  | .error _ =>
    match installedAt? path with
    | some name => .program name []
    | none => .missing

def findExecutable (p : Process) (byShell : Bool) (name : String) : Executable :=
  if name.toList.contains '/' then executableAt p.disk byShell name
  else
    let value := ((p.var? "PATH").map (·.value.toList)).getD []
    let paths := (Text.pieces (· == ':') value).map fun dir =>
      if dir.isEmpty then "./" ++ name else String.ofList dir ++ "/" ++ name
    (paths.findSome? fun path =>
      match executableAt p.disk byShell path with
      | .program x args => some (.program x args)
      | _ => none).getD .missing

def runProgram (h : Host) (name : String) (args : List String) : Run Nat := do
  match findExecutable (← get) true name with
  | .missing => return 127
  | .refused => return 126
  | .program x first =>
    match (programs h).lookup x with
    | none => return 127
    | some run =>
      if shells.contains x then
        isolatedAs (fun p => { p with number := p.number + 1 }) (run (first ++ args))
      else run (first ++ args)

/-- Ties commands, scripts and programs together. The number bounds how deep they are nested. -/
def hostOfDepth : Nat → Host
  | 0 => ⟨fun _ => throw .timeout, fun _ => throw .timeout, fun _ _ => throw .timeout⟩
  | n + 1 =>
    { text := fun t => runText (hostOfDepth n) t
      command := fun c => runCommand (hostOfDepth n) c
      program := fun name args => runProgram (hostOfDepth n) name args }

/-- Deeper nesting is taken to go on forever. -/
def maxDepth : Nat := 3000

inductive Ending
  | exited (code : Nat)
  | signalled (number : Nat)
  | timedOut
deriving DecidableEq

def standardVariables : List Variable :=
  [{ name := "PATH", value := "/usr/local/sbin:/usr/local/bin:/usr/sbin:/usr/bin:/sbin:/bin",
      exported := true }]

/-- A process with nothing to read, whose output goes to a sink. -/
def Process.initial (d : Disk) (output : Sink) (limit : Option Nat) : Process where
  disk := d
  streams := [(1, output), (2, .nowhere)]
  vars := standardVariables
  number := firstNumber
  limit

/-- Runs a tool without input. Gives nothing if there is no such tool. -/
def runTool? (d : Disk) (tool : String) (args : List String) (output : Sink)
    (limit : Option Nat) : Option (Ending × Disk) :=
  let h := hostOfDepth maxDepth
  let p := Process.initial d output limit
  match findExecutable p false tool with
  | .program x first =>
    if limit = some 0 then some (.timedOut, d)
    else
      ((programs h).lookup x).map fun run =>
        match (run (first ++ args)) p with
        | (.ok code, p) | (.error (.exit code), p) | (.error (.leave code), p) =>
          (.exited (code % 256), p.disk)
        | (.error (.signal _ n), p) => (.signalled n, p.disk)
        | (.error .timeout, p) => (.timedOut, p.disk)
        | (.error (.breakLoops _), p) | (.error (.nextRound _), p) => (.exited p.status, p.disk)
  | _ => none

end PbesLab.Shell
