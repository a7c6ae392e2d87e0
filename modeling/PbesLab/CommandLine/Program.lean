import PbesLab.ClassTable.Fdr
import PbesLab.CommandLine.LogFilter
import PbesLab.CommandLine.Request
import PbesLab.Grammar.Outline

namespace PbesLab.CommandLine

/-- The surroundings of a run. The seed stands in for one that is not given. -/
structure Surroundings where
  args : List String
  logSetting : Option String
  disk : Disk
  seed : UInt64

structure Completion where
  code : UInt8
  output : String
  /-- Log lines and the text of an error. -/
  messages : List String
  disk : Disk

structure Console where
  bench : Bench Unit
  output : String

namespace Console

def print (text : String) : Action Console Unit := fun c =>
  (.ok (), { c with output := c.output ++ text ++ "\n" })

def say (level : Level) (message : String) : Action Console Unit := fun c =>
  (.ok (), { c with bench := c.bench.tell ⟨.program, level, message⟩ })

def readText (file : Path) : Action Console String := do
  match (← get).bench.disk.readText file with
  | .ok text => return text
  | .error e => throw (.file e)

def inSession {α : Type} (dir : Path) (a : Action (Session Unit) α) : Action Console α := fun c =>
  let (r, s) := a ⟨c.bench, .within dir⟩
  (r, { c with bench := s.bench })

end Console

def draws (dflt : UInt64) (seed : Option UInt64) : Action Console Sampling.Draws := do
  let seed := seed.getD dflt
  Console.say .info ("random seed " ++ toString seed.toNat)
  return .ofSeed seed

def readSystem (file : Path) : Action Console EqSystem := do
  match EqSystem.read (← Console.readText file) with
  | .ok s => return s
  | .error f => throw (.reading f)

def runSeries (plan : Plan) (setup : Setup) (stream : Sampling.Draws) : Action Console Unit := do
  Console.inSession setup.dir (setup.installation.tools.runSeries setup.keepFiles plan stream)
  Console.say .info (toString plan.iterations ++ " iterations passed")

def nameFor (file : Path) : String :=
  file.stem?.getD "pbesabsinthe"

def runMinimize (file : Path) (setup : Setup) (strategy : Strategy) : Action Console Unit := do
  let s ← readSystem file
  let result ← Console.inSession setup.dir
    (setup.installation.tools.checkAndMinimize setup.keepFiles s (nameFor file) strategy)
  match result with
  | some small => Console.print small.text
  | none => Console.say .info "test passes, nothing to minimize"

def liftTable {α : Type} : Except TableFault α → Action Console α
  | .ok a => return a
  | .error f => throw (.table f)

/-- A table is addressed by its name or by its sort. -/
def selectTables (tables : List ClassTable) : Option String → List ClassTable
  | some x => tables.filter fun t => t.name = x ∨ t.sortName = x
  | none => tables

def showTable (names : Bool) (t : ClassTable) : Action Console Unit := do
  Console.print ("% " ++ t.name ++ " (" ++ t.sortName ++ ")")
  Console.print (if names then t.listing else t.text)

def runClasses (table : Option String) (unresolved names : Bool) : Action Console Unit := do
  let tables ← liftTable Fdr.tables
  liftTable (tables.forM ClassTable.check)
  if unresolved then (ClassTable.unresolvedSorts tables).forM Console.print
  else
    let selected := selectTables tables table
    if selected.isEmpty then throw (.table (.unknownTable (table.getD "")))
    selected.forM (showTable names)

def runOutline (file : Path) : Action Console Unit := do
  match EqSystem.tree (← Console.readText file) with
  | .ok t => Console.print (t.outline SystemRule.name 0 0)
  | .error f => throw (.reading f)

def Command.run (dflt : UInt64) : Command → Action Console Unit
  | .generate settings seed => do
    let stream ← draws dflt seed
    Console.print (Sampling.generate settings stream).1.text
  | .series plan setup seed => do
    let stream ← draws dflt seed
    runSeries plan setup stream
  | .minimize file setup strategy => runMinimize file setup strategy
  | .parse file => do Console.print (← readSystem file).text
  | .classes table unresolved names => runClasses table unresolved names
  | .outline file => runOutline file

def versionText : String := "mcrl2-devtools 0.1.0"

/-- Runs a command line. An error is told last, after what has been logged. -/
def run (s : Surroundings) : Completion :=
  match request? false s.args with
  | none => ⟨2, "", [], s.disk⟩
  | some .version => ⟨0, versionText ++ "\n", [], s.disk⟩
  | some (.run verbose c) =>
    let (result, console) := c.run s.seed ⟨⟨s.disk, [], ()⟩, ""⟩
    let shown := console.bench.log.reverse.filter (shows (chooseFilter s.logSetting verbose))
    let logged := shown.map LogLine.text
    match result with
    | .ok _ => ⟨0, console.output, logged, console.bench.disk⟩
    | .error f => ⟨1, console.output, logged ++ [f.message], console.bench.disk⟩

end PbesLab.CommandLine
