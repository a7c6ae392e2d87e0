import PbesLab.CommandLine.Options
import PbesLab.Trial.Installation
import PbesLab.Trial.Series

namespace PbesLab.CommandLine

/-- Where the files of a test go and which tools are used. -/
structure Setup where
  dir : Path
  keepFiles : Bool
  installation : Installation

inductive Command
  | generate (settings : Sampling.Settings) (seed : Option UInt64)
  | series (plan : Plan) (setup : Setup) (seed : Option UInt64)
  | minimize (file : Path) (setup : Setup) (strategy : Strategy)
  | parse (file : Path)
  | classes (table : Option String) (unresolved names : Bool)
  | outline (file : Path)

inductive Request
  | version
  | run (verbose : Bool) (c : Command)

def number? (bound : Nat) (text : String) : Option Nat :=
  let digits := match text.toList with
    | '+' :: cs => cs
    | cs => cs
  let n := Nat.ofDigitChars 10 digits 0
  if !digits.isEmpty ∧ digits.all Char.isDigit ∧ n < bound then some n else none

def strategy? (text : String) : Option Strategy :=
  [Strategy.overApprox, .underApprox].find? (·.text = text)

def path? (text : String) : Option Path :=
  if text = "" then none else some ⟨text⟩

/-- The value of an option, if it is given; a bad value spoils the whole. -/
def optional {α : Type} (read : String → Option α) (g : Given) (name : String) :
    Option (Option α) :=
  match g.value? name with
  | none => some none
  | some text => (read text).map some

def withDefault {α : Type} (read : String → Option α) (g : Given) (name : String) (dflt : α) :
    Option α :=
  (optional read g name).map (·.getD dflt)

def flag (long : String) (short : Option Char) : OptionForm :=
  ⟨long, short, true⟩

def option (long : String) (short : Option Char) : OptionForm :=
  ⟨long, short, false⟩

def everywhere : List OptionForm :=
  [flag "verbose" (some 'v')]

def generatorForms : List OptionForm :=
  [option "equations" none, option "atoms" none, option "propvars" none,
    flag "no-quantifiers" none]

def toolForms : List OptionForm :=
  [option "dir" (some 'd'), flag "keep-files" (some 'k'), option "timeout" none,
    option "txt2pbes" none, option "pbesabsinthe" none, option "pbes2bool" none]

def seedForms : List OptionForm :=
  [option "seed" none]

def wordSize : Nat := 1 <<< 64

def settings? (g : Given) : Option Sampling.Settings := do
  return ⟨← withDefault (number? wordSize) g "equations" 2,
    ← withDefault (number? wordSize) g "atoms" 2,
    ← withDefault (number? wordSize) g "propvars" 2, !g.has "no-quantifiers"⟩

def seed? (g : Given) : Option (Option UInt64) := do
  return (← optional (number? wordSize) g "seed").map UInt64.ofNat

def setup? (g : Given) : Option Setup := do
  let timeout ← optional (number? wordSize) g "timeout"
  return ⟨← withDefault path? g "dir" ⟨"."⟩, g.has "keep-files",
    ⟨← withDefault path? g "txt2pbes" ⟨"txt2pbes"⟩,
      ← withDefault path? g "pbesabsinthe" ⟨"pbesabsinthe"⟩,
      ← withDefault path? g "pbes2bool" ⟨"pbes2bool"⟩, timeout.map (· * 1000)⟩⟩

def noFiles (g : Given) : Option Unit :=
  if g.files.isEmpty then some () else none

def oneFile? (g : Given) : Option Path :=
  match g.files with
  | [f] => path? f
  | _ => none

structure CommandForm where
  name : String
  forms : List OptionForm
  read? : Given → Option Command

def generateForm : CommandForm where
  name := "generate"
  forms := generatorForms ++ seedForms
  read? g := do
    noFiles g
    return .generate (← settings? g) (← seed? g)

def seriesForm : CommandForm where
  name := "absinthe"
  forms := generatorForms ++ toolForms ++ seedForms ++
    [option "iterations" (some 'i'), option "strategy" (some 's'), flag "no-minimize" none,
      option "name" none]
  read? g := do
    noFiles g
    let plan : Plan :=
      ⟨← withDefault (number? wordSize) g "iterations" 10, ← settings? g,
        ← optional strategy? g "strategy", !g.has "no-minimize",
        ← withDefault some g "name" "pbesabsinthe"⟩
    return .series plan (← setup? g) (← seed? g)

def minimizeForm : CommandForm where
  name := "minimize"
  forms := toolForms ++ [option "strategy" (some 's')]
  read? g := do
    return .minimize (← oneFile? g) (← setup? g) (← withDefault strategy? g "strategy" .overApprox)

def parseForm : CommandForm where
  name := "parse"
  forms := []
  read? g := do return .parse (← oneFile? g)

def classesForm : CommandForm where
  name := "classes"
  forms :=
    [option "table" (some 't'), flag "unresolved" (some 'u'), flag "names" (some 'n')]
  read? g := do
    noFiles g
    return .classes (g.value? "table") (g.has "unresolved") (g.has "names")

def outlineForm : CommandForm where
  name := "syntax-tree"
  forms := []
  read? g := do return .outline (← oneFile? g)

def commandForms : List CommandForm :=
  [generateForm, seriesForm, minimizeForm, parseForm, classesForm, outlineForm]

def command? (verbose : Bool) (name : String) (args : List String) : Option Request := do
  let form ← commandForms.find? (·.name = name)
  let g ← given? (form.forms ++ everywhere) args .empty
  if !g.distinct then none
  return .run (verbose || g.has "verbose") (← form.read? g)

/-- The options before the command. The version may be asked for instead of a command. -/
def request? (verbose : Bool) : List String → Option Request
  | [] => none
  | "--version" :: _ => some .version
  | "--verbose" :: args => if verbose then none else request? true args
  | arg :: args =>
    match arg.toList with
    | ['-', 'v'] => if verbose then none else request? true args
    | '-' :: 'V' :: _ => some .version
    | '-' :: 'v' :: 'V' :: _ => if verbose then none else some .version
    | '-' :: _ => none
    | _ => command? verbose arg args

end PbesLab.CommandLine
