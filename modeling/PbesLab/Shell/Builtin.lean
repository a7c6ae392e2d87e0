import PbesLab.Shell.Condition
import PbesLab.Shell.Expansion
import PbesLab.Shell.Format
import PbesLab.Shell.Script
import PbesLab.Shell.Signal

namespace PbesLab.Shell

abbrev Builtin := Host → Program

namespace Builtin

/-- The number that an argument is; another text ends the shell. -/
def needNumber (text : String) : Run Nat :=
  match Numeral.ofDecimal? text with
  | some n => if 0 ≤ n ∧ n < 2147483648 then return n.toNat else give
  | none => give

/-- The number in the only argument, which may be left out. -/
def numberOr (default : Nat) : List String → Run Nat
  | [] => return default
  | a :: _ => needNumber a

def exit : Builtin := fun _ args => do
  throw (.exit ((← numberOr (← get).status args) % 256))

/-- Leaves a function, a file that is read, or the whole script. -/
def leave : Builtin := fun _ args => do
  throw (.leave (← numberOr (← get).status args))

/-- Leaves some loops; there may be fewer. -/
def leaveLoops (stop : Nat → Stop) : Builtin := fun _ args => do
  let n ← numberOr 1 args
  if n = 0 then give
  let p ← get
  if p.loops = 0 then return 0
  throw (stop (min n p.loops))

def exported : Builtin := fun _ args => do
  for a in args do
    let (x, value?) := match Script.setting? a with
      | some (x, v) => (x, some v)
      | none => (a, none)
    if !Script.isName x then give
    value?.forM fun v => assign x v
    modify fun p => (p.var? x).elim p fun v => p.setVariable { v with exported := true }
  return 0

def unset : Builtin := fun _ args => do
  if args.any (!Script.isName ·) then give
  modify fun p => { p with vars := p.vars.filter (!args.contains ·.name) }
  return 0

def shift : Builtin := fun _ args => do
  let n ← numberOr 1 args
  let p ← get
  if p.params.length < n then give
  set { p with params := p.params.drop n }
  return 0

def Options.set? (on : Bool) (o : Options) (letter : Char) : Option Options :=
  match letter with
  | 'e' => some { o with exitOnError := on }
  | 'u' => some { o with refuseUnset := on }
  | 'f' => some { o with noGlob := on }
  | 'x' | 'v' => some o
  | _ => none

/-- Reads settings from arguments and gives the other arguments, if there are some or dashes stand
in front of them. -/
def readOptions? (o : Options) : List String → Option (Options × Option (List String))
  | [] => some (o, none)
  | a :: as =>
    match a.toList with
    | ['-', '-'] => some (o, some as)
    | sign :: c :: cs =>
      if sign = '-' ∨ sign = '+' then do
        readOptions? (← (c :: cs).foldlM (Options.set? (sign == '-')) o) as
      else some (o, some (a :: as))
    | _ => some (o, some (a :: as))

def settings : Builtin := fun _ args => do
  match readOptions? (← get).options args with
  | some (options, rest) =>
    modify fun p => { p with options, params := rest.getD p.params }
    return 0
  | none => give

/-- A line of input up to its end, with the characters that a backslash protects, and whether there
was an end. -/
def inputLine (raw : Bool) : List UInt8 → List (UInt8 × Bool) × List UInt8 × Bool
  | [] => ([], [], false)
  | 10 :: rest => ([], rest, true)
  | 92 :: b :: rest =>
    if raw then
      let (line, rest, ended) := inputLine raw (b :: rest)
      ((92, false) :: line, rest, ended)
    else
      let (line, rest, ended) := inputLine raw rest
      (if b = 10 then line else (b, true) :: line, rest, ended)
  | b :: rest =>
    let (line, rest, ended) := inputLine raw rest
    ((b, false) :: line, rest, ended)

/-- Splits a line at blanks into so many values; the last takes what is left. -/
def splitLine (isBlank : UInt8 × Bool → Bool) :
    Nat → List (UInt8 × Bool) → List (List (UInt8 × Bool))
  | 0, _ => []
  | 1, cs => [((cs.dropWhile isBlank).reverse.dropWhile isBlank).reverse]
  | n + 2, cs =>
    let field := (cs.dropWhile isBlank).takeWhile (!isBlank ·)
    field :: splitLine isBlank (n + 1) ((cs.dropWhile isBlank).drop field.length)

def read : Builtin := fun _ args => do
  let raw := args.head? = some "-r"
  let names := if raw then args.tail else args
  if names.isEmpty ∨ names.any (!Script.isName ·) then return 2
  let p ← get
  let (line, rest, ended) := inputLine raw p.input
  set { p with input := rest }
  let isBlank (c : UInt8 × Bool) : Bool := !c.2 && p.separators.contains (Char.ofNat c.1.toNat)
  for (x, field) in names.zip (splitLine isBlank names.length line) do
    assign x (String.ofList (Text.decodeLossy (field.map Prod.fst)))
  return if ended then 0 else 1

def eval : Builtin := fun h args =>
  if args.isEmpty then return 0 else h.text (" ".intercalate args)

def source : Builtin := fun h args => do
  match args with
  | [] => return 0
  | name :: _ => do
    if !name.toList.contains '/' then give
    match ← readNamed? name with
    | none => give
    | some bytes =>
      tryCatch (h.text (String.ofList (Text.decodeLossy bytes))) fun
        | .leave code => return code
        | stop => throw stop

/-- Runs a command that is not a function. -/
def commanded : Builtin := fun h args =>
  match args with
  | name :: rest => h.program name rest
  | [] => return 0

def cd : Builtin := fun _ args => do
  let p ← get
  let target := Path.mk (args.headD "/root")
  match p.disk.locate target, p.disk.find target with
  | .ok l, .ok .directory =>
    set { p with disk := { p.disk with current := l } }
    return 0
  | _, _ => return 2

def pwd : Program := fun _ => do
  sayText ("/" ++ "/".intercalate (← get).disk.current ++ "\n")
  return 0

def send (number : Nat) (target : String) : Run Nat := do
  let p ← get
  match Numeral.ofDecimal? target with
  | none => return 2
  | some n =>
    let process := if n = 0 then p.number else n.toNat
    if process < firstNumber ∨ p.number < process then return 1
    match Signal.effect number with
    | .nothing => return 0
    | .halt => throw .timeout
    | .ending => throw (.signal process number)

def kill : Program := fun args => do
  let deliver (number? : Option Nat) (targets : List String) : Run Nat :=
    match number?, (if targets.head? = some "--" then targets.tail else targets) with
    | none, _ | _, [] => return 2
    | some number, targets => forAll targets (send number)
  match args with
  | "-s" :: name :: targets => deliver (Signal.ofText? name) targets
  | a :: targets =>
    match a.toList with
    | ['-', '-'] => deliver (some 15) targets
    | '-' :: name => deliver (Signal.ofText? (String.ofList name)) targets
    | _ => deliver (some 15) args
  | [] => return 2

def waiting : Program := fun _ => do
  let p ← get
  wait (p.background - p.clock)
  return 0

def special : List (String × Builtin) :=
  [(":", fun _ _ => return 0), (".", source), ("break", leaveLoops .breakLoops),
    ("continue", leaveLoops .nextRound), ("eval", eval), ("exit", exit), ("export", exported),
    ("return", leave), ("set", settings), ("shift", shift), ("unset", unset)]

def regular : List (String × Builtin) :=
  [("[", fun _ => bracket), ("test", fun _ => test), ("true", fun _ _ => return 0),
    ("false", fun _ _ => return 1), ("echo", fun _ => echo), ("printf", fun _ => printf),
    ("kill", fun _ => kill), ("read", read), ("cd", cd), ("pwd", fun _ => pwd),
    ("wait", fun _ => waiting), ("command", commanded)]

def isSpecial (name : String) : Bool :=
  name = "exec" || (special.lookup name).isSome

end Builtin

end PbesLab.Shell
