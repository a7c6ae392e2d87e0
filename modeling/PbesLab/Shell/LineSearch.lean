import PbesLab.Shell.Arguments
import PbesLab.Shell.Numeral
import PbesLab.Shell.Regular

namespace PbesLab.Shell

namespace LineSearch

def fitted (a : Arguments) (r : Regular) : Regular :=
  let r := if a.has 'i' then r.foldCase else r
  if a.has 'x' then .seq (.edge .textStart) (.seq r (.edge .textEnd))
  else if a.has 'w' then .seq (.edge .freeBefore) (.seq r (.edge .freeAfter))
  else r

def pattern? (a : Arguments) (patterns : List String) : Option Regular := do
  let rs ← (patterns.flatMap (·.splitOn "\n")).mapM fun line =>
    let cs := charsOf (bytesOf line)
    if a.has 'F' then some (Regular.ofText cs) else Regular.ofPattern? (a.has 'E') cs
  match rs with
  | [] => none
  | r :: rs => return fitted a (rs.foldl .alt r)

/-- All matches in a line that are not empty. The first argument bounds their number. -/
def matchesIn (r : Regular) : Nat → Regular.Place → List (List Char)
  | 0, _ => []
  | fuel + 1, p =>
    match r.search? p with
    | none => []
    | some (a, b) =>
      if a.position = b.position then if b.rest.isEmpty then [] else matchesIn r fuel b.step
      else a.textTo b :: matchesIn r fuel { b with groups := [] }

/-- Shows what is found in a file, and tells whether there is something. -/
def inFile (a : Arguments) (r : Regular) (tagged : Bool) (name : String) (content : List UInt8) :
    Run Bool := do
  let numbered := (byteLines content).zipIdx 1
  let fits := numbered.filter fun (line, _) => r.occursIn (charsOf line) != a.has 'v'
  let fits := ((a.value? 'm').bind Numeral.decimal?).elim fits fits.take
  let tag := if tagged then name ++ ":" else ""
  if a.has 'q' then return !fits.isEmpty
  if a.has 'l' then
    if !fits.isEmpty then sayText (name ++ "\n")
  else if a.has 'c' then sayText (tag ++ toString fits.length ++ "\n")
  else
    for (line, number) in fits do
      let tag := bytesOf (tag ++ if a.has 'n' then toString number ++ ":" else "")
      let shown := if !a.has 'o' then [line] else if a.has 'v' then []
        else (matchesIn r (line.length + 1) { rest := charsOf line }).map bytesFrom
      say (shown.flatMap fun bytes => tag ++ bytes ++ [10])
  return !fits.isEmpty

/-- The status is 0 if something was found and 2 if something could not be read. -/
def run (a : Arguments) : Run Nat := do
  let (patterns, names) := match a.values 'e', a.operands with
    | [], x :: names => ([x], names)
    | patterns, names => (patterns, names)
  match pattern? a patterns with
  | none => return 2
  | some r =>
    let mut found := false
    let mut broken := false
    for name in (if names.isEmpty then ["-"] else names) do
      match ← fetch? name with
      | none => broken := true
      | some content =>
        if ← inFile a r (1 < names.length && !a.has 'h' || a.has 'H')
            (if name = "-" then "(standard input)" else name) content then found := true
    return if broken && !(found && a.has 'q') then 2 else if found then 0 else 1

end LineSearch

def grep : Program :=
  program "cEFGHhilnoqsvwx" "em" 2 LineSearch.run

end PbesLab.Shell
