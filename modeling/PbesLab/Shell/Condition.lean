import PbesLab.Shell.Numeral
import PbesLab.Shell.Process

namespace PbesLab.Shell

namespace Condition

def unaryNames : List String :=
  ["-r", "-w", "-x", "-e", "-f", "-d", "-s", "-z", "-n", "-h", "-L"]

def binaryNames : List String :=
  ["=", "!=", "-eq", "-ne", "-ge", "-gt", "-le", "-lt"]

def holdsFor (d : Disk) (op name : String) : Bool :=
  let entry := (d.find ⟨name⟩).toOption
  match op with
  | "-z" => name == ""
  | "-n" => name != ""
  | "-e" | "-r" | "-w" => entry.isSome
  | "-f" => match entry with | some (.file ..) => true | _ => false
  | "-d" => match entry with | some .directory => true | _ => false
  | "-x" => match entry with | some (.file _ x) => x | some .directory => true | _ => false
  | "-s" => match entry with
    | some (.file content _) => content.size != 0
    | some .directory => true
    | _ => false
  | _ => false

/-- The value of a comparison, unless it needs numbers and there are none. -/
def compare? (op a b : String) : Option Bool :=
  match op with
  | "=" => some (a == b)
  | "!=" => some (a != b)
  | _ => do
    let m ← Numeral.ofDecimal? a
    let n ← Numeral.ofDecimal? b
    match op with
    | "-eq" => return m == n
    | "-ne" => return m != n
    | "-ge" => return m ≥ n
    | "-gt" => return m > n
    | "-le" => return m ≤ n
    | _ => return m < n

abbrev Parsed := Option (Bool × List String)

-- The first argument of all of these bounds the number of steps.
mutual

def anyOf (d : Disk) : Nat → List String → Parsed
  | 0, _ => none
  | fuel + 1, args => do
    let (a, rest) ← allOf d fuel args
    match rest with
    | "-o" :: rest => do
      let (b, rest) ← anyOf d fuel rest
      return (a || b, rest)
    | _ => return (a, rest)

def allOf (d : Disk) : Nat → List String → Parsed
  | 0, _ => none
  | fuel + 1, args => do
    let (a, rest) ← oneOf d fuel args
    match rest with
    | "-a" :: rest => do
      let (b, rest) ← allOf d fuel rest
      return (a && b, rest)
    | _ => return (a, rest)

/-- A single condition. What could be a comparison is one. -/
def oneOf (d : Disk) : Nat → List String → Parsed
  | 0, _ => none
  | fuel + 1, args =>
    match args with
    | [] => some (false, [])
    | [a] => some (a != "", [])
    | a :: b :: rest =>
      match binaryNames.contains b, rest with
      | true, c :: rest => (compare? b a c).map fun value => (value, rest)
      | _, _ =>
        if a = "!" then do
          let (value, rest) ← oneOf d fuel (b :: rest)
          return (!value, rest)
        else if a = "(" then do
          let (value, rest) ← anyOf d fuel (b :: rest)
          if rest.head? = some ")" then return (value, rest.tail) else none
        else if unaryNames.contains a then some (holdsFor d a b, rest)
        else some (a != "", b :: rest)

end

def value? (d : Disk) (args : List String) : Option Bool := do
  let (value, rest) ← anyOf d (4 * args.length + 4) args
  if rest.isEmpty then return value else none

end Condition

def test (args : List String) : Run Nat := do
  match Condition.value? (← get).disk args with
  | some true => return 0
  | some false => return 1
  | none => return 2

def bracket (args : List String) : Run Nat :=
  if args.getLast? = some "]" then test args.dropLast else return 2

end PbesLab.Shell
