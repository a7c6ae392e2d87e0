import PbesLab.Shell.Numeral

namespace PbesLab.Shell.Signal

def names : List String :=
  ["HUP", "INT", "QUIT", "ILL", "TRAP", "ABRT", "BUS", "FPE", "KILL", "USR1", "SEGV", "USR2",
    "PIPE", "ALRM", "TERM", "STKFLT", "CHLD", "CONT", "STOP", "TSTP", "TTIN", "TTOU", "URG", "XCPU",
    "XFSZ", "VTALRM", "PROF", "WINCH", "IO", "PWR", "SYS"]

def name? (number : Nat) : Option String :=
  if number = 0 then none else names[number - 1]?

/-- The first signal without a meaning of its own, and the last. -/
def firstFree : Nat := 34

def last : Nat := 64

/-- The name by which a shell knows a signal; one has none but its number. -/
def shellName (number : Nat) : String :=
  if number = 0 then "EXIT"
  else if number = firstFree then "RTMIN"
  else if number = last then "RTMAX"
  else if firstFree < number ∧ number ≤ 49 then "RTMIN+" ++ toString (number - firstFree)
  else if 49 < number ∧ number < last then "RTMAX-" ++ toString (last - number)
  else match name? number with
    | some "STKFLT" => "16"
    | some name => name
    | none => toString number

/-- The number that a number or a name in either case tells. -/
def ofText? (text : String) : Option Nat :=
  match Numeral.decimal? text with
  | some n => if n ≤ last then some n else none
  | none =>
    let name := text.map Char.toUpper
    if name = "EXIT" then none else (List.range (last + 1)).find? fun n => shellName n == name

/-- What a signal does to a process that does not expect it. -/
inductive Effect
  | nothing
  | ending
  | halt

def effect (number : Nat) : Effect :=
  if number ∈ [0, 17, 18, 23, 28] then .nothing
  else if number ∈ [19, 20, 21, 22] then .halt
  else .ending

end PbesLab.Shell.Signal
