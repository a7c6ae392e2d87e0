import PbesLab.Grammar.Attempt

namespace PbesLab.Grammar

structure Report where
  line : Nat
  column : Nat
  /-- The text of the line, with line ends taken out or made visible. -/
  shown : String
  /-- White space up to the column. -/
  indent : String
  message : String
deriving DecidableEq

namespace Report

/-- Line and column after some text. A lone carriage return does not end a line. -/
def advance : Nat → Nat → List Char → Nat × Nat
  | l, c, [] => (l, c)
  | l, _, '\n' :: cs => advance (l + 1) 1 cs
  | l, _, '\r' :: '\n' :: cs => advance (l + 1) 1 cs
  | l, c, _ :: cs => advance l (c + 1) cs

def lineAround (before after : List Char) : List Char :=
  let head := (before.reverse.takeWhile (· ≠ '\n')).reverse
  let tail := after.takeWhile (· ≠ '\n')
  head ++ tail ++ if tail.length < after.length then ['\n'] else []

/-- A place at a line end shows its line ends as pictures; any other line shows none. -/
def showLine (line after : List Char) : List Char :=
  match after.head? with
  | some '\n' | some '\r' =>
    line.map fun c => if c = '\r' then '\u240d' else if c = '\n' then '\u240a' else c
  | _ => line.filter fun c => c ≠ '\r' ∧ c ≠ '\n'

/-- `a`, `a or b`, `a, b, or c`. -/
def alternatives : List String → String
  | [] => ""
  | [a] => a
  | [a, b] => a ++ " or " ++ b
  | names => String.intercalate ", " names.dropLast ++ ", or " ++ names.getLastD ""

def expectation (names : List String) : String :=
  if names.isEmpty then "unknown parsing error" else "expected " ++ alternatives names

def text (r : Report) : String :=
  let number := toString r.line
  let margin := String.ofList (List.replicate number.length ' ')
  margin ++ "--> " ++ number ++ ":" ++ toString r.column ++ "\n" ++
    margin ++ " |\n" ++
    number ++ " | " ++ r.shown ++ "\n" ++
    margin ++ " | " ++ r.indent ++ "^---\n" ++
    margin ++ " |\n" ++
    margin ++ " = " ++ r.message

end Report

variable {ρ : Type}

def expectedNames (g : Rules ρ) (rules : List ρ) : List String :=
  ((rules.mergeSort fun a b => g.rank a ≤ g.rank b).map g.name).eraseDups

def report (g : Rules ρ) (r : ρ) (cs : List Char) : Report :=
  let found := attempts g r cs
  let before := cs.take (cs.length - found.remaining)
  let after := cs.drop (cs.length - found.remaining)
  let (line, column) := Report.advance 1 1 before
  let shown := Report.showLine (Report.lineAround before after) after
  { line, column
    shown := String.ofList shown
    indent := String.ofList
      ((shown.take (column - 1)).map fun c => if c = '\t' then '\t' else ' ')
    message := Report.expectation (expectedNames g found.rules) }

end PbesLab.Grammar
