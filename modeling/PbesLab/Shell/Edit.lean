import PbesLab.Shell.Arguments
import PbesLab.Shell.Regular

namespace PbesLab.Shell

namespace Edit

inductive Address
  | line (number : Nat)
  | last
  | fits (r : Regular)

inductive Piece
  | char (c : Char)
  /-- What a group has matched; number 0 is the whole match. -/
  | group (number : Nat)

inductive Action
  | delete
  | print
  | quit
  | number
  /-- Puts pieces in the place of a match, and perhaps of those after it. -/
  | substitute (r : Regular) (pieces : List Piece) (first : Nat) (all shown : Bool)
  | translate (table : List (Char × Char))
  /-- A text after, before or in the place of a line, as the letter says. -/
  | insert (letter : Char) (text : List Char)

structure Command where
  first : Option Address
  second : Option Address
  negated : Bool
  action : Action

/-- The text up to a mark, and the rest after it. A mark with a backslash is part of the text. -/
def upTo? (mark : Char) : List Char → Option (List Char × List Char)
  | [] => none
  | '\\' :: c :: cs => (upTo? mark cs).map fun (text, rest) =>
    (if c = mark then c :: text else '\\' :: c :: text, rest)
  | c :: cs => if c = mark then some ([], cs)
    else (upTo? mark cs).map fun (text, rest) => (c :: text, rest)

def pieces : List Char → List Piece
  | '\\' :: 'n' :: cs => .char '\n' :: pieces cs
  | '\\' :: 't' :: cs => .char '\t' :: pieces cs
  | '\\' :: c :: cs =>
    (if c.isDigit then .group (c.toNat - '0'.toNat) else .char c) :: pieces cs
  | '&' :: cs => .group 0 :: pieces cs
  | c :: cs => .char c :: pieces cs
  | [] => []

def isGap (c : Char) : Bool :=
  c ∈ [' ', '\t', '\n', ';']

def skipSpace (cs : List Char) : List Char :=
  cs.dropWhile fun c => c = ' ' || c = '\t'

def address? (extended : Bool) (cs : List Char) : Option (Option Address × List Char) :=
  match cs with
  | '$' :: rest => some (some .last, rest)
  | '/' :: rest => do
    let (pattern, rest) ← upTo? '/' rest
    return (some (.fits (← Regular.ofPattern? extended pattern)), rest)
  | _ =>
    let digits := cs.takeWhile Char.isDigit
    some (if digits.isEmpty then none else some (.line (Nat.ofDigitChars 10 digits 0)),
      cs.drop digits.length)

def action? (extended : Bool) (cs : List Char) : Option (Action × List Char) :=
  match cs with
  | 'd' :: rest => some (.delete, rest)
  | 'p' :: rest => some (.print, rest)
  | 'q' :: rest => some (.quit, rest)
  | '=' :: rest => some (.number, rest)
  | 's' :: mark :: rest => do
    let (pattern, rest) ← upTo? mark rest
    let (replacement, rest) ← upTo? mark rest
    let flags := rest.takeWhile fun c => c.isDigit || c ∈ ['g', 'p', 'i', 'I']
    let digits := flags.filter Char.isDigit
    let r ← Regular.ofPattern? extended pattern
    let r := if flags.any (· ∈ ['i', 'I']) then r.foldCase else r
    let first := if digits.isEmpty then 1 else Nat.ofDigitChars 10 digits 0
    return (.substitute r (pieces replacement) first (flags.contains 'g') (flags.contains 'p'),
      rest.drop flags.length)
  | 'y' :: mark :: rest => do
    let (old, rest) ← upTo? mark rest
    let (new, rest) ← upTo? mark rest
    if old.length = new.length then return (.translate (old.zip new), rest) else none
  | letter :: rest =>
    if letter ∈ ['a', 'i', 'c'] then
      let line := rest.takeWhile (· ≠ '\n')
      let text := match skipSpace line with
        | '\\' :: text => skipSpace text
        | text => text
      some (.insert letter text, rest.drop line.length)
    else none
  | [] => none

def commands? (extended : Bool) : Nat → List Char → Option (List Command)
  | 0, _ => none
  | fuel + 1, cs => do
    let cs := cs.dropWhile isGap
    if cs.isEmpty then return []
    let (first, rest) ← address? extended cs
    let (second, rest) ← match rest with
      | ',' :: rest => address? extended rest
      | _ => some (none, rest)
    let (negated, rest) := match skipSpace rest with
      | '!' :: rest => (true, skipSpace rest)
      | rest => (false, rest)
    let (action, rest) ← action? extended rest
    if !(skipSpace rest).head?.all isGap then none
    return ⟨first, second, negated, action⟩ :: (← commands? extended fuel rest)

def filled (start stop : Regular.Place) (ps : List Piece) : List Char :=
  ps.flatMap fun
    | .char c => [c]
    | .group 0 => start.textTo stop
    | .group n => (stop.groups.lookup n).getD []

/-- Puts pieces in the place of matches, from the one with a given number on. The second argument
bounds the matches. -/
def replaced (r : Regular) (ps : List Piece) (all : Bool) :
    Nat → Nat → Regular.Place → List Char × Bool
  | _, 0, p => (p.rest, false)
  | count, fuel + 1, p =>
    match r.search? p with
    | none => (p.rest, false)
    | some (start, stop) =>
      let old := start.textTo stop
      let new := if count ≤ 1 then filled start stop ps else old
      -- an empty match is followed by a character that is kept
      let (kept, next) := if old.isEmpty then (stop.rest.take 1, stop.step) else ([], stop)
      let before := p.textTo start ++ new ++ kept
      if count ≤ 1 ∧ !all ∨ old.isEmpty ∧ kept.isEmpty then (before ++ next.rest, count ≤ 1)
      else
        let (more, changed) := replaced r ps all (count - 1) fuel { next with groups := [] }
        (before ++ more, changed || count ≤ 1)

/-- A line that is edited, what is written before and after it, and which ranges are open. -/
structure State where
  number : Nat
  isLast : Bool
  space : List Char
  shown : List (List Char) := []
  appended : List (List Char) := []
  silent : Bool
  /-- No more commands are run on the line. -/
  done : Bool := false
  /-- No more lines are read. -/
  quit : Bool := false
  ranges : List Nat

namespace State

def fits (s : State) : Address → Bool
  | .line n => n == s.number
  | .last => s.isLast
  | .fits r => r.occursIn s.space

/-- Whether a command is meant for a line, and which ranges are open then. -/
def selects (s : State) (index : Nat) (c : Command) : Bool × List Nat :=
  match c.first, c.second with
  | none, _ => (true, s.ranges)
  | some a, none => (s.fits a, s.ranges)
  | some a, some b =>
    if s.ranges.contains index then (true, if s.fits b then s.ranges.erase index else s.ranges)
    else if !s.fits a then (false, s.ranges)
    else
      let closed := match b with
        | .line n => decide (n ≤ s.number)
        | .last => s.isLast
        | .fits _ => false
      (true, if closed then s.ranges else index :: s.ranges)

def apply (s : State) : Action → State
  | .delete => { s with done := true, silent := true }
  | .print => { s with shown := s.shown ++ [s.space] }
  | .quit => { s with done := true, quit := true }
  | .number => { s with shown := s.shown ++ [(toString s.number).toList] }
  | .substitute r ps first all shown =>
    let (space, changed) := replaced r ps all first (s.space.length + 1) { rest := s.space }
    { s with space, shown := if changed && shown then s.shown ++ [space] else s.shown }
  | .translate table => { s with space := s.space.map fun c => (table.lookup c).getD c }
  | .insert 'a' text => { s with appended := s.appended ++ [text] }
  | .insert 'i' text => { s with shown := s.shown ++ [text] }
  | .insert _ text => { s with shown := s.shown ++ [text], done := true, silent := true }

def step (s : State) (c : Command × Nat) : State :=
  if s.done then s
  else
    let (selected, ranges) := s.selects c.2 c.1
    let s := { s with ranges }
    if selected != c.1.negated then s.apply c.1.action else s

end State

def edited (commands : List Command) (silent ended : Bool) :
    Nat → List Nat → List (List UInt8) → List UInt8
  | _, _, [] => []
  | number, ranges, line :: lines =>
    let s := commands.zipIdx.foldl State.step
      { number, isLast := lines.isEmpty, space := charsOf line, silent, ranges }
    let shown := s.shown ++ (if s.silent then [] else [s.space]) ++ s.appended
    let bytes := joinLines (shown.map bytesFrom) (ended || !lines.isEmpty)
    if s.quit then bytes else bytes ++ edited commands silent ended (number + 1) s.ranges lines

def editedBytes (commands : List Command) (silent : Bool) (bytes : List UInt8) : List UInt8 :=
  edited commands silent (endsInLine bytes) 1 [] (byteLines bytes)

def run (a : Arguments) : Run Nat := do
  let (texts, names) := match a.values 'e', a.operands with
    | [], x :: names => ([x], names)
    | texts, names => (texts, names)
  let script := charsOf (bytesOf ("\n".intercalate texts))
  match commands? (a.has 'E' || a.has 'r') (script.length + 1) script with
  | none => return 1
  | some commands =>
    if a.has 'i' then
      forFiles 2 names fun name bytes => do
        let _ ← change (·.write ⟨name⟩ (editedBytes commands (a.has 'n') bytes).toByteArray)
    else
      let contents ← (if names.isEmpty then ["-"] else names).mapM fetch?
      say (editedBytes commands (a.has 'n') (contents.filterMap id).flatten)
      return if contents.any Option.isNone then 2 else 0

end Edit

def sed : Program :=
  program "Einrs" "e" 1 Edit.run

end PbesLab.Shell
