import PbesLab.CommandLine.ValuePattern.Escape

namespace PbesLab.CommandLine.ValuePattern

/-- Parts side by side count as one more level, unless there is just one. -/
def joinedDepth : List Nat → Nat
  | [] => 0
  | [d] => d
  | ds => ds.foldl max 0 + 1

/-- A set that is open: the depth of what stands before the last operator, and the depths of what
follows it. -/
structure OpenSet where
  left : Option Nat
  items : List Nat

namespace OpenSet

def empty : OpenSet :=
  ⟨none, []⟩

def add (o : OpenSet) (depth : Nat) : OpenSet :=
  { o with items := depth :: o.items }

def depth (o : OpenSet) : Nat :=
  match o.left with
  | some left => max left (joinedDepth o.items) + 1
  | none => joinedDepth o.items

end OpenSet

def isOperator (a b : Char) : Bool :=
  a == b && (a == '&' || a == '-' || a == '~')

def classNames : List String :=
  ["alnum", "alpha", "ascii", "blank", "cntrl", "digit", "graph", "lower", "print", "punct",
    "space", "upper", "word", "xdigit"]

/-- A class by its name, from the colon on: whether the others are meant, and the rest. -/
def namedClass? (cs : List Char) : Option (Bool × List Char) :=
  let read (others : Bool) (cs : List Char) : Option (Bool × List Char) :=
    let name := cs.takeWhile (· ≠ ':')
    match cs.drop name.length with
    | ':' :: ']' :: rest => if String.ofList name ∈ classNames then some (others, rest) else none
    | _ => none
  match cs with
  | ':' :: '^' :: rest => read true rest
  | ':' :: rest => read false rest
  | _ => none

/-- Whether members of a set can be dealt with. Ignoring case needs a table that is not at hand, and
the others of a set of bytes would break characters apart. -/
def allowsItem (s : Settings) (others : Bool) : Bool :=
  if s.unicode then !s.foldsCase else !others

def allowsChar (s : Settings) (c : Char) : Bool :=
  s.unicode || c.toNat < 128

def setAtom? (s : Settings) : List Char → Option (Atom × List Char)
  | '\\' :: rest => escape? s rest
  | c :: rest => some (.char c false, rest)
  | [] => none

/-- The rest after an item or a range. A dash before the end or another dash makes no range. -/
def afterItem? (s : Settings) (cs : List Char) : Option (List Char) := do
  let (first, rest) ← setAtom? s cs
  let rest := s.skip rest
  let isRange : Bool := match rest with
    | '-' :: more => s.lookAhead more ≠ some ']' && s.lookAhead more ≠ some '-'
    | _ => false
  if isRange then
    let (last, rest) ← setAtom? s (s.skip rest.tail)
    match first, last with
    | .char a _, .char b _ =>
      if a ≤ b ∧ allowsChar s a ∧ allowsChar s b then return rest else none
    | _, _ => none
  else
    match first with
    | .char c _ => if allowsChar s c then return rest else none
    | .members => return rest
    | _ => none

/-- The beginning of a set, after the bracket. The others of a set of bytes cannot be dealt with. -/
def setStart? (s : Settings) (cs : List Char) : Option (List Char) :=
  match s.skip cs with
  | '^' :: rest => if s.unicode then some rest else none
  | rest => some rest

/-- Reads a set to its end, inside of others that are open: its depth, and the rest. At its start
dashes are members, and so is a bracket that would close it. The first argument bounds the items. -/
def readSet? (s : Settings) : Nat → Bool → OpenSet → List OpenSet → List Char →
    Option (Nat × List Char)
  | 0, _, _, _, _ => none
  | n + 1, isStart, set, outer, cs => do
    match s.skip cs with
    | [] => none
    | c :: rest =>
      if isStart ∧ (c = '-' ∨ c = ']' ∧ set.items.isEmpty) then
        if allowsItem s false then readSet? s n (c = '-') (set.add 0) outer rest else none
      else if c = '[' then
        match namedClass? rest with
        | some (others, rest) =>
          if allowsItem s others then readSet? s n false (set.add 0) outer rest else none
        | none => readSet? s n true .empty (set :: outer) (← setStart? s rest)
      else if c = ']' then
        let depth := set.depth + 1
        match outer with
        | [] => return (depth, rest)
        | before :: outer => readSet? s n false (before.add depth) outer rest
      else if rest.head?.any (isOperator c) then
        readSet? s n false ⟨some set.depth, []⟩ outer rest.tail
      else
        let rest ← afterItem? s (c :: rest)
        if allowsItem s false then readSet? s n false (set.add 0) outer rest else none

def characterSet? (s : Settings) (cs : List Char) : Option (Nat × List Char) := do
  readSet? s (cs.length + 1) true .empty [] (← setStart? s cs)

end PbesLab.CommandLine.ValuePattern
