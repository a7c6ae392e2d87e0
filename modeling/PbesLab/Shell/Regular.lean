import PbesLab.Shell.Glob

namespace PbesLab.Shell

/-- A place between characters that is told by what stands around it. -/
inductive Edge
  | textStart
  | textEnd
  | wordStart
  | wordEnd
  | wordBorder
  /-- No word goes on from the left, or to the right. -/
  | freeBefore
  | freeAfter

inductive Regular
  | empty
  | char (c : Char)
  | any
  | set (negated : Bool) (members : List (Char × Char))
  | edge (e : Edge)
  | seq (first second : Regular)
  | alt (first second : Regular)
  | times (body : Regular) (least : Nat) (most : Option Nat)
  | group (number : Nat) (body : Regular)

namespace Regular

/-- A place in a text, and what groups have matched. -/
structure Place where
  before : Option Char := none
  rest : List Char
  position : Nat := 0
  groups : List (Nat × List Char) := []

def Place.step (p : Place) : Place :=
  match p.rest with
  | c :: cs => { p with before := some c, rest := cs, position := p.position + 1 }
  | [] => p

def Place.textTo (p q : Place) : List Char :=
  p.rest.take (q.position - p.position)

def isWordChar (c : Char) : Bool :=
  c.isAlphanum || c == '_'

def Edge.holds (e : Edge) (p : Place) : Bool :=
  let left := p.before.any isWordChar
  let right := p.rest.head?.any isWordChar
  match e with
  | .textStart => p.position == 0
  | .textEnd => p.rest.isEmpty
  | .wordStart => !left && right
  | .wordEnd => left && !right
  | .wordBorder => left != right
  | .freeBefore => !left
  | .freeAfter => !right

/-- What follows a match decides whether it is taken. -/
abbrev Next := Place → Option Place

def one (accepts : Char → Bool) (next : Next) (p : Place) : Option Place :=
  if p.rest.head?.any accepts then next p.step else none

/-- Repeats a match as often as possible; a repetition that matches nothing is not repeated. The
first argument bounds the repetitions. -/
def repeated (step : Next → Next) (next : Next) : Nat → Nat → Option Nat → Next
  | 0, least, _, p => if least = 0 then next p else none
  | fuel + 1, least, most, p =>
    if most = some 0 then next p
    else
      let fewer := most.map (· - 1)
      if 0 < least then step (repeated step next fuel (least - 1) fewer) p
      else
        (step (fun q => if q.position = p.position then none
          else repeated step next fuel 0 fewer q) p).or (next p)

def run : Regular → Next → Next
  | .empty, next => next
  | .char c, next => one (· == c) next
  | .any, next => one (fun _ => true) next
  | .set negated members, next =>
    one (fun c => (members.any fun r => r.1 ≤ c && c ≤ r.2) != negated) next
  | .edge e, next => fun p => if Edge.holds e p then next p else none
  | .seq a b, next => a.run (b.run next)
  | .alt a b, next => fun p => (a.run next p).or (b.run next p)
  | .times r least most, next => fun p =>
    repeated r.run next (p.rest.length + least + 1) least most p
  | .group n r, next => fun p =>
    r.run (fun q => next { q with groups := (n, p.textTo q) :: q.groups }) p

/-- Looks for a longer match than the one that is known. The first argument bounds the tries. -/
def longer (r : Regular) (p : Place) : Nat → Place → Place
  | 0, q => q
  | fuel + 1, q =>
    match r.run (fun t => if q.position < t.position then some t else none) p with
    | some t => longer r p fuel t
    | none => q

/-- The first match, and the longest one there: where it begins and where it ends. The first
argument bounds the places. -/
def searchFrom : Nat → Regular → Place → Option (Place × Place)
  | 0, _, _ => none
  | fuel + 1, r, p =>
    match r.run some p with
    | some q => some (p, longer r p p.rest.length q)
    | none => if p.rest.isEmpty then none else searchFrom fuel r p.step

def search? (r : Regular) (p : Place) : Option (Place × Place) :=
  searchFrom (p.rest.length + 1) r p

def occursIn (r : Regular) (text : List Char) : Bool :=
  (r.search? { rest := text }).isSome

def ofText (text : List Char) : Regular :=
  text.foldr (fun c r => .seq (.char c) r) .empty

/-- A set after its opening bracket. Backslashes and exclamation marks in it are like others. -/
def set? (cs : List Char) : Option (Regular × List Char) := do
  let (item, rest) ← Glob.set? (cs.map fun c => (c, c ∈ ['\\', '!']))
  match item with
  | .set negated members => return (.set negated members, rest.map Prod.fst)
  | _ => none

/-- What a character after a backslash stands for. -/
def escaped (c : Char) : Regular :=
  let word := [('a', 'z'), ('A', 'Z'), ('0', '9'), ('_', '_')]
  match c with
  | 'w' => .set false word
  | 'W' => .set true word
  | 's' => .set false (Glob.classOf "space".toList)
  | 'S' => .set true (Glob.classOf "space".toList)
  | 'b' => .edge .wordBorder
  | '<' => .edge .wordStart
  | '>' => .edge .wordEnd
  | 'n' => .char '\n'
  | 't' => .char '\t'
  | _ => .char c

def sign? (extended : Bool) (sign : Char) (cs : List Char) : Option (List Char) :=
  match extended, cs with
  | true, c :: rest => if c = sign then some rest else none
  | false, '\\' :: c :: rest => if c = sign then some rest else none
  | _, _ => none

def bounds? (extended : Bool) (cs : List Char) : Option (Nat × Option Nat × List Char) := do
  let low := cs.takeWhile Char.isDigit
  let number (cs : List Char) : Option Nat :=
    if cs.isEmpty then none else some (Nat.ofDigitChars 10 cs 0)
  let (high, rest) := match cs.drop low.length with
    | ',' :: rest => (number (rest.takeWhile Char.isDigit), rest.dropWhile Char.isDigit)
    | rest => (number low, rest)
  return (← number low, high, ← sign? extended '\x7d' rest)

def repetition? (extended : Bool) (cs : List Char) : Option (Nat × Option Nat × List Char) :=
  match cs, sign? extended '+' cs, sign? extended '?' cs, sign? extended '\x7b' cs with
  | '*' :: rest, _, _, _ => some (0, none, rest)
  | _, some rest, _, _ => some (1, none, rest)
  | _, _, some rest, _ => some (0, some 1, rest)
  | _, _, _, some rest => bounds? extended rest
  | _, _, _, none => none

/-- Repetitions after an item. The first argument bounds their number. -/
def repetitions (extended : Bool) : Nat → Regular → List Char → Regular × List Char
  | 0, r, cs => (r, cs)
  | fuel + 1, r, cs =>
    match repetition? extended cs with
    | some (least, most, rest) => repetitions extended fuel (.times r least most) rest
    | none => (r, cs)

abbrev Parsed := Option (Regular × Nat × List Char)

-- The arguments: a bound on the steps, the dialect, whether a group is open, how many have begun.
mutual

def choiceAt : Nat → Bool → Bool → Nat → List Char → Parsed
  | 0, _, _, _, _ => none
  | fuel + 1, extended, inner, groups, cs => do
    let (a, groups, rest) ← branchAt fuel extended inner groups true cs
    match sign? extended '|' rest with
    | some rest =>
      let (b, groups, rest) ← choiceAt fuel extended inner groups rest
      return (.alt a b, groups, rest)
    | none => return (a, groups, rest)

/-- Items one after the other. A flag tells that the first stands at the beginning, where a basic
expression has a star that repeats nothing. -/
def branchAt : Nat → Bool → Bool → Nat → Bool → List Char → Parsed
  | 0, _, _, _, _, _ => none
  | fuel + 1, extended, inner, groups, first, cs =>
    if cs.isEmpty ∨ (sign? extended '|' cs).isSome ∨ inner ∧ (sign? extended ')' cs).isSome then
      some (.empty, groups, cs)
    else do
      let (a, groups, rest) ← itemAt fuel extended inner groups first cs
      let stillFirst := first && cs.head? = some '^'
      let (a, rest) :=
        if stillFirst ∧ !extended then (a, rest) else repetitions extended rest.length a rest
      let (b, groups, rest) ← branchAt fuel extended inner groups stillFirst rest
      return (.seq a b, groups, rest)

def itemAt : Nat → Bool → Bool → Nat → Bool → List Char → Parsed
  | 0, _, _, _, _, _ => none
  | fuel + 1, extended, inner, groups, first, cs =>
    match sign? extended '(' cs with
    | some rest => do
      let number := groups + 1
      let (r, groups, rest) ← choiceAt fuel extended true number rest
      return (.group number r, groups, ← sign? extended ')' rest)
    | none =>
      match cs with
      | [] | ['\\'] => none
      | '.' :: rest => some (.any, groups, rest)
      | '[' :: rest => (set? rest).map fun (r, rest) => (r, groups, rest)
      | '^' :: rest =>
        some (if extended ∨ first then .edge .textStart else .char '^', groups, rest)
      | '$' :: rest =>
        let last := rest.isEmpty || (sign? extended '|' rest).isSome ||
          (inner && (sign? extended ')' rest).isSome)
        some (if extended ∨ last then .edge .textEnd else .char '$', groups, rest)
      | '\\' :: c :: rest => some (escaped c, groups, rest)
      | c :: rest => some (.char c, groups, rest)

end

def ofPattern? (extended : Bool) (pattern : List Char) : Option Regular := do
  let (r, _, rest) ← choiceAt (6 * pattern.length + 6) extended false 0 pattern
  if rest.isEmpty then return r else none

def foldCase : Regular → Regular
  | .char c => .set false [(c.toLower, c.toLower), (c.toUpper, c.toUpper)]
  | .set negated members => .set negated (members.flatMap fun (a, b) =>
      [(a, b), (a.toLower, b.toLower), (a.toUpper, b.toUpper)])
  | .seq a b => .seq a.foldCase b.foldCase
  | .alt a b => .alt a.foldCase b.foldCase
  | .times r least most => .times r.foldCase least most
  | .group n r => .group n r.foldCase
  | r => r

end Regular

end PbesLab.Shell
