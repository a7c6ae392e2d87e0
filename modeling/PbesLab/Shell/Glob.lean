import PbesLab.Disk.Basic
import PbesLab.Text.Order

namespace PbesLab.Shell

/-- A character of a word, and whether it was quoted. -/
abbrev Mark := Char × Bool

inductive GlobItem
  | char (c : Char)
  | any
  | star
  | set (negated : Bool) (members : List (Char × Char))

namespace Glob

def classRanges : List (String × List (Char × Char)) :=
  [("alpha", [('a', 'z'), ('A', 'Z')]), ("digit", [('0', '9')]), ("lower", [('a', 'z')]),
    ("alnum", [('a', 'z'), ('A', 'Z'), ('0', '9')]), ("upper", [('A', 'Z')]),
    ("space", [('\t', '\x0d'), (' ', ' ')]), ("blank", [('\t', '\t'), (' ', ' ')]),
    ("punct", [('!', '/'), (':', '@'), ('[', '\x60'), ('\x7b', '~')]), ("print", [(' ', '~')]),
    ("graph", [('!', '~')]), ("cntrl", [('\x00', '\x1f'), ('\x7f', '\x7f')]),
    ("xdigit", [('0', '9'), ('a', 'f'), ('A', 'F')])]

def classOf (name : List Char) : List (Char × Char) :=
  (classRanges.lookup (String.ofList name)).getD []

/-- The members of a set up to its closing bracket. The first argument bounds the characters. -/
def members? : Nat → List (Char × Char) → List Mark → Option (List (Char × Char) × List Mark)
  | 0, _, _ | _, _, [] => none
  | n + 1, found, (c, quoted) :: cs =>
    if c = ']' ∧ !quoted ∧ !found.isEmpty then some (found, cs)
    else
      match c, quoted, cs with
      | '[', false, (':', false) :: rest =>
        let name := (rest.takeWhile (·.1 ≠ ':')).map Prod.fst
        members? n (found ++ classOf name) (rest.drop (name.length + 2))
      | _, _, ('-', false) :: (d, quotedEnd) :: rest =>
        if d = ']' ∧ !quotedEnd then members? n (found ++ [(c, c)]) cs
        else members? n (found ++ [(c, d)]) rest
      | _, _, _ => members? n (found ++ [(c, c)]) cs

def set? (cs : List Mark) : Option (GlobItem × List Mark) :=
  let negated := match cs with
    | ('!', false) :: _ | ('^', false) :: _ => true
    | _ => false
  let inner := if negated then cs.tail else cs
  (members? (inner.length + 1) [] inner).map fun (found, rest) => (.set negated found, rest)

/-- The items of a pattern. The first argument bounds the characters. -/
def itemsOf : Nat → List Mark → List GlobItem
  | 0, _ | _, [] => []
  | n + 1, (c, quoted) :: cs =>
    if quoted then .char c :: itemsOf n cs
    else if c = '*' then .star :: itemsOf n cs
    else if c = '?' then .any :: itemsOf n cs
    else if c = '[' then
      match set? cs with
      | some (item, rest) => item :: itemsOf n rest
      | none => .char c :: itemsOf n cs
    else .char c :: itemsOf n cs

def items (cs : List Mark) : List GlobItem :=
  itemsOf cs.length cs

def accepts : GlobItem → Char → Bool
  | .char a, c => a == c
  | .any, _ | .star, _ => true
  | .set negated members, c => (members.any fun r => r.1 ≤ c && c ≤ r.2) != negated

/-- Any characters, then a continuation. -/
def starMatch (next : List Char → Bool) : List Char → Bool
  | [] => next []
  | c :: cs => next (c :: cs) || starMatch next cs

def matchItems : List GlobItem → List Char → Bool
  | [], cs => cs.isEmpty
  | .star :: items, cs => starMatch (matchItems items) cs
  | item :: items, c :: cs => accepts item c && matchItems items cs
  | _ :: _, [] => false

def isWild (cs : List Mark) : Bool :=
  (items cs).any fun | .char _ => false | _ => true

/-- Which end of a value is cut off, and whether the longest part that fits. -/
structure Cut where
  atEnd : Bool
  longest : Bool

def cut (how : Cut) (pattern : List Mark) (value : List Char) : List Char :=
  let fits := matchItems (items pattern)
  let places := List.range (value.length + 1)
  let places := if how.atEnd == how.longest then places else places.reverse
  if how.atEnd then
    match places.find? fun i => fits (value.drop i) with
    | some i => value.take i
    | none => value
  else
    match places.find? fun i => fits (value.take i) with
    | some i => value.drop i
    | none => value

def splitSteps : List Mark → List (List Mark)
  | [] => [[]]
  | m :: ms =>
    if m.1 = '/' then [] :: splitSteps ms
    else match splitSteps ms with
      | [] => [[m]]
      | s :: ss => (m :: s) :: ss

def textOf (cs : List Mark) : String :=
  String.ofList (cs.map Prod.fst)

/-- A name that starts with a full stop is found only by a pattern that does. -/
def fitsName (pattern : List Mark) (name : String) : Bool :=
  (name.toList.head? != some '.' || (pattern.head?.map Prod.fst) == some '.') &&
    matchItems (items pattern) name.toList

def namesIn (d : Disk) (path : String) : List String :=
  match d.locate ⟨if path = "" then "." else path⟩ with
  | .ok l => Text.sortedSet (d.names l)
  | .error _ => []

/-- Goes on from some paths by a step. -/
def extend (d : Disk) (step : List Mark) (last : Bool) (paths : List String) : List String :=
  let slash := if last then "" else "/"
  paths.flatMap fun path =>
    if isWild step then
      ((namesIn d path).filter (fitsName step)).map fun name => path ++ name ++ slash
    else [path ++ textOf step ++ slash]

def paths (d : Disk) (pattern : List Mark) : List String :=
  let steps := splitSteps pattern
  let before := steps.dropLast.foldl (fun found step => extend d step false found) [""]
  (extend d (steps.getLastD []) true before).filter fun path => (d.find ⟨path⟩).isOk

end Glob

end PbesLab.Shell
