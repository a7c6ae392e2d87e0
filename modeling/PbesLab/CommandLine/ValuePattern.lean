import PbesLab.CommandLine.ValuePattern.CharacterSet
import PbesLab.Text.LetterTable

namespace PbesLab.CommandLine.ValuePattern

def splitDigits (cs : List Char) : List Char × List Char :=
  (cs.takeWhile Char.isDigit, cs.dropWhile Char.isDigit)

def isExponent (cs : List Char) : Bool :=
  match cs with
  | [] => true
  | e :: cs =>
    let cs := match cs with
      | '+' :: cs | '-' :: cs => cs
      | cs => cs
    (e = 'e' || e = 'E') && !cs.isEmpty && cs.all Char.isDigit

/-- A decimal number, with a point or an exponent, or a word for a number. Only with a plus sign in
front it would be no pattern. -/
def isUnsigned (cs : List Char) : Bool :=
  let word := String.ofList (cs.map Char.toLower)
  if word ∈ ["inf", "infinity", "nan"] then true
  else
    let (whole, rest) := splitDigits cs
    let (fraction, rest) := match rest with
      | '.' :: rest => splitDigits rest
      | rest => ([], rest)
    !(whole ++ fraction).isEmpty && isExponent rest

def isPlusNumber (cs : List Char) : Bool :=
  match cs with
  | '+' :: cs => isUnsigned cs
  | _ => false

/-- What is known of a part of a pattern: how deep its own parts are nested, whether it looks for
the border of a word of characters, and whether it can be repeated, as settings cannot. -/
structure Part where
  depth : Nat
  findsBorder : Bool
  isRepeatable : Bool

namespace Part

def leaf : Part :=
  ⟨0, false, true⟩

def ofSettings : Part :=
  ⟨0, false, false⟩

def deeper (p : Part) : Part :=
  ⟨p.depth + 1, p.findsBorder, true⟩

def joined (ps : List Part) : Part :=
  ⟨joinedDepth (ps.map depth), ps.any findsBorder, true⟩

end Part

/-- A group that is open: the settings outside of it, and the parts and alternatives before it. -/
structure OpenGroup where
  settings : Settings
  parts : List Part
  alternatives : List Part

/-- How far a pattern is read: the settings from here on, the parts of the current alternative and
the alternatives before it, the groups that are open, and the names of groups. -/
structure Reading where
  settings : Settings
  parts : List Part
  alternatives : List Part
  outer : List OpenGroup
  names : List (List Char)

namespace Reading

def start : Reading :=
  ⟨standard, [], [], [], []⟩

def add (r : Reading) (p : Part) : Reading :=
  { r with parts := p :: r.parts }

def whole (r : Reading) : Part :=
  .joined (.joined r.parts :: r.alternatives)

def openGroup (r : Reading) (inside : Settings) : Reading :=
  { r with
    settings := inside, parts := [], alternatives := []
    outer := ⟨r.settings, r.parts, r.alternatives⟩ :: r.outer }

/-- Settings made in a group end with it. -/
def closeGroup? (r : Reading) : Option Reading :=
  match r.outer with
  | [] => none
  | g :: outer => some
    { r with
      settings := g.settings, parts := r.whole.deeper :: g.parts, alternatives := g.alternatives
      outer := outer }

/-- Changes the last part, which has to be one that can be repeated. -/
def onLast? (r : Reading) (change : Part → Part) : Option Reading :=
  match r.parts with
  | p :: before => if p.isRepeatable then some { r with parts := change p :: before } else none
  | [] => none

end Reading

def groupName? (cs : List Char) : Option (List Char × List Char) :=
  let name := cs.takeWhile (· ≠ '>')
  let isName : Bool := match name with
    | c :: more => (c == '_' || Text.isAlphabetic c) &&
        more.all fun c => Text.isLetterOrNumeral c || ['_', '.', '[', ']'].contains c
    | [] => false
  if isName ∧ name.length < cs.length then some (name, cs.drop (name.length + 1)) else none

/-- Letters for settings, which are switched off after a dash. -/
def Settings.change (s : Settings) (letters : List Char) : Settings :=
  let value (letter : Char) (before : Bool) : Bool :=
    if letter ∈ letters.takeWhile (· ≠ '-') then true
    else if letter ∈ letters then false
    else before
  ⟨value 'u' s.unicode, value 'i' s.foldsCase, value 'x' s.spaced⟩

def areSettings (letters : List Char) : Bool :=
  letters.all (fun c => letters.count c = 1) && letters.getLast? != some '-'

/-- What follows an opening parenthesis: the name of a group, settings for it, settings for what
comes after, or the content of a group. -/
def readGroup? (r : Reading) (cs : List Char) : Option (Reading × List Char) :=
  let named (cs : List Char) : Option (Reading × List Char) := do
    let (name, rest) ← groupName? cs
    if name ∈ r.names then none
    else return ({ r.openGroup r.settings with names := name :: r.names }, rest)
  match r.settings.skip cs with
  | '?' :: 'P' :: '<' :: rest | '?' :: '<' :: rest => named rest
  | '?' :: rest =>
    let letters := rest.takeWhile (· ∈ ['i', 'm', 's', 'U', 'u', 'R', 'x', '-'])
    let changed := r.settings.change letters
    match rest.drop letters.length with
    | ':' :: rest => if areSettings letters then some (r.openGroup changed, rest) else none
    | ')' :: rest =>
      if areSettings letters ∧ !letters.isEmpty then
        some ({ r with settings := changed }.add .ofSettings, rest)
      else none
    | _ => none
  | rest => some (r.openGroup r.settings, rest)

def countBound : Nat := 1 <<< 32

def dropReluctance : List Char → List Char
  | '?' :: cs => cs
  | cs => cs

/-- A number of repetitions, from the opening brace on. What is never matched looks for nothing. -/
def readCount? (r : Reading) (cs : List Char) : Option (Reading × List Char) := do
  let rest := (r.settings.skip cs).dropWhile Text.isBlank
  let (digits, rest) := r.settings.span Char.isDigit rest.length rest
  let count := Nat.ofDigitChars 10 digits 0
  if digits.isEmpty ∨ countBound ≤ count then none
  match rest.dropWhile Text.isBlank with
  | '\x7d' :: rest =>
    let repeated (p : Part) : Part :=
      { p.deeper with findsBorder := p.findsBorder && count != 0 }
    return (← r.onLast? repeated, dropReluctance (r.settings.skip rest))
  | _ => none

/-- Whether a character that is not in a set can be dealt with. Ignoring case needs a table that is
not at hand, and a byte has to be a character. -/
def allowsLiteral (s : Settings) (c : Char) (isByte : Bool) : Bool :=
  if s.unicode then !s.foldsCase else !isByte || c.toNat < 128

def readLiteral? (r : Reading) (c : Char) (isByte : Bool) : Option Reading :=
  if allowsLiteral r.settings c isByte then some (r.add .leaf) else none

def readAtom? (r : Reading) : Atom → Option Reading
  | .char c isByte => readLiteral? r c isByte
  | .members | .edge => some (r.add .leaf)
  | .border => some (r.add { Part.leaf with findsBorder := r.settings.unicode })

/-- One step in a pattern. -/
def step? (r : Reading) (c : Char) (cs : List Char) : Option (Reading × List Char) := do
  match c with
  | '(' => readGroup? r cs
  | ')' => return (← r.closeGroup?, cs)
  | '|' =>
    return ({ r with parts := [], alternatives := .joined r.parts :: r.alternatives }, cs)
  | '[' =>
    let (depth, rest) ← characterSet? r.settings cs
    return (r.add { Part.leaf with depth := depth }, rest)
  | '?' | '*' | '+' => return (← r.onLast? Part.deeper, dropReluctance cs)
  | '\x7b' => readCount? r cs
  | '\\' =>
    let (a, rest) ← escape? r.settings cs
    return (← readAtom? r a, rest)
  | '.' => if r.settings.unicode then return (r.add .leaf, cs) else none
  | '^' | '$' => return (r.add .leaf, cs)
  | c => return (← readLiteral? r c false, cs)

/-- Reads a pattern to its end. The first argument bounds the steps. -/
def read? : Nat → Reading → List Char → Option Reading
  | 0, _, _ => none
  | n + 1, r, cs => do
    match r.settings.skip cs with
    | [] => return r
    | c :: rest =>
      let (r, rest) ← step? r c rest
      read? n r rest

def deepest : Nat := 250

/-- A pattern that can be read and dealt with. Borders of words of characters cannot be found. -/
def isPattern (cs : List Char) : Bool :=
  match read? (cs.length + 1) .start cs with
  | some r => r.outer.isEmpty && r.whole.depth ≤ deepest && !r.whole.findsBorder
  | none => false

def isWellFormed (cs : List Char) : Bool :=
  isPlusNumber cs || isPattern cs

end PbesLab.CommandLine.ValuePattern
