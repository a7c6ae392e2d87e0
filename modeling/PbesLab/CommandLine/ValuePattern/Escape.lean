import PbesLab.Text.Blank

namespace PbesLab.CommandLine.ValuePattern

/-- Whether characters or single bytes are matched, whether case is ignored, and whether blanks and
comments are layout. -/
structure Settings where
  unicode : Bool
  foldsCase : Bool
  spaced : Bool

def standard : Settings :=
  ⟨true, false, false⟩

/-- The rest after blanks and comments. The flag tells whether a comment is open. -/
def dropLayout : Bool → List Char → List Char
  | _, [] => []
  | true, c :: cs => dropLayout (c ≠ '\n') cs
  | false, c :: cs =>
    if Text.isBlank c then dropLayout false cs
    else if c = '#' then dropLayout true cs
    else c :: cs

namespace Settings

def skip (s : Settings) (cs : List Char) : List Char :=
  if s.spaced then dropLayout false cs else cs

/-- The next character behind layout. The first sign of a comment is passed over, but not the
comment itself. -/
def lookAhead (s : Settings) (cs : List Char) : Option Char :=
  if s.spaced then
    let shown := match cs.dropWhile Text.isBlank with
      | '#' :: rest => rest.dropWhile Text.isBlank
      | shown => shown
    shown.head?.or cs.head?
  else cs.head?

def span (s : Settings) (p : Char → Bool) : Nat → List Char → List Char × List Char
  | 0, cs => ([], cs)
  | n + 1, cs =>
    match s.skip cs with
    | c :: rest =>
      if p c then
        let (found, rest) := s.span p n rest
        (c :: found, rest)
      else ([], c :: rest)
    | [] => ([], [])

end Settings

def isHex (c : Char) : Bool :=
  c.isDigit || ('a' ≤ c && c ≤ 'f') || ('A' ≤ c && c ≤ 'F')

def hexValue (ds : List Char) : Nat :=
  ds.foldl (fun n c => 16 * n + (if c.isDigit then c.toNat - 48 else c.toLower.toNat - 87)) 0

def charOfHex? (ds : List Char) : Option Char :=
  if !ds.isEmpty ∧ (hexValue ds).isValidChar then some (Char.ofNat (hexValue ds)) else none

def numbered? (s : Settings) (count : Nat) (cs : List Char) : Option (Char × List Char) := do
  match s.skip cs with
  | '\x7b' :: rest =>
    let (ds, rest) := s.span isHex rest.length rest
    match s.skip rest with
    | '\x7d' :: rest => return (← charOfHex? ds, s.skip rest)
    | _ => none
  | _ =>
    let (ds, rest) := s.span isHex count cs
    if ds.length = count then return (← charOfHex? ds, s.skip rest) else none

inductive Atom
  /-- A character, which may be given as a byte. -/
  | char (c : Char) (isByte : Bool)
  /-- Digits, blanks, or letters. -/
  | members
  /-- The border of a word. -/
  | border
  /-- The start or the end of the text. -/
  | edge

def controls : List (Char × Char) :=
  [('a', '\x07'), ('f', '\x0c'), ('t', '\t'), ('n', '\n'), ('r', '\r'), ('v', '\x0b')]

def borderNames : List String :=
  ["start", "end", "start-half", "end-half"]

/-- The rest after the border of a word, which may be followed by its kind in braces. Braces that do
not begin with a letter are not part of it. -/
def afterBorder? (s : Settings) (cs : List Char) : Option (List Char) :=
  let isNameChar (c : Char) : Bool := c.isAlpha || c == '-'
  match cs with
  | '\x7b' :: rest =>
    match s.skip rest with
    | [] => none
    | c :: _ =>
      if isNameChar c then
        let (name, rest) := s.span isNameChar rest.length rest
        match s.skip rest with
        | '\x7d' :: rest => if String.ofList name ∈ borderNames then some rest else none
        | _ => none
      else some cs
  | _ => some cs

/-- What a backslash begins, from the character after it on, and the rest. No tables of properties
are at hand: classes of characters are known for bytes only, where those of the others would break
characters apart. -/
def escape? (s : Settings) (cs : List Char) : Option (Atom × List Char) := do
  let c :: rest := cs | none
  if c ∈ ['d', 's', 'w'] then
    if s.unicode then none else return (.members, rest)
  else if c = 'x' then
    let isByte := (s.skip rest).head? != some '\x7b'
    let (c, rest) ← numbered? s 2 rest
    return (.char c isByte, rest)
  else if c = 'u' ∨ c = 'U' then
    let (c, rest) ← numbered? s (if c = 'u' then 4 else 8) rest
    return (.char c false, rest)
  else if c = 'b' then return (.border, ← afterBorder? s rest)
  else if c ∈ ['B', '<', '>'] then return (.border, rest)
  else if c = 'A' ∨ c = 'z' then return (.edge, rest)
  else if let some control := controls.lookup c then return (.char control false, rest)
  else if c.toNat < 128 ∧ !c.isAlphanum then return (.char c false, rest)
  else none

end PbesLab.CommandLine.ValuePattern
