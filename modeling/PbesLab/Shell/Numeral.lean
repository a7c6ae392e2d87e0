namespace PbesLab.Shell.Numeral

def digit? (base : Nat) (c : Char) : Option Nat :=
  let value :=
    if c.isDigit then c.toNat - '0'.toNat
    else if c.isLower then c.toNat - 'a'.toNat + 10
    else if c.isUpper then c.toNat - 'A'.toNat + 10
    else base
  if value < base then some value else none

def digits (base : Nat) (cs : List Char) : List Nat × List Char :=
  (cs.map (digit? base) |>.takeWhile Option.isSome |>.filterMap id,
    cs.dropWhile fun c => (digit? base c).isSome)

def valueOf (base : Nat) (ds : List Nat) : Nat :=
  ds.foldl (fun n d => base * n + d) 0

def inBase? (base : Nat) (cs : List Char) : Option (Nat × List Char) :=
  let (ds, rest) := digits base cs
  if ds.isEmpty then none else some (valueOf base ds, rest)

def decimal? (text : String) : Option Nat :=
  match inBase? 10 text.toList with
  | some (n, []) => some n
  | _ => none

/-- A number without a sign, and the rest. A zero in front tells that the base is 8 or 16. -/
def natural? (cs : List Char) : Option (Nat × List Char) :=
  match cs with
  | '0' :: 'x' :: rest | '0' :: 'X' :: rest => (inBase? 16 rest).or (some (0, cs.drop 1))
  | '0' :: _ => inBase? 8 cs
  | _ => inBase? 10 cs

def isBlank (c : Char) : Bool :=
  c ∈ [' ', '\t', '\n', '\x0b', '\x0c', '\x0d']

def signed (cs : List Char) : Bool × List Char :=
  match cs.dropWhile isBlank with
  | '-' :: cs => (true, cs)
  | '+' :: cs => (false, cs)
  | cs => (false, cs)

def integer? (read : List Char → Option (Nat × List Char)) (text : String) : Option Int := do
  let (negative, cs) := signed text.toList
  let (n, rest) ← read cs
  if rest.all isBlank then return if negative then -n else n else none

def ofDecimal? (text : String) : Option Int :=
  integer? (inBase? 10) text

end PbesLab.Shell.Numeral
