import PbesLab.Shell.Numeral
import PbesLab.Shell.Process

namespace PbesLab.Shell

def charBytes (c : Char) : List UInt8 :=
  bytesOf (String.singleton c)

/-- A byte given by up to some octal digits. -/
def octal : Nat → Nat → List Char → Nat × List Char
  | _, value, [] => (value, [])
  | 0, value, cs => (value, cs)
  | n + 1, value, c :: cs =>
    match Numeral.digit? 8 c with
    | some d => octal n (8 * value + d) cs
    | none => (value, c :: cs)

def escapes : List (Char × UInt8) :=
  [('a', 7), ('b', 8), ('t', 9), ('n', 10), ('v', 11), ('f', 12), ('r', 13), ('\\', 92)]

/-- The bytes of an escape after its backslash, and the rest. What is no escape stays. -/
def escape (cs : List Char) : List UInt8 × List Char :=
  match cs with
  | [] => ([92], [])
  | c :: rest =>
    match escapes.lookup c with
    | some b => ([b], rest)
    | none =>
      if (Numeral.digit? 8 c).isSome then
        let (v, rest) := octal 3 0 cs
        ([UInt8.ofNat v], rest)
      else (92 :: charBytes c, rest)

/-- What a text with escapes stands for, and whether `\c` ends all output. A zero may stand before
octal digits. The first argument bounds the number of characters. -/
def unescape : Nat → List Char → List UInt8 × Bool
  | 0, _ | _, [] => ([], false)
  | _, '\\' :: 'c' :: _ => ([], true)
  | n + 1, '\\' :: cs =>
    let (bytes, rest) := match cs with
      | '0' :: cs => let (v, rest) := octal 3 0 cs; ([UInt8.ofNat v], rest)
      | _ => escape cs
    let (more, stop) := unescape n rest
    (bytes ++ more, stop)
  | n + 1, c :: cs =>
    let (more, stop) := unescape n cs
    (charBytes c ++ more, stop)

def unescaped (text : String) : List UInt8 × Bool :=
  unescape text.length text.toList

def echo : Program := fun args => do
  let (newline, args) := match args with
    | "-n" :: rest => (false, rest)
    | rest => (true, rest)
  let (bytes, stop) := unescaped (" ".intercalate args)
  say (if newline && !stop then bytes ++ [10] else bytes)
  return 0

/-- A conversion in a format: signs, width, precision and letter. -/
structure Conversion where
  flags : List Char
  width : Nat
  precision : Option Nat
  letter : Char

/-- A format that is being followed: the output, the arguments that are left, and what has become of
it. -/
structure Printing where
  bytes : List UInt8 := []
  args : List String
  failed : Bool := false
  /-- Nothing more is written. -/
  stopped : Bool := false

namespace Printing

def emit (p : Printing) (bytes : List UInt8) : Printing :=
  { p with bytes := p.bytes ++ bytes }

/-- The next argument, which is empty after the last. -/
def next (p : Printing) : String × Printing :=
  (p.args.headD "", { p with args := p.args.tail })

def number (p : Printing) (text : String) : Int × Printing :=
  match text.toList with
  | [] => (0, p)
  | q :: rest =>
    if q = '\'' ∨ q = '"' then ((rest.head?.map fun c => (c.toNat : Int)).getD 0, p)
    else
      let (negative, cs) := Numeral.signed text.toList
      match Numeral.natural? cs with
      | none => (0, { p with failed := true })
      | some (n, rest) => (if negative then -n else n, { p with failed := p.failed || rest ≠ [] })

end Printing

namespace Conversion

def has (c : Conversion) (flag : Char) : Bool :=
  c.flags.contains flag

def fill (c : Conversion) (bytes : List UInt8) : List UInt8 :=
  let missing := List.replicate (c.width - bytes.length) 32
  if c.has '-' then bytes ++ missing else missing ++ bytes

def cut (c : Conversion) (bytes : List UInt8) : List UInt8 :=
  (c.precision.map bytes.take).getD bytes

/-- Digits after their sign, with zeros between to reach the precision or width. -/
def number (c : Conversion) (sign : String) (digits : List Char) : List UInt8 :=
  let least := c.precision.getD (if c.has '0' && !c.has '-' then c.width - sign.length else 1)
  let zeros := List.replicate (least - digits.length) '0'
  c.fill (bytesOf (sign ++ String.ofList (zeros ++ digits)))

def apply (c : Conversion) (p : Printing) : Printing :=
  let (arg, p) := p.next
  match c.letter with
  | 's' => p.emit (c.fill (c.cut (bytesOf arg)))
  | 'c' => p.emit (c.fill ((bytesOf arg).take 1))
  | 'b' =>
    let (bytes, stop) := unescaped arg
    { p.emit (c.fill (c.cut bytes)) with stopped := stop }
  | 'd' | 'i' | 'u' =>
    let (n, p) := p.number arg
    let sign := if n < 0 then "-" else if c.has '+' then "+" else if c.has ' ' then " " else ""
    p.emit (c.number sign (toString n.natAbs).toList)
  | 'o' | 'x' | 'X' =>
    let (n, p) := p.number arg
    let digits := Nat.toDigits (if c.letter = 'o' then 8 else 16) n.toNat
    p.emit (c.number "" (if c.letter = 'X' then digits.map Char.toUpper else digits))
  | _ => { p with failed := true, stopped := true }

end Conversion

def formatNumber (cs : List Char) (p : Printing) : Option Nat × List Char × Printing :=
  match cs with
  | '*' :: cs =>
    let (arg, p) := p.next
    let (n, p) := p.number arg
    (some n.toNat, cs, p)
  | _ =>
    match Numeral.inBase? 10 cs with
    | some (n, rest) => (some n, rest, p)
    | none => (none, cs, p)

def convert (cs : List Char) (p : Printing) : List Char × Printing :=
  let isFlag (c : Char) : Bool := c ∈ ['-', '0', '+', ' ', '#']
  let flags := cs.takeWhile isFlag
  let (width, cs, p) := formatNumber (cs.dropWhile isFlag) p
  let (precision, cs, p) := match cs with
    | '.' :: cs =>
      let (n, cs, p) := formatNumber cs p
      (some (n.getD 0), cs, p)
    | _ => (none, cs, p)
  match cs with
  | [] => ([], { p with failed := true, stopped := true })
  | letter :: cs => (cs, Conversion.apply ⟨flags, width.getD 0, precision, letter⟩ p)

/-- A pass over a format. The first argument bounds the number of characters. -/
def formatOnce : Nat → List Char → Printing → Printing
  | 0, _, p | _, [], p => p
  | n + 1, c :: cs, p =>
    if p.stopped then p
    else
      match c, cs with
      | '%', '%' :: cs => formatOnce n cs (p.emit [37])
      | '%', _ =>
        let (cs, p) := convert cs p
        formatOnce n cs p
      | '\\', _ =>
        let (bytes, cs) := escape cs
        formatOnce n cs (p.emit bytes)
      | _, _ => formatOnce n cs (p.emit (charBytes c))

/-- Uses a format again as long as it takes arguments and some are left. The first argument bounds
the number of rounds. -/
def formatAll (format : List Char) : Nat → Printing → Printing
  | 0, p => p
  | rounds + 1, p =>
    let q := formatOnce format.length format p
    if q.stopped ∨ q.args.isEmpty ∨ q.args.length = p.args.length then q
    else formatAll format rounds q

def printf : Program := fun args => do
  match (if args.head? = some "--" then args.tail else args) with
  | [] => return 2
  | format :: args => do
    let p := formatAll format.toList (args.length + 1) { args }
    say p.bytes
    return if p.failed then 1 else 0

end PbesLab.Shell
