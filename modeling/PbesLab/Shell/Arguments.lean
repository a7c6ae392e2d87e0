import PbesLab.Shell.Process

namespace PbesLab.Shell

/-- What is found in the arguments of a program: letters with their values, and operands. -/
structure Arguments where
  options : List (Char × String) := []
  operands : List String := []

namespace Arguments

def has (a : Arguments) (letter : Char) : Bool :=
  a.options.any (·.1 == letter)

def value? (a : Arguments) (letter : Char) : Option String :=
  a.options.reverse.lookup letter

def values (a : Arguments) (letter : Char) : List String :=
  (a.options.filter (·.1 == letter)).map Prod.snd

def inputs (a : Arguments) : List String :=
  if a.operands.isEmpty then ["-"] else a.operands

/-- The letters of one argument. The last may lack its value. -/
def letters? (flags valued : String) : List Char → Option (List (Char × String) × Option Char)
  | [] => some ([], none)
  | c :: cs =>
    if valued.toList.contains c then
      some (if cs.isEmpty then ([], some c) else ([(c, String.ofList cs)], none))
    else if flags.toList.contains c then
      (letters? flags valued cs).map fun (found, open?) => ((c, "") :: found, open?)
    else none

/-- Reads arguments; a letter that lacks its value takes the next of them. -/
def read? (flags valued : String) : Option Char → List String → Option Arguments
  | none, [] => some {}
  | some _, [] => none
  | some c, v :: as =>
    (read? flags valued none as).map fun a => { a with options := (c, v) :: a.options }
  | none, a :: as =>
    match a.toList with
    | ['-', '-'] => some { operands := as }
    | '-' :: c :: cs => do
      let (found, open?) ← letters? flags valued (c :: cs)
      let more ← read? flags valued open? as
      return { more with options := found ++ more.options }
    | _ => (read? flags valued none as).map fun more => { more with operands := a :: more.operands }

end Arguments

def program (flags valued : String) (failure : Nat) (run : Arguments → Run Nat) : Program :=
  fun args =>
    match Arguments.read? flags valued none args with
    | some a => run a
    | none => return failure

/-- The bytes of a file; a single dash is the input. -/
def fetch? (name : String) : Run (Option (List UInt8)) := do
  if name = "-" then return some (← takeInput) else readNamed? name

def forFiles (failure : Nat) (names : List String) (f : String → List UInt8 → Run Unit) : Run Nat :=
  forAll names fun name => do
    match ← fetch? name with
    | some bytes =>
      f name bytes
      return 0
    | none => return failure

def byteLines (bytes : List UInt8) : List (List UInt8) :=
  bytes.foldr (fun b lines =>
    if b = 10 then [] :: lines
    else match lines with
      | [] => [[b]]
      | line :: lines => (b :: line) :: lines) []

def endsInLine (bytes : List UInt8) : Bool :=
  bytes.getLast? == some 10

def joinLines (lines : List (List UInt8)) (ended : Bool) : List UInt8 :=
  let bytes := lines.flatMap (· ++ [10])
  if ended then bytes else bytes.dropLast

def charsOf (bytes : List UInt8) : List Char :=
  bytes.map fun b => Char.ofNat b.toNat

def bytesFrom (cs : List Char) : List UInt8 :=
  cs.map fun c => UInt8.ofNat c.toNat

def rightAligned (width : Nat) (text : String) : String :=
  String.ofList (List.replicate (width - text.length) ' ') ++ text

end PbesLab.Shell
