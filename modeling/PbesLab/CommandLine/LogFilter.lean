import PbesLab.CommandLine.ValuePattern
import PbesLab.Text.Decode
import PbesLab.Text.LetterTable
import PbesLab.Text.Pieces
import PbesLab.Log

namespace PbesLab.CommandLine

def areaName : Area → String
  | .program => "mcrl2_devtools"
  | .search => "mcrl2_devtools::minimize"
  | .trial => "mcrl2_devtools::difftest"
  | .tools => "mcrl2_devtools::tools"

def lineField : String := "message"

def levelNames : List String :=
  ["off", "error", "warn", "info", "debug", "trace"]

def everything : Nat := 5

def verbosityOf : Level → Nat
  | .warn => 2
  | .info => 3
  | .debug => 4

abbrev Bytes := List UInt8

def bytesOf (text : String) : Bytes :=
  text.toUTF8.toList

def lowerByte (b : UInt8) : UInt8 :=
  if 65 ≤ b ∧ b ≤ 90 then b + 32 else b

def isDigit (b : UInt8) : Bool :=
  48 ≤ b && b ≤ 57

/-- A level by its name in any case or by its number, with leading zeros or a plus sign. -/
def level? (text : Bytes) : Option Nat :=
  let digits := if text.head? = some 43 then text.tail else text
  if !digits.isEmpty ∧ digits.all isDigit then
    let n := digits.foldl (fun n b => 10 * n + (b.toNat - 48)) 0
    if n ≤ everything then some n else none
  else levelNames.findIdx? fun name => bytesOf name == text.map lowerByte

/-- What a directive asks of a line beyond its area. A directive for lines inside a named span, or
with a certain value in a field, fits none. -/
inductive Condition
  | free
  | carries (field : Bytes)
  | never

/-- Lines of the areas that begin with a name, and that meet a condition, are shown up to a
verbosity. Without a name it holds for all areas. -/
structure Directive where
  areas : Option Bytes
  condition : Condition
  verbosity : Nat

abbrev LogFilter := List Directive

structure DirectiveText where
  whole : Bytes
  trimmed : Bytes

namespace DirectiveText

def find? (t : DirectiveText) (start : Nat) (delimiters : List UInt8) : Option (Nat × UInt8) := do
  let i ← (t.trimmed.drop start).findIdx? (· ∈ delimiters)
  return (start + i, ← t.trimmed[start + i]?)

def slice (t : DirectiveText) (start stop : Nat) : Bytes :=
  (t.whole.drop start).take (stop - start)

def levelFrom? (t : DirectiveText) (start : Nat) : Option Nat :=
  if (t.whole.drop start).isEmpty then some everything else level? (t.whole.drop start)

/-- What may follow a condition: an equals sign and a level. -/
def levelAfter? (t : DirectiveText) (start : Nat) : Option Nat :=
  match t.trimmed[start]? with
  | none => some everything
  | some 61 => t.levelFrom? (start + 1)
  | some _ => none

def fieldCondition? (field : Bytes) : Option Condition :=
  if field.contains 61 then
    let value := ((field.dropWhile (· ≠ 61)).drop 1).takeWhile (· ≠ 61)
    if ValuePattern.isWellFormed (Text.decodeLossy value) then some .never else none
  else some (.carries field)

/-- The condition between brackets: the name of a span, a field in braces, or both. -/
def condition? (t : DirectiveText) (start : Nat) : Option (Condition × Nat) := do
  let (i, c) ← t.find? start [93, 123]
  if c = 93 then return (.never, i + 1)
  let (j, _) ← t.find? (i + 1) [125]
  if j = i + 1 ∨ t.trimmed[j + 1]? ≠ some 93 then none
  let condition ← fieldCondition? (t.slice (i + 1) j)
  return (if i = start then condition else .never, j + 2)

def conditional? (t : DirectiveText) (areas : Option Bytes) (start : Nat) : Option Directive := do
  let (condition, stop) ← t.condition? start
  return ⟨areas, condition, ← t.levelAfter? stop⟩

end DirectiveText

def startsName (c : Char) : Bool :=
  c == '-' || c == ':' || c == '_' || Text.isLetterOrNumeral c

/-- A level or a name on its own, or a name, a condition and a level. A name on its own shows
everything. The places of the delimiters are found in the text without the blanks around it; what
stands at those places is read off the text with the blanks. -/
def directive? (text : List Char) : Option Directive := do
  let trimmed := Text.trim text
  let t : DirectiveText := ⟨bytesOf (String.ofList text), bytesOf (String.ofList trimmed)⟩
  let first ← trimmed.head?
  if first = '[' then t.conditional? none 1
  else if !startsName first then none
  else
    match t.find? 0 [61, 91] with
    | none =>
      match level? t.whole with
      | some n => return ⟨none, .free, n⟩
      | none => return ⟨some t.whole, .free, everything⟩
    | some (i, 61) => return ⟨some (t.slice 0 i), .free, ← t.levelFrom? (i + 1)⟩
    | some (i, _) => t.conditional? (some (t.slice 0 i)) (i + 1)

def filter? (text : String) : Option LogFilter :=
  ((Text.pieces (· == ',') text.toList).filter (!·.isEmpty)).mapM directive?

def standardFilter (verbose : Bool) : LogFilter :=
  let own (n : Nat) : Directive := ⟨some (bytesOf (areaName .program)), .free, n⟩
  if verbose then [own 4, ⟨none, .free, 3⟩] else [own 3]

/-- A setting that cannot be read counts as none. -/
def chooseFilter (setting : Option String) (verbose : Bool) : LogFilter :=
  (setting.bind filter?).getD (standardFilter verbose)

namespace Directive

def rank (d : Directive) : Nat × Nat :=
  (match d.areas with | some name => name.length + 1 | none => 0,
    match d.condition with | .carries _ => 1 | _ => 0)

def fits (d : Directive) (area : Area) : Bool :=
  (match d.areas with
    | some name => name.isPrefixOf (bytesOf (areaName area))
    | none => true) &&
  match d.condition with
  | .free => true
  | .carries field => field == bytesOf lineField
  | .never => false

end Directive

def rankLe (a b : Nat × Nat) : Bool :=
  a.1 < b.1 || a.1 == b.1 && a.2 ≤ b.2

/-- The directive for an area: the one of highest rank, and of equals the last. -/
def decisive? (f : LogFilter) (area : Area) : Option Directive :=
  (f.filter (·.fits area)).foldl (fun best d =>
    match best with
    | some b => if rankLe b.rank d.rank then some d else best
    | none => some d) none

def shows (f : LogFilter) (line : LogLine) : Bool :=
  match decisive? f line.area with
  | some d => verbosityOf line.level ≤ d.verbosity
  | none => false

end PbesLab.CommandLine
