import PbesLab.Shell.Arguments
import PbesLab.Shell.Arithmetic
import PbesLab.Shell.Glob
import PbesLab.Text.Pieces

namespace PbesLab.Shell

def numbered (all : Bool) : Nat → List (List UInt8) → List (List UInt8)
  | _, [] => []
  | n, line :: lines =>
    if line.isEmpty && !all then line :: numbered all n lines
    else (bytesOf (rightAligned 6 (toString n) ++ "\t") ++ line) :: numbered all (n + 1) lines

def cat : Program := program "bnu" "" 1 fun a => forFiles 1 a.inputs fun _ bytes =>
  if a.has 'n' || a.has 'b' then
    say (joinLines (numbered (!a.has 'b') 1 (byteLines bytes)) (endsInLine bytes))
  else say bytes

def endedLines (bytes : List UInt8) : List (List UInt8) :=
  let lines := byteLines bytes
  if endsInLine bytes then lines.map (· ++ [10])
  else lines.dropLast.map (· ++ [10]) ++ lines.getLast?.toList

def tac : Program := program "" "" 1 fun a => forFiles 1 a.inputs fun _ bytes =>
  say (endedLines bytes).reverse.flatten

def rev : Program := program "" "" 1 fun a => forFiles 1 a.inputs fun _ bytes =>
  say (joinLines ((byteLines bytes).map List.reverse) (endsInLine bytes))

/-- An old form such as `-5`, written as an option for lines. -/
def withoutShortCount : List String → List String
  | a :: as =>
    match a.toList with
    | '-' :: c :: cs => if (c :: cs).all Char.isDigit then "-n" :: String.ofList (c :: cs) :: as
      else a :: as
    | _ => a :: as
  | [] => []

/-- Writes a part of each file, which is given by a number of lines or bytes, perhaps with a
sign. -/
def partOf (select : Option Char → Nat → List (List UInt8) → List (List UInt8)) : Program :=
  fun args => program "q" "nc" 1 (fun a => do
    let (byBytes, text) := match a.options.reverse.find? (·.1 ≠ 'q') with
      | some (c, text) => (c == 'c', text)
      | none => (false, "10")
    let (sign, digits) := match text.toList with
      | '-' :: cs => (some '-', cs)
      | '+' :: cs => (some '+', cs)
      | cs => (none, cs)
    match Numeral.decimal? (String.ofList digits) with
    | none => return 1
    | some amount =>
      let titled := 1 < a.operands.length && !a.has 'q'
      forFiles 1 a.inputs fun name bytes => do
        if titled then
          let gap := if a.operands.head? = some name then "" else "\n"
          sayText (gap ++ "==> " ++ name ++ " <==\n")
        say (select sign amount
          (if byBytes then bytes.map ([·]) else endedLines bytes)).flatten)
    (withoutShortCount args)

def head : Program := partOf fun sign n xs =>
  if sign = some '-' then xs.take (xs.length - n) else xs.take n

def tail : Program := partOf fun sign n xs =>
  if sign = some '+' then xs.drop (n - 1) else xs.drop (xs.length - n)

def isSpace (b : UInt8) : Bool :=
  b = 32 || 9 ≤ b && b ≤ 13

def countWords : Bool → List UInt8 → Nat
  | _, [] => 0
  | inWord, b :: bs =>
    if isSpace b then countWords false bs
    else countWords true bs + (if inWord then 0 else 1)

def countsOf (a : Arguments) (bytes : List UInt8) : List Nat :=
  let all := a.options.isEmpty
  (if all || a.has 'l' then [bytes.count 10] else []) ++
    (if all || a.has 'w' then [countWords false bytes] else []) ++
    (if a.has 'm' then [(bytes.filter fun b => b < 128 || 192 ≤ b).length] else []) ++
    (if all || a.has 'c' then [bytes.length] else [])

def wc : Program := program "lwcm" "" 1 fun a => do
  let contents ← a.inputs.mapM fun name => do return (name, ← fetch? name)
  let counts := (contents.filterMap Prod.snd).map (countsOf a)
  let totals := counts.foldl (List.zipWith (· + ·)) (countsOf a [])
  let size := ((contents.filterMap Prod.snd).map List.length).foldl (· + ·) 0
  let width := if contents.length = 1 ∧ (countsOf a []).length = 1 then 1
    else if a.operands.isEmpty then 7 else (toString size).length
  let line (name : String) (counts : List Nat) : Run Unit :=
    sayText (" ".intercalate (counts.map fun n => rightAligned width (toString n)) ++
      (if name = "-" then "" else " " ++ name) ++ "\n")
  let status ← forAll contents fun (name, bytes?) => do
    bytes?.forM fun bytes => line name (countsOf a bytes)
    return if bytes?.isSome then 0 else 1
  if 1 < contents.length then line "total" totals
  return status

def compareBytes : List UInt8 → List UInt8 → Ordering
  | [], [] => .eq
  | [], _ :: _ => .lt
  | _ :: _, [] => .gt
  | a :: as, b :: bs => (Ord.compare a b).then (compareBytes as bs)

/-- The number that a line begins with; there may be none. -/
def leadingNumber (line : List UInt8) : Int :=
  let (negative, cs) := Numeral.signed (charsOf line)
  let n : Int := ((Numeral.inBase? 10 cs).map Prod.fst).getD 0
  if negative then -n else n

/-- Lines with the numbers of their repetitions. -/
def runsOf (same : List UInt8 → List UInt8 → Bool) : List (List UInt8) → List (Nat × List UInt8)
  | [] => []
  | a :: lines =>
    match runsOf same lines with
    | (n, b) :: rest => if same a b then (n + 1, a) :: rest else (1, a) :: (n, b) :: rest
    | [] => [(1, a)]

def sort : Program := program "nru" "" 2 fun a => do
  let contents ← a.inputs.mapM fetch?
  if contents.any Option.isNone then return 2
  let keyed (x y : List UInt8) : Ordering :=
    let order := if a.has 'n' then Ord.compare (leadingNumber x) (leadingNumber y)
      else compareBytes x y
    if a.has 'r' then order.swap else order
  let last (x y : List UInt8) : Ordering := if a.has 'r' then compareBytes y x else compareBytes x y
  let order (x y : List UInt8) : Ordering :=
    (keyed x y).then (if a.has 'u' then .eq else last x y)
  let sorted := ((contents.filterMap id).flatMap byteLines).mergeSort fun x y => order x y != .gt
  say (joinLines (if a.has 'u' then (runsOf (fun x y => keyed x y == .eq) sorted).map Prod.snd
    else sorted) true)
  return 0

def uniq : Program := program "cdu" "" 1 fun a => forFiles 1 (a.inputs.take 1) fun _ bytes => do
  let runs := (runsOf (· == ·) (byteLines bytes)).filter fun r =>
    (!a.has 'd' || 1 < r.1) && (!a.has 'u' || r.1 == 1)
  say (joinLines (runs.map fun (n, line) =>
    (if a.has 'c' then bytesOf (rightAligned 7 (toString n) ++ " ") else []) ++ line) true)

def ranges? (text : String) : Option (List (Nat × Option Nat)) :=
  let number (cs : List Char) : Option Nat := Numeral.decimal? (String.ofList cs)
  (Text.pieces (· == ',') text.toList).mapM fun piece =>
    match Text.pieces (· == '-') piece with
    | [n] => (number n).map fun n => (n, some n)
    | [[], b] => (number b).map fun high => (1, some high)
    | [a, []] => (number a).map fun low => (low, none)
    | [a, b] => do return (← number a, some (← number b))
    | _ => none

def chosen {α : Type} (ranges : List (Nat × Option Nat)) (xs : List α) : List α :=
  (xs.zipIdx 1).filterMap fun (x, i) =>
    if ranges.any fun (low, high) => low ≤ i && high.all (i ≤ ·) then some x else none

def cut : Program := program "s" "bcdf" 1 fun a => do
  let delimiter := ((a.value? 'd').bind (·.toList.head?)).getD '\t'
  let list? := ((a.value? 'f').or (a.value? 'c')).or (a.value? 'b')
  match list?.bind ranges? with
  | none => return 1
  | some ranges =>
    forFiles 1 a.inputs fun _ bytes =>
      say (joinLines ((byteLines bytes).filterMap fun line =>
        let fields := Text.pieces (· == delimiter) (charsOf line)
        if !a.has 'f' then some (chosen ranges line)
        else if fields.length = 1 then if a.has 's' then none else some line
        else some (bytesFrom ([delimiter].intercalate (chosen ranges fields)))) true)

/-- The character at the start of a set, which may be an escape, and the rest. -/
def trChar : List Char → Char × List Char
  | '\\' :: 'n' :: rest => ('\n', rest)
  | '\\' :: 't' :: rest => ('\t', rest)
  | '\\' :: d :: rest => (d, rest)
  | d :: rest => (d, rest)
  | [] => (' ', [])

def charsBetween (a b : Char) : List Char :=
  (List.range (b.toNat + 1 - a.toNat)).map fun i => Char.ofNat (a.toNat + i)

/-- The characters that a set for `tr` lists. The first argument bounds their number. -/
def trSet : Nat → List Char → List Char
  | 0, _ | _, [] => []
  | n + 1, '[' :: ':' :: cs =>
    let name := cs.takeWhile (· ≠ ':')
    (Glob.classOf name).flatMap (fun (a, b) => charsBetween a b) ++
      trSet n (cs.drop (name.length + 2))
  | n + 1, cs =>
    let (first, rest) := trChar cs
    match rest with
    | '-' :: d :: more =>
      let (last, more) := trChar (d :: more)
      charsBetween first last ++ trSet n more
    | _ => first :: trSet n rest

/-- Leaves one of several equal neighbours among given bytes. -/
def squeeze (within : UInt8 → Bool) : List UInt8 → List UInt8
  | a :: b :: bs =>
    if a = b ∧ within a then squeeze within (b :: bs) else a :: squeeze within (b :: bs)
  | bs => bs

def tr : Program := program "cCds" "" 1 fun a => do
  let set (text : String) : List UInt8 :=
    let cs := charsOf (bytesOf text)
    bytesFrom (trSet cs.length cs)
  let listed (text : String) : List UInt8 :=
    if a.has 'c' || a.has 'C' then
      ((List.range 256).map UInt8.ofNat).filter (!(set text).contains ·)
    else set text
  match a.operands with
  | [x] =>
    if !a.has 'd' && !a.has 's' then return 1
    let bytes ← takeInput
    say (if a.has 'd' then bytes.filter (!(listed x).contains ·)
      else squeeze (listed x).contains bytes)
    return 0
  | [x, y] =>
    let t := set y
    let table := (listed x).zipIdx.reverse.map fun (b, i) => (b, t.getD i (t.getLastD b))
    let changed := (← takeInput).map fun b => (table.lookup b).getD b
    say (if a.has 's' then squeeze t.contains changed else changed)
    return 0
  | _ => return 1

def seqNumbers (first step last : Int) : List Int :=
  if step = 0 then []
  else
    let count := if 0 < step then (last - first) / step + 1 else (first - last) / (-step) + 1
    (List.range count.toNat).map fun (i : Nat) => first + step * i

def seq : Program := fun args => do
  let numbers := match args.map Numeral.ofDecimal? with
    | [some last] => some (seqNumbers 1 1 last)
    | [some first, some last] => some (seqNumbers first 1 last)
    | [some first, some step, some last] => some (seqNumbers first step last)
    | _ => none
  sayText (String.join ((numbers.getD []).map fun n => toString n ++ "\n"))
  return if numbers.isSome then 0 else 1

def expr : Program := fun args => do
  let text := " ".intercalate (args.map fun a => if a = "=" then "==" else a)
  match (Arithmetic.read? text).bind (Arithmetic.Expr.value? (← get)) with
  | none => return 2
  | some n =>
    sayText (toString n ++ "\n")
    return if n = 0 then 1 else 0

/-- Milliseconds of a duration such as `5`, `0.5` or `2m`. -/
def duration? (text : String) : Option Nat :=
  let (cs, unit) := match text.toList.reverse with
    | 's' :: cs => (cs.reverse, 1000)
    | 'm' :: cs => (cs.reverse, 60000)
    | 'h' :: cs => (cs.reverse, 3600000)
    | cs => (cs.reverse, 1000)
  let whole := cs.takeWhile (· ≠ '.')
  let digits := whole ++ cs.drop (whole.length + 1)
  if digits.all Char.isDigit ∧ !digits.isEmpty then
    some (Nat.ofDigitChars 10 digits 0 * unit / Nat.pow 10 (digits.length - whole.length))
  else none

def sleep : Program := fun args => do
  match args.mapM duration? with
  | some (d :: ds) =>
    wait ((d :: ds).foldr (· + ·) 0)
    return 0
  | _ => return 1

def textPrograms : List (String × Program) :=
  [("cat", cat), ("tac", tac), ("rev", rev), ("head", head), ("tail", tail), ("wc", wc),
    ("sort", sort), ("uniq", uniq), ("cut", cut), ("tr", tr), ("seq", seq), ("expr", expr),
    ("sleep", sleep)]

end PbesLab.Shell
