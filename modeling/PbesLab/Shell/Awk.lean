import PbesLab.Shell.Edit
import PbesLab.Shell.Format
import PbesLab.Shell.Token
import PbesLab.Text.Pieces

namespace PbesLab.Shell

namespace Awk

inductive Expr
  | text (value : List Char)
  | regex (r : Regular)
  | name (x : String)
  | field (index : Expr)
  | negate (body : Expr)
  | length (body : Expr)
  | binary (op : String) (left right : Expr)
  /-- Gives a variable the value of an operator on its old value and another, or just the other. -/
  | assign (x : String) (op : Option String) (value : Expr)

inductive Statement
  /-- Without values the line is printed. A flag tells that the first value is a format. -/
  | print (formatted : Bool) (values : List Expr)
  | value (e : Expr)

inductive Pattern
  | start
  | stop
  | always
  | when (e : Expr)

structure Rule where
  pattern : Pattern
  body : List Statement

inductive Token
  | text (value : List Char)
  | regex (r : Regular)
  | name (x : String)
  | sign (op : String)

def signs : List String :=
  ["&&", "||", "==", "!=", "<=", ">=", "+=", "-=", "++", "--", "!~", "\x7b", "\x7d", "(", ")", ";",
    "\n", ",", "$", "~", "<", ">", "=", "+", "-", "*", "/", "%", "!"]

/-- After some tokens a slash divides; otherwise it begins an expression. -/
def endsValue : Option Token → Bool
  | some (.text _) | some (.name _) => true
  | some (.sign op) => op = ")"
  | _ => false

def unescapedText (cs : List Char) : List Char :=
  charsOf (unescape cs.length cs).1

/-- The tokens of a text, of which the last one before it is known. -/
def tokens? : Nat → Option Token → List Char → Option (List Token)
  | 0, _, _ => none
  | _, _, [] => some []
  | fuel + 1, last, c :: cs =>
    let adding (t : Token) (rest : List Char) : Option (List Token) :=
      (tokens? fuel (some t) rest).map (t :: ·)
    if c = ' ' ∨ c = '\t' then tokens? fuel last cs
    else if c = '#' then tokens? fuel last (cs.dropWhile (· ≠ '\n'))
    else if c.isDigit then
      adding (.text ((c :: cs).takeWhile Char.isDigit)) ((c :: cs).dropWhile Char.isDigit)
    else if c = '"' then do
      let (text, rest) ← Edit.upTo? '"' cs
      adding (.text (unescapedText text)) rest
    else if c = '/' ∧ !endsValue last then do
      let (text, rest) ← Edit.upTo? '/' cs
      adding (.regex (← Regular.ofPattern? true text)) rest
    else if Lexer.isNameStart c then
      adding (.name (String.ofList ((c :: cs).takeWhile Lexer.isNameChar)))
        ((c :: cs).dropWhile Lexer.isNameChar)
    else do
      let op ← signs.find? fun (op : String) => op.toList.isPrefixOf (c :: cs)
      adding (.sign op) ((c :: cs).drop op.length)

/-- The binary operators, from those that bind least to those that bind most. The empty one joins
texts. -/
def levels : List (List String) :=
  [["||"], ["&&"], ["~", "!~"], ["<", "<=", "==", "!=", ">", ">="], [""], ["+", "-"],
    ["*", "/", "%"]]

def startsValue : List Token → Bool
  | .sign op :: _ => op ∈ ["$", "(", "!"]
  | [] => false
  | _ => true

def takeOne? (ops : List String) (ts : List Token) : Option (String × List Token) :=
  if ops = [""] then if startsValue ts then some ("", ts) else none
  else
    match ts with
    | .sign op :: rest => if ops.contains op then some (op, rest) else none
    | _ => none

abbrev Parsed := Option (Expr × List Token)

-- The first argument of all of these bounds the number of steps.
mutual

def exprAt : Nat → List Token → Parsed
  | 0, _ => none
  | fuel + 1, ts =>
    match ts with
    | .name x :: .sign op :: rest =>
      if op ∈ ["=", "+=", "-="] then do
        let (e, rest) ← exprAt fuel rest
        return (.assign x (if op = "=" then none else some (op.take 1).toString) e, rest)
      else if op ∈ ["++", "--"] then
        some (.assign x (some (op.take 1).toString) (.text ['1']), rest)
      else levelAt fuel levels ts
    | _ => levelAt fuel levels ts

def levelAt : Nat → List (List String) → List Token → Parsed
  | 0, _, _ => none
  | fuel + 1, [], ts => operandAt fuel ts
  | fuel + 1, ops :: higher, ts => do
    let (first, rest) ← levelAt fuel higher ts
    moreAt fuel ops higher first rest

def moreAt : Nat → List String → List (List String) → Expr → List Token → Parsed
  | 0, _, _, _, _ => none
  | fuel + 1, ops, higher, first, ts =>
    match takeOne? ops ts with
    | none => some (first, ts)
    | some (op, rest) => do
      let (second, rest) ← levelAt fuel higher rest
      moreAt fuel ops higher (.binary op first second) rest

def operandAt : Nat → List Token → Parsed
  | 0, _ => none
  | fuel + 1, ts =>
    match ts with
    | .text value :: rest => some (.text value, rest)
    | .regex r :: rest => some (.regex r, rest)
    | .name "length" :: .sign "(" :: rest => do
      let (e, rest) ← exprAt fuel rest
      match rest with
      | .sign ")" :: rest => return (.length e, rest)
      | _ => none
    | .name "length" :: rest => some (.length (.field (.text [])), rest)
    | .name x :: rest => some (.name x, rest)
    | .sign "$" :: rest => do
      let (e, rest) ← operandAt fuel rest
      return (.field e, rest)
    | .sign "!" :: rest => do
      let (e, rest) ← operandAt fuel rest
      return (.negate e, rest)
    | .sign "(" :: rest => do
      let (e, rest) ← exprAt fuel rest
      match rest with
      | .sign ")" :: rest => return (e, rest)
      | _ => none
    | _ => none

end

def expr? (ts : List Token) : Parsed :=
  exprAt (16 * ts.length + 16) ts

/-- Expressions between commas. The first argument bounds their number. -/
def exprs? : Nat → List Token → Option (List Expr × List Token)
  | 0, _ => none
  | fuel + 1, ts =>
    if !startsValue ts then some ([], ts)
    else do
      let (e, rest) ← expr? ts
      match rest with
      | .sign "," :: rest =>
        let (es, rest) ← exprs? fuel rest
        return (e :: es, rest)
      | _ => return ([e], rest)

def skipEnds : List Token → List Token
  | .sign ";" :: ts | .sign "\n" :: ts => skipEnds ts
  | ts => ts

def statement? (ts : List Token) : Option (Statement × List Token) :=
  match ts with
  | .name "print" :: rest =>
    (exprs? (rest.length + 1) rest).map fun (values, rest) => (.print false values, rest)
  | .name "printf" :: rest =>
    (exprs? (rest.length + 1) rest).map fun (values, rest) => (.print true values, rest)
  | _ => (expr? ts).map fun (e, rest) => (.value e, rest)

/-- Statements up to a closing brace. The first argument bounds their number. -/
def body? : Nat → List Token → Option (List Statement × List Token)
  | 0, _ => none
  | fuel + 1, ts =>
    match skipEnds ts with
    | .sign "\x7d" :: rest => some ([], rest)
    | ts => do
      let (s, rest) ← statement? ts
      match rest with
      | .sign ";" :: _ | .sign "\n" :: _ | .sign "\x7d" :: _ =>
        let (more, rest) ← body? fuel rest
        return (s :: more, rest)
      | _ => none

/-- The rules of a program. The first argument bounds their number. -/
def rules? : Nat → List Token → Option (List Rule)
  | 0, _ => none
  | fuel + 1, ts => do
    let ts := skipEnds ts
    if ts.isEmpty then return []
    let (pattern, rest) ← match ts with
      | .name "BEGIN" :: rest => some (Pattern.start, rest)
      | .name "END" :: rest => some (.stop, rest)
      | .sign "\x7b" :: _ => some (.always, ts)
      | _ => (expr? ts).map fun (e, rest) => (.when e, rest)
    match rest with
    | .sign "\x7b" :: rest =>
      let (body, rest) ← body? (rest.length + 1) rest
      return ⟨pattern, body⟩ :: (← rules? fuel rest)
    | _ => return ⟨pattern, [.print false []]⟩ :: (← rules? fuel rest)

structure Scope where
  line : List Char := []
  number : Nat := 0
  separator : Option Char
  vars : List (String × List Char) := []

/-- The words of a line, or what stands between separators. -/
def Scope.fields (s : Scope) : List (List Char) :=
  match s.separator with
  | some c => if s.line.isEmpty then [] else Text.pieces (· == c) s.line
  | none => (Text.pieces (fun c => c == ' ' || c == '\t') s.line).filter (· ≠ [])

def numberOf (text : List Char) : Int :=
  let (negative, cs) := Numeral.signed text
  let n : Int := ((Numeral.inBase? 10 cs).map Prod.fst).getD 0
  if negative then -n else n

def isNumber (text : List Char) : Bool :=
  text.isEmpty || (Numeral.ofDecimal? (String.ofList text)).isSome

def ofBool (b : Bool) : List Char :=
  if b then ['1'] else ['0']

def isTrue (text : List Char) : Bool :=
  text ≠ [] && text ≠ ['0']

/-- Numbers are compared as such, and other texts by their characters. -/
def compare (a b : List Char) : Ordering :=
  if isNumber a && isNumber b then Ord.compare (numberOf a) (numberOf b)
  else if a = b then .eq else if decide (a < b) then .lt else .gt

def applyBinary (op : String) (a b : List Char) : List Char :=
  let number (n : Int) : List Char := (toString n).toList
  match op with
  | "" => a ++ b
  | "||" => ofBool (isTrue a || isTrue b)
  | "&&" => ofBool (isTrue a && isTrue b)
  | "<" => ofBool (compare a b == .lt)
  | "<=" => ofBool (compare a b != .gt)
  | "==" => ofBool (compare a b == .eq)
  | "!=" => ofBool (compare a b != .eq)
  | ">" => ofBool (compare a b == .gt)
  | ">=" => ofBool (compare a b != .lt)
  | "+" => number (numberOf a + numberOf b)
  | "-" => number (numberOf a - numberOf b)
  | "*" => number (numberOf a * numberOf b)
  | "/" => number ((numberOf a).tdiv (numberOf b))
  | _ => number ((numberOf a).tmod (numberOf b))

def Expr.eval (s : Scope) : Expr → List Char × Scope
  | .text value => (value, s)
  | .regex r => (ofBool (r.occursIn s.line), s)
  | .name "NR" => ((toString s.number).toList, s)
  | .name "NF" => ((toString s.fields.length).toList, s)
  | .name x => ((s.vars.lookup x).getD [], s)
  | .field e =>
    let (index, s) := e.eval s
    (match (numberOf index).toNat with
      | 0 => s.line
      | n + 1 => s.fields.getD n [], s)
  | .negate e =>
    let (value, s) := e.eval s
    (ofBool (!isTrue value), s)
  | .length e =>
    let (value, s) := e.eval s
    ((toString value.length).toList, s)
  | .binary op a b =>
    let (x, s) := a.eval s
    match op, b with
    | "~", .regex r => (ofBool (r.occursIn x), s)
    | "!~", .regex r => (ofBool (!r.occursIn x), s)
    | _, _ =>
      let (y, s) := b.eval s
      (applyBinary op x y, s)
  | .assign x op e =>
    let (value, s) := e.eval s
    let value := match op with
      | some op => applyBinary op ((s.vars.lookup x).getD []) value
      | none => value
    (value, { s with vars := (x, value) :: s.vars.filter (·.1 ≠ x) })

def printed (texts : List (List Char)) : List UInt8 :=
  let format := texts.headD []
  (formatOnce format.length format { args := texts.tail.map String.ofList }).bytes

abbrev Output := List UInt8 × Scope

def Statement.run (out : Output) : Statement → Output
  | .value e => (out.1, (e.eval out.2).2)
  | .print formatted values =>
    let (texts, s) := values.foldl (fun (texts, s) e =>
      let (v, s) := e.eval s
      (texts ++ [v], s)) (([] : List (List Char)), out.2)
    let line := if values.isEmpty then s.line else [' '].intercalate texts
    (out.1 ++ (if formatted then printed texts else bytesFrom line ++ [10]), s)

/-- Runs the rules that are meant for a moment. -/
def runRules (fits : Scope → Pattern → Bool × Scope) (rules : List Rule) (out : Output) : Output :=
  rules.foldl (fun out r =>
    let (selected, s) := fits out.2 r.pattern
    if selected then r.body.foldl Statement.run (out.1, s) else (out.1, s)) out

def runLine (rules : List Rule) (out : Output) (line : List UInt8) : Output :=
  runRules (fun s p => match p with
    | .always => (true, s)
    | .when e => let (value, s) := e.eval s; (isTrue value, s)
    | .start | .stop => (false, s)) rules
    (out.1, { out.2 with line := charsOf line, number := out.2.number + 1 })

def runAll (rules : List Rule) (s : Scope) (lines : List (List UInt8)) : List UInt8 :=
  let started := runRules (fun s p => (p matches .start, s)) rules ([], s)
  let read := if rules.all (·.pattern matches .start) then started
    else lines.foldl (runLine rules) started
  (runRules (fun s p => (p matches .stop, s)) rules read).1

def run (a : Arguments) : Run Nat := do
  match a.operands with
  | [] => return 2
  | text :: names =>
    let cs := charsOf (bytesOf text)
    match (tokens? (cs.length + 1) none cs).bind fun ts => rules? (ts.length + 1) ts with
    | none => return 2
    | some rules =>
      let contents ← (if names.isEmpty then ["-"] else names).mapM fetch?
      let separator := (a.value? 'F').bind (·.toList.head?)
      say (runAll rules { separator } ((contents.filterMap id).flatMap byteLines))
      return if contents.any Option.isNone then 2 else 0

end Awk

def awk : Program :=
  program "" "F" 2 Awk.run

end PbesLab.Shell
