import PbesLab.Shell.Numeral
import PbesLab.Shell.Process
import PbesLab.Shell.Token

namespace PbesLab.Shell.Arithmetic

inductive Expr
  | number (value : Int)
  | name (x : String)
  | unary (op : String) (body : Expr)
  | binary (op : String) (left right : Expr)

/-- The binary operators, from those that bind least to those that bind most. -/
def levels : List (List String) :=
  [["||"], ["&&"], ["==", "!="], ["<=", ">=", "<", ">"], ["+", "-"], ["*", "/", "%"]]

def operators : List String :=
  ["<=", ">=", "==", "!=", "&&", "||", "+", "-", "*", "/", "%", "<", ">", "!", "(", ")"]

def skipBlanks (cs : List Char) : List Char :=
  cs.dropWhile Numeral.isBlank

def take? (op : String) (cs : List Char) : Option (List Char) :=
  let cs := skipBlanks cs
  if (operators.find? fun t => t.toList.isPrefixOf cs) = some op then some (cs.drop op.length)
  else none

def takeOne? (ops : List String) (cs : List Char) : Option (String × List Char) :=
  ops.findSome? fun op => (take? op cs).map fun rest => (op, rest)

abbrev Parsed := Option (Expr × List Char)

-- The first argument of all of these bounds the number of steps.
mutual

def levelAt : Nat → List (List String) → List Char → Parsed
  | 0, _, _ => none
  | fuel + 1, [], cs => unaryAt fuel cs
  | fuel + 1, ops :: higher, cs => do
    let (first, rest) ← levelAt fuel higher cs
    moreAt fuel ops higher first rest

def moreAt : Nat → List String → List (List String) → Expr → List Char → Parsed
  | 0, _, _, _, _ => none
  | fuel + 1, ops, higher, first, cs =>
    match takeOne? ops cs with
    | none => some (first, cs)
    | some (op, rest) => do
      let (second, rest) ← levelAt fuel higher rest
      moreAt fuel ops higher (.binary op first second) rest

def unaryAt : Nat → List Char → Parsed
  | 0, _ => none
  | fuel + 1, cs =>
    match takeOne? ["!", "-", "+"] cs with
    | some (op, rest) => do
      let (body, rest) ← unaryAt fuel rest
      return (.unary op body, rest)
    | none =>
      match take? "(" cs with
      | some rest => do
        let (body, rest) ← levelAt fuel levels rest
        return (body, ← take? ")" rest)
      | none =>
        let cs := skipBlanks cs
        if cs.head?.any Lexer.isNameStart then
          some (.name (String.ofList (cs.takeWhile Lexer.isNameChar)),
            cs.dropWhile Lexer.isNameChar)
        else (Numeral.natural? cs).map fun (n, rest) => (.number n, rest)

end

def read? (text : String) : Option Expr := do
  let cs := skipBlanks text.toList
  if cs.isEmpty then return .number 0
  let (e, rest) ← levelAt (16 * cs.length + 16) levels cs
  if (skipBlanks rest).isEmpty then return e else none

def ofBool (b : Bool) : Int :=
  if b then 1 else 0

/-- The value of a binary operator, unless it divides by zero. -/
def applyBinary? (op : String) (a b : Int) : Option Int :=
  match op with
  | "||" => some (ofBool (a != 0 || b != 0))
  | "&&" => some (ofBool (a != 0 && b != 0))
  | "==" => some (ofBool (a == b))
  | "!=" => some (ofBool (a != b))
  | "<" => some (ofBool (a < b))
  | "<=" => some (ofBool (a ≤ b))
  | ">" => some (ofBool (a > b))
  | ">=" => some (ofBool (a ≥ b))
  | "+" => some (a + b)
  | "-" => some (a - b)
  | "*" => some (a * b)
  | "/" => if b = 0 then none else some (a.tdiv b)
  | "%" => if b = 0 then none else some (a.tmod b)
  | _ => none

def applyUnary (op : String) (a : Int) : Int :=
  match op with
  | "!" => ofBool (a == 0)
  | "-" => -a
  | _ => a

def Expr.value? (p : Process) : Expr → Option Int
  | .number n => some n
  | .name x =>
    match p.var? x with
    | some v => if v.value.toList.all Numeral.isBlank then some 0
      else Numeral.integer? Numeral.natural? v.value
    | none => if p.options.refuseUnset then none else some 0
  | .unary op e => (e.value? p).map (applyUnary op)
  | .binary op a b => do applyBinary? op (← a.value? p) (← b.value? p)

def evaluate (text : String) : Run Int := do
  match (read? text).bind (Expr.value? (← get)) with
  | some n => return n
  | none => give

end PbesLab.Shell.Arithmetic
