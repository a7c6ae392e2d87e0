import PbesLab.EqSystem.Grammar
import PbesLab.Grammar.Meaning
import PbesLab.EqSystem.Check

namespace PbesLab

inductive Meaning
  | nothing
  | name (x : String)
  | sort (s : DataSort)
  | decl (v : VarDecl)
  | op (o : DataOp)
  | data (d : DataExpr)
  | inst (i : Instance)
  | formula (f : Formula)
  | quantifier (q : Quantifier)
  | fixpoint (f : Fixpoint)
  | equation (e : Equation)
  | init (i : Instance)
  | system (s : EqSystem)

namespace Meaning

def decl? : Meaning → Option VarDecl
  | decl v => some v
  | _ => none

/-- A name where data is expected is a variable. -/
def data? : Meaning → Option DataExpr
  | data d => some d
  | name x => some (.var x)
  | formula (.const b) => some (.bool b)
  | _ => none

def formula? : Meaning → Option Formula
  | formula f => some f
  | inst i => some (.inst i)
  | _ => none

def equation? : Meaning → Option Equation
  | equation e => some e
  | _ => none

def chain {α : Type} (op : α → α → α) : List α → Option α
  | [] => none
  | x :: xs => some (xs.foldl op x)

/-- A natural number that fits into 32 bits. -/
def number? (digits : List Char) : Option UInt32 :=
  let n := Nat.ofDigitChars 10 digits 0
  if n < UInt32.size then some (UInt32.ofNat n) else none

def equationOf? : List Meaning → Option Meaning
  | .fixpoint fix :: .name x :: rest => do
    let rhs ← (← rest.getLast?).formula?
    let params ← rest.dropLast.mapM decl?
    return .equation ⟨fix, x, params, rhs⟩
  | _ => none

def systemOf? (parts : List Meaning) : Option Meaning :=
  match parts.reverse with
  | .nothing :: .init i :: equations => do
    let equations ← equations.reverse.mapM equation?
    return .system ⟨equations, i⟩
  | _ => none

def ofNode? : SystemRule → List (Grammar.Tree SystemRule) → List Meaning → Option Meaning
  | .endOfInput, _, _ => some .nothing
  | .identifier, parts, _ => some (.name (String.ofList (Grammar.Tree.textOf parts)))
  | .system, _, parts => systemOf? parts
  | .equation, _, parts => equationOf? parts
  | .init, _, [.inst i] => some (.init i)
  | .mu, _, _ => some (.fixpoint .mu)
  | .nu, _, _ => some (.fixpoint .nu)
  | .fixpoint, _, [.fixpoint f] => some (.fixpoint f)
  | .varDecl, _, [.name x, .sort s] => some (.decl ⟨x, s⟩)
  | .boolSort, _, _ => some (.sort .bool)
  | .natSort, _, _ => some (.sort .nat)
  | .sort, _, [.sort s] => some (.sort s)
  | .inst, _, .name x :: args => do return .inst ⟨x, ← args.mapM data?⟩
  | .expr, _, [m] => m.formula?.map .formula
  | .implication, _, [p] => p.formula?.map .formula
  | .implication, _, [p, q] => do return .formula (.bin .imp (← p.formula?) (← q.formula?))
  | .disjunction, _, parts => do
    return .formula (← chain (.bin .or) (← parts.mapM formula?))
  | .conjunction, _, parts => do
    return .formula (← chain (.bin .and) (← parts.mapM formula?))
  | .negation, _, [m] => do return .formula (.neg (← m.formula?))
  | .all, _, _ => some (.quantifier .all)
  | .ex, _, _ => some (.quantifier .ex)
  | .quantifier, _, [.quantifier q, .decl v, m] => do return .formula (.quant q v (← m.formula?))
  | .trueLit, _, _ => some (.formula (.const true))
  | .falseLit, _, _ => some (.formula (.const false))
  | .val, _, [m] => do return .formula (.val (← m.data?))
  | .equal, _, _ => some (.op .equal)
  | .less, _, _ => some (.op .less)
  | .greater, _, _ => some (.op .greater)
  | .compareOp, _, [.op o] => some (.op o)
  | .dataExpr, _, [m] => m.data?.map .data
  | .dataExpr, _, [l, .op o, r] => do return .data (.binary o (← l.data?) (← r.data?))
  | .dataSum, _, parts => do return .data (← chain (.binary .plus) (← parts.mapM data?))
  | .number, parts, _ => (number? (Grammar.Tree.textOf parts)).map (.data ∘ .nat)
  | _, _, _ => none

end Meaning

inductive ReadFault
  | malformedText (report : Grammar.Report)
  | unexpectedNode (rule : SystemRule)
  | fault (f : Fault)
deriving DecidableEq

def ReadFault.message : ReadFault → String
  | malformedText r => "Syntax Error:\n" ++ r.text
  | unexpectedNode r => "Parsing Error: unexpected rule - " ++ r.name
  | fault f => f.message

namespace EqSystem

def tree (text : String) : Except ReadFault (Grammar.Tree SystemRule) :=
  match Grammar.read? SystemRule.rules .system text.toList with
  | some t => .ok t
  | none => .error (.malformedText (Grammar.report SystemRule.rules .system text.toList))

def ofTree (t : Grammar.Tree SystemRule) : Except ReadFault EqSystem :=
  match t.meanings Meaning.ofNode? with
  | .ok [.system s] => .ok s
  | .ok _ => .error (.unexpectedNode .system)
  | .error r => .error (.unexpectedNode r)

/-- The system that a text spells, if it is closed and well-typed. -/
def read (text : String) : Except ReadFault EqSystem := do
  let s ← ofTree (← tree text)
  (s.check).mapError .fault
  return s

end EqSystem

end PbesLab
