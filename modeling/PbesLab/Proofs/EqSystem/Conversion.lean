import PbesLab.EqSystem.Reader
import PbesLab.Proofs.Grammar.Shape

namespace PbesLab

open Grammar.Tree (Node nodes)

inductive Misfit
  | unexpectedRule (rule : SystemRule)
  | ruleNotFound (rule : SystemRule)
deriving DecidableEq

namespace Conversion

variable {α : Type}

def next (wanted : SystemRule) : List α → Except Misfit (α × List α)
  | [] => .error (.ruleNotFound wanted)
  | x :: xs => .ok (x, xs)

def expect (wanted : SystemRule) (n : Node SystemRule) : Except Misfit Unit :=
  if n.rule = wanted then .ok () else .error (.unexpectedRule n.rule)

def chain (wanted : SystemRule) (op : α → α → α) (operands : List (Except Misfit α)) :
    Except Misfit α := do
  let (first, rest) ← next wanted operands
  let x ← first
  return (← rest.mapM id).foldl op x

def nameOf (n : Node SystemRule) : Except Misfit String := do
  expect .identifier n
  return String.ofList (Grammar.Tree.textOf n.parts)

def sortOf (n : Node SystemRule) : Except Misfit DataSort := do
  let (m, _) ← next .sort n.inner
  match m.rule with
  | .boolSort => return .bool
  | .natSort => return .nat
  | r => .error (.unexpectedRule r)

def declOf (n : Node SystemRule) : Except Misfit VarDecl := do
  expect .varDecl n
  let (x, rest) ← next .identifier n.inner
  let x ← nameOf x
  let (s, _) ← next .sort rest
  return ⟨x, ← sortOf s⟩

def comparisonOf (n : Node SystemRule) : Except Misfit DataOp := do
  let (m, _) ← next .compareOp n.inner
  match m.rule with
  | .equal => return .equal
  | .less => return .less
  | .greater => return .greater
  | r => .error (.unexpectedRule r)

def dataOf (n : Node SystemRule) : Except Misfit DataExpr :=
  match n.rule with
  | .number => match Meaning.number? (Grammar.Tree.textOf n.parts) with
    | some v => return .nat v
    | none => .error (.unexpectedRule .number)
  | .trueLit => return .bool true
  | .falseLit => return .bool false
  | .identifier => return .var (← nameOf n)
  | .dataSum => chain .dataSum (.binary .plus) (n.inner.attach.map fun ⟨m, _⟩ => dataOf m)
  | .dataExpr => do
    let (left, rest) ← next .dataSum (n.inner.attach.map fun ⟨m, _⟩ => dataOf m)
    let left ← left
    match n.inner.tail with
    | [] => return left
    | op :: _ =>
      let (right, _) ← next .dataSum rest.tail
      let right ← right
      return .binary (← comparisonOf op) left right
  | r => .error (.unexpectedRule r)
termination_by sizeOf n.parts
decreasing_by
  all_goals exact Grammar.Tree.sizeOf_lt_of_mem_nodes (by assumption)

def instanceOf (n : Node SystemRule) : Except Misfit Instance := do
  expect .inst n
  let (x, args) ← next .identifier n.inner
  return ⟨← nameOf x, ← args.mapM dataOf⟩

def formulaOf (n : Node SystemRule) : Except Misfit Formula :=
  match n.rule with
  | .expr => do
    let (body, _) ← next .implication (n.inner.attach.map fun ⟨m, _⟩ => formulaOf m)
    body
  | .implication => do
    let (premise, rest) ← next .disjunction (n.inner.attach.map fun ⟨m, _⟩ => formulaOf m)
    let premise ← premise
    match rest with
    | [] => return premise
    | conclusion :: _ => return .bin .imp premise (← conclusion)
  | .disjunction => chain .disjunction (.bin .or) (n.inner.attach.map fun ⟨m, _⟩ => formulaOf m)
  | .conjunction => chain .conjunction (.bin .and) (n.inner.attach.map fun ⟨m, _⟩ => formulaOf m)
  | .negation => do
    let (body, _) ← next .negation (n.inner.attach.map fun ⟨m, _⟩ => formulaOf m)
    return .neg (← body)
  | .quantifier => do
    let (kind, rest) ← next .quantifier n.inner
    let (v, _) ← next .varDecl rest
    let v ← declOf v
    let (body, _) ← next .expr ((n.inner.attach.map fun ⟨m, _⟩ => formulaOf m).drop 2)
    let body ← body
    match kind.rule with
    | .all => return .quant .all v body
    | .ex => return .quant .ex v body
    | r => .error (.unexpectedRule r)
  | .trueLit => return .const true
  | .falseLit => return .const false
  | .val => do
    let (d, _) ← next .dataExpr n.inner
    return .val (← dataOf d)
  | .inst => return .inst (← instanceOf n)
  | r => .error (.unexpectedRule r)
termination_by sizeOf n.parts
decreasing_by
  all_goals exact Grammar.Tree.sizeOf_lt_of_mem_nodes (by assumption)

def fixpointOf (n : Node SystemRule) : Except Misfit Fixpoint := do
  let (m, _) ← next .fixpoint n.inner
  match m.rule with
  | .mu => return .mu
  | .nu => return .nu
  | r => .error (.unexpectedRule r)

/-- Parameters and a right-hand side in any order. Of several right-hand sides the last counts. -/
def rest : List (Node SystemRule) → List VarDecl → Option Formula →
    Except Misfit (List VarDecl × Option Formula)
  | [], params, rhs => return (params, rhs)
  | n :: ns, params, rhs =>
    match n.rule with
    | .varDecl => do rest ns (params ++ [← declOf n]) rhs
    | .expr => do rest ns params (some (← formulaOf n))
    | r => .error (.unexpectedRule r)

def equationOf (n : Node SystemRule) : Except Misfit Equation := do
  expect .equation n
  let (fix, ns) ← next .fixpoint n.inner
  let fix ← fixpointOf fix
  let (x, ns) ← next .identifier ns
  let x ← nameOf x
  match ← rest ns [] none with
  | (params, some rhs) => return ⟨fix, x, params, rhs⟩
  | (_, none) => .error (.ruleNotFound .expr)

def initOf (n : Node SystemRule) : Except Misfit Instance := do
  let (i, _) ← next .inst n.inner
  instanceOf i

/-- Equations and an initial instance in any order. Of several instances the last counts. -/
def entries : List (Node SystemRule) → List Equation → Option Instance →
    Except Misfit (List Equation × Option Instance)
  | [], equations, init => return (equations, init)
  | n :: ns, equations, init =>
    match n.rule with
    | .equation => do entries ns (equations ++ [← equationOf n]) init
    | .init => do entries ns equations (some (← initOf n))
    | .endOfInput => entries ns equations init
    | r => .error (.unexpectedRule r)

def systemOf (n : Node SystemRule) : Except Misfit EqSystem := do
  expect .system n
  match ← entries n.inner [] none with
  | (equations, some init) => return ⟨equations, init⟩
  | (_, none) => .error (.ruleNotFound .init)

/-- From the root down, each rule asks for the nodes that it needs, one after the other. It may find
another node than it can use, or none; nodes that it does not ask for are left out. -/
def ofTree (t : Grammar.Tree SystemRule) : Except Misfit EqSystem := do
  let (n, _) ← next .system (nodes [t])
  systemOf n

end Conversion

end PbesLab
