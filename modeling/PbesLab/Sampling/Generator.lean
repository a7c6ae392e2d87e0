import PbesLab.Sampling.Draw
import PbesLab.EqSystem.Basic

namespace PbesLab.Sampling

/-- Quantified variables range over the numbers below this. -/
def quantifierBound : UInt32 := 3

def constantCount : Nat := 3

def parameterPool : List VarDecl :=
  [⟨"b", .bool⟩, ⟨"m", .nat⟩, ⟨"n", .nat⟩]

def quantifierPool : List VarDecl :=
  [⟨"k", .nat⟩, ⟨"l", .nat⟩]

structure Header where
  name : String
  params : List VarDecl

structure Settings where
  equations : Nat
  atoms : Nat
  instances : Nat
  quantifiers : Bool

def Settings.quantified (c : Settings) : List VarDecl :=
  if c.quantifiers then quantifierPool else []

def equationName (i : Nat) : String :=
  "X" ++ toString i

def parameters : Rand (List VarDecl) := do
  let count ← below64 (parameterPool.length + 1)
  let chosen ← sample parameterPool.length count
  return (chosen.mergeSort fun i j => i ≤ j).filterMap (parameterPool[·]?)

def constant : DataSort → Rand DataExpr
  | .bool => return .bool (← flip)
  | .nat => return .nat (UInt32.ofNat (← below32 constantCount))

def truth : Rand Formula := do
  return .const (← flip)

def operand (scope : List VarDecl) (s : DataSort) : Rand DataExpr := do
  let fitting := scope.filter (·.sort = s)
  if fitting.isEmpty then return ← constant s
  if ← chance .threeTenths then return ← constant s
  match ← choose? fitting with
  | some v => return .var v.name
  | none => constant s

def comparison : Nat → DataOp
  | 0 => .less
  | 1 => .greater
  | _ => .equal

def atom (scope : List VarDecl) : Rand Formula := do
  match ← choose? scope with
  | none => truth
  | some ⟨x, .bool⟩ => return .val (.var x)
  | some ⟨x, .nat⟩ => do
    let right ← constant .nat
    let op := comparison (← below32 3)
    return .val (.binary op (.var x) right)

def randomInstance (headers : List Header) (scope : List VarDecl) : Rand Formula := do
  match headers[← below64 headers.length]? with
  | some h => return .inst ⟨h.name, ← h.params.mapM fun p => operand scope p.sort⟩
  | none => return .const true

def firstFree? (vars : List VarDecl) (f : Formula) : Option VarDecl :=
  vars.find? (·.name ∈ f.freeVars)

/-- Binds the first of the variables that is free, and bounds it. -/
def quantify (vars : List VarDecl) (f : Formula) : Rand Formula := do
  match firstFree? vars f with
  | none => return f
  | some v =>
    let guard := Formula.val (.binary .less (.var v.name) (.nat quantifierBound))
    if ← flip then return .quant .all v (.bin .imp guard f)
    else return .quant .ex v (.bin .and guard f)

/-- Binds what is free; each round binds another variable. -/
def close (vars : List VarDecl) : Nat → Formula → Rand Formula
  | 0, f => return f
  | rounds + 1, f => do
    if (firstFree? vars f).isNone then return f
    close vars rounds (← quantify vars f)

def connective : Nat → Connective
  | 0 => .and
  | 1 => .or
  | _ => .imp

/-- Joins two terms, and sometimes negates or quantifies the result. -/
def join (vars : List VarDecl) (left right : Formula) : Rand Formula := do
  let joined := Formula.bin (connective (← below32 3)) left right
  let signed := if ← chance .fifth then .neg joined else joined
  if ← chance .threeTenths then quantify vars signed else return signed

/-- Joins the last two of the shuffled terms until one is left. -/
def combine (vars : List VarDecl) : Nat → List Formula → Rand (List Formula)
  | 0, terms => return terms
  | rounds + 1, terms => do
    if terms.length ≤ 1 then return terms
    let shuffled ← shuffle terms
    match shuffled.reverse with
    | left :: right :: rest => do
      let joined ← join vars left right
      combine vars rounds (rest.reverse ++ [joined])
    | _ => return shuffled

def terms (c : Settings) (headers : List Header) (scope : List VarDecl) : Rand (List Formula) := do
  let atoms ← (List.replicate c.atoms ()).mapM fun _ => atom scope
  let instances ← (List.replicate c.instances ()).mapM fun _ => randomInstance headers scope
  let drawn := atoms ++ instances
  if drawn.isEmpty then return [← truth] else return drawn

def equation (c : Settings) (headers : List Header) (h : Header) : Rand Equation := do
  let vars := c.quantified
  let drawn ← terms c headers (h.params ++ vars)
  let combined ← combine vars drawn.length drawn
  let rhs ← close vars vars.length (combined.getLastD (.const true))
  let fix := if ← flip then Fixpoint.mu else .nu
  return ⟨fix, h.name, h.params, rhs⟩

def initialValue : DataSort → DataExpr
  | .bool => .bool true
  | .nat => .nat 0

/-- At least one equation; the first is where the system starts. -/
def generate (c : Settings) : Rand EqSystem := do
  let headers ← (List.range (max c.equations 1)).mapM fun i => return ⟨equationName i, ← parameters⟩
  let equations ← headers.mapM (equation c headers)
  let first := headers.headD ⟨equationName 0, []⟩
  return ⟨equations, ⟨first.name, first.params.map fun p => initialValue p.sort⟩⟩

end PbesLab.Sampling
