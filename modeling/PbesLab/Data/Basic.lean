namespace PbesLab

inductive DataSort
  | bool
  | nat
deriving DecidableEq

def DataSort.text : DataSort → String
  | .bool => "Bool"
  | .nat => "Nat"

structure VarDecl where
  name : String
  sort : DataSort
deriving DecidableEq

def VarDecl.text (v : VarDecl) : String :=
  v.name ++ ": " ++ v.sort.text

inductive DataOp
  | plus
  | less
  | greater
  | equal
deriving DecidableEq

def DataOp.text : DataOp → String
  | .plus => "+"
  | .less => "<"
  | .greater => ">"
  | .equal => "=="

inductive DataExpr
  | var (name : String)
  | nat (value : UInt32)
  | bool (value : Bool)
  | binary (op : DataOp) (left right : DataExpr)
deriving DecidableEq

def boolText (b : Bool) : String :=
  if b then "true" else "false"

namespace DataExpr

/-- Every binary expression carries its own parentheses. -/
def text : DataExpr → String
  | var x => x
  | nat n => toString n.toNat
  | bool b => boolText b
  | binary op l r => "(" ++ l.text ++ " " ++ op.text ++ " " ++ r.text ++ ")"

def isBinary : DataExpr → Bool
  | binary .. => true
  | _ => false

/-- The variables from left to right, once for each occurrence. -/
def vars : DataExpr → List String
  | var x => [x]
  | nat _ | bool _ => []
  | binary _ l r => l.vars ++ r.vars

end DataExpr

end PbesLab
