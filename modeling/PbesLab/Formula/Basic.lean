import PbesLab.Data.Basic

namespace PbesLab

/-- An equation name applied to data, such as `X1(m, 0)`. -/
structure Instance where
  name : String
  args : List DataExpr
deriving DecidableEq

inductive Connective
  | and
  | or
  | imp
deriving DecidableEq

inductive Quantifier
  | all
  | ex
deriving DecidableEq

inductive Formula
  | const (value : Bool)
  | val (data : DataExpr)
  | inst (i : Instance)
  | neg (body : Formula)
  | bin (op : Connective) (left right : Formula)
  | quant (q : Quantifier) (bound : VarDecl) (body : Formula)
deriving DecidableEq

def Connective.text : Connective → String
  | .and => "&&"
  | .or => "||"
  | .imp => "=>"

def Quantifier.text : Quantifier → String
  | .all => "forall"
  | .ex => "exists"

def argumentText (items : List String) : String :=
  if items.isEmpty then "" else "(" ++ String.intercalate ", " items ++ ")"

def Instance.text (i : Instance) : String :=
  i.name ++ argumentText (i.args.map DataExpr.text)

def Instance.vars (i : Instance) : List String :=
  i.args.flatMap DataExpr.vars

namespace Formula

/-- A binary data expression brings the parentheses that `val` needs. -/
def text : Formula → String
  | const b => boolText b
  | val d => if d.isBinary then "val" ++ d.text else "val(" ++ d.text ++ ")"
  | inst i => i.text
  | neg f => "!" ++ f.text
  | bin op l r => "(" ++ l.text ++ " " ++ op.text ++ " " ++ r.text ++ ")"
  | quant q v f => "(" ++ q.text ++ " " ++ v.text ++ ". " ++ f.text ++ ")"

def size : Formula → Nat
  | const _ | val _ | inst _ => 1
  | neg f | quant _ _ f => 1 + f.size
  | bin _ l r => 1 + l.size + r.size

def looseLeaves : Formula → Nat
  | const _ => 0
  | val _ | inst _ => 1
  | neg f | quant _ _ f => f.looseLeaves
  | bin _ l r => l.looseLeaves + r.looseLeaves

def children : Formula → List Formula
  | const _ | val _ | inst _ => []
  | neg f | quant _ _ f => [f]
  | bin _ l r => [l, r]

/-- The variables that no quantifier binds, once for each occurrence. -/
def freeVars : Formula → List String
  | const _ => []
  | val d => d.vars
  | inst i => i.vars
  | neg f => f.freeVars
  | bin _ l r => l.freeVars ++ r.freeVars
  | quant _ v f => f.freeVars.filter (· ≠ v.name)

def substitute (name : String) (g : Formula) : Formula → Formula
  | inst i => if i.name = name then g else inst i
  | neg f => neg (substitute name g f)
  | bin op l r => bin op (substitute name g l) (substitute name g r)
  | quant q v f => quant q v (substitute name g f)
  | f => f

end Formula

end PbesLab
