import PbesLab.Formula.Basic

namespace PbesLab

inductive Fixpoint
  | mu
  | nu
deriving DecidableEq

def Fixpoint.text : Fixpoint → String
  | .mu => "mu"
  | .nu => "nu"

structure Equation where
  fixpoint : Fixpoint
  name : String
  params : List VarDecl
  rhs : Formula
deriving DecidableEq

def Equation.signature (e : Equation) : List DataSort :=
  e.params.map VarDecl.sort

def Equation.text (e : Equation) : String :=
  e.fixpoint.text ++ " " ++ e.name ++ argumentText (e.params.map VarDecl.text) ++
    " =\n    " ++ e.rhs.text ++ ";"

structure EqSystem where
  equations : List Equation
  init : Instance
deriving DecidableEq

/-- Node count first, then the number of leaves that are not constants. -/
structure Weight where
  size : Nat
  leaves : Nat
deriving DecidableEq

def Weight.lt (a b : Weight) : Prop :=
  a.size < b.size ∨ a.size = b.size ∧ a.leaves < b.leaves

instance : LT Weight := ⟨Weight.lt⟩

instance (a b : Weight) : Decidable (a < b) :=
  inferInstanceAs (Decidable (_ ∨ _))

namespace EqSystem

/-- The canonical text, without a final line end. -/
def text (s : EqSystem) : String :=
  "pbes\n" ++ String.join (s.equations.map fun e => "  " ++ e.text ++ "\n") ++
    "\ninit " ++ s.init.text ++ ";"

def size (s : EqSystem) : Nat :=
  s.equations.foldr (fun e n => 1 + e.rhs.size + n) 0

def looseLeaves (s : EqSystem) : Nat :=
  s.equations.foldr (fun e n => e.rhs.looseLeaves + n) 0

def weight (s : EqSystem) : Weight :=
  ⟨s.size, s.looseLeaves⟩

end EqSystem

end PbesLab
