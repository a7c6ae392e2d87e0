import PbesLab.Formula.Position
import PbesLab.EqSystem.Basic

namespace PbesLab

namespace Formula

/-- The parts that may stand for the whole: operands, and the body of a quantifier that binds
nothing. -/
def parts : Formula → List Formula
  | neg f => [f]
  | bin _ l r => [l, r]
  | quant _ v f => if v.name ∈ f.freeVars then [] else [f]
  | _ => []

/-- What may replace a formula: a constant or one of its parts, if that is something else. -/
def reductions (f : Formula) : List Formula :=
  ([const true, const false] ++ f.parts).filter (· ≠ f)

/-- The results of one reduction at some position, in preorder. -/
def reducts (f : Formula) : List Formula :=
  (List.range f.size).flatMap fun i =>
    match f.subterm? i with
    | some t => t.reductions.map (f.replaceAt i)
    | none => []

end Formula

def changeOne {α : Type} (changes : α → List α) : List α → List (List α)
  | [] => []
  | x :: xs => (changes x).map (· :: xs) ++ (changeOne changes xs).map (x :: ·)

namespace EqSystem

/-- Drops all equations of a name and puts a constant in the place of its instances. -/
def remove (s : EqSystem) (name : String) (value : Bool) : EqSystem :=
  { s with equations := (s.equations.filter (·.name ≠ name)).map fun e =>
      { e with rhs := .substitute name (.const value) e.rhs } }

/-- The removals of equations on which the system does not start. -/
def removals (s : EqSystem) : List EqSystem :=
  (s.equations.filter (·.name ≠ s.init.name)).flatMap fun e =>
    [s.remove e.name true, s.remove e.name false]

def reducts (s : EqSystem) : List EqSystem :=
  (changeOne (fun e => e.rhs.reducts.map fun f => { e with rhs := f }) s.equations).map
    fun equations => { s with equations }

/-- Removals of equations come first, then reductions inside the equations in order. They need not
keep the system well-formed. -/
def reductions (s : EqSystem) : List EqSystem :=
  s.removals ++ s.reducts

end EqSystem

end PbesLab
