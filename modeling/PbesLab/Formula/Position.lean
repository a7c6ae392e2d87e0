import PbesLab.Formula.Basic

namespace PbesLab.Formula

/-- The subterm at a position, if the formula has that many nodes. Positions count them in preorder,
from 0 for the formula itself. -/
def subterm? : Formula → Nat → Option Formula
  | f, 0 => some f
  | neg f, i + 1 | quant _ _ f, i + 1 => f.subterm? i
  | bin _ l r, i + 1 => if i < l.size then l.subterm? i else r.subterm? (i - l.size)
  | _, _ + 1 => none

/-- Puts `g` at a position; a position outside changes nothing. -/
def replaceAt : Formula → Nat → Formula → Formula
  | _, 0, g => g
  | neg f, i + 1, g => neg (f.replaceAt i g)
  | quant q v f, i + 1, g => quant q v (f.replaceAt i g)
  | bin op l r, i + 1, g =>
    if i < l.size then bin op (l.replaceAt i g) r else bin op l (r.replaceAt (i - l.size) g)
  | f, _ + 1, _ => f

end PbesLab.Formula
