import PbesLab.Formula.Basic

namespace PbesLab.Formula

def leaves : Formula → List Formula
  | const b => [const b]
  | val d => [val d]
  | inst i => [inst i]
  | neg f | quant _ _ f => f.leaves
  | bin _ l r => l.leaves ++ r.leaves

def instances : Formula → List Instance
  | const _ | val _ => []
  | inst i => [i]
  | neg f | quant _ _ f => f.instances
  | bin _ l r => l.instances ++ r.instances

/-- The declarations of the quantifiers, outer ones before inner ones. -/
def binders : Formula → List VarDecl
  | const _ | val _ | inst _ => []
  | neg f => f.binders
  | bin _ l r => l.binders ++ r.binders
  | quant _ v f => v :: f.binders

def instance? : Formula → Option Instance
  | inst i => some i
  | _ => none

theorem filterMap_instance?_leaves (f : Formula) : f.leaves.filterMap instance? = f.instances := by
  induction f with
  | const b | val d | inst i => rfl
  | neg f ih | quant q v f ih => exact ih
  | bin op l r ihl ihr => rw [leaves, List.filterMap_append, ihl, ihr, instances]

end PbesLab.Formula
