import PbesLab.Formula.Position
import Mathlib.Tactic.Common

namespace PbesLab

inductive Context
  | hole
  | neg (body : Context)
  | left (op : Connective) (body : Context) (right : Formula)
  | right (op : Connective) (left : Formula) (body : Context)
  | quant (q : Quantifier) (bound : VarDecl) (body : Context)

namespace Context

def fill : Context → Formula → Formula
  | hole, t => t
  | neg C, t => .neg (C.fill t)
  | left op C r, t => .bin op (C.fill t) r
  | right op l C, t => .bin op l (C.fill t)
  | quant q v C, t => .quant q v (C.fill t)

def size : Context → Nat
  | hole => 0
  | neg C | quant _ _ C => 1 + C.size
  | left _ C r => 1 + C.size + r.size
  | right _ l C => 1 + l.size + C.size

def looseLeaves : Context → Nat
  | hole => 0
  | neg C | quant _ _ C => C.looseLeaves
  | left _ C r => C.looseLeaves + r.looseLeaves
  | right _ l C => l.looseLeaves + C.looseLeaves

def position : Context → Nat
  | hole => 0
  | neg C | quant _ _ C | left _ C _ => C.position + 1
  | right _ l C => l.size + C.position + 1

end Context

theorem Formula.size_pos (f : Formula) : 0 < f.size := by
  cases f <;> simp only [size] <;> omega

namespace Context

theorem size_fill (C : Context) (t : Formula) : (C.fill t).size = C.size + t.size := by
  induction C <;> simp only [fill, size, Formula.size] <;> omega

theorem looseLeaves_fill (C : Context) (t : Formula) :
    (C.fill t).looseLeaves = C.looseLeaves + t.looseLeaves := by
  induction C <;> simp only [fill, looseLeaves, Formula.looseLeaves] <;> omega

theorem position_le_size (C : Context) : C.position ≤ C.size := by
  induction C <;> simp only [position, size] <;> omega

theorem position_lt (C : Context) (t : Formula) : C.position < (C.fill t).size := by
  have hle := C.position_le_size
  have hpos := t.size_pos
  rw [size_fill]
  omega

theorem subterm?_fill (C : Context) (t : Formula) : (C.fill t).subterm? C.position = some t := by
  induction C with
  | hole => cases t <;> rfl
  | neg C ih | quant q v C ih => exact ih
  | left op C r ih =>
    have hlt := C.position_lt t
    simp only [fill, position, Formula.subterm?, if_pos hlt]
    exact ih
  | right op l C ih =>
    -- the whole left operand comes before the hole
    have hge : ¬ l.size + C.position < l.size := by omega
    have hrest : l.size + C.position - l.size = C.position := by omega
    simp only [fill, position, Formula.subterm?, if_neg hge, hrest]
    exact ih

theorem replaceAt_fill (C : Context) (t u : Formula) :
    (C.fill t).replaceAt C.position u = C.fill u := by
  induction C with
  | hole => cases t <;> rfl
  | neg C ih => exact congrArg Formula.neg ih
  | quant q v C ih => exact congrArg (Formula.quant q v) ih
  | left op C r ih =>
    have hlt := C.position_lt t
    simp only [fill, position, Formula.replaceAt, if_pos hlt, ih]
  | right op l C ih =>
    have hge : ¬ l.size + C.position < l.size := by omega
    have hrest : l.size + C.position - l.size = C.position := by omega
    simp only [fill, position, Formula.replaceAt, if_neg hge, hrest, ih]

def comp : Context → Context → Context
  | hole, D => D
  | neg C, D => neg (C.comp D)
  | left op C r, D => left op (C.comp D) r
  | right op l C, D => right op l (C.comp D)
  | quant q v C, D => quant q v (C.comp D)

theorem fill_comp (C D : Context) (t : Formula) : (C.comp D).fill t = C.fill (D.fill t) := by
  induction C with
  | hole => rfl
  | neg C ih | quant q v C ih | left op C r ih | right op l C ih => simp only [comp, fill, ih]

theorem position_comp (C D : Context) : (C.comp D).position = C.position + D.position := by
  induction C with
  | hole => simp only [comp, position, Nat.zero_add]
  | neg C ih | quant q v C ih | left op C r ih | right op l C ih =>
    simp only [comp, position, ih]
    omega

end Context

/-- Every position of a formula is that of a hole. -/
theorem Formula.exists_context {f t : Formula} {i : Nat} (h : f.subterm? i = some t) :
    ∃ C : Context, C.position = i ∧ C.fill t = f := by
  fun_induction f.subterm? i with
  | case1 f => exact ⟨.hole, rfl, (Option.some.inj h).symm⟩
  | case2 i f ih =>
    obtain ⟨C, rfl, rfl⟩ := ih h
    exact ⟨.neg C, rfl, rfl⟩
  | case3 q v f i ih =>
    obtain ⟨C, rfl, rfl⟩ := ih h
    exact ⟨.quant q v C, rfl, rfl⟩
  | case4 op l r i hi ih =>
    obtain ⟨C, rfl, rfl⟩ := ih h
    exact ⟨.left op C r, rfl, rfl⟩
  | case5 op l r i hi ih =>
    obtain ⟨C, hC, rfl⟩ := ih h
    refine ⟨.right op l C, ?_, rfl⟩
    simp only [Context.position]
    omega
  | case6 => cases h

end PbesLab
