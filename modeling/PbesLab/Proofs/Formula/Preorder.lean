import PbesLab.Proofs.Formula.Context

namespace PbesLab

namespace Formula

variable {f t : Formula} {i : Nat}

/-- The formula itself, then the subterms of its operands from left to right. -/
def preorder (f : Formula) : List Formula :=
  f :: match f with
    | const _ | val _ | inst _ => []
    | neg g | quant _ _ g => g.preorder
    | bin _ l r => l.preorder ++ r.preorder

theorem preorder_eq_cons (f : Formula) : f.preorder = f :: f.children.flatMap preorder := by
  cases f with
  | const b | val d | inst i => rfl
  | neg g | quant q v g | bin op l r =>
    simp only [preorder, children, List.flatMap_cons, List.flatMap_nil, List.append_nil]

theorem length_preorder (f : Formula) : f.preorder.length = f.size := by
  induction f with
  | const b | val d | inst i => rfl
  | neg g ih | quant q v g ih =>
    simp only [preorder, size, List.length_cons, ih]
    omega
  | bin op l r ihl ihr =>
    simp only [preorder, size, List.length_cons, List.length_append, ihl, ihr]
    omega

theorem getElem?_preorder (f : Formula) (i : Nat) : f.preorder[i]? = f.subterm? i := by
  fun_induction f.subterm? i with
  | case1 f => rw [preorder_eq_cons, List.getElem?_cons_zero]
  | case2 i f ih => exact ih
  | case3 q v f i ih => exact ih
  | case4 op l r i hi ih =>
    rw [preorder, List.getElem?_cons_succ, List.getElem?_append_left (by rwa [length_preorder]), ih]
  | case5 op l r i hi ih =>
    have hge : l.preorder.length ≤ i := by
      rw [length_preorder]
      omega
    rw [preorder, List.getElem?_cons_succ, List.getElem?_append_right hge, length_preorder, ih]
  | case6 f i hneg hquant hbin =>
    cases f with
    | const b | val d | inst j => rfl
    | neg g => exact absurd rfl (hneg g)
    | quant q v g => exact absurd rfl (hquant q v g)
    | bin op l r => exact absurd rfl (hbin op l r)

theorem subterm?_eq_none_iff : f.subterm? i = none ↔ f.size ≤ i := by
  rw [← getElem?_preorder, List.getElem?_eq_none_iff, length_preorder]

theorem exists_subterm? (hi : i < f.size) : ∃ t, f.subterm? i = some t := by
  apply Option.ne_none_iff_exists'.mp
  intro hnone
  have hle := subterm?_eq_none_iff.mp hnone
  omega

/-- Below a position, the subterm there has positions of its own. -/
theorem subterm?_add (ht : f.subterm? i = some t) {j : Nat} (hj : j < t.size) :
    f.subterm? (i + j) = t.subterm? j := by
  obtain ⟨u, hu⟩ := exists_subterm? hj
  obtain ⟨C, rfl, rfl⟩ := exists_context ht
  obtain ⟨D, rfl, rfl⟩ := exists_context hu
  rw [← C.position_comp, ← C.fill_comp, Context.subterm?_fill, Context.subterm?_fill]

theorem replaceAt_add (ht : f.subterm? i = some t) {j : Nat} (hj : j < t.size) (g : Formula) :
    f.replaceAt (i + j) g = f.replaceAt i (t.replaceAt j g) := by
  obtain ⟨u, hu⟩ := exists_subterm? hj
  obtain ⟨C, rfl, rfl⟩ := exists_context ht
  obtain ⟨D, rfl, rfl⟩ := exists_context hu
  calc (C.fill (D.fill u)).replaceAt (C.position + D.position) g
      = (C.comp D).fill g := by
        rw [← C.position_comp, ← C.fill_comp, Context.replaceAt_fill]
    _ = (C.fill (D.fill u)).replaceAt C.position ((D.fill u).replaceAt D.position g) := by
        rw [C.fill_comp, D.replaceAt_fill, C.replaceAt_fill]

/-- Counting through the positions visits the formula and then its operands from left to right, and
ends with its size. Positions add up along the way down. -/
theorem positions_preorder (f : Formula) :
    (List.range f.size).map f.subterm? = f.preorder.map some ∧
      (∀ t : Formula, t.preorder = t :: t.children.flatMap preorder) ∧
      (∀ i, f.subterm? i = none ↔ f.size ≤ i) ∧
      ∀ i < f.size, ∃ t, f.subterm? i = some t ∧ ∀ j < t.size,
        f.subterm? (i + j) = t.subterm? j ∧
          ∀ g, f.replaceAt (i + j) g = f.replaceAt i (t.replaceAt j g) := by
  refine ⟨?_, preorder_eq_cons, fun i => subterm?_eq_none_iff, ?_⟩
  · apply List.ext_getElem?
    intro i
    rw [List.getElem?_map, List.getElem?_map, getElem?_preorder]
    by_cases hi : i < f.size
    · obtain ⟨t, ht⟩ := exists_subterm? hi
      rw [List.getElem?_range hi, ht]
      exact congrArg some ht
    · rw [List.getElem?_eq_none (by rw [List.length_range]; omega),
        subterm?_eq_none_iff.mpr (by omega)]
      rfl
  · intro i hi
    obtain ⟨t, ht⟩ := exists_subterm? hi
    exact ⟨t, ht, fun j hj => ⟨subterm?_add ht hj, replaceAt_add ht hj⟩⟩

/-- `!X => forall b: Bool. (val(b) && Y)`. -/
def nestedImplication : Formula :=
  .bin .imp (.neg (.inst ⟨"X", []⟩))
    (.quant .all ⟨"b", .bool⟩ (.bin .and (.val (.var "b")) (.inst ⟨"Y", []⟩)))

/-- The conjunction stands at position 4, and `Y` at position 2 within it. -/
theorem nestedImplication_preorder : 4 < nestedImplication.size ∧
    ∃ t, nestedImplication.subterm? 4 = some t ∧ 2 < t.size ∧
      nestedImplication.subterm? 6 = some (.inst ⟨"Y", []⟩) ∧
      nestedImplication.replaceAt 6 (.const true) =
        nestedImplication.replaceAt 4 (.bin .and (.val (.var "b")) (.const true)) := by
  have hi : 4 < nestedImplication.size := by decide
  obtain ⟨-, -, -, hadd⟩ := positions_preorder nestedImplication
  obtain ⟨t, ht, hbelow⟩ := hadd 4 hi
  obtain rfl : t = .bin .and (.val (.var "b")) (.inst ⟨"Y", []⟩) :=
    Option.some.inj (ht.symm.trans rfl)
  have hj : 2 < size (.bin .and (.val (.var "b")) (.inst ⟨"Y", []⟩)) := by decide
  obtain ⟨hread, hwrite⟩ := hbelow 2 hj
  exact ⟨hi, _, ht, hj, hread, hwrite (.const true)⟩

end Formula

end PbesLab
