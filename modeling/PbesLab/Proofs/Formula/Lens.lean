import PbesLab.Proofs.Formula.Preorder
import Mathlib.Data.Nat.PSub

namespace PbesLab

namespace Formula

variable {f g t : Formula} {i : Nat}

theorem replaceAt_of_size_le (hi : f.size ≤ i) : f.replaceAt i g = f := by
  fun_induction f.replaceAt i g with
  | case1 f g =>
    have hpos := f.size_pos
    omega
  | case2 f i g ih | case3 q v f i g ih | case5 op l r i g hl ih =>
    simp only [size] at hi
    rw [ih (by omega)]
  | case4 op l r i g hl ih =>
    simp only [size] at hi
    omega
  | case6 => rfl

end Formula

namespace Context

/-- Behind the hole the same stands, whatever fills it. -/
theorem subterm?_fill_after (C : Context) (t u : Formula) (k : Nat) :
    (C.fill t).subterm? (k + t.size + C.position) =
      (C.fill u).subterm? (k + u.size + C.position) := by
  induction C with
  | hole =>
    have hnone (w : Formula) : w.subterm? (k + w.size) = none :=
      Formula.subterm?_eq_none_iff.mpr (Nat.le_add_left _ _)
    exact (hnone t).trans (hnone u).symm
  | neg C ih | quant q v C ih => exact ih
  | left op C r ih =>
    simp only [fill, position, ← Nat.add_assoc, Formula.subterm?, size_fill]
    by_cases hk : k + C.position < C.size
    · rw [if_pos (by omega), if_pos (by omega)]
      exact ih
    · -- how far it is into the right operand does not depend on the filling
      have hrest (w : Formula) : k + w.size + C.position - (C.size + w.size) =
          k + C.position - C.size := by omega
      rw [if_neg (by omega), if_neg (by omega), hrest, hrest]
  | right op l C ih =>
    have hrest (w : Formula) : k + w.size + l.size + C.position - l.size =
        k + w.size + C.position := by omega
    simp only [fill, position, ← Nat.add_assoc, Formula.subterm?]
    rw [if_neg (by omega), if_neg (by omega), hrest, hrest]
    exact ih

/-- What is written behind the hole becomes part of the context. -/
theorem exists_replaceAt_fill_after (C : Context) (h : Formula) (k : Nat) :
    ∃ D : Context, D.position = C.position ∧
      ∀ t, (C.fill t).replaceAt (k + t.size + C.position) h = D.fill t := by
  induction C with
  | hole => exact ⟨hole, rfl, fun t => Formula.replaceAt_of_size_le (Nat.le_add_left _ _)⟩
  | neg C ih =>
    obtain ⟨D, hD, hfill⟩ := ih
    exact ⟨neg D, congrArg (· + 1) hD, fun t => congrArg Formula.neg (hfill t)⟩
  | quant q v C ih =>
    obtain ⟨D, hD, hfill⟩ := ih
    exact ⟨quant q v D, congrArg (· + 1) hD, fun t => congrArg (Formula.quant q v) (hfill t)⟩
  | left op C r ih =>
    by_cases hk : k + C.position < C.size
    · obtain ⟨D, hD, hfill⟩ := ih
      refine ⟨left op D r, congrArg (· + 1) hD, fun t => ?_⟩
      simp only [fill, position, ← Nat.add_assoc, Formula.replaceAt, size_fill]
      rw [if_pos (by omega), hfill]
    · refine ⟨left op C (r.replaceAt (k + C.position - C.size) h), rfl, fun t => ?_⟩
      have hrest : k + t.size + C.position - (C.size + t.size) = k + C.position - C.size := by omega
      simp only [fill, position, ← Nat.add_assoc, Formula.replaceAt, size_fill]
      rw [if_neg (by omega), hrest]
  | right op l C ih =>
    obtain ⟨D, hD, hfill⟩ := ih
    refine ⟨right op l D, by simp only [position, hD], fun t => ?_⟩
    have hrest : k + t.size + l.size + C.position - l.size = k + t.size + C.position := by omega
    simp only [fill, position, ← Nat.add_assoc, Formula.replaceAt]
    rw [if_neg (by omega), hrest, hfill]

end Context

namespace Formula

variable {f g h t u : Formula} {i j : Nat}

/-- What ends before a position is not changed by writing there. -/
theorem subterm?_replaceAt_before (hu : f.subterm? j = some u) (hj : j + u.size ≤ i) :
    (f.replaceAt i g).subterm? j = some u := by
  obtain ⟨C, rfl, rfl⟩ := exists_context hu
  obtain ⟨D, hD, hfill⟩ := C.exists_replaceAt_fill_after g (i - u.size - C.position)
  have hi : i = i - u.size - C.position + u.size + C.position := by omega
  rw [hi, hfill, ← hD]
  exact D.subterm?_fill u

/-- What comes after the subterm at a position moves with its end. -/
theorem subterm?_replaceAt_after (ht : f.subterm? i = some t) (hj : i + t.size ≤ j) :
    (f.replaceAt i g).subterm? (j - t.size + g.size) = f.subterm? j := by
  obtain ⟨C, rfl, rfl⟩ := exists_context ht
  have hold : j = j - t.size - C.position + t.size + C.position := by omega
  have hnew : j - t.size + g.size = j - t.size - C.position + g.size + C.position := by omega
  rw [C.replaceAt_fill, hnew, C.subterm?_fill_after g t, ← hold]

/-- Writing at two positions with disjoint subterms can be done in either order. -/
theorem replaceAt_comm (ht : f.subterm? i = some t) (hj : i + t.size ≤ j) :
    (f.replaceAt i g).replaceAt (j - t.size + g.size) h = (f.replaceAt j h).replaceAt i g := by
  obtain ⟨C, rfl, rfl⟩ := exists_context ht
  obtain ⟨D, hD, hfill⟩ := C.exists_replaceAt_fill_after h (j - t.size - C.position)
  have hold : j = j - t.size - C.position + t.size + C.position := by omega
  have hnew : j - t.size + g.size = j - t.size - C.position + g.size + C.position := by omega
  calc ((C.fill t).replaceAt C.position g).replaceAt (j - t.size + g.size) h
      = D.fill g := by rw [C.replaceAt_fill, hnew, hfill]
    _ = (D.fill t).replaceAt C.position g := by rw [← hD, D.replaceAt_fill]
    _ = ((C.fill t).replaceAt j h).replaceAt C.position g := by rw [← hfill, ← hold]

/-- The laws of reading and writing at a position of `f` where `t` stands. -/
structure LensAt (f : Formula) (i : Nat) (t : Formula) : Prop where
  read : f.subterm? i = some t
  write_read : f.replaceAt i t = f
  read_write (g : Formula) : (f.replaceAt i g).subterm? i = some g
  write_write (g h : Formula) : (f.replaceAt i g).replaceAt i h = f.replaceAt i h
  size_write (g : Formula) : (f.replaceAt i g).size + t.size = f.size + g.size
  /-- What comes after the subterm moves with its end. -/
  read_after (g : Formula) {j : Nat} : i + t.size ≤ j →
    (f.replaceAt i g).subterm? (j - t.size + g.size) = f.subterm? j
  /-- What ends before the position stays where it is. -/
  read_before (g : Formula) {j : Nat} {u : Formula} : f.subterm? j = some u → j + u.size ≤ i →
    (f.replaceAt i g).subterm? j = some u
  /-- The order of two changes that do not overlap does not matter. -/
  write_after (g h : Formula) {j : Nat} : i + t.size ≤ j →
    (f.replaceAt i g).replaceAt (j - t.size + g.size) h = (f.replaceAt j h).replaceAt i g

theorem lensAt (ht : f.subterm? i = some t) : f.LensAt i t := by
  obtain ⟨C, rfl, rfl⟩ := exists_context ht
  exact {
    read := ht
    write_read := C.replaceAt_fill t t
    read_write := fun g => by rw [C.replaceAt_fill, C.subterm?_fill]
    write_write := fun g h => by rw [C.replaceAt_fill, C.replaceAt_fill, C.replaceAt_fill]
    size_write := fun g => by
      rw [C.replaceAt_fill, C.size_fill, C.size_fill]
      omega
    read_after := fun g => subterm?_replaceAt_after ht
    read_before := fun g => subterm?_replaceAt_before
    write_after := fun g h => replaceAt_comm ht }

def totalSize (fs : List Formula) : Nat :=
  fs.foldr (fun f n => f.size + n) 0

theorem size_eq_children (f : Formula) : f.size = 1 + totalSize f.children := by
  cases f with
  | const b | val d | inst i | neg f | quant q v f => rfl
  | bin op l r => exact Nat.add_assoc 1 l.size r.size

mutual

/-- Reading, with every subtraction on the way. The formula itself counts one, each operand that is
passed by counts its size, and a subtraction that would go below zero has no result. -/
def seek? (f : Formula) (i : Nat) : Option (Option Formula) :=
  if i = 0 then some (some f) else do seekAmong? f.children (← i.ppred)
termination_by (f.size, 0)
decreasing_by
  rw [size_eq_children f]
  exact Prod.Lex.left _ _ (by omega)

def seekAmong? (fs : List Formula) (i : Nat) : Option (Option Formula) :=
  match fs with
  | [] => some none
  | c :: cs => if i < c.size then c.seek? i else do seekAmong? cs (← i.psub c.size)
termination_by (totalSize fs, 1)
decreasing_by
  · have htotal : totalSize (c :: cs) = c.size + totalSize cs := rfl
    rw [htotal]
    by_cases hcs : totalSize cs = 0
    · rw [hcs]
      exact Prod.Lex.right _ Nat.one_pos
    · exact Prod.Lex.left _ _ (by omega)
  · have htotal : totalSize (c :: cs) = c.size + totalSize cs := rfl
    have hpos := c.size_pos
    exact Prod.Lex.left _ _ (by omega)

end

/-- Writing, with every subtraction on the way. -/
def put? (f : Formula) (i : Nat) (g : Formula) : Option Formula :=
  if i = 0 then some g else do
    let i ← i.ppred
    match f with
    | neg f => return neg (← f.put? i g)
    | quant q v f => return quant q v (← f.put? i g)
    | bin op l r =>
      if i < l.size then return bin op (← l.put? i g) r
      else return bin op l (← r.put? (← i.psub l.size) g)
    | f => return f

theorem seek?_succ (f : Formula) (i : Nat) : f.seek? (i + 1) = seekAmong? f.children i := by
  rw [seek?, if_neg (Nat.succ_ne_zero i), Nat.ppred_succ]
  rfl

theorem seekAmong?_cons_of_lt {c : Formula} {cs : List Formula} {i : Nat} (hi : i < c.size) :
    seekAmong? (c :: cs) i = c.seek? i := by
  rw [seekAmong?, if_pos hi]

theorem seekAmong?_cons_of_le {c : Formula} {cs : List Formula} {i : Nat} (hi : c.size ≤ i) :
    seekAmong? (c :: cs) i = seekAmong? cs (i - c.size) := by
  rw [seekAmong?, if_neg (Nat.not_lt.mpr hi), Nat.psub_eq_sub hi]
  rfl

theorem seekAmong?_singleton {c : Formula} (hc : ∀ i, c.seek? i = some (c.subterm? i)) (i : Nat) :
    seekAmong? [c] i = some (c.subterm? i) := by
  by_cases hi : i < c.size
  · rw [seekAmong?_cons_of_lt hi, hc]
  · have hle : c.size ≤ i := by omega
    rw [seekAmong?_cons_of_le hle, subterm?_eq_none_iff.mpr hle, seekAmong?]

theorem seek?_eq (f : Formula) (i : Nat) : f.seek? i = some (f.subterm? i) := by
  induction f generalizing i with
  | const b | val d | inst j =>
    cases i with
    | zero => rw [seek?, if_pos rfl, subterm?]
    | succ i =>
      rw [seek?_succ, children, seekAmong?]
      rfl
  | neg f ih | quant q v f ih =>
    cases i with
    | zero => rw [seek?, if_pos rfl, subterm?]
    | succ i => rw [seek?_succ, children, seekAmong?_singleton ih, subterm?]
  | bin op l r ihl ihr =>
    cases i with
    | zero => rw [seek?, if_pos rfl, subterm?]
    | succ i =>
      rw [seek?_succ, children, subterm?]
      by_cases hi : i < l.size
      · rw [seekAmong?_cons_of_lt hi, ihl, if_pos hi]
      · rw [seekAmong?_cons_of_le (by omega), seekAmong?_singleton ihr, if_neg hi]

theorem put?_eq (f : Formula) (i : Nat) (g : Formula) : f.put? i g = some (f.replaceAt i g) := by
  induction f generalizing i with
  | const b | val d | inst j => cases i <;> rfl
  | neg f ih | quant q v f ih =>
    cases i with
    | zero => rfl
    | succ i =>
      rw [put?, if_neg (Nat.succ_ne_zero i), Nat.ppred_succ, replaceAt]
      simp only [Option.bind_eq_bind, Option.bind_some, ih]
      rfl
  | bin op l r ihl ihr =>
    cases i with
    | zero => rfl
    | succ i =>
      rw [put?, if_neg (Nat.succ_ne_zero i), Nat.ppred_succ, replaceAt]
      by_cases hi : i < l.size
      · simp only [Option.bind_eq_bind, Option.bind_some, if_pos hi, ihl]
        rfl
      · have hsub : i.psub l.size = some (i - l.size) := Nat.psub_eq_sub (by omega)
        simp only [Option.bind_eq_bind, Option.bind_some, if_neg hi, hsub, ihr]
        rfl

/-- Positions below the size are lawful places to read and write, positions from there on change
nothing, and no subtraction on the way to a position goes below zero. -/
theorem lawful_positions (f : Formula) :
    (∀ i < f.size, ∃ t, f.LensAt i t) ∧ (∀ i, f.size ≤ i → ∀ g, f.replaceAt i g = f) ∧
      ∀ i, f.seek? i = some (f.subterm? i) ∧ ∀ g, f.put? i g = some (f.replaceAt i g) := by
  refine ⟨?_, fun i hi g => replaceAt_of_size_le hi, fun i => ⟨seek?_eq f i, put?_eq f i⟩⟩
  intro i hi
  obtain ⟨t, ht⟩ := exists_subterm? hi
  exact ⟨t, lensAt ht⟩

/-- `(X && !Y) => (X || Y)`. -/
def absorption : Formula :=
  .bin .imp (.bin .and (.inst ⟨"X", []⟩) (.neg (.inst ⟨"Y", []⟩)))
    (.bin .or (.inst ⟨"X", []⟩) (.inst ⟨"Y", []⟩))

theorem absorption_lawful : 1 < absorption.size ∧ ∃ t, absorption.LensAt 1 t ∧ 1 + t.size ≤ 6 ∧
    (absorption.replaceAt 1 (.const true)).subterm? 3 = absorption.subterm? 6 := by
  have hi : 1 < absorption.size := by decide
  obtain ⟨t, ht⟩ := (lawful_positions absorption).1 1 hi
  obtain rfl : t = .bin .and (.inst ⟨"X", []⟩) (.neg (.inst ⟨"Y", []⟩)) :=
    Option.some.inj (ht.read.symm.trans rfl)
  have hj : 1 + size (.bin .and (.inst ⟨"X", []⟩) (.neg (.inst ⟨"Y", []⟩))) ≤ 6 := by decide
  exact ⟨hi, _, ht, hj, ht.read_after (.const true) hj⟩

end Formula

end PbesLab
