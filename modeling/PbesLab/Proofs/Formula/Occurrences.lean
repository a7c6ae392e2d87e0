import PbesLab.Proofs.Formula.Preorder
import PbesLab.Proofs.Lists

namespace PbesLab

namespace Formula

def isInstanceOf (name : String) : Formula → Bool
  | inst x => x.name = name
  | _ => false

/-- The positions of the instances of a name, in ascending order. -/
def occurrences (name : String) (f : Formula) : List Nat :=
  (List.range f.size).filter fun i => (f.subterm? i).any (isInstanceOf name)

/-- How many instances of a name come before a position. -/
def countBefore (name : String) (f : Formula) (i : Nat) : Nat :=
  (f.occurrences name).countP (· < i)

section

variable {name : String} {f : Formula}

theorem lt_size_of_mem_occurrences {i : Nat} (hi : i ∈ f.occurrences name) : i < f.size :=
  List.mem_range.mp (List.mem_filter.mp hi).1

theorem exists_of_mem_occurrences {i : Nat} (hi : i ∈ f.occurrences name) :
    ∃ x : Instance, f.subterm? i = some (inst x) ∧ x.name = name := by
  have hany := (List.mem_filter.mp hi).2
  obtain ⟨t, ht⟩ := exists_subterm? (lt_size_of_mem_occurrences hi)
  rw [ht, Option.any_some] at hany
  cases t with
  | inst x => exact ⟨x, ht, of_decide_eq_true hany⟩
  | const b | val d | neg f | bin op l r | quant q v f => cases hany

theorem occurrences_inst (x : Instance) :
    (inst x).occurrences name = if x.name = name then [0] else [] := by
  by_cases hx : x.name = name
  · rw [if_pos hx]
    exact List.filter_cons_of_pos (decide_eq_true hx)
  · rw [if_neg hx]
    exact List.filter_cons_of_neg (by simpa [subterm?, isInstanceOf] using hx)

/-- The first position counts for an instance only. -/
theorem occurrences_of_size {n : Nat} (hf : f.isInstanceOf name = false) (hn : f.size = n + 1) :
    f.occurrences name =
      ((List.range n).filter fun i => (f.subterm? (i + 1)).any (isInstanceOf name)).map
        (· + 1) := by
  have hzero : (f.subterm? 0).any (isInstanceOf name) = false := by rwa [subterm?, Option.any_some]
  rw [occurrences, hn, List.range_succ_eq_map, List.filter_cons, hzero, List.filter_map]
  rfl

theorem occurrences_neg (f : Formula) :
    (neg f).occurrences name = (f.occurrences name).map (· + 1) :=
  occurrences_of_size rfl (Nat.add_comm 1 f.size)

theorem occurrences_quant (q : Quantifier) (v : VarDecl) (f : Formula) :
    (quant q v f).occurrences name = (f.occurrences name).map (· + 1) :=
  occurrences_of_size rfl (Nat.add_comm 1 f.size)

theorem occurrences_bin (op : Connective) (l r : Formula) : (bin op l r).occurrences name =
    (l.occurrences name).map (· + 1) ++ (r.occurrences name).map (l.size + · + 1) := by
  have hsize : (bin op l r).size = l.size + r.size + 1 := by
    simp only [size]
    omega
  rw [occurrences_of_size rfl hsize, List.range_add, List.filter_append, List.filter_map,
    List.map_append, List.map_map]
  congr 2
  · apply List.filter_congr
    intro i hi
    rw [subterm?, if_pos (List.mem_range.mp hi)]
  · apply List.filter_congr
    intro i _
    rw [Function.comp_apply, subterm?, if_neg (by omega), Nat.add_sub_cancel_left]

theorem countBefore_zero (f : Formula) : f.countBefore name 0 = 0 :=
  List.countP_eq_zero.mpr fun i _ => by simp

theorem countBefore_neg (f : Formula) (i : Nat) :
    (neg f).countBefore name (i + 1) = f.countBefore name i := by
  rw [countBefore, occurrences_neg, countP_map_succ, countBefore]

theorem countBefore_quant (q : Quantifier) (v : VarDecl) (f : Formula) (i : Nat) :
    (quant q v f).countBefore name (i + 1) = f.countBefore name i := by
  rw [countBefore, occurrences_quant, countP_map_succ, countBefore]

theorem countBefore_left (op : Connective) (l r : Formula) {i : Nat} (hi : i < l.size) :
    (bin op l r).countBefore name (i + 1) = l.countBefore name i := by
  have hnone : ((r.occurrences name).map (l.size + · + 1)).countP (· < i + 1) = 0 := by
    apply List.countP_eq_zero.mpr
    intro k hk
    obtain ⟨j, -, rfl⟩ := List.mem_map.mp hk
    rw [decide_eq_true_eq]
    omega
  rw [countBefore, occurrences_bin, List.countP_append, hnone, Nat.add_zero, countP_map_succ,
    countBefore]

theorem countBefore_right (op : Connective) (l r : Formula) (i : Nat) :
    (bin op l r).countBefore name (l.size + i + 1) =
      (l.occurrences name).length + r.countBefore name i := by
  have hall : ((l.occurrences name).map (· + 1)).countP (· < l.size + i + 1) =
      (l.occurrences name).length := by
    rw [List.countP_eq_length.mpr, List.length_map]
    intro k hk
    obtain ⟨j, hj, rfl⟩ := List.mem_map.mp hk
    have hlt := lt_size_of_mem_occurrences hj
    rw [decide_eq_true_eq]
    omega
  rw [countBefore, occurrences_bin, List.countP_append, hall, List.countP_map]
  simp only [countBefore, Function.comp_def, Nat.add_lt_add_iff_right, Nat.add_lt_add_iff_left]

end

section

variable (name : String) (g : Formula)

/-- What writing at a list of positions does to a part, it does to the part in its place. -/
theorem foldr_replaceAt_comp {f f' : Formula} {ps : List Nat}
    (hf : ∀ C : Context, ps.foldr (fun i e => e.replaceAt (C.position + i) g) (C.fill f) =
      C.fill f') (C D : Context) (move : Nat → Nat) (hmove : ∀ i, move i = D.position + i) :
    (ps.map move).foldr (fun i e => e.replaceAt (C.position + i) g) (C.fill (D.fill f)) =
      C.fill (D.fill f') := by
  have hplace : (fun (i : Nat) (e : Formula) => e.replaceAt (C.position + move i) g) =
      fun i e => e.replaceAt ((C.comp D).position + i) g := by
    funext i e
    rw [hmove, C.position_comp, Nat.add_assoc]
  rw [List.foldr_map, hplace, ← C.fill_comp, ← C.fill_comp]
  exact hf (C.comp D)

/-- Within any context, what comes of the instances of a name when they are written over one after
the other, the last one first. -/
theorem foldr_replaceAt_occurrences (f : Formula) (C : Context) :
    (f.occurrences name).foldr (fun i e => e.replaceAt (C.position + i) g) (C.fill f) =
      C.fill (substitute name g f) := by
  -- for any context, as an operand is written over where it stands
  induction f generalizing C with
  | const b | val d => rfl
  | inst x =>
    rw [occurrences_inst, substitute]
    by_cases hx : x.name = name
    · rw [if_pos hx, if_pos hx]
      exact C.replaceAt_fill (inst x) g
    · rw [if_neg hx, if_neg hx]
      rfl
  | neg f ih =>
    rw [occurrences_neg]
    exact foldr_replaceAt_comp g ih C (.neg .hole) (· + 1) (fun i => Nat.add_comm i 1)
  | quant q v f ih =>
    rw [occurrences_quant]
    exact foldr_replaceAt_comp g ih C (.quant q v .hole) (· + 1) (fun i => Nat.add_comm i 1)
  | bin op l r ihl ihr =>
    -- the right operand comes last, so it is through before the left one is touched
    have hr : ((r.occurrences name).map (l.size + · + 1)).foldr
        (fun i e => e.replaceAt (C.position + i) g) (C.fill (bin op l r)) =
          C.fill (bin op l (substitute name g r)) :=
      foldr_replaceAt_comp g ihr C (.right op l .hole) (l.size + · + 1)
        (fun i => Nat.add_right_comm l.size i 1)
    rw [occurrences_bin, List.foldr_append, hr]
    exact foldr_replaceAt_comp g ihl C (.left op .hole (substitute name g r)) (· + 1)
      (fun i => Nat.add_comm i 1)

theorem substitute_eq_foldl (f : Formula) : substitute name g f =
    (f.occurrences name).reverse.foldl (fun e i => e.replaceAt i g) f := by
  have h := foldr_replaceAt_occurrences name g f .hole
  simp only [Context.position, Nat.zero_add, Context.fill] at h
  rw [List.foldl_reverse]
  exact h.symm

theorem size_substitute (f : Formula) :
    (substitute name g f).size + (f.occurrences name).length =
      f.size + (f.occurrences name).length * g.size := by
  induction f with
  | const b | val d =>
    show 1 + 0 = 1 + 0 * g.size
    omega
  | inst x =>
    rw [occurrences_inst, substitute]
    by_cases hx : x.name = name
    · rw [if_pos hx, if_pos hx, List.length_singleton, Nat.one_mul, Nat.add_comm]
      rfl
    · rw [if_neg hx, if_neg hx, List.length_nil, Nat.zero_mul]
  | neg f ih | quant q v f ih =>
    simp only [occurrences_neg, occurrences_quant, List.length_map, substitute, size]
    omega
  | bin op l r ihl ihr =>
    simp only [occurrences_bin, List.length_append, List.length_map, Nat.add_mul, substitute, size]
    omega

end

end Formula

namespace Context

variable (name : String) (g : Formula)

/-- Puts `g` in the place of every instance of `name` around the hole. -/
def substitute (name : String) (g : Formula) : Context → Context
  | hole => hole
  | neg C => neg (C.substitute name g)
  | left op C r => left op (C.substitute name g) (Formula.substitute name g r)
  | right op l C => right op (Formula.substitute name g l) (C.substitute name g)
  | quant q v C => quant q v (C.substitute name g)

theorem substitute_fill (C : Context) (t : Formula) : Formula.substitute name g (C.fill t) =
    (C.substitute name g).fill (Formula.substitute name g t) := by
  induction C with
  | hole => rfl
  | neg C ih | quant q v C ih | left op C r ih | right op l C ih =>
    simp only [fill, substitute, Formula.substitute, ih]

/-- The hole moves by as much as the instances before it gain. -/
theorem position_substitute (C : Context) (t : Formula) :
    (C.substitute name g).position + (C.fill t).countBefore name C.position =
      C.position + (C.fill t).countBefore name C.position * g.size := by
  induction C with
  | hole =>
    simp only [position, substitute, Formula.countBefore_zero, Nat.zero_mul]
  | neg C ih | quant q v C ih =>
    simp only [fill, position, substitute, Formula.countBefore_neg, Formula.countBefore_quant]
    omega
  | left op C r ih =>
    simp only [fill, position, substitute, Formula.countBefore_left op _ r (C.position_lt t)]
    omega
  | right op l C ih =>
    have hl := Formula.size_substitute name g l
    simp only [fill, position, substitute, Formula.countBefore_right, Nat.add_mul]
    omega

end Context

namespace Formula

/-- Where a position comes to lie when `g` is put for the instances of a name: each instance before
it makes room for `g`. -/
def newPosition (name : String) (g f : Formula) (i : Nat) : Nat :=
  i + f.countBefore name i * g.size - f.countBefore name i

variable {name : String} {f g t : Formula} {i : Nat}

theorem newPosition_lt {j : Nat} (hij : i < j) :
    newPosition name g f i < newPosition name g f j := by
  have hmono : f.countBefore name i ≤ f.countBefore name j := by
    apply List.countP_mono_left
    intro k _ hk
    rw [decide_eq_true_eq] at hk ⊢
    omega
  obtain ⟨d, hd⟩ := Nat.exists_eq_add_of_le hmono
  have hfirst := Nat.le_mul_of_pos_right (f.countBefore name i) g.size_pos
  have hrest := Nat.le_mul_of_pos_right d g.size_pos
  rw [newPosition, newPosition, hd, Nat.add_mul]
  omega

/-- What comes of a subterm stands at the new position. -/
theorem subterm?_substitute (ht : f.subterm? i = some t) :
    (substitute name g f).subterm? (newPosition name g f i) = some (substitute name g t) := by
  obtain ⟨C, rfl, rfl⟩ := exists_context ht
  have hmove := C.position_substitute name g t
  have hplace : newPosition name g (C.fill t) C.position = (C.substitute name g).position := by
    unfold newPosition
    omega
  rw [hplace, C.substitute_fill name g, Context.subterm?_fill]

theorem subterm?_substitute_occurrence (hi : i ∈ f.occurrences name) :
    (substitute name g f).subterm? (newPosition name g f i) = some g := by
  obtain ⟨x, hx, hname⟩ := exists_of_mem_occurrences hi
  rw [subterm?_substitute hx, substitute, if_pos hname]

/-- Putting `g` for the instances of a name is writing it at their positions, from the last to the
first. At the place of an instance stands `g` as it is, all else keeps its place in the order, and
the size grows by what each instance gains. -/
theorem substitute_eq_replacements (name : String) (g f : Formula) :
    substitute name g f =
        (f.occurrences name).reverse.foldl (fun e i => e.replaceAt i g) f ∧
      (∀ i ∈ f.occurrences name,
        (substitute name g f).subterm? (newPosition name g f i) = some g) ∧
      (∀ i t, f.subterm? i = some t →
        (substitute name g f).subterm? (newPosition name g f i) = some (substitute name g t)) ∧
      (∀ i j, i < j → newPosition name g f i < newPosition name g f j) ∧
      (substitute name g f).size =
        f.size + (f.occurrences name).length * g.size - (f.occurrences name).length := by
  have hsize := size_substitute name g f
  exact ⟨substitute_eq_foldl name g f, fun i => subterm?_substitute_occurrence,
    fun i t => subterm?_substitute, fun i j => newPosition_lt, by omega⟩

/-- `X && !(Y || X)`. -/
def repeatedInstance : Formula :=
  .bin .and (.inst ⟨"X", []⟩) (.neg (.bin .or (.inst ⟨"Y", []⟩) (.inst ⟨"X", []⟩)))

/-- What is put in is an instance of the name again, `!X`, and stays as it is. -/
theorem repeatedInstance_substitute : repeatedInstance.occurrences "X" = [1, 5] ∧
    (substitute "X" (.neg (.inst ⟨"X", []⟩)) repeatedInstance).subterm? 6 =
      some (.neg (.inst ⟨"X", []⟩)) ∧
    (substitute "X" (.neg (.inst ⟨"X", []⟩)) repeatedInstance).size = 8 := by
  have hoccurrences : repeatedInstance.occurrences "X" = [1, 5] := by decide
  have hmem : 5 ∈ repeatedInstance.occurrences "X" := by decide
  obtain ⟨-, hplaces, -, -, hsize⟩ :=
    substitute_eq_replacements "X" (.neg (.inst ⟨"X", []⟩)) repeatedInstance
  rw [hoccurrences] at hsize
  exact ⟨hoccurrences, hplaces 5 hmem, hsize⟩

end Formula

end PbesLab
