import PbesLab.Proofs.Shrink.Rewriting
import Mathlib.Algebra.Order.BigOperators.Group.List
import Mathlib.Algebra.Order.Group.Nat
import Mathlib.Algebra.Ring.Nat

namespace PbesLab

namespace Formula

variable {t u : Formula}

def Flips (t u : Formula) : Prop :=
  ∃ b, t = const b ∧ u = const !b

theorem weight_of_mem_parts (hu : u ∈ t.parts) :
    u.size < t.size ∧ u.looseLeaves ≤ t.looseLeaves := by
  cases t with
  | const b | val d | inst i => simp [parts] at hu
  | neg f =>
    obtain rfl : u = f := by simpa [parts] using hu
    simp only [size, looseLeaves]
    omega
  | bin op l r =>
    obtain rfl | rfl : u = l ∨ u = r := by simpa [parts] using hu
    · simp only [size, looseLeaves]
      omega
    · simp only [size, looseLeaves]
      omega
  | quant q v f =>
    obtain ⟨-, rfl⟩ : v.name ∉ f.freeVars ∧ u = f := by simpa [parts] using hu
    simp only [size, looseLeaves]
    omega

/-- A constant in the place of something else. -/
theorem weight_of_const {b : Bool} (hne : const b ≠ t) :
    1 < t.size ∨ t.size = 1 ∧ 0 < t.looseLeaves ∨ t.Flips (const b) := by
  cases t with
  | const b' =>
    have hb : b = !b' := by
      cases b <;> cases b' <;> first | rfl | exact absurd rfl hne
    exact .inr (.inr ⟨b', rfl, congrArg const hb⟩)
  | val d | inst i => exact .inr (.inl ⟨rfl, Nat.one_pos⟩)
  | neg f | quant q v f =>
    have hf := f.size_pos
    simp only [size]
    omega
  | bin op l r =>
    have hl := l.size_pos
    simp only [size]
    omega

/-- A reduction takes nodes away, or turns a leaf into a constant, or turns a constant over. -/
theorem weight_of_mem_reductions (hu : u ∈ t.reductions) :
    u.size < t.size ∧ u.looseLeaves ≤ t.looseLeaves ∨
      u.size = t.size ∧ u.looseLeaves < t.looseLeaves ∨ t.Flips u := by
  obtain ⟨hmem, hne⟩ := List.mem_filter.mp hu
  have hne : u ≠ t := by simpa using hne
  obtain ⟨b, rfl⟩ | hu : (∃ b, u = const b) ∨ u ∈ t.parts := by
    simp only [List.cons_append, List.nil_append, List.mem_cons] at hmem
    obtain rfl | rfl | hu := hmem
    · exact .inl ⟨true, rfl⟩
    · exact .inl ⟨false, rfl⟩
    · exact .inr hu
  · have hsize : (const b).size = 1 := rfl
    have hloose : (const b).looseLeaves = 0 := rfl
    obtain h | h | h := weight_of_const hne
    · exact .inl (by omega)
    · exact .inr (.inl (by omega))
    · exact .inr (.inr h)
  · exact .inl (weight_of_mem_parts hu)

theorem size_substitute_const (name : String) (value : Bool) (f : Formula) :
    (substitute name (const value) f).size = f.size := by
  induction f with
  | const b | val d => rfl
  | inst i =>
    unfold substitute
    split <;> rfl
  | neg f ih | quant q v f ih => simp only [substitute, size, ih]
  | bin op l r ihl ihr => simp only [substitute, size, ihl, ihr]

theorem looseLeaves_substitute_const_le (name : String) (value : Bool) (f : Formula) :
    (substitute name (const value) f).looseLeaves ≤ f.looseLeaves := by
  induction f with
  | const b | val d => exact Nat.le_refl _
  | inst i =>
    unfold substitute
    split
    · exact Nat.zero_le _
    · exact Nat.le_refl _
  | neg f ih | quant q v f ih => exact ih
  | bin op l r ihl ihr => exact Nat.add_le_add ihl ihr

end Formula

namespace EqSystem

variable {s q : EqSystem}

theorem size_eq_sum (s : EqSystem) : s.size = (s.equations.map fun e => 1 + e.rhs.size).sum := by
  obtain ⟨equations, i⟩ := s
  induction equations with
  | nil => rfl
  | cons e es ih => exact congrArg (1 + e.rhs.size + ·) ih

theorem looseLeaves_eq_sum (s : EqSystem) :
    s.looseLeaves = (s.equations.map fun e => e.rhs.looseLeaves).sum := by
  obtain ⟨equations, i⟩ := s
  induction equations with
  | nil => rfl
  | cons e es ih => exact congrArg (e.rhs.looseLeaves + ·) ih

/-- A changed right-hand side changes the components by as much as its own differ. -/
theorem weight_with_rhs (before after : List Equation) (e : Equation) (i : Instance)
    (g : Formula) :
    size ⟨before ++ { e with rhs := g } :: after, i⟩ + e.rhs.size =
        size ⟨before ++ e :: after, i⟩ + g.size ∧
      looseLeaves ⟨before ++ { e with rhs := g } :: after, i⟩ + e.rhs.looseLeaves =
        looseLeaves ⟨before ++ e :: after, i⟩ + g.looseLeaves := by
  constructor
  · simp only [size_eq_sum, List.map_append, List.map_cons, List.sum_append, List.sum_cons]
    omega
  · simp only [looseLeaves_eq_sum, List.map_append, List.map_cons, List.sum_append, List.sum_cons]
    omega

/-- Rewriting changes the components by as much as the two subterms differ. -/
theorem Rewrites.weight {R : Formula → Formula → Prop} (h : s.Rewrites R q) :
    ∃ t u, R t u ∧ q.size + t.size = s.size + u.size ∧
      q.looseLeaves + t.looseLeaves = s.looseLeaves + u.looseLeaves := by
  obtain @⟨before, e, after, i, C, t, u, hR, he⟩ := h
  obtain ⟨hsize, hloose⟩ := weight_with_rhs before after e i (C.fill u)
  rw [he, Context.size_fill, Context.size_fill] at hsize
  rw [he, Context.looseLeaves_fill, Context.looseLeaves_fill] at hloose
  exact ⟨t, u, hR, by omega, by omega⟩

/-- Removing an equation takes away its own nodes at least. -/
theorem weight_remove {e : Equation} (he : e ∈ s.equations) (value : Bool) :
    (s.remove e.name value).size < s.size ∧
      (s.remove e.name value).looseLeaves ≤ s.looseLeaves := by
  have hsize : (s.remove e.name value).size =
      ((s.equations.filter (·.name ≠ e.name)).map fun e => 1 + e.rhs.size).sum := by
    simp only [size_eq_sum, remove, List.map_map, Function.comp_def,
      Formula.size_substitute_const]
  have hloose : (s.remove e.name value).looseLeaves ≤
      ((s.equations.filter (·.name ≠ e.name)).map fun e => e.rhs.looseLeaves).sum := by
    simp only [looseLeaves_eq_sum, remove, List.map_map]
    apply List.sum_le_sum
    intro e' _
    exact Formula.looseLeaves_substitute_const_le _ _ _
  obtain ⟨before, after, hsplit⟩ := List.append_of_mem he
  -- what stays is among the other equations
  have hrest : (s.equations.filter (·.name ≠ e.name)).Sublist (before ++ after) := by
    rw [hsplit, List.filter_append, List.filter_cons_of_neg (by simp)]
    exact List.filter_sublist.append List.filter_sublist
  constructor
  · have hle := (hrest.map fun e => 1 + e.rhs.size).sum_le_sum fun _ _ => Nat.zero_le _
    rw [hsize, size_eq_sum, hsplit]
    rw [hsplit] at hle
    simp only [List.map_append, List.map_cons, List.sum_append, List.sum_cons] at hle ⊢
    omega
  · have hle := (hrest.map fun e => e.rhs.looseLeaves).sum_le_sum fun _ _ => Nat.zero_le _
    apply hloose.trans
    apply hle.trans
    rw [looseLeaves_eq_sum, hsplit]
    simp only [List.map_append, List.map_cons, List.sum_append, List.sum_cons]
    omega

theorem weight_of_mem_removals (hq : q ∈ s.removals) :
    q.size < s.size ∧ q.looseLeaves ≤ s.looseLeaves := by
  simp only [removals, List.mem_flatMap, List.mem_filter, List.mem_cons, List.not_mem_nil,
    or_false] at hq
  obtain ⟨e, ⟨he, -⟩, rfl | rfl⟩ := hq
  · exact weight_remove he true
  · exact weight_remove he false

/-- A step takes nodes away, or only turns a leaf into a constant, or turns a constant over. -/
theorem weight_of_mem_reductions (hq : q ∈ s.reductions) :
    q.size < s.size ∧ q.looseLeaves ≤ s.looseLeaves ∨
      q.size = s.size ∧ q.looseLeaves < s.looseLeaves ∨ s.Rewrites Formula.Flips q := by
  obtain hq | hq := List.mem_append.mp hq
  · exact .inl (weight_of_mem_removals hq)
  · obtain @⟨before, e, after, i, C, t, u, hu, he⟩ := mem_reducts_iff_rewrites.mp hq
    have hstep : Rewrites (fun t' u' => t' = t ∧ u' = u) ⟨before ++ e :: after, i⟩
        ⟨before ++ { e with rhs := C.fill u } :: after, i⟩ := .intro C ⟨rfl, rfl⟩ he
    obtain ⟨_, _, ⟨rfl, rfl⟩, hsize, hloose⟩ := hstep.weight
    obtain h | h | h := Formula.weight_of_mem_reductions hu
    · exact .inl (by omega)
    · exact .inr (.inl (by omega))
    · exact .inr (.inr (.intro C h he))

theorem Rewrites.weight_eq (h : s.Rewrites Formula.Flips q) : q.weight = s.weight := by
  obtain ⟨_, _, ⟨b, rfl, rfl⟩, hsize, hloose⟩ := h.weight
  have hb : (Formula.const !b).size = (Formula.const b).size := rfl
  have hb' : (Formula.const !b).looseLeaves = (Formula.const b).looseLeaves := rfl
  simp only [EqSystem.weight, Weight.mk.injEq]
  omega

theorem weight_lt_iff : q.weight < s.weight ↔
    q.size < s.size ∨ q.size = s.size ∧ q.looseLeaves < s.looseLeaves :=
  Iff.rfl

theorem weight_lt_irrefl (s : EqSystem) : ¬ s.weight < s.weight := by
  rw [weight_lt_iff]
  omega

/-- A step of smaller weight has no larger component, and one is smaller. -/
theorem sum_lt_of_mem_reductions (hq : q ∈ s.reductions) (hlt : q.weight < s.weight) :
    q.size ≤ s.size ∧ q.looseLeaves ≤ s.looseLeaves ∧
      q.size + q.looseLeaves < s.size + s.looseLeaves := by
  obtain h | h | h := weight_of_mem_reductions hq
  · omega
  · omega
  · rw [h.weight_eq] at hlt
    exact absurd hlt (weight_lt_irrefl s)

/-- No step adds to either component of the weight. The weight stays the same just where one
constant is turned over, and all other steps lower it. -/
theorem weight_of_steps (s : EqSystem) : ∀ q ∈ s.reductions,
    q.size ≤ s.size ∧ q.looseLeaves ≤ s.looseLeaves ∧
      (q.weight = s.weight ↔ s.Rewrites Formula.Flips q) ∧
      (¬ s.Rewrites Formula.Flips q → q.weight < s.weight) := by
  intro q hq
  by_cases hflip : s.Rewrites Formula.Flips q
  · have heq := hflip.weight_eq
    obtain ⟨hsize, hloose⟩ : q.size = s.size ∧ q.looseLeaves = s.looseLeaves := by
      simpa [EqSystem.weight] using heq
    exact ⟨hsize.le, hloose.le, iff_of_true heq hflip, fun h => absurd hflip h⟩
  · have hlt : q.weight < s.weight := by
      obtain h | h | h := weight_of_mem_reductions hq
      · exact .inl h.1
      · exact .inr h
      · exact absurd h hflip
    obtain ⟨hsize, hloose, -⟩ := sum_lt_of_mem_reductions hq hlt
    have hne : q.weight ≠ s.weight := fun heq => weight_lt_irrefl s (heq ▸ hlt)
    exact ⟨hsize, hloose, iff_of_false hne hflip, fun _ => hlt⟩

/-- Two equations of one name, the first with a constant:
`mu X = true; nu Y = X; nu X = !Y; init Y;`. -/
def doubledSystem : EqSystem where
  equations := [⟨.mu, "X", [], .const true⟩, ⟨.nu, "Y", [], .inst ⟨"X", []⟩⟩,
    ⟨.nu, "X", [], .neg (.inst ⟨"Y", []⟩)⟩]
  init := ⟨"Y", []⟩

theorem doubledSystem_weight_of_steps :
    ∃ q ∈ doubledSystem.reductions, q.weight = doubledSystem.weight ∧
      doubledSystem.Rewrites Formula.Flips q := by
  let q : EqSystem := ⟨⟨.mu, "X", [], .const false⟩ :: doubledSystem.equations.tail, ⟨"Y", []⟩⟩
  have hq : q ∈ doubledSystem.reductions := by decide
  have hweight : q.weight = doubledSystem.weight := by decide
  obtain ⟨-, -, hflips, -⟩ := weight_of_steps doubledSystem q hq
  exact ⟨q, hq, hweight, hflips.mp hweight⟩

end EqSystem

end PbesLab
