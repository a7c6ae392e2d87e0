import PbesLab.Proofs.Formula.Context
import PbesLab.Shrink.Reduction

namespace PbesLab

namespace Formula

theorem mem_reducts {f g : Formula} : g ∈ f.reducts ↔
    ∃ i < f.size, ∃ t, f.subterm? i = some t ∧ ∃ u ∈ t.reductions, f.replaceAt i u = g := by
  simp only [reducts, List.mem_flatMap, List.mem_range]
  refine exists_congr fun i => and_congr_right fun _ => ?_
  cases f.subterm? i <;> simp

theorem mem_reducts_iff_fill {f g : Formula} :
    g ∈ f.reducts ↔ ∃ (C : Context) (t u : Formula), C.fill t = f ∧ u ∈ t.reductions ∧
      C.fill u = g := by
  rw [mem_reducts]
  constructor
  · rintro ⟨i, -, t, ht, u, hu, rfl⟩
    obtain ⟨C, rfl, rfl⟩ := exists_context ht
    exact ⟨C, t, u, rfl, hu, (C.replaceAt_fill t u).symm⟩
  · rintro ⟨C, t, u, rfl, hu, rfl⟩
    exact ⟨C.position, C.position_lt t, t, C.subterm?_fill t, u, hu, C.replaceAt_fill t u⟩

end Formula

/-- One entry differs between a list and its changed copy. -/
theorem mem_changeOne {α : Type} {changes : α → List α} {xs ys : List α} :
    ys ∈ changeOne changes xs ↔
      ∃ before x after y, xs = before ++ x :: after ∧ y ∈ changes x ∧
        ys = before ++ y :: after := by
  induction xs generalizing ys with
  | nil => simp [changeOne]
  | cons a xs ih =>
    simp only [changeOne, List.mem_append, List.mem_map, ih]
    constructor
    · rintro (⟨y, hy, rfl⟩ | ⟨zs, ⟨before, x, after, y, rfl, hy, rfl⟩, rfl⟩)
      · exact ⟨[], a, xs, y, rfl, hy, rfl⟩
      · exact ⟨a :: before, x, after, y, rfl, hy, rfl⟩
    · rintro ⟨before, x, after, y, hxs, hy, rfl⟩
      cases before with
      | nil =>
        obtain ⟨rfl, rfl⟩ := List.cons.inj hxs
        exact .inl ⟨y, hy, rfl⟩
      | cons b before =>
        obtain ⟨rfl, rfl⟩ := List.cons.inj hxs
        exact .inr ⟨_, ⟨before, x, after, y, rfl, hy, rfl⟩, rfl⟩

namespace EqSystem

/-- One subterm of one right-hand side gives way to another that is related to it. All else
stays. -/
inductive Rewrites (R : Formula → Formula → Prop) : EqSystem → EqSystem → Prop
  | intro {before e after i} (C : Context) {t u} (h : R t u) (he : e.rhs = C.fill t) :
      Rewrites R ⟨before ++ e :: after, i⟩ ⟨before ++ { e with rhs := C.fill u } :: after, i⟩

theorem mem_reducts_iff_rewrites {s q : EqSystem} :
    q ∈ s.reducts ↔ s.Rewrites (fun t u => u ∈ t.reductions) q := by
  constructor
  · intro hq
    obtain ⟨es, hes, rfl⟩ := List.mem_map.mp hq
    obtain ⟨before, e, after, e', hsplit, he', rfl⟩ := mem_changeOne.mp hes
    obtain ⟨g, hg, rfl⟩ := List.mem_map.mp he'
    obtain ⟨C, t, u, hf, hu, rfl⟩ := Formula.mem_reducts_iff_fill.mp hg
    obtain ⟨equations, i⟩ := s
    obtain rfl : equations = before ++ e :: after := hsplit
    exact .intro C hu hf.symm
  · rintro ⟨C, hu, he⟩
    refine List.mem_map.mpr ⟨_, mem_changeOne.mpr ⟨_, _, _, _, rfl, ?_, rfl⟩, rfl⟩
    refine List.mem_map.mpr ⟨_, ?_, rfl⟩
    exact Formula.mem_reducts_iff_fill.mpr ⟨C, _, _, he.symm, hu, rfl⟩

end EqSystem

end PbesLab
