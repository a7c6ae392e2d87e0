import PbesLab.Proofs.EqSystem.RoundTrip
import PbesLab.Proofs.Lists
import PbesLab.Proofs.Shrink.WellFormed

namespace PbesLab

namespace Formula

variable {f g t u : Formula}

theorem names_of_mem_parts (hu : u ∈ f.parts) : u.names ⊆ f.names := by
  cases f with
  | const b | val d | inst i => simp [parts] at hu
  | neg f =>
    obtain rfl : u = f := by simpa [parts] using hu
    exact List.Subset.refl _
  | bin op l r =>
    obtain rfl | rfl : u = l ∨ u = r := by simpa [parts] using hu
    · exact List.subset_append_left _ _
    · exact List.subset_append_right _ _
  | quant q v f =>
    obtain ⟨-, rfl⟩ : v.name ∉ f.freeVars ∧ u = f := by simpa [parts] using hu
    exact List.subset_cons_self _ _

theorem names_of_mem_reductions (hu : u ∈ f.reductions) : u.names ⊆ f.names := by
  obtain rfl | rfl | hu : u = const true ∨ u = const false ∨ u ∈ f.parts := by
    simpa using (List.mem_filter.mp hu).1
  · exact List.nil_subset _
  · exact List.nil_subset _
  · exact names_of_mem_parts hu

theorem names_fill {C : Context} (hu : u.names ⊆ t.names) :
    (C.fill u).names ⊆ (C.fill t).names := by
  induction C with
  | hole => exact hu
  | neg C ih => exact ih
  | quant q v C ih => exact List.cons_subset_cons _ ih
  | left op C r ih => exact append_subset_append ih (List.Subset.refl _)
  | right op l C ih => exact append_subset_append (List.Subset.refl _) ih

theorem names_substitute_const (name : String) (value : Bool) (f : Formula) :
    (substitute name (const value) f).names ⊆ f.names := by
  induction f with
  | const b | val d => exact List.Subset.refl _
  | inst i =>
    unfold substitute
    split
    · exact List.nil_subset _
    · exact List.Subset.refl _
  | neg f ih => exact ih
  | quant q v f ih => exact List.cons_subset_cons _ ih
  | bin op l r ihl ihr => exact append_subset_append ihl ihr

end Formula

namespace EqSystem

variable {s q : EqSystem}

theorem names_remove (s : EqSystem) (name : String) (value : Bool) :
    (s.remove name value).names ⊆ s.names := by
  refine append_subset_append (fun x hx => ?_) (List.Subset.refl _)
  obtain ⟨e', he', hx⟩ := List.mem_flatMap.mp hx
  obtain ⟨e, he, rfl⟩ := List.mem_map.mp he'
  refine List.mem_flatMap.mpr ⟨e, (List.mem_filter.mp he).1, ?_⟩
  exact List.cons_subset_cons _ (append_subset_append (List.Subset.refl _)
    (Formula.names_substitute_const name value e.rhs)) hx

theorem names_of_mem_reductions (hq : q ∈ s.reductions) : q.names ⊆ s.names := by
  obtain hq | hq := List.mem_append.mp hq
  · simp only [removals, List.mem_flatMap, List.mem_cons, List.not_mem_nil, or_false] at hq
    obtain ⟨e, -, rfl | rfl⟩ := hq
    · exact names_remove s e.name true
    · exact names_remove s e.name false
  · obtain @⟨before, e, after, i, C, t, u, hu, he⟩ := mem_reducts_iff_rewrites.mp hq
    -- the equations before and after keep their names as they are
    have hrhs : (C.fill u).names ⊆ e.rhs.names := by
      rw [he]
      exact Formula.names_fill (Formula.names_of_mem_reductions hu)
    have hnames : Equation.names { e with rhs := C.fill u } ⊆ e.names :=
      List.cons_subset_cons _ (append_subset_append (List.Subset.refl _) hrhs)
    refine append_subset_append ?_ (List.Subset.refl _)
    rw [List.flatMap_append, List.flatMap_append]
    exact append_subset_append (List.Subset.refl _)
      (append_subset_append hnames (List.Subset.refl _))

/-- Passes its check and has legal names, so that its text can be read. -/
structure Readable (s : EqSystem) : Prop where
  check : s.check = .ok ()
  legal : ∀ x ∈ s.names, isLegalName x

theorem Readable.equations_ne_nil (h : s.Readable) : s.equations ≠ [] := by
  intro hnil
  -- without equations the initial instance has none to start on
  obtain ⟨-, -, hinit⟩ := check_eq_ok.mp h.check
  simp [signatures, hnil, Instance.check] at hinit

/-- The text is accepted and read as the system. -/
theorem Readable.read (h : s.Readable) : EqSystem.read s.text = .ok s := by
  obtain ⟨ts, hts, hprints⟩ := s.prints h.equations_ne_nil h.legal
  rw [read_of_spells hts hprints.isSpelled hprints.fits, h.check]

theorem Readable.of_mem_reductions (h : s.Readable) (hq : q ∈ s.reductions) : q.Readable where
  check := check_of_mem_reductions hq h.check
  legal x hx := h.legal x (names_of_mem_reductions hq hx)

end EqSystem

/-- A search from a readable system only tests readable systems. -/
theorem Search.readable_of_asked {ε : Type} {s : EqSystem} {calls : List (Call ε)}
    (h : s.Readable) (hcalls : Asked s calls) : ∀ c ∈ calls, c.system.Readable := by
  induction calls generalizing s with
  | nil => nofun
  | cons c calls ih =>
    obtain ⟨hc, hcalls⟩ := hcalls
    have hsystem : c.system.Readable := h.of_mem_reductions (mem_lighter.mp hc).1
    have hnext : (Call.next s c).Readable := by
      unfold Call.next
      split
      · exact hsystem
      · exact h
    intro c' hc'
    obtain rfl | hc' := List.mem_cons.mp hc'
    · exact hsystem
    · exact ih hnext hcalls c' hc'

end PbesLab
