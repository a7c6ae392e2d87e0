import PbesLab.Proofs.EqSystem.Language

namespace PbesLab

theorem EqSystem.read_of_spells {text : String} {ts : List Token} {s : EqSystem}
    (h : SpellsSystem ts s) (htext : IsSpelled ts text.toList) (hfits : ts.all Token.fits) :
    EqSystem.read text = match s.check with
      | .ok () => .ok s
      | .error e => .error (.fault e) := by
  obtain ⟨t, ht, hof⟩ := h.tree htext
  rw [if_pos hfits] at hof
  unfold EqSystem.read
  rw [ht]
  change (do
    let s ← EqSystem.ofTree t
    (s.check).mapError ReadFault.fault
    return s) = _
  rw [hof]
  cases hcheck : s.check with
  | error e => simp [bind, Except.bind, Except.mapError, hcheck]
  | ok => simp [bind, Except.bind, Except.mapError, hcheck]; rfl

/-- The canonical text of a system with equations and legal names is read as the system, or gives
the error of its check. -/
theorem EqSystem.read_text (s : EqSystem) (hne : s.equations ≠ [])
    (hnames : ∀ x ∈ s.names, isLegalName x) :
    EqSystem.read s.text = match s.check with
      | .ok () => .ok s
      | .error e => .error (.fault e) := by
  obtain ⟨ts, hts, hprints⟩ := s.prints hne hnames
  exact read_of_spells hts hprints.isSpelled hprints.fits

theorem layeredSystem_read_text : layeredSystem.equations ≠ [] ∧
    (∀ x ∈ layeredSystem.names, isLegalName x) ∧
      EqSystem.read layeredSystem.text = .ok layeredSystem := by
  have hne : layeredSystem.equations ≠ [] := by decide
  have hnames : ∀ x ∈ layeredSystem.names, isLegalName x := by decide
  have hcheck : layeredSystem.check = .ok () := by decide
  have hread := EqSystem.read_text layeredSystem hne hnames
  rw [hcheck] at hread
  exact ⟨hne, hnames, hread⟩

end PbesLab
