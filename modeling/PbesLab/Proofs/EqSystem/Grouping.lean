import PbesLab.Proofs.EqSystem.Precedence

namespace PbesLab

/-- A formula before it is grouped: operands, prefixes and operators in sequence. -/
inductive Ungrouped : List Token → Prop
  | operand {ts f} (h : SpellsFormula .operand false ts f) : Ungrouped ts
  | neg {ts} (h : Ungrouped ts) : Ungrouped (.mark .not :: ts)
  | quant {us v ts} (q : Quantifier) (hv : SpellsDecl us v) (h : Ungrouped ts) :
      Ungrouped (.keyword q.keyword :: (us ++ .mark .dot :: ts))
  | bin {ts f us} (op : Connective) (h : SpellsFormula .operand false ts f)
      (more : Ungrouped us) : Ungrouped (ts ++ .mark op.mark :: us)

/-- An operator between two sequences makes one sequence, even behind a quantifier. -/
theorem Ungrouped.join {ts us : List Token} (op : Connective) (h : Ungrouped ts)
    (hus : Ungrouped us) : Ungrouped (ts ++ .mark op.mark :: us) := by
  induction h with
  | operand h => exact .bin op h hus
  | neg _ ih => exact .neg ih
  | quant q hv _ ih =>
    have hquant := Ungrouped.quant q hv ih
    simpa using hquant
  | bin op' h _ ih =>
    have hbin := Ungrouped.bin op' h ih
    simpa using hbin

/-- Sequences with an operator between each two make one sequence. -/
theorem Ungrouped.of_separated {op : Connective} {ts : List Token} {xs : List Unit}
    (h : Separated op.mark (fun ts _ => Ungrouped ts) ts xs) : Ungrouped ts := by
  induction h with
  | one h => exact h
  | cons h _ ih => exact h.join op ih

namespace SpellsFormula

variable {w : List Token}

theorem prepend_conjunction
    (hw : ∀ {o ts f}, SpellsFormula .operand o ts f →
      ∃ f', SpellsFormula .conjunction o (w ++ ts) f')
    {o : Bool} {ts : List Token} {f : Formula} (h : SpellsFormula .conjunction o ts f) :
    ∃ f', SpellsFormula .conjunction o (w ++ ts) f' := by
  -- a chain nests to the left, so its first operand is reached by induction
  generalize hl : FormulaLevel.conjunction = level at h
  induction h with
  | conjunction h => exact hw h
  | and _ hr ih _ =>
    obtain ⟨f', hf⟩ := ih rfl
    rw [← List.append_assoc]
    exact ⟨_, hf.and hr⟩
  | _ => cases hl

theorem prepend_disjunction
    (hw : ∀ {o ts f}, SpellsFormula .conjunction o ts f →
      ∃ f', SpellsFormula .disjunction o (w ++ ts) f')
    {o : Bool} {ts : List Token} {f : Formula} (h : SpellsFormula .disjunction o ts f) :
    ∃ f', SpellsFormula .disjunction o (w ++ ts) f' := by
  generalize hl : FormulaLevel.disjunction = level at h
  induction h with
  | disjunction h => exact hw h
  | or _ hr ih _ =>
    obtain ⟨f', hf⟩ := ih rfl
    rw [← List.append_assoc]
    exact ⟨_, hf.or hr⟩
  | _ => cases hl

/-- What may stand before any conjunction may stand before any formula. -/
theorem prepend
    (hw : ∀ {o ts f}, SpellsFormula .conjunction o ts f →
      ∃ f', SpellsFormula .disjunction o (w ++ ts) f')
    {o : Bool} {ts : List Token} {f : Formula} (h : SpellsFormula .implication o ts f) :
    ∃ f', SpellsFormula .implication o (w ++ ts) f' := by
  cases h with
  | implication h =>
    obtain ⟨f', hf⟩ := prepend_disjunction hw h
    exact ⟨f', hf.implication⟩
  | imp hl hr =>
    obtain ⟨f', hf⟩ := prepend_disjunction hw hl
    rw [← List.append_assoc]
    exact ⟨_, hf.imp hr⟩

theorem exists_neg {o : Bool} {ts : List Token} {f : Formula}
    (h : SpellsFormula .implication o ts f) :
    ∃ f', SpellsFormula .implication o (.mark .not :: ts) f' := by
  refine prepend (w := [.mark .not]) (fun h => ?_) h
  obtain ⟨f', hf⟩ := prepend_conjunction (w := [.mark .not]) (fun h => ⟨_, h.neg.conjunction⟩) h
  exact ⟨f', hf.disjunction⟩

/-- An operand and an operator may stand before any formula. -/
theorem exists_bin {us : List Token} {g : Formula} (hg : SpellsFormula .operand false us g)
    (op : Connective) {o : Bool} {ts : List Token} {f : Formula}
    (h : SpellsFormula .implication o ts f) :
    ∃ f', SpellsFormula .implication o (us ++ .mark op.mark :: ts) f' := by
  rw [List.append_cons]
  cases op with
  | and =>
    refine prepend (fun h => ?_) h
    have hand {o ts f} (h : SpellsFormula .operand o ts f) :
        ∃ f', SpellsFormula .conjunction o ((us ++ [.mark .and]) ++ ts) f' := by
      rw [List.append_assoc]
      exact ⟨_, hg.conjunction.and h⟩
    obtain ⟨f', hf⟩ := prepend_conjunction hand h
    exact ⟨f', hf.disjunction⟩
  | or =>
    refine prepend (fun h => ?_) h
    rw [List.append_assoc]
    exact ⟨_, hg.conjunction.disjunction.or h⟩
  | imp =>
    rw [List.append_assoc]
    exact ⟨_, hg.conjunction.disjunction.imp h⟩

end SpellsFormula

/-- Every sequence can be grouped by precedence. -/
theorem Ungrouped.exists_formula {ts : List Token} (h : Ungrouped ts) :
    ∃ o f, SpellsFormula .implication o ts f := by
  induction h with
  | operand h => exact ⟨_, _, h.conjunction.disjunction.implication⟩
  | neg _ ih =>
    obtain ⟨o, f, hf⟩ := ih
    exact ⟨o, hf.exists_neg⟩
  | quant q hv _ ih =>
    obtain ⟨o, f, hf⟩ := ih
    exact ⟨_, _, (SpellsFormula.quant hv hf).conjunction.disjunction.implication⟩
  | bin op h _ ih =>
    obtain ⟨o, f, hf⟩ := ih
    exact ⟨o, SpellsFormula.exists_bin h op hf⟩

theorem SpellsData.plus_separated {ts us : List Token} {l : DataExpr} {ds : List DataExpr}
    (hl : SpellsData .sum us l) (h : Separated .plus (SpellsData .operand) ts ds) :
    ∃ d, SpellsData .sum (us ++ .mark .plus :: ts) d := by
  induction h generalizing us l with
  | one h => exact ⟨_, hl.plus h⟩
  | cons h _ ih =>
    obtain ⟨d, hd⟩ := ih (hl.plus h)
    refine ⟨d, ?_⟩
    simpa using hd

theorem SpellsData.of_separated {ts : List Token} {ds : List DataExpr}
    (h : Separated .plus (SpellsData .operand) ts ds) : ∃ d, SpellsData .sum ts d := by
  cases h with
  | one h => exact ⟨_, h.sum⟩
  | cons h more => exact plus_separated h.sum more

end PbesLab
