import PbesLab.Proofs.EqSystem.Closedness

namespace PbesLab

theorem DataExpr.exists_fault_of_undeclared {scope : Scope} {d : DataExpr} {x : String}
    (hx : x ∈ d.vars) (hscope : scope.sort? x = none) : ∃ fault, d.sort scope = .error fault := by
  cases h : d.sort scope with
  | error fault => exact ⟨fault, rfl⟩
  | ok s => exact absurd (d.declared_of_sort h hx) (Scope.sort?_eq_none_iff.mp hscope)

theorem Formula.exists_fault_of_undeclared {sigs : Signatures} {scope : Scope} {f : Formula}
    {x : String} (hx : x ∈ f.freeVars) (hscope : scope.sort? x = none) :
    ∃ fault, f.check sigs scope = .error fault := by
  cases h : f.check sigs scope with
  | error fault => exact ⟨fault, rfl⟩
  | ok u => exact absurd (f.declared_of_check h hx) (Scope.sort?_eq_none_iff.mp hscope)

/-- Formulas that are checked alike in every scope may be exchanged, also where quantifiers add to
the scope. -/
theorem Formula.check_fill_congr {sigs : Signatures} {scope : Scope} {t u : Formula} (C : Context)
    (h : ∀ scope, t.check sigs scope = u.check sigs scope) :
    (C.fill t).check sigs scope = (C.fill u).check sigs scope := by
  induction C generalizing scope with
  | hole => exact h scope
  | neg C ih | quant q v C ih => exact ih
  | left op C r ih => simp only [Context.fill, check, ih]
  | right op l C ih => simp only [Context.fill, check, ih]

/-- The check of a formula reads a scope at the free variables: where two scopes give each of them
the same sort, or none, the result is the same, and so is any fault. It does read all of them, since
one that has no sort is a fault. The same goes for the sort of data. Hence declarations of other
names, whether they hide something or are hidden, have no effect, nor has a quantifier over such a
name around the formula, at any place of a formula or of a system. -/
theorem check_reads_free_variables (f : Formula) (d : DataExpr) :
    (∀ (sigs : Signatures) (scope scope' : Scope),
      (∀ x ∈ f.freeVars, scope.sort? x = scope'.sort? x) →
        f.check sigs scope = f.check sigs scope') ∧
    (∀ scope scope' : Scope, (∀ x ∈ d.vars, scope.sort? x = scope'.sort? x) →
      d.sort scope = d.sort scope') ∧
    (∀ (sigs : Signatures) (scope : Scope), ∀ x ∈ f.freeVars, scope.sort? x = none →
      ∃ fault, f.check sigs scope = .error fault) ∧
    (∀ scope : Scope, ∀ x ∈ d.vars, scope.sort? x = none →
      ∃ fault, d.sort scope = .error fault) ∧
    (∀ (sigs : Signatures) (inner vs outer : Scope), (∀ v ∈ vs, v.name ∉ f.freeVars) →
      f.check sigs (inner ++ vs ++ outer) = f.check sigs (inner ++ outer)) ∧
    ∀ v : VarDecl, v.name ∉ f.freeVars → ∀ (C : Context) (q : Quantifier),
      (∀ sigs scope, (C.fill (.quant q v f)).check sigs scope = (C.fill f).check sigs scope) ∧
      ∀ (before after : List Equation) (e : Equation) (i : Instance),
        EqSystem.check ⟨before ++ { e with rhs := C.fill (.quant q v f) } :: after, i⟩ =
          EqSystem.check ⟨before ++ { e with rhs := C.fill f } :: after, i⟩ := by
  refine ⟨fun sigs scope scope' => f.check_congr, fun scope scope' => d.sort_congr,
    fun sigs scope x => f.exists_fault_of_undeclared, fun scope x => d.exists_fault_of_undeclared,
    fun sigs inner vs outer => Formula.check_insert inner vs outer, ?_⟩
  intro v hv C q
  have hfill (sigs : Signatures) (scope : Scope) :
      (C.fill (.quant q v f)).check sigs scope = (C.fill f).check sigs scope :=
    Formula.check_fill_congr C fun _ => Formula.check_quant_of_not_free hv
  refine ⟨hfill, fun before after e i => ?_⟩
  exact EqSystem.check_rhs_congr { e with rhs := C.fill f } fun sigs => hfill sigs e.params

/-- `(forall k: Bool. val(k)) && val(((m + b) < k))`. -/
def maskingFormula : Formula :=
  .bin .and (.quant .all ⟨"k", .bool⟩ (.val (.var "k")))
    (.val (.binary .less (.binary .plus (.var "m") (.var "b")) (.var "k")))

def plainScope : Scope :=
  [⟨"m", .nat⟩, ⟨"b", .bool⟩, ⟨"k", .nat⟩]

def crowdedScope : Scope :=
  [⟨"k", .nat⟩, ⟨"l", .nat⟩, ⟨"m", .nat⟩, ⟨"b", .bool⟩, ⟨"m", .bool⟩]

/-- Both scopes give the fault that a truth value is added to a number. -/
theorem maskingFormula_check :
    (∀ x ∈ maskingFormula.freeVars, plainScope.sort? x = crowdedScope.sort? x) ∧
    maskingFormula.check [] plainScope = .error (.operandSort .nat (.var "b") .bool) ∧
    maskingFormula.check [] crowdedScope = .error (.operandSort .nat (.var "b") .bool) ∧
    "l" ∉ maskingFormula.freeVars ∧
    (Formula.neg (.quant .ex ⟨"l", .bool⟩ maskingFormula)).check [] plainScope =
      .error (.operandSort .nat (.var "b") .bool) := by
  obtain ⟨hscopes, -, -, -, -, hbinder⟩ := check_reads_free_variables maskingFormula (.var "m")
  have hagree : ∀ x ∈ maskingFormula.freeVars, plainScope.sort? x = crowdedScope.sort? x := by
    decide
  have hplain : maskingFormula.check [] plainScope =
      .error (.operandSort .nat (.var "b") .bool) := by
    decide
  have hl : "l" ∉ maskingFormula.freeVars := by decide
  refine ⟨hagree, hplain, ?_, hl, ?_⟩
  · rw [← hscopes [] plainScope crowdedScope hagree]
    exact hplain
  · obtain ⟨hdrop, -⟩ := hbinder ⟨"l", .bool⟩ hl (.neg .hole) .ex
    exact (hdrop [] plainScope).trans hplain

end PbesLab
