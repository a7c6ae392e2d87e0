import PbesLab.Proofs.EqSystem.Typing
import PbesLab.Proofs.Formula.Context

namespace PbesLab

def Context.bound : Context → List String
  | hole => []
  | neg C | left _ C _ | right _ _ C => C.bound
  | quant _ v C => v.name :: C.bound

namespace Formula

def leafVars : Formula → List String
  | val d => d.vars
  | inst i => i.vars
  | _ => []

/-- Some leaf reads the variable where no quantifier binds it. -/
def OccursFree (x : String) (f : Formula) : Prop :=
  ∃ (C : Context) (t : Formula), C.fill t = f ∧ x ∈ t.leafVars ∧ x ∉ C.bound

theorem leafVars_subset_freeVars (t : Formula) : t.leafVars ⊆ t.freeVars := by
  cases t with
  | val d | inst i => exact List.Subset.refl _
  | const b | neg f | bin op l r | quant q v f => exact List.nil_subset _

theorem mem_freeVars_fill {x : String} {C : Context} {t : Formula} (hx : x ∈ t.freeVars)
    (hC : x ∉ C.bound) : x ∈ (C.fill t).freeVars := by
  induction C with
  | hole => exact hx
  | neg C ih => exact ih hC
  | left op C r ih => exact List.mem_append_left _ (ih hC)
  | right op l C ih => exact List.mem_append_right _ (ih hC)
  | quant q v C ih =>
    rw [Context.bound, List.mem_cons, not_or] at hC
    exact List.mem_filter.mpr ⟨ih hC.2, by simpa using hC.1⟩

theorem occursFree_of_mem_freeVars {x : String} {f : Formula} (hx : x ∈ f.freeVars) :
    f.OccursFree x := by
  induction f with
  | const b => simp [freeVars] at hx
  | val d => exact ⟨.hole, .val d, rfl, hx, List.not_mem_nil⟩
  | inst i => exact ⟨.hole, .inst i, rfl, hx, List.not_mem_nil⟩
  | neg f ih =>
    obtain ⟨C, t, rfl, ht, hC⟩ := ih hx
    exact ⟨.neg C, t, rfl, ht, hC⟩
  | bin op l r ihl ihr =>
    obtain hx | hx := List.mem_append.mp hx
    · obtain ⟨C, t, rfl, ht, hC⟩ := ihl hx
      exact ⟨.left op C r, t, rfl, ht, hC⟩
    · obtain ⟨C, t, rfl, ht, hC⟩ := ihr hx
      exact ⟨.right op l C, t, rfl, ht, hC⟩
  | quant q v f ih =>
    obtain ⟨hx, hne⟩ := List.mem_filter.mp hx
    obtain ⟨C, t, rfl, ht, hC⟩ := ih hx
    exact ⟨.quant q v C, t, rfl, ht, List.not_mem_cons_of_ne_of_not_mem (by simpa using hne) hC⟩

theorem mem_freeVars_iff {x : String} {f : Formula} : x ∈ f.freeVars ↔ f.OccursFree x := by
  refine ⟨occursFree_of_mem_freeVars, ?_⟩
  rintro ⟨C, t, rfl, ht, hC⟩
  exact mem_freeVars_fill (t.leafVars_subset_freeVars ht) hC

end Formula

/-- The fault of an operand, or that an operand has the wrong sort. -/
theorem DataExpr.sort_binary_eq_error {scope : Scope} {op : DataOp} {l r : DataExpr} {f : Fault}
    (h : (binary op l r).sort scope = .error f) :
    l.sort scope = .error f ∨ r.sort scope = .error f ∨ ∃ s d t, f = .operandSort s d t := by
  simp only [sort] at h
  obtain hl | ⟨s, -, h⟩ := bind_eq_error.mp h
  · exact .inl hl
  generalize (if op = .equal then s else DataSort.nat) = expected at h
  by_cases hs : s ≠ expected
  · rw [if_pos hs] at h
    exact .inr (.inr ⟨_, _, _, (Except.error.inj h).symm⟩)
  rw [if_neg hs] at h
  obtain hr | ⟨t, -, h⟩ := bind_eq_error.mp h
  · exact .inr (.inl hr)
  by_cases ht : t ≠ expected
  · rw [if_pos ht] at h
    exact .inr (.inr ⟨_, _, _, (Except.error.inj h).symm⟩)
  · rw [if_neg ht] at h
    cases h

theorem DataExpr.free_of_sort {scope : Scope} {d : DataExpr} {x : String}
    (h : d.sort scope = .error (.freeVariable x)) :
    x ∈ d.vars ∧ x ∉ scope.map VarDecl.name := by
  induction d with
  | var y =>
    cases hy : scope.sort? y with
    | some s => simp [sort, hy] at h
    | none =>
      obtain rfl : y = x := by simpa [sort, hy] using h
      exact ⟨List.mem_cons_self, Scope.sort?_eq_none_iff.mp hy⟩
  | nat n | bool b => cases h
  | binary op l r ihl ihr =>
    obtain hl | hr | ⟨_, _, _, hsort⟩ := sort_binary_eq_error h
    · exact (ihl hl).imp_left (List.mem_append_left _)
    · exact (ihr hr).imp_left (List.mem_append_right _)
    · cases hsort

theorem free_of_checkArguments {scope : Scope} {name : String} {ds : List DataExpr}
    {sorts : List DataSort} {x : String}
    (h : checkArguments scope name ds sorts = .error (.freeVariable x)) :
    x ∈ ds.flatMap DataExpr.vars ∧ x ∉ scope.map VarDecl.name := by
  fun_induction checkArguments scope name ds sorts with
  | case1 d ds expected sorts ih =>
    obtain hd | ⟨s, -, h⟩ := bind_eq_error.mp h
    · exact (d.free_of_sort hd).imp_left (List.mem_append_left _)
    · split at h
      · cases h
      · exact (ih h).imp_left (List.mem_append_right _)
  | case2 => cases h

theorem Instance.free_of_check {sigs : Signatures} {scope : Scope} {i : Instance} {x : String}
    (h : i.check sigs scope = .error (.freeVariable x)) :
    x ∈ i.vars ∧ x ∉ scope.map VarDecl.name := by
  unfold check at h
  split at h
  · cases h
  · split at h
    · cases h
    · exact free_of_checkArguments h

/-- A variable that the check reports is free, and nothing in scope declares it. -/
theorem Formula.free_of_check {sigs : Signatures} {scope : Scope} {f : Formula} {x : String}
    (h : f.check sigs scope = .error (.freeVariable x)) :
    x ∈ f.freeVars ∧ x ∉ scope.map VarDecl.name := by
  induction f generalizing scope with
  | const b => cases h
  | val d =>
    obtain hd | ⟨s, -, h⟩ := bind_eq_error.mp h
    · exact d.free_of_sort hd
    · split at h <;> cases h
  | inst i => exact i.free_of_check h
  | neg f ih => exact ih h
  | bin op l r ihl ihr =>
    obtain hl | ⟨_, -, hr⟩ := bind_eq_error.mp h
    · exact (ihl hl).imp_left (List.mem_append_left _)
    · exact (ihr hr).imp_left (List.mem_append_right _)
  | quant q v f ih =>
    obtain ⟨hx, hscope⟩ := ih h
    rw [List.map_cons, List.mem_cons, not_or] at hscope
    exact ⟨List.mem_filter.mpr ⟨hx, by simpa using hscope.1⟩, hscope.2⟩

theorem Equation.free_of_check {sigs : Signatures} {e : Equation} {y x : String}
    (h : e.check sigs = .error (.inEquation y (.freeVariable x))) :
    e.name = y ∧ x ∈ e.rhs.freeVars ∧ x ∉ e.params.map VarDecl.name := by
  unfold check at h
  split at h
  · cases h
  · obtain ⟨f, hf, hcause⟩ := mapError_eq_error.mp h
    cases hcause
    exact ⟨rfl, Formula.free_of_check hf⟩

namespace EqSystem

/-- Right-hand sides read their parameters only, and the initial instance reads no variable. -/
structure Closed (s : EqSystem) : Prop where
  rhs : ∀ e ∈ s.equations, e.rhs.freeVars ⊆ e.params.map VarDecl.name
  init : ∀ d ∈ s.init.args, d.vars = []

variable {s : EqSystem} {x y : String}

theorem closed_of_check (h : s.check = .ok ()) : s.Closed := by
  obtain ⟨-, hequations, hinit⟩ := check_eq_ok.mp h
  constructor
  · intro e he x hx
    exact Formula.declared_of_check (Equation.check_eq_ok.mp (hequations e he)).2 hx
  · intro d hd
    refine List.eq_nil_iff_forall_not_mem.mpr fun x hx => ?_
    exact List.not_mem_nil (s.init.declared_of_check hinit (List.mem_flatMap.mpr ⟨d, hd, hx⟩))

theorem not_closed_iff : ¬ s.Closed ↔
    (∃ e ∈ s.equations, ∃ x, e.rhs.OccursFree x ∧ x ∉ e.params.map VarDecl.name) ∨
      ∃ d ∈ s.init.args, ∃ x, x ∈ d.vars := by
  constructor
  · intro h
    by_contra! hnone
    refine h ⟨fun e he x hx => ?_, fun d hd => ?_⟩
    · exact hnone.1 e he x (Formula.mem_freeVars_iff.mp hx)
    · exact List.eq_nil_iff_forall_not_mem.mpr (hnone.2 d hd)
  · rintro (⟨e, he, x, hx, hparams⟩ | ⟨d, hd, x, hx⟩) h
    · exact hparams (h.rhs e he (Formula.mem_freeVars_iff.mpr hx))
    · rw [h.init d hd] at hx
      exact List.not_mem_nil hx

theorem free_of_check_inEquation (h : s.check = .error (.inEquation y (.freeVariable x))) :
    ∃ e ∈ s.equations, e.name = y ∧ e.rhs.OccursFree x ∧ x ∉ e.params.map VarDecl.name := by
  obtain ⟨_, hdup⟩ | ⟨e, he, hcheck⟩ | ⟨_, -, hinit⟩ := check_eq_error_cases h
  · cases hdup
  · obtain ⟨hname, hx, hparams⟩ := Equation.free_of_check hcheck
    exact ⟨e, he, hname, Formula.mem_freeVars_iff.mp hx, hparams⟩
  · cases hinit

theorem free_of_check_inInit (h : s.check = .error (.inInit (.freeVariable x))) :
    ∃ d ∈ s.init.args, x ∈ d.vars := by
  obtain ⟨_, hdup⟩ | ⟨e, -, hcheck⟩ | ⟨_, hcause, hinit⟩ := check_eq_error_cases h
  · cases hdup
  · -- a fault of an equation names the equation
    unfold Equation.check at hcheck
    split at hcheck
    · cases hcheck
    · obtain ⟨_, -, hcause⟩ := mapError_eq_error.mp hcheck
      cases hcause
  · cases hinit
    exact List.mem_flatMap.mp (s.init.free_of_check hcause).1

/-- What passes the check is closed, an unbound variable anywhere is a fault, and a variable that
the check reports is unbound. -/
theorem check_agrees_with_freeVars (s : EqSystem) :
    (s.check = .ok () →
      (∀ e ∈ s.equations, e.rhs.freeVars ⊆ e.params.map VarDecl.name) ∧
        ∀ d ∈ s.init.args, d.vars = []) ∧
    ((∃ e ∈ s.equations, ∃ x, e.rhs.OccursFree x ∧ x ∉ e.params.map VarDecl.name) ∨
        (∃ d ∈ s.init.args, ∃ x, x ∈ d.vars) → ∃ f, s.check = .error f) ∧
    (∀ (f : Formula) (x : String), f.OccursFree x ↔ x ∈ f.freeVars) ∧
    (∀ y x, s.check = .error (.inEquation y (.freeVariable x)) →
      ∃ e ∈ s.equations, e.name = y ∧ e.rhs.OccursFree x ∧ x ∉ e.params.map VarDecl.name) ∧
    ∀ x, s.check = .error (.inInit (.freeVariable x)) → ∃ d ∈ s.init.args, x ∈ d.vars := by
  refine ⟨fun h => ?_, fun h => ?_, fun f x => Formula.mem_freeVars_iff.symm,
    fun y x => free_of_check_inEquation, fun x => free_of_check_inInit⟩
  · have hclosed := closed_of_check h
    exact ⟨hclosed.rhs, hclosed.init⟩
  · cases hcheck : s.check with
    | error f => exact ⟨f, rfl⟩
    | ok _ => exact absurd (closed_of_check hcheck) (not_closed_iff.mpr h)

end EqSystem

end PbesLab
