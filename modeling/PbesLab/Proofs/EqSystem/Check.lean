import PbesLab.EqSystem.Check
import Mathlib.Data.List.Nodup

namespace PbesLab

namespace Text

theorem firstRepeatAfter?_eq_none_iff (seen names : List String) :
    firstRepeatAfter? seen names = none ↔ names.Nodup ∧ ∀ x ∈ names, x ∉ seen := by
  induction names generalizing seen with
  | nil => simp [firstRepeatAfter?]
  | cons x xs ih =>
    by_cases hx : x ∈ seen
    · simp [firstRepeatAfter?, hx]
    · simp only [firstRepeatAfter?, if_neg hx, ih, List.mem_cons, List.nodup_cons]
      grind

theorem firstRepeat?_eq_none_iff (names : List String) :
    firstRepeat? names = none ↔ names.Nodup := by
  simp [firstRepeat?, firstRepeatAfter?_eq_none_iff]

end Text

theorem Scope.sort?_cons (v : VarDecl) (scope : Scope) (x : String) :
    Scope.sort? (v :: scope) x = if v.name = x then some v.sort else scope.sort? x := by
  by_cases h : v.name = x <;> simp [Scope.sort?, h]

theorem Scope.sort?_append (scope outer : Scope) (x : String) :
    Scope.sort? (scope ++ outer) x = (scope.sort? x).or (Scope.sort? outer x) := by
  simp [Scope.sort?, Option.map_or]

theorem Scope.sort?_eq_none_iff {scope : Scope} {x : String} :
    scope.sort? x = none ↔ x ∉ scope.map VarDecl.name := by
  simp [sort?]

/-- Declarations of other names may stand anywhere. -/
theorem Scope.sort?_insert (inner : Scope) {vs : Scope} (outer : Scope) {x : String}
    (hx : x ∉ vs.map VarDecl.name) :
    Scope.sort? (inner ++ vs ++ outer) x = Scope.sort? (inner ++ outer) x := by
  simp only [sort?_append, sort?_eq_none_iff.mpr hx, Option.or_none]

theorem DataExpr.sort_congr {scope scope' : Scope} (d : DataExpr)
    (h : ∀ x ∈ d.vars, scope.sort? x = scope'.sort? x) : d.sort scope = d.sort scope' := by
  induction d with
  | var x =>
    have hx := h x (by simp [vars])
    simp only [sort, hx]
  | nat n => rfl
  | bool b => rfl
  | binary op l r ihl ihr =>
    have hl := ihl fun x hx => h x (by simp [vars, hx])
    have hr := ihr fun x hx => h x (by simp [vars, hx])
    simp only [sort, hl, hr]

theorem checkArguments_congr {scope scope' : Scope} (name : String) (ds : List DataExpr)
    (sorts : List DataSort)
    (h : ∀ x ∈ ds.flatMap DataExpr.vars, scope.sort? x = scope'.sort? x) :
    checkArguments scope name ds sorts = checkArguments scope' name ds sorts := by
  induction ds generalizing sorts with
  | nil => simp [checkArguments]
  | cons d ds ih =>
    cases sorts with
    | nil => rfl
    | cons expected sorts =>
      have hd := d.sort_congr fun x hx => h x (by simp [hx])
      have hds := ih sorts fun x hx => h x (by simp [List.flatMap_cons, hx])
      simp only [checkArguments, hd, hds]

theorem Instance.check_congr {sigs : Signatures} {scope scope' : Scope} (i : Instance)
    (h : ∀ x ∈ i.vars, scope.sort? x = scope'.sort? x) :
    i.check sigs scope = i.check sigs scope' := by
  unfold Instance.check
  split
  · rfl
  · rw [checkArguments_congr i.name i.args _ h]

theorem Formula.check_congr {sigs : Signatures} {scope scope' : Scope} (f : Formula)
    (h : ∀ x ∈ f.freeVars, scope.sort? x = scope'.sort? x) :
    f.check sigs scope = f.check sigs scope' := by
  induction f generalizing scope scope' with
  | const b => rfl
  | val d => simp only [check, d.sort_congr h]
  | inst i => exact i.check_congr h
  | neg f ih => exact ih h
  | bin op l r ihl ihr =>
    have hl := ihl fun x hx => h x (by simp [freeVars, hx])
    have hr := ihr fun x hx => h x (by simp [freeVars, hx])
    simp only [check, hl, hr]
  | quant q v f ih =>
    apply ih
    intro x hx
    rw [Scope.sort?_cons, Scope.sort?_cons]
    split
    · rfl
    · next hv => exact h x (by simp [freeVars, hx, Ne.symm hv])

/-- Names that are not free may come into the scope and leave it. -/
theorem Formula.check_insert {sigs : Signatures} {f : Formula} (inner vs outer : Scope)
    (h : ∀ v ∈ vs, v.name ∉ f.freeVars) :
    f.check sigs (inner ++ vs ++ outer) = f.check sigs (inner ++ outer) := by
  apply check_congr
  intro x hx
  apply Scope.sort?_insert
  intro hm
  obtain ⟨v, hv, rfl⟩ := List.mem_map.mp hm
  exact h v hv hx

/-- A quantifier that binds nothing can be dropped, whatever it hides. -/
theorem Formula.check_quant_of_not_free {sigs : Signatures} {scope : Scope} {q : Quantifier}
    {v : VarDecl} {f : Formula} (hv : v.name ∉ f.freeVars) :
    (quant q v f).check sigs scope = f.check sigs scope :=
  check_insert [] [v] scope (List.forall_mem_singleton.mpr hv)

theorem bind_eq_ok {ε α β : Type} {x : Except ε α} {f : α → Except ε β} {b : β} :
    x >>= f = .ok b ↔ ∃ a, x = .ok a ∧ f a = .ok b := by
  cases x <;> simp [bind, Except.bind]

theorem mapError_eq_ok {ε ε' α : Type} {x : Except ε α} {f : ε → ε'} {a : α} :
    x.mapError f = .ok a ↔ x = .ok a := by
  cases x <;> simp [Except.mapError]

theorem Formula.check_bin_eq_ok {sigs : Signatures} {scope : Scope} {op : Connective}
    {l r : Formula} : (bin op l r).check sigs scope = .ok () ↔
      l.check sigs scope = .ok () ∧ r.check sigs scope = .ok () := by
  simp [check, bind_eq_ok, Unique.exists_iff]

/-- An instance is read through the signature of its own name. -/
theorem Instance.check_eq_of_lookup {sigs sigs' : Signatures} {scope : Scope} {i : Instance}
    (h : sigs'.lookup i.name = sigs.lookup i.name) :
    i.check sigs' scope = i.check sigs scope := by
  simp only [Instance.check, h]

theorem Equation.check_eq_ok {sigs : Signatures} {e : Equation} :
    e.check sigs = .ok () ↔
      (e.params.map VarDecl.name).Nodup ∧ e.rhs.check sigs e.params = .ok () := by
  rw [← Text.firstRepeat?_eq_none_iff]
  unfold Equation.check
  cases Text.firstRepeat? (e.params.map VarDecl.name) with
  | some p => simp
  | none => simp [mapError_eq_ok]

theorem forM_eq_ok {α ε : Type} {f : α → Except ε Unit} {xs : List α} :
    xs.forM f = .ok () ↔ ∀ x ∈ xs, f x = .ok () := by
  induction xs with
  | nil => simp [pure, Except.pure]
  | cons x xs ih =>
    rw [List.forM_eq_forM] at ih ⊢
    rw [List.forM_cons]
    cases h : f x <;> simp [bind, Except.bind, h, ih]

/-- Signatures do not mention right-hand sides. -/
theorem EqSystem.signatures_with_rhs (before after : List Equation) (e : Equation) (g : Formula)
    (i : Instance) : EqSystem.signatures ⟨before ++ { e with rhs := g } :: after, i⟩ =
      EqSystem.signatures ⟨before ++ e :: after, i⟩ := by
  simp [signatures, Equation.signature]

/-- Right-hand sides that are checked alike may be exchanged. -/
theorem EqSystem.check_rhs_congr {before after : List Equation} (e : Equation) {g : Formula}
    {i : Instance} (hg : ∀ sigs, g.check sigs e.params = e.rhs.check sigs e.params) :
    EqSystem.check ⟨before ++ { e with rhs := g } :: after, i⟩ =
      EqSystem.check ⟨before ++ e :: after, i⟩ := by
  have he (sigs : Signatures) : Equation.check sigs { e with rhs := g } = e.check sigs := by
    simp only [Equation.check, hg]
  simp [check, signatures_with_rhs, he]

theorem EqSystem.check_eq_ok {s : EqSystem} :
    s.check = .ok () ↔ (s.equations.map Equation.name).Nodup ∧
      (∀ e ∈ s.equations, e.check s.signatures = .ok ()) ∧
      s.init.check s.signatures [] = .ok () := by
  rw [← Text.firstRepeat?_eq_none_iff, ← forM_eq_ok]
  unfold EqSystem.check
  cases Text.firstRepeat? (s.equations.map Equation.name) with
  | some x => simp
  | none => simp [bind_eq_ok, mapError_eq_ok, Unique.exists_iff]

theorem bind_eq_error {ε α β : Type} {x : Except ε α} {f : α → Except ε β} {e : ε} :
    x >>= f = .error e ↔ x = .error e ∨ ∃ a, x = .ok a ∧ f a = .error e := by
  cases x <;> simp [bind, Except.bind]

theorem mapError_eq_error {ε ε' α : Type} {x : Except ε α} {f : ε → ε'} {e' : ε'} :
    x.mapError f = .error e' ↔ ∃ e, x = .error e ∧ f e = e' := by
  cases x <;> simp [Except.mapError]

theorem exists_of_forM_eq_error {α ε : Type} {f : α → Except ε Unit} {xs : List α} {e : ε}
    (h : xs.forM f = .error e) : ∃ x ∈ xs, f x = .error e := by
  induction xs with
  | nil => cases h
  | cons x xs ih =>
    obtain hx | ⟨_, -, hxs⟩ := bind_eq_error.mp h
    · exact ⟨x, List.mem_cons_self, hx⟩
    · obtain ⟨y, hy, hf⟩ := ih hxs
      exact ⟨y, List.mem_cons_of_mem _ hy, hf⟩

theorem EqSystem.check_eq_error_cases {s : EqSystem} {f : Fault} (h : s.check = .error f) :
    (∃ x, f = .duplicateEquation x) ∨ (∃ e ∈ s.equations, e.check s.signatures = .error f) ∨
      ∃ cause, s.init.check s.signatures [] = .error cause ∧ .inInit cause = f := by
  unfold check at h
  split at h
  · cases h
    exact .inl ⟨_, rfl⟩
  · obtain h | ⟨_, -, h⟩ := bind_eq_error.mp h
    · exact .inr (.inl (exists_of_forM_eq_error h))
    · exact .inr (.inr (mapError_eq_error.mp h))

end PbesLab
