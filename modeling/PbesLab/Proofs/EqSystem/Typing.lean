import PbesLab.Proofs.EqSystem.Check
import PbesLab.Proofs.Lists

namespace PbesLab

/-- Which sort a name has here. -/
abbrev Environment := String → DataSort → Prop

namespace Environment

def empty : Environment :=
  fun _ _ => False

def declared (vs : List VarDecl) : Environment :=
  fun x s => ⟨x, s⟩ ∈ vs

/-- An inner declaration takes the place of an outer one. -/
def override (Γ : Environment) (v : VarDecl) : Environment :=
  fun x s => if x = v.name then s = v.sort else Γ x s

end Environment

inductive DataExpr.HasSort (Γ : Environment) : DataExpr → DataSort → Prop
  | var {x s} (hx : Γ x s) : HasSort Γ (.var x) s
  | nat (n : UInt32) : HasSort Γ (.nat n) .nat
  | bool (b : Bool) : HasSort Γ (.bool b) .bool
  | plus {l r} (hl : HasSort Γ l .nat) (hr : HasSort Γ r .nat) : HasSort Γ (.binary .plus l r) .nat
  | less {l r} (hl : HasSort Γ l .nat) (hr : HasSort Γ r .nat) : HasSort Γ (.binary .less l r) .bool
  | greater {l r} (hl : HasSort Γ l .nat) (hr : HasSort Γ r .nat) :
    HasSort Γ (.binary .greater l r) .bool
  | equal {l r s} (hl : HasSort Γ l s) (hr : HasSort Γ r s) : HasSort Γ (.binary .equal l r) .bool

/-- An instance of a declared equation, with an argument for each parameter and of its sort. -/
def Instance.Fits (equations : List Equation) (Γ : Environment) (i : Instance) : Prop :=
  ∃ e ∈ equations, e.name = i.name ∧
    List.Forall₂ (fun d (v : VarDecl) => d.HasSort Γ v.sort) i.args e.params

inductive Formula.WellTyped (equations : List Equation) : Environment → Formula → Prop
  | const {Γ} (b : Bool) : WellTyped equations Γ (.const b)
  | val {Γ d} (hd : d.HasSort Γ .bool) : WellTyped equations Γ (.val d)
  | inst {Γ i} (hi : i.Fits equations Γ) : WellTyped equations Γ (.inst i)
  | neg {Γ f} (hf : WellTyped equations Γ f) : WellTyped equations Γ (.neg f)
  | bin {Γ op l r} (hl : WellTyped equations Γ l) (hr : WellTyped equations Γ r) :
    WellTyped equations Γ (.bin op l r)
  | quant {Γ q v f} (hf : WellTyped equations (Γ.override v) f) :
    WellTyped equations Γ (.quant q v f)

structure EqSystem.WellFormed (s : EqSystem) : Prop where
  names : (s.equations.map Equation.name).Nodup
  params : ∀ e ∈ s.equations, (e.params.map VarDecl.name).Nodup
  rhs : ∀ e ∈ s.equations, e.rhs.WellTyped s.equations (.declared e.params)
  init : s.init.Fits s.equations .empty

/-- The environment and the scope give each name the same sort. -/
def Environment.Agrees (Γ : Environment) (scope : Scope) : Prop :=
  ∀ x s, Γ x s ↔ scope.sort? x = some s

namespace Environment

theorem agrees_empty : empty.Agrees [] :=
  fun _ _ => by simp [empty, Scope.sort?]

theorem Agrees.override {Γ : Environment} {scope : Scope} (h : Γ.Agrees scope) (v : VarDecl) :
    (Γ.override v).Agrees (v :: scope) := by
  intro x s
  rw [Scope.sort?_cons]
  by_cases hx : x = v.name
  · simp [Environment.override, hx, eq_comm]
  · simp [Environment.override, hx, Ne.symm hx, h x s]

/-- Names that are declared once have the sort of their declaration. -/
theorem agrees_declared {vs : List VarDecl} (h : (vs.map VarDecl.name).Nodup) :
    (declared vs).Agrees vs := by
  induction vs with
  | nil => exact fun x s => by simp [declared, Scope.sort?]
  | cons v vs ih =>
    obtain ⟨hv, hvs⟩ := List.nodup_cons.mp h
    intro x s
    rw [Scope.sort?_cons]
    by_cases hx : v.name = x
    · -- a second declaration of the same name is excluded
      have hout : (⟨x, s⟩ : VarDecl) ∉ vs := fun hm =>
        hv (List.mem_map.mpr ⟨_, hm, hx.symm⟩)
      subst hx
      cases v
      simp [declared, hout, eq_comm]
    · have hne : (⟨x, s⟩ : VarDecl) ≠ v := fun he => hx (he ▸ rfl)
      rw [if_neg hx, ← ih hvs x s]
      simp [declared, hne]

end Environment

theorem DataExpr.sort_binary_eq_ok {scope : Scope} {op : DataOp} {l r : DataExpr} {t : DataSort} :
    (binary op l r).sort scope = .ok t ↔
      ∃ s, l.sort scope = .ok s ∧ r.sort scope = .ok s ∧ (op = .equal ∨ s = .nat) ∧
        t = if op = .plus then .nat else .bool := by
  simp only [sort]
  cases l.sort scope with
  | error e => simp [bind, Except.bind]
  | ok s =>
    by_cases hs : s = if op = .equal then s else .nat
    · cases r.sort scope with
      | error e => simp [bind, Except.bind, ← hs]
      | ok s' =>
        by_cases hs' : s' = s
        · subst hs'
          have hop : op = .equal ∨ s' = .nat := by
            by_cases h : op = .equal
            · exact .inl h
            · exact .inr (by rwa [if_neg h] at hs)
          simp [bind, Except.bind, ← hs, pure, Except.pure, hop, eq_comm]
        · simp [bind, Except.bind, ← hs, hs', throw, throwThe, MonadExceptOf.throw]
    · have hop : ¬ (op = .equal ∨ s = .nat) := by
        rintro (rfl | rfl) <;> simp at hs
      simp [bind, Except.bind, hs, throw, throwThe, MonadExceptOf.throw]
      tauto

theorem DataExpr.hasSort_iff {Γ : Environment} {scope : Scope} (hΓ : Γ.Agrees scope)
    (d : DataExpr) (s : DataSort) : d.HasSort Γ s ↔ d.sort scope = .ok s := by
  induction d generalizing s with
  | var x =>
    have hvar : (var x).HasSort Γ s ↔ Γ x s := ⟨fun | .var hx => hx, .var⟩
    rw [hvar, hΓ x s]
    cases h : scope.sort? x <;> simp [sort, h]
  | nat n =>
    constructor
    · rintro ⟨⟩
      rfl
    · rintro ⟨⟩
      exact .nat n
  | bool b =>
    constructor
    · rintro ⟨⟩
      rfl
    · rintro ⟨⟩
      exact .bool b
  | binary op l r ihl ihr =>
    simp only [sort_binary_eq_ok, ← ihl, ← ihr]
    constructor
    · intro h
      cases h with
      | plus hl hr | less hl hr | greater hl hr => exact ⟨.nat, hl, hr, .inr rfl, rfl⟩
      | equal hl hr => exact ⟨_, hl, hr, .inl rfl, rfl⟩
    · rintro ⟨s', hl, hr, hop, rfl⟩
      cases op with
      | equal => exact .equal hl hr
      | plus =>
        obtain rfl : s' = .nat := by simpa using hop
        exact .plus hl hr
      | less =>
        obtain rfl : s' = .nat := by simpa using hop
        exact .less hl hr
      | greater =>
        obtain rfl : s' = .nat := by simpa using hop
        exact .greater hl hr

theorem checkArguments_eq_ok {scope : Scope} {name : String} {ds : List DataExpr}
    {sorts : List DataSort} :
    sorts.length = ds.length ∧ checkArguments scope name ds sorts = .ok () ↔
      List.Forall₂ (fun d s => d.sort scope = .ok s) ds sorts := by
  induction ds generalizing sorts with
  | nil => cases sorts <;> simp [checkArguments]
  | cons d ds ih =>
    cases sorts with
    | nil => simp
    | cons expected sorts =>
      rw [List.forall₂_cons, ← ih]
      simp only [checkArguments]
      cases d.sort scope with
      | error e => simp [bind, Except.bind]
      | ok actual =>
        by_cases h : actual = expected
        · simp [bind, Except.bind, h]
        · simp [bind, Except.bind, h, throw, throwThe, MonadExceptOf.throw]

theorem EqSystem.lookup_signatures {s : EqSystem} (h : (s.equations.map Equation.name).Nodup)
    {x : String} {sorts : List DataSort} : s.signatures.lookup x = some sorts ↔
      ∃ e ∈ s.equations, e.name = x ∧ e.signature = sorts :=
  lookup_named h

theorem Instance.fits_iff {s : EqSystem} (hs : (s.equations.map Equation.name).Nodup)
    {Γ : Environment} {scope : Scope} (hΓ : Γ.Agrees scope) (i : Instance) :
    i.Fits s.equations Γ ↔ i.check s.signatures scope = .ok () := by
  have hargs (e : Equation) : List.Forall₂ (fun d (v : VarDecl) => d.HasSort Γ v.sort) i.args
      e.params ↔ e.signature.length = i.args.length ∧
        checkArguments scope i.name i.args e.signature = .ok () := by
    rw [checkArguments_eq_ok, Equation.signature, List.forall₂_map_right_iff]
    simp only [DataExpr.hasSort_iff hΓ]
  unfold Instance.check
  cases hlookup : s.signatures.lookup i.name with
  | none =>
    have hnone : ¬ i.Fits s.equations Γ := by
      rintro ⟨e, he, hname, -⟩
      have hsome := (EqSystem.lookup_signatures hs).mpr ⟨e, he, hname, rfl⟩
      rw [hlookup] at hsome
      cases hsome
    simp [hnone]
  | some sorts =>
    obtain ⟨e, he, hname, rfl⟩ := (EqSystem.lookup_signatures hs).mp hlookup
    have hfits : i.Fits s.equations Γ ↔ e.signature.length = i.args.length ∧
        checkArguments scope i.name i.args e.signature = .ok () := by
      rw [← hargs]
      constructor
      · rintro ⟨e', he', hname', hall⟩
        obtain rfl : e' = e := List.inj_on_of_nodup_map hs he' he (hname'.trans hname.symm)
        exact hall
      · exact fun hall => ⟨e, he, hname, hall⟩
    rw [hfits]
    by_cases hlen : e.signature.length = i.args.length
    · simp [hlen]
    · simp [hlen]

theorem Formula.wellTyped_iff {s : EqSystem} (hs : (s.equations.map Equation.name).Nodup)
    {Γ : Environment} {scope : Scope} (hΓ : Γ.Agrees scope) (f : Formula) :
    f.WellTyped s.equations Γ ↔ f.check s.signatures scope = .ok () := by
  -- Binders go into the environment and the scope alike, and the two keep agreeing.
  induction f generalizing Γ scope with
  | const b => exact ⟨fun _ => rfl, fun _ => .const b⟩
  | val d =>
    have hval : (val d).WellTyped s.equations Γ ↔ d.HasSort Γ .bool := by
      refine ⟨fun h => ?_, .val⟩
      cases h
      assumption
    rw [hval, d.hasSort_iff hΓ]
    simp only [check]
    cases d.sort scope with
    | error e => simp [bind, Except.bind]
    | ok s =>
      cases s with
      | bool => simp [bind, Except.bind, pure, Except.pure]
      | nat => simp [bind, Except.bind, throw, throwThe, MonadExceptOf.throw]
  | inst i =>
    have hinst : (inst i).WellTyped s.equations Γ ↔ i.Fits s.equations Γ := by
      refine ⟨fun h => ?_, .inst⟩
      cases h
      assumption
    rw [hinst, i.fits_iff hs hΓ]
    rfl
  | neg f ih =>
    have hneg : (neg f).WellTyped s.equations Γ ↔ f.WellTyped s.equations Γ := by
      refine ⟨fun h => ?_, .neg⟩
      cases h
      assumption
    rw [hneg, ih hΓ]
    rfl
  | bin op l r ihl ihr =>
    rw [check_bin_eq_ok, ← ihl hΓ, ← ihr hΓ]
    constructor
    · intro h
      cases h with
      | bin hl hr => exact ⟨hl, hr⟩
    · rintro ⟨hl, hr⟩
      exact .bin hl hr
  | quant q v f ih =>
    have hquant : (quant q v f).WellTyped s.equations Γ ↔
        f.WellTyped s.equations (Γ.override v) := by
      refine ⟨fun h => ?_, .quant⟩
      cases h
      assumption
    rw [hquant, ih (hΓ.override v)]
    rfl

theorem Equation.check_eq_ok_iff_wellTyped {s : EqSystem}
    (hs : (s.equations.map Equation.name).Nodup) (e : Equation) :
    e.check s.signatures = .ok () ↔ (e.params.map VarDecl.name).Nodup ∧
      e.rhs.WellTyped s.equations (.declared e.params) := by
  rw [check_eq_ok]
  refine and_congr_right fun hparams => ?_
  rw [Formula.wellTyped_iff hs (Environment.agrees_declared hparams)]

theorem EqSystem.check_eq_ok_iff_wellFormed {s : EqSystem} : s.check = .ok () ↔ s.WellFormed := by
  rw [check_eq_ok]
  constructor
  · rintro ⟨hnames, hequations, hinit⟩
    have hparts (e : Equation) (he : e ∈ s.equations) :=
      (e.check_eq_ok_iff_wellTyped hnames).mp (hequations e he)
    exact ⟨hnames, fun e he => (hparts e he).1, fun e he => (hparts e he).2,
      (Instance.fits_iff hnames Environment.agrees_empty _).mpr hinit⟩
  · rintro ⟨hnames, hparams, hrhs, hinit⟩
    exact ⟨hnames, fun e he => (e.check_eq_ok_iff_wellTyped hnames).mpr ⟨hparams e he, hrhs e he⟩,
      (Instance.fits_iff hnames Environment.agrees_empty _).mp hinit⟩

theorem DataExpr.declared_of_sort {scope : Scope} {d : DataExpr} {s : DataSort}
    (h : d.sort scope = .ok s) {x : String} (hx : x ∈ d.vars) : x ∈ scope.map VarDecl.name := by
  induction d generalizing s with
  | var y =>
    obtain rfl : x = y := by simpa [vars] using hx
    cases hfind : scope.find? (·.name = x) with
    | none => simp [sort, Scope.sort?, hfind] at h
    | some v =>
      have hname : v.name = x := by simpa using List.find?_some hfind
      exact hname ▸ List.mem_map_of_mem (List.mem_of_find?_eq_some hfind)
  | nat n => simp [vars] at hx
  | bool b => simp [vars] at hx
  | binary op l r ihl ihr =>
    obtain ⟨s', hl, hr, -⟩ := sort_binary_eq_ok.mp h
    obtain hx | hx := List.mem_append.mp hx
    · exact ihl hl hx
    · exact ihr hr hx

theorem Instance.declared_of_check {sigs : Signatures} {scope : Scope} {i : Instance}
    (h : i.check sigs scope = .ok ()) {x : String} (hx : x ∈ i.vars) :
    x ∈ scope.map VarDecl.name := by
  unfold check at h
  split at h
  · cases h
  · next sorts _ =>
    split at h
    · cases h
    · next hlen =>
      have hall := checkArguments_eq_ok.mp ⟨not_not.mp hlen, h⟩
      obtain ⟨d, hd, hx⟩ := List.mem_flatMap.mp hx
      obtain ⟨s, -, hs⟩ := exists_of_forall₂ hall hd
      exact d.declared_of_sort hs hx

/-- The free variables of a checked formula are declared. -/
theorem Formula.declared_of_check {sigs : Signatures} {scope : Scope} {f : Formula}
    (h : f.check sigs scope = .ok ()) {x : String} (hx : x ∈ f.freeVars) :
    x ∈ scope.map VarDecl.name := by
  induction f generalizing scope with
  | const b => simp [freeVars] at hx
  | val d =>
    cases hd : d.sort scope with
    | error e => simp [check, hd, bind, Except.bind] at h
    | ok s => exact d.declared_of_sort hd hx
  | inst i => exact i.declared_of_check h hx
  | neg f ih => exact ih h hx
  | bin op l r ihl ihr =>
    obtain ⟨hl, hr⟩ := check_bin_eq_ok.mp h
    obtain hx | hx := List.mem_append.mp hx
    · exact ihl hl hx
    · exact ihr hr hx
  | quant q v f ih =>
    obtain ⟨hx, hne⟩ := List.mem_filter.mp hx
    have hdecl := ih h hx
    rw [List.map_cons, List.mem_cons] at hdecl
    exact hdecl.resolve_left (by simpa using hne)

theorem prefix_toList_append {p : List Char} {a b : String} (h : p <+: a.toList) :
    p <+: (a ++ b).toList := by
  rw [String.toList_append]
  exact h.trans (List.prefix_append _ _)

/-- Each wording starts with the same heading, before a number of further pieces. -/
theorem Fault.heading_prefix (f : Fault) : "Malformed PBES: ".toList <+: f.message.toList := by
  cases f with
  | inInit f =>
    refine prefix_toList_append ?_
    decide
  | duplicateEquation x | freeVariable x | undeclared x =>
    iterate 2 refine prefix_toList_append ?_
    decide
  | inEquation x f =>
    iterate 3 refine prefix_toList_append ?_
    decide
  | duplicateParameter p x | notBoolean d s =>
    iterate 4 refine prefix_toList_append ?_
    decide
  | arity x m n | operandSort s d t =>
    iterate 5 refine prefix_toList_append ?_
    decide
  | argumentSort d x s t =>
    iterate 7 refine prefix_toList_append ?_
    decide

/-- The check accepts the well-formed systems; for any other it gives the fault of a malformed
system. -/
theorem EqSystem.check_iff_wellFormed (s : EqSystem) :
    (s.check = .ok () ↔ s.WellFormed) ∧
      (¬ s.WellFormed ↔
        ∃ f, s.check = .error f ∧ "Malformed PBES: ".toList <+: f.message.toList) := by
  refine ⟨check_eq_ok_iff_wellFormed, ?_⟩
  rw [← check_eq_ok_iff_wellFormed]
  cases s.check with
  | ok u => simp
  | error f => exact ⟨fun _ => ⟨f, rfl, f.heading_prefix⟩, fun _ => by simp⟩

end PbesLab
