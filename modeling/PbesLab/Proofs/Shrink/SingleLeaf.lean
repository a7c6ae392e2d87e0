import PbesLab.Proofs.EqSystem.Typing
import PbesLab.Proofs.Shrink.Minimum
import PbesLab.Proofs.Shrink.Weight
import PbesLab.Proofs.Shrink.WellFormed

namespace PbesLab

namespace Formula

variable {Q : DataExpr → Prop} {f g u : Formula} {d : DataExpr}

/-- The data of the leaves `val d`, from left to right. -/
def vals : Formula → List DataExpr
  | const _ | inst _ => []
  | val d => [d]
  | neg f | quant _ _ f => f.vals
  | bin _ l r => l.vals ++ r.vals

def quantified (binders : List (Quantifier × VarDecl)) (f : Formula) : Formula :=
  binders.foldr (fun b f => quant b.1 b.2 f) f

/-- The leaf `val d` under quantifiers of distinct variables, all of which occur in `d`. -/
def IsBare (d : DataExpr) (f : Formula) : Prop :=
  ∃ binders, f = quantified binders (val d) ∧ (binders.map (·.2.name)).Nodup ∧
    ∀ b ∈ binders, b.2.name ∈ d.vars

theorem vals_quantified (binders : List (Quantifier × VarDecl)) (f : Formula) :
    (quantified binders f).vals = f.vals := by
  induction binders with
  | nil => rfl
  | cons b binders ih => exact ih

theorem mem_freeVars_quantified {binders : List (Quantifier × VarDecl)} {x : String} :
    x ∈ (quantified binders f).freeVars ↔ x ∈ f.freeVars ∧ x ∉ binders.map (·.2.name) := by
  induction binders with
  | nil => simp [quantified]
  | cons b binders ih =>
    change x ∈ (quantified binders f).freeVars.filter (· ≠ b.2.name) ↔ _
    rw [List.mem_filter, ih]
    simp
    tauto

theorem vals_substitute_const (name : String) (value : Bool) (f : Formula) :
    (substitute name (const value) f).vals = f.vals := by
  induction f with
  | const b | val d => rfl
  | inst i =>
    unfold substitute
    split <;> rfl
  | neg f ih | quant q v f ih => exact ih
  | bin op l r ihl ihr => simp only [substitute, vals, ihl, ihr]

theorem mem_reducts_of_mem_parts (hu : u ∈ f.parts) : u ∈ f.reducts := by
  have hne : u ≠ f := fun h => by
    have hlt := (weight_of_mem_parts hu).1
    rw [h] at hlt
    exact lt_irrefl _ hlt
  have hmem : u ∈ f.reductions := by
    simp only [reductions, List.mem_filter, List.mem_append, decide_eq_true_eq]
    exact ⟨.inr hu, hne⟩
  exact mem_reducts_iff_fill.mpr ⟨.hole, f, u, rfl, hmem, rfl⟩

theorem quant_mem_reducts (q : Quantifier) (v : VarDecl) (hg : g ∈ f.reducts) :
    quant q v g ∈ (quant q v f).reducts := by
  obtain ⟨C, t, u, rfl, hu, rfl⟩ := mem_reducts_iff_fill.mp hg
  exact mem_reducts_iff_fill.mpr ⟨.quant q v C, t, u, rfl, hu, rfl⟩

theorem const_true_mem_reducts (h : ∀ b, f ≠ const b) : const true ∈ f.reducts := by
  have hmem : const true ∈ f.reductions := by
    simp only [reductions, List.mem_filter, List.mem_append, decide_eq_true_eq]
    exact ⟨.inl List.mem_cons_self, (h true).symm⟩
  exact mem_reducts_iff_fill.mpr ⟨.hole, f, const true, rfl, hmem, rfl⟩

/-- There is a leaf of the kind, and none in any smaller result of a reduction. -/
structure Tight (Q : DataExpr → Prop) (f : Formula) : Prop where
  leaf : ∃ d ∈ f.vals, Q d
  lost : ∀ g ∈ f.reducts, g.size < f.size → ∀ d ∈ g.vals, ¬ Q d

theorem Tight.not_leaf_of_mem_parts (h : f.Tight Q) (hu : u ∈ f.parts) (hd : d ∈ u.vals) : ¬ Q d :=
  h.lost u (mem_reducts_of_mem_parts hu) (weight_of_mem_parts hu).1 d hd

theorem Tight.not_neg : ¬ (neg f).Tight Q := by
  intro h
  obtain ⟨d, hd, hQ⟩ := h.leaf
  exact h.not_leaf_of_mem_parts (u := f) (by simp [parts]) hd hQ

theorem Tight.not_bin {op : Connective} {l r : Formula} : ¬ (bin op l r).Tight Q := by
  intro h
  obtain ⟨d, hd, hQ⟩ := h.leaf
  obtain hd | hd := List.mem_append.mp hd
  · exact h.not_leaf_of_mem_parts (u := l) (by simp [parts]) hd hQ
  · exact h.not_leaf_of_mem_parts (u := r) (by simp [parts]) hd hQ

theorem Tight.of_quant {q : Quantifier} {v : VarDecl} (h : (quant q v f).Tight Q) :
    v.name ∈ f.freeVars ∧ f.Tight Q := by
  obtain ⟨d, hd, hQ⟩ := h.leaf
  constructor
  · by_contra hv
    exact h.not_leaf_of_mem_parts (u := f) (by simp [parts, hv]) hd hQ
  · refine ⟨⟨d, hd, hQ⟩, fun g hg hlt => ?_⟩
    exact h.lost (quant q v g) (quant_mem_reducts q v hg) (Nat.add_lt_add_left hlt 1)

/-- A tight formula is a leaf of the kind under quantifiers that all bind something in it. -/
theorem Tight.isBare (h : f.Tight Q) : ∃ d, Q d ∧ f.IsBare d := by
  induction f with
  | const b | inst i =>
    obtain ⟨d, hd, -⟩ := h.leaf
    cases hd
  | val d =>
    obtain ⟨d', hd', hQ⟩ := h.leaf
    obtain rfl : d' = d := List.mem_singleton.mp hd'
    exact ⟨d', hQ, [], rfl, List.nodup_nil, by simp⟩
  | neg f => exact absurd h Tight.not_neg
  | bin op l r => exact absurd h Tight.not_bin
  | quant q v f ih =>
    obtain ⟨hv, hf⟩ := h.of_quant
    obtain ⟨d, hQ, binders, rfl, hnodup, hvars⟩ := ih hf
    -- what is free under the inner quantifiers is in the leaf, and none of them binds it
    obtain ⟨hvd, hnew⟩ := mem_freeVars_quantified.mp hv
    refine ⟨d, hQ, (q, v) :: binders, rfl, List.nodup_cons.mpr ⟨hnew, hnodup⟩, ?_⟩
    intro b hb
    obtain rfl | hb := List.mem_cons.mp hb
    · exact hvd
    · exact hvars b hb

end Formula

namespace EqSystem

variable {Q : DataExpr → Prop} {s : EqSystem} {d : DataExpr}

/-- The data of the leaves `val d` of all right-hand sides, in order. -/
def vals (s : EqSystem) : List DataExpr :=
  s.equations.flatMap (·.rhs.vals)

/-- One equation holds the leaf `val d` under quantifiers of its variables. If the system does not
start there, it starts on a constant. There are no other equations. -/
inductive Pared (d : DataExpr) : EqSystem → Prop
  | alone {holder i} (hinit : holder.name = i.name) (hd : holder.rhs.IsBare d) :
      Pared d ⟨[holder], i⟩
  | beside {first holder equations i b} (hperm : equations.Perm [first, holder])
      (hinit : first.name = i.name) (hother : holder.name ≠ i.name) (hfirst : first.rhs = .const b)
      (hd : holder.rhs.IsBare d) : Pared d ⟨equations, i⟩

theorem mem_vals : d ∈ s.vals ↔ ∃ e ∈ s.equations, d ∈ e.rhs.vals :=
  List.mem_flatMap

theorem Pared.vals_eq (h : s.Pared d) : s.vals = [d] := by
  cases h with
  | @alone holder i hinit hd =>
    obtain ⟨binders, hrhs, -⟩ := hd
    simp [vals, hrhs, Formula.vals_quantified, Formula.vals]
  | @beside first holder equations i b hperm hinit hother hfirst hd =>
    obtain ⟨binders, hrhs, -⟩ := hd
    apply List.perm_singleton.mp
    apply (hperm.flatMap_right _).trans
    simp [hfirst, hrhs, Formula.vals_quantified, Formula.vals]

theorem mem_vals_remove {e : Equation} {name : String} {value : Bool} (he : e ∈ s.equations)
    (hne : e.name ≠ name) (hd : d ∈ e.rhs.vals) : d ∈ (s.remove name value).vals := by
  have hkept : e ∈ s.equations.filter (·.name ≠ name) :=
    List.mem_filter.mpr ⟨he, by simpa using hne⟩
  refine mem_vals.mpr ⟨_, List.mem_map.mpr ⟨e, hkept, rfl⟩, ?_⟩
  rw [Formula.vals_substitute_const]
  exact hd

/-- A reduction inside one right-hand side is a step, which keeps all other right-hand sides. -/
theorem exists_step_of_mem_reducts {e : Equation} {g : Formula} (he : e ∈ s.equations)
    (hg : g ∈ e.rhs.reducts) : ∃ q ∈ s.reductions,
      q.size + e.rhs.size = s.size + g.size ∧
        q.looseLeaves + e.rhs.looseLeaves = s.looseLeaves + g.looseLeaves ∧
        (∀ d ∈ g.vals, d ∈ q.vals) ∧
        ∀ e' ∈ s.equations, e' ≠ e → ∀ d ∈ e'.rhs.vals, d ∈ q.vals := by
  obtain ⟨equations, i⟩ := s
  obtain ⟨before, after, rfl⟩ := List.append_of_mem he
  obtain ⟨C, t, u, hfill, hu, rfl⟩ := Formula.mem_reducts_iff_fill.mp hg
  let e' : Equation := { e with rhs := C.fill u }
  have hq : ⟨before ++ e' :: after, i⟩ ∈ EqSystem.reducts ⟨before ++ e :: after, i⟩ :=
    mem_reducts_iff_rewrites.mpr (.intro C hu hfill.symm)
  obtain ⟨hsize, hloose⟩ := weight_with_rhs before after e i (C.fill u)
  refine ⟨_, List.mem_append_right _ hq, hsize, hloose, ?_, ?_⟩
  · intro d hd
    exact mem_vals.mpr ⟨e', by simp, hd⟩
  · intro other hother hne d hd
    refine mem_vals.mpr ⟨other, ?_, hd⟩
    simp only [List.mem_append, List.mem_cons] at hother ⊢
    tauto

section Minimal

variable (hcheck : s.check = .ok ())
  (hmin : ∀ q ∈ s.reductions, q.weight < s.weight → ∀ d ∈ q.vals, ¬ Q d)
include hmin

/-- Beside an equation with a leaf of the kind there is at most the one on which the system
starts. -/
theorem name_eq_of_minimal {holder e : Equation} (hholder : holder ∈ s.equations)
    (hd : d ∈ holder.rhs.vals) (hQ : Q d) (he : e ∈ s.equations) (hne : e.name ≠ s.init.name) :
    holder.name = e.name := by
  by_contra hother
  have hstep : s.remove e.name true ∈ s.reductions := by
    refine List.mem_append_left _ (List.mem_flatMap.mpr ⟨e, ?_, List.mem_cons_self⟩)
    exact List.mem_filter.mpr ⟨he, by simpa using hne⟩
  have hlt : (s.remove e.name true).weight < s.weight := .inl (weight_remove he true).1
  exact hmin _ hstep hlt d (mem_vals_remove hholder hother hd) hQ

/-- Beside an equation with a leaf of the kind all are constants. -/
theorem rhs_eq_const_of_minimal {holder e : Equation} (hholder : holder ∈ s.equations)
    (hd : d ∈ holder.rhs.vals) (hQ : Q d) (he : e ∈ s.equations) (hne : holder ≠ e) :
    ∃ b, e.rhs = .const b := by
  by_contra! hconst
  obtain ⟨q, hq, hsize, hloose, -, hothers⟩ :=
    exists_step_of_mem_reducts he (Formula.const_true_mem_reducts hconst)
  have hsize' : (Formula.const true).size = 1 := rfl
  have hloose' : (Formula.const true).looseLeaves = 0 := rfl
  have hlt : q.weight < s.weight := by
    rw [weight_lt_iff]
    obtain h | h | ⟨b, h, -⟩ := Formula.weight_of_const (hconst true).symm
    · omega
    · omega
    · exact absurd h (hconst b)
  exact hmin q hq hlt d (hothers holder hholder hne d hd) hQ

theorem tight_of_minimal {holder : Equation} (hholder : holder ∈ s.equations)
    (hd : d ∈ holder.rhs.vals) (hQ : Q d) : holder.rhs.Tight Q := by
  refine ⟨⟨d, hd, hQ⟩, fun g hg hlt d' hd' => ?_⟩
  obtain ⟨q, hq, hsize, -, hvals, -⟩ := exists_step_of_mem_reducts hholder hg
  have hlight : q.weight < s.weight := by
    rw [weight_lt_iff]
    omega
  exact hmin q hq hlight d' (hvals d' hd')

include hcheck

theorem pared_of_minimal (hleaf : ∃ d ∈ s.vals, Q d) : ∃ d, Q d ∧ s.Pared d := by
  obtain ⟨d, hmem, hQ⟩ := hleaf
  obtain ⟨holder, hholder, hd⟩ := mem_vals.mp hmem
  obtain ⟨d', hQ', hbare⟩ := (tight_of_minimal hmin hholder hd hQ).isBare
  obtain ⟨hnames, -, -, first, hfirst, hinit, -⟩ := check_eq_ok_iff_wellFormed.mp hcheck
  have honly (e : Equation) (he : e ∈ s.equations) : e = first ∨ e = holder := by
    by_cases hne : e.name = s.init.name
    · exact .inl (List.inj_on_of_nodup_map hnames he hfirst (hne.trans hinit.symm))
    · have hname := name_eq_of_minimal hmin hholder hd hQ he hne
      exact .inr (List.inj_on_of_nodup_map hnames he hholder hname.symm)
  have hnodup : s.equations.Nodup := hnames.of_map
  refine ⟨d', hQ', ?_⟩
  obtain ⟨equations, i⟩ := s
  -- the leaf is in the equation that `init` asks for, or in the only other one
  by_cases hsame : holder = first
  · subst hsame
    have hperm : equations.Perm [holder] := by
      apply (List.perm_ext_iff_of_nodup hnodup (List.nodup_singleton _)).mpr
      intro e
      rw [List.mem_singleton]
      exact ⟨fun he => (honly e he).elim id id, fun h => h ▸ hholder⟩
    obtain rfl : equations = [holder] := List.perm_singleton.mp hperm
    exact .alone hinit hbare
  · have hother : holder.name ≠ i.name := fun h =>
      hsame (List.inj_on_of_nodup_map hnames hholder hfirst (h.trans hinit.symm))
    obtain ⟨b, hb⟩ := rhs_eq_const_of_minimal hmin hholder hd hQ hfirst hsame
    refine .beside ?_ hinit hother hb hbare
    apply (List.perm_ext_iff_of_nodup hnodup (by simp [Ne.symm hsame])).mpr
    intro e
    rw [List.mem_cons, List.mem_singleton]
    constructor
    · exact honly e
    · rintro (rfl | rfl)
      · exact hfirst
      · exact hholder

end Minimal

end EqSystem

/-- From a well-formed system, with a test that fails as long as there is a leaf of a kind, a search
comes down to a single leaf: it is of the kind, and nothing stands around it but quantifiers of its
own variables, in an equation beside which there is at most a constant to start on. -/
theorem Search.run_reaches_single_leaf {σ ε : Type} {p : Probe σ ε} {passes : EqSystem → Bool}
    (hp : p.Pure passes) {Q : DataExpr → Prop}
    (hQ : ∀ q, passes q = false ↔ ∃ d ∈ q.vals, Q d) {s : EqSystem} (hcheck : s.check = .ok ())
    (hleaf : ∃ d ∈ s.vals, Q d) (name : String) (st : σ) :
    ∃ r d, (run p (start name s) st).1 = .ok r ∧ Q d ∧ r.vals = [d] ∧ r.Pared d := by
  obtain ⟨r, hr⟩ := run_eq_ok_of_total (fun q st => ⟨_, hp q st⟩) (start name s) st
  obtain ⟨hreached, hpassed⟩ := calls_of_result hr
  have hkept : r.check = .ok () ∧ ∃ d ∈ r.vals, Q d := by
    obtain rfl | hcall := hreached
    · exact ⟨hcheck, hleaf⟩
    · refine ⟨check_of_mem_calls hcall, (hQ r).mp ?_⟩
      obtain ⟨st', hst'⟩ := answers_of_mem_calls hcall
      exact Except.ok.inj ((hp r st').symm.trans hst')
  have hmin (q : EqSystem) (hq : q ∈ r.reductions) (hlt : q.weight < r.weight) :
      ∀ d ∈ q.vals, ¬ Q d := by
    have hlighter : q ∈ lighter r :=
      mem_lighter.mpr ⟨hq, EqSystem.check_of_mem_reductions hq hkept.1, hlt⟩
    obtain ⟨st', hst'⟩ := answers_of_mem_calls (hpassed q hlighter)
    have htrue : passes q = true := Except.ok.inj ((hp q st').symm.trans hst')
    intro d hd hQd
    have hfalse : passes q = false := (hQ q).mpr ⟨d, hd, hQd⟩
    rw [htrue] at hfalse
    cases hfalse
  obtain ⟨d, hd, hpared⟩ := EqSystem.pared_of_minimal hkept.1 hmin hkept.2
  exact ⟨r, d, hr, hd, hpared.vals_eq, hpared⟩

/-- A comparison with `>` under quantifiers, one of which hides a parameter:
`nu X(n: Nat) = val(n < 2) && Y(n) || !X(0);
mu Y(m: Nat) = forall k: Nat. val(k < 3) => exists m: Nat. val(m + k > 1); init X(0);`. -/
def nestedSystem : EqSystem where
  equations := [⟨.nu, "X", [⟨"n", .nat⟩], .bin .or
      (.bin .and (.val (.binary .less (.var "n") (.nat 2))) (.inst ⟨"Y", [.var "n"]⟩))
      (.neg (.inst ⟨"X", [.nat 0]⟩))⟩,
    ⟨.mu, "Y", [⟨"m", .nat⟩], .quant .all ⟨"k", .nat⟩ (.bin .imp
      (.val (.binary .less (.var "k") (.nat 3)))
      (.quant .ex ⟨"m", .nat⟩
        (.val (.binary .greater (.binary .plus (.var "m") (.var "k")) (.nat 1)))))⟩]
  init := ⟨"X", [.nat 0]⟩

def DataExpr.isGreater : DataExpr → Bool
  | binary .greater _ _ => true
  | _ => false

/-- Fails as long as there is a comparison with `>`, and counts its calls. -/
def greaterProbe : Probe Nat Unit where
  passes q n := (.ok (!q.vals.any DataExpr.isGreater), n + 1)
  note _ n := n

theorem nestedSystem_reaches_single_leaf :
    nestedSystem.check = .ok () ∧ (∃ d ∈ nestedSystem.vals, d.isGreater) ∧
      greaterProbe.Pure (fun q => !q.vals.any DataExpr.isGreater) ∧
      ∃ r d, (Search.run greaterProbe (Search.start "x" nestedSystem) 0).1 = .ok r ∧
        d.isGreater ∧ r.vals = [d] ∧ r.Pared d := by
  have hcheck : nestedSystem.check = .ok () := by decide
  have hleaf : ∃ d ∈ nestedSystem.vals, d.isGreater := by decide
  have hpure : greaterProbe.Pure fun q => !q.vals.any DataExpr.isGreater := fun _ _ => rfl
  have hfails (q : EqSystem) : (!q.vals.any DataExpr.isGreater) = false ↔
      ∃ d ∈ q.vals, d.isGreater := by simp
  exact ⟨hcheck, hleaf, hpure,
    Search.run_reaches_single_leaf hpure hfails hcheck hleaf "x" 0⟩

end PbesLab
