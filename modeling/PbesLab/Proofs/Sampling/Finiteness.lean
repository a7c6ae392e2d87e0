import PbesLab.Formula.Position
import PbesLab.Proofs.Formula.Unfolding
import PbesLab.Proofs.Sampling.System

namespace PbesLab.Sampling

variable {headers : List Header} {scope : Scope} {vars : List VarDecl} {f g : Formula}

def SmallOn (scope : Scope) (free : List String) (ρ : Valuation) : Prop :=
  ∀ v ∈ scope, v.name ∈ free → (ρ v.name).Small v.sort

theorem SmallOn.mono {free free' : List String} {ρ : Valuation} (h : SmallOn scope free' ρ)
    (hsub : free ⊆ free') : SmallOn scope free ρ :=
  fun v hv hfree => h v hv (hsub hfree)

/-- From small values of its free variables a term asks only for instances with small arguments. -/
def Tame (headers : List Header) (scope : Scope) (f : Formula) : Prop :=
  ∀ ρ, SmallOn scope f.freeVars ρ → ∀ i ρ', f.Asks ρ i ρ' →
    ∃ h ∈ headers, h.name = i.name ∧ SmallArgs h.params i.args ρ'

/-- Each quantifier of a term binds one of the variables and guards it. -/
def Guarded (vars : List VarDecl) (f : Formula) : Prop :=
  ∀ i q v body, f.subterm? i = some (.quant q v body) →
    v ∈ vars ∧ ∃ g, Bounded v g (.quant q v body)

theorem ensures_constant_small (s : DataSort) :
    Ensures (constant s) fun d => ∀ ρ, ∃ x, d.eval ρ = some x ∧ x.Small s := by
  cases s with
  | bool => exact (ensures_any flip).bind fun b _ => ensures_pure fun _ => ⟨.bool b, rfl, trivial⟩
  | nat =>
    refine (ensures_below32 (n := constantCount) (by decide)).bind fun n hn => ?_
    refine ensures_pure fun _ => ?_
    have hvalue : (UInt32.ofNat n).toNat = n :=
      UInt32.toNat_ofNat_of_lt' (Nat.lt_trans hn (by decide))
    refine ⟨.nat n, ?_, Nat.le_of_lt_succ hn⟩
    rw [DataExpr.eval, hvalue]

theorem ensures_operand_small (scope : Scope) (s : DataSort) :
    Ensures (operand scope s) fun d => ∀ ρ, SmallOn scope d.vars ρ →
      ∃ x, d.eval ρ = some x ∧ x.Small s := by
  have hconstant : Ensures (constant s) fun d => ∀ ρ, SmallOn scope d.vars ρ →
      ∃ x, d.eval ρ = some x ∧ x.Small s :=
    (ensures_constant_small s).mono fun d hd ρ _ => hd ρ
  unfold operand
  dsimp only
  split
  · exact hconstant
  · refine (ensures_any (chance .threeTenths)).bind fun constantly _ => ?_
    split
    · exact hconstant
    · refine (ensures_choose? _).bind fun o ho => ?_
      cases o with
      | none => exact hconstant
      | some v =>
        obtain ⟨hv, hs⟩ := List.mem_filter.mp (ho.2 v rfl)
        obtain rfl : v.sort = s := of_decide_eq_true hs
        exact ensures_pure fun ρ hρ => ⟨ρ v.name, rfl, hρ v hv List.mem_cons_self⟩

theorem ensures_truth_const : Ensures truth fun f => ∃ b, f = .const b :=
  (ensures_any flip).bind fun b _ => ensures_pure ⟨b, rfl⟩

theorem ensures_atom_data :
    Ensures (atom scope) fun f => (∃ b, f = .const b) ∨ ∃ d, f = .val d := by
  unfold atom
  refine (ensures_any (choose? scope)).bind fun o _ => ?_
  match o with
  | none => exact ensures_truth_const.mono fun f hf => .inl hf
  | some ⟨x, .bool⟩ => exact ensures_pure (.inr ⟨_, rfl⟩)
  | some ⟨x, .nat⟩ =>
    refine (ensures_any (constant .nat)).bind fun d _ => ?_
    exact (ensures_any (below32 3)).bind fun i _ => ensures_pure (.inr ⟨_, rfl⟩)

theorem tame_const (b : Bool) : Tame headers scope (.const b) :=
  fun _ _ _ _ hasks => nomatch hasks

theorem tame_val (d : DataExpr) : Tame headers scope (.val d) :=
  fun _ _ _ _ hasks => nomatch hasks

theorem ensures_randomInstance_tame :
    Ensures (randomInstance headers scope) (Tame headers scope) := by
  unfold randomInstance
  refine (ensures_any (below64 headers.length)).bind fun i _ => ?_
  cases hi : headers[i]? with
  | none => exact ensures_pure (tame_const true)
  | some h =>
    refine (ensures_mapM fun p _ => ensures_operand_small scope p.sort).bind fun args hargs => ?_
    refine ensures_pure fun ρ hρ i ρ' hasks => ?_
    cases hasks with
    | inst =>
      refine ⟨h, List.mem_of_getElem? hi, rfl, ?_⟩
      have hvars : ∀ d ∈ args, SmallOn scope d.vars ρ := fun d hd =>
        hρ.mono fun x hx => List.mem_flatMap.mpr ⟨d, hd, hx⟩
      have hboth := (List.forall₂_and_left args h.params).mpr ⟨hvars, hargs.flip⟩
      exact (hboth.imp fun d p hd => hd.2 ρ hd.1).flip

theorem Tame.bounded (hscope : (scope.map VarDecl.name).Nodup) {v : VarDecl} (hv : v ∈ scope)
    (hsort : v.sort = .nat) (hg : Bounded v f g) (hf : Tame headers scope f) :
    Tame headers scope g := by
  intro ρ hρ i ρ' hasks
  -- a value that satisfies the guard is small, so the body is under small values again
  have hbody : ∀ x : Value, x.sort = v.sort →
      (DataExpr.binary .less (.var v.name) (.nat quantifierBound)).eval
        (Function.update ρ v.name x) = some (.bool true) →
      SmallOn scope f.freeVars (Function.update ρ v.name x) := by
    intro x hx hguard w hw hfree
    by_cases hname : w.name = v.name
    · obtain rfl : w = v := List.inj_on_of_nodup_map hscope hw hv hname
      rw [Function.update_self, hsort]
      exact Value.small_of_lt (by decide) (hx.trans hsort) hguard
    · rw [Function.update_of_ne hname]
      exact hρ w hw ((hg.mem_freeVars w.name).mpr ⟨hfree, hname⟩)
  cases hg with
  | all =>
    cases hasks with
    | quant x hx hguard hasks =>
      cases hasks with
      | left hasks => cases hasks
      | right hasks => exact hf _ (hbody x hx (hguard _ rfl)) i ρ' hasks
  | ex =>
    cases hasks with
    | quant x hx hguard hasks =>
      cases hasks with
      | left hasks => cases hasks
      | right hasks => exact hf _ (hbody x hx (hguard _ rfl)) i ρ' hasks

theorem kept_tame (hscope : (scope.map VarDecl.name).Nodup)
    (hvars : ∀ v ∈ vars, v ∈ scope ∧ v.sort = .nat) : Kept vars (Tame headers scope) where
  bin op l r hl hr := by
    intro ρ hρ i ρ' hasks
    cases hasks with
    | left hasks => exact hl ρ (hρ.mono (List.subset_append_left _ _)) i ρ' hasks
    | right hasks => exact hr ρ (hρ.mono (List.subset_append_right _ _)) i ρ' hasks
  neg hf := by
    intro ρ hρ i ρ' hasks
    cases hasks with
    | neg hasks => exact hf ρ hρ i ρ' hasks
  bounded hv hg hf := hf.bounded hscope (hvars _ hv).1 (hvars _ hv).2 hg

theorem guarded_leaf (h : f.children = []) : Guarded vars f := by
  intro i q v body hsub
  cases f with
  | const | val | inst => cases i <;> cases hsub
  | neg | bin | quant => cases h

theorem Guarded.bin {l r : Formula} (op : Connective) (hl : Guarded vars l) (hr : Guarded vars r) :
    Guarded vars (.bin op l r) := by
  intro i q v body hsub
  cases i with
  | zero => cases hsub
  | succ i =>
    rw [Formula.subterm?] at hsub
    split at hsub
    · exact hl _ q v body hsub
    · exact hr _ q v body hsub

theorem Guarded.quant {q : Quantifier} {v : VarDecl} {body : Formula} (hv : v ∈ vars)
    (hg : Bounded v f (.quant q v body)) (hbody : Guarded vars body) :
    Guarded vars (.quant q v body) := by
  intro i q' v' body' hsub
  cases i with
  | zero =>
    cases hsub
    exact ⟨hv, f, hg⟩
  | succ i => exact hbody i q' v' body' hsub

theorem kept_guarded (vars : List VarDecl) : Kept vars (Guarded vars) where
  bin op _ _ hl hr := hl.bin op hr
  neg hf := by
    intro i q v body hsub
    cases i with
    | zero => cases hsub
    | succ i => exact hf i q v body hsub
  bounded {v f g} hv hg hf := by
    have hguard : Guarded vars (guardOf v) := guarded_leaf rfl
    cases hg with
    | all => exact .quant hv .all (hguard.bin .imp hf)
    | ex => exact .quant hv .ex (hguard.bin .and hf)

theorem ensures_randomInstance_guarded :
    Ensures (randomInstance headers scope) (Guarded vars) := by
  unfold randomInstance
  refine (ensures_any (below64 headers.length)).bind fun i _ => ?_
  split
  · exact (ensures_any _).bind fun args _ => ensures_pure (guarded_leaf rfl)
  · exact ensures_pure (guarded_leaf rfl)

theorem ensures_terms_tame (c : Settings) (headers : List Header) (scope : Scope) :
    Ensures (terms c headers scope) (∀ f ∈ ·, Tame headers scope f) := by
  refine ensures_terms_of c (ensures_atom_data.mono ?_) ensures_randomInstance_tame
    (ensures_truth_const.mono ?_)
  · rintro f (⟨b, rfl⟩ | ⟨d, rfl⟩)
    · exact tame_const b
    · exact tame_val d
  · rintro f ⟨b, rfl⟩
    exact tame_const b

theorem ensures_terms_guarded (c : Settings) (headers : List Header) (scope : Scope) :
    Ensures (terms c headers scope) (∀ f ∈ ·, Guarded vars f) := by
  refine ensures_terms_of c (ensures_atom_data.mono ?_) ensures_randomInstance_guarded
    (ensures_truth_const.mono ?_)
  · rintro f (⟨b, rfl⟩ | ⟨d, rfl⟩)
    · exact guarded_leaf rfl
    · exact guarded_leaf rfl
  · rintro f ⟨b, rfl⟩
    exact guarded_leaf rfl

structure Finite (c : Settings) (headers : List Header) (h : Header) (e : Equation) : Prop where
  name : e.name = h.name
  params : e.params = h.params
  guarded : Guarded c.quantified e.rhs
  small (ρ : Valuation) : (∀ p ∈ h.params, (ρ p.name).Small p.sort) → ∀ i ρ', e.rhs.Asks ρ i ρ' →
    ∃ h' ∈ headers, h'.name = i.name ∧ SmallArgs h'.params i.args ρ'
  names : ∀ x ∈ e.rhs.names, x ∈ headers.map Header.name ∨
    x ∈ (h.params ++ c.quantified).map VarDecl.name

theorem ensures_equation_finite (c : Settings) (hheaders : (headers.map Header.name).Nodup)
    {h : Header} (hparams : h.params.Sublist parameterPool) :
    Ensures (equation c headers h) (Finite c headers h) := by
  have hscope := nodup_scope c hparams
  have hkept : Kept c.quantified (Tame headers (h.params ++ c.quantified)) :=
    kept_tame hscope fun v hv => ⟨List.mem_append_right _ hv, quantified_sort c v hv⟩
  have htame := hkept.equation (ensures_terms_tame c headers _) (tame_const true)
  have hguarded := (kept_guarded c.quantified).equation
    (ensures_terms_guarded c headers (h.params ++ c.quantified)) (guarded_leaf rfl)
  refine ((ensures_equation_drawn c hheaders hparams).and (htame.and hguarded)).mono ?_
  rintro e ⟨⟨hname, hsame, hdrawn, hclosed⟩, ⟨-, -, hsmall, -⟩, -, -, hguards, -⟩
  refine ⟨hname, hsame, hguards, fun ρ hρ => hsmall ρ fun v hv hfree => ?_, hdrawn.names⟩
  -- only parameters are free in the end
  obtain hv | hv := List.mem_append.mp hv
  · exact hρ v hv
  · exact absurd hfree (hclosed v hv)

variable {c : Settings} {count : Nat} {equations : List Equation}

theorem keepsSmall_systemOf (h : List.Forall₂ (Finite c headers) headers equations) {i : Instance}
    {ρ : Valuation} (hi : ∃ header ∈ headers, header.name = i.name ∧
      SmallArgs header.params i.args ρ) : (systemOf headers equations).KeepsSmall i ρ := by
  obtain ⟨header, hheader, hname, hargs⟩ := hi
  obtain ⟨e, he, hfinite⟩ := exists_of_forall₂ h hheader
  refine ⟨e, he, hfinite.name.trans hname, ?_⟩
  rwa [hfinite.params]

theorem smallArgs_initialValues (params : List VarDecl) (ρ : Valuation) :
    SmallArgs params (params.map fun p => initialValue p.sort) ρ := by
  rw [SmallArgs, List.forall₂_map_right_iff, List.forall₂_same]
  intro p _
  cases p.sort with
  | bool => exact ⟨.bool true, rfl, trivial⟩
  | nat => exact ⟨.nat 0, rfl, Nat.zero_le 2⟩

theorem keepsSmall_init (hheaders : Headed count headers) (hcount : 0 < count)
    (h : List.Forall₂ (Finite c headers) headers equations) (ρ : Valuation) :
    (systemOf headers equations).KeepsSmall (systemOf headers equations).init ρ := by
  obtain ⟨first, rest, rfl⟩ := hheaders.exists_first hcount
  refine keepsSmall_systemOf h ⟨first, List.mem_cons_self, rfl, ?_⟩
  exact smallArgs_initialValues first.params ρ

/-- The names of a system are those of its equations, of the pool and of quantified variables. -/
theorem mem_names_systemOf (hheaders : Headed count headers) (hcount : 0 < count)
    (h : List.Forall₂ (Finite c headers) headers equations) {x : String}
    (hx : x ∈ (systemOf headers equations).names) :
    (∃ i, x = equationName i) ∨ x ∈ (parameterPool ++ c.quantified).map VarDecl.name := by
  have hnumbered : ∀ y ∈ headers.map Header.name, ∃ i, y = equationName i := by
    intro y hy
    rw [hheaders.names] at hy
    obtain ⟨i, -, rfl⟩ := List.mem_map.mp hy
    exact ⟨i, rfl⟩
  obtain hx | hx := List.mem_append.mp hx
  · obtain ⟨e, he, hx⟩ := List.mem_flatMap.mp hx
    obtain ⟨header, hheader, hfinite⟩ := exists_of_forall₂ (List.Forall₂.flip h) he
    have hsub := ((hheaders.params header hheader).append (.refl c.quantified)).map VarDecl.name
    simp only [Equation.names, List.mem_cons, List.mem_append] at hx
    obtain rfl | hx | hx := hx
    · rw [hfinite.name]
      exact .inl (hnumbered _ (List.mem_map_of_mem hheader))
    · rw [hfinite.params] at hx
      exact .inr (hsub.subset (by simp only [List.map_append, List.mem_append, hx, true_or]))
    · exact (hfinite.names x hx).imp (hnumbered x) fun hm => hsub.subset hm
  · obtain ⟨first, rest, rfl⟩ := hheaders.exists_first hcount
    obtain rfl | hx := List.mem_cons.mp hx
    · exact .inl (hnumbered _ List.mem_cons_self)
    · -- the initial values have no variables
      obtain ⟨d, hd, hx⟩ := List.mem_flatMap.mp hx
      obtain ⟨p, -, rfl⟩ := List.mem_map.mp hd
      cases hs : p.sort <;> simp [hs, initialValue, DataExpr.vars] at hx

structure KeepsFinite (c : Settings) (s : EqSystem) : Prop where
  guarded : ∀ e ∈ s.equations, Guarded c.quantified e.rhs
  small : ∀ e ∈ s.equations, ∀ ρ : Valuation, (∀ p ∈ e.params, (ρ p.name).Small p.sort) →
    ∀ i ρ', e.rhs.Asks ρ i ρ' → s.KeepsSmall i ρ'
  init (ρ : Valuation) : s.KeepsSmall s.init ρ
  names : ∀ x ∈ s.names,
    (∃ i, x = equationName i) ∨ x ∈ (parameterPool ++ c.quantified).map VarDecl.name

theorem ensures_generate_finite (c : Settings) : Ensures (generate c) (KeepsFinite c) := by
  have hcount : 0 < max c.equations 1 := by omega
  refine (ensures_headers _).bind fun headers hheaders => ?_
  refine (ensures_mapM (R := Finite c headers) fun h hh =>
    ensures_equation_finite c hheaders.nodup (hheaders.params h hh)).bind fun equations h => ?_
  have hfinite {e : Equation} (he : e ∈ equations) :
      ∃ header ∈ headers, Finite c headers header e :=
    exists_of_forall₂ (List.Forall₂.flip h) he
  refine ensures_pure (P := KeepsFinite c) (a := systemOf headers equations)
    ⟨fun e he => ?_, fun e he ρ hρ i ρ' hasks => ?_, keepsSmall_init hheaders hcount h,
      fun x hx => mem_names_systemOf hheaders hcount h hx⟩
  · obtain ⟨header, -, he⟩ := hfinite he
    exact he.guarded
  · obtain ⟨header, -, he⟩ := hfinite he
    rw [he.params] at hρ
    exact keepsSmall_systemOf h (he.small ρ hρ i ρ' hasks)

/-- No equation has the name of a quantified variable. -/
theorem equationName_ne {v : VarDecl} (hv : v ∈ quantifierPool) (i : Nat) :
    v.name ≠ equationName i := by
  have hhead : ∀ v ∈ quantifierPool, v.name.toList.head? ≠ some 'X' := by decide
  intro hname
  exact hhead v hv (by rw [hname, equationName_eq, String.toList_ofList]; rfl)

theorem KeepsFinite.not_mem_names {s : EqSystem} (h : KeepsFinite c s)
    (hoff : c.quantifiers = false) {v : VarDecl} (hv : v ∈ quantifierPool) : v.name ∉ s.names := by
  have hapart : ∀ v ∈ quantifierPool, v.name ∉ parameterPool.map VarDecl.name := by decide
  intro hname
  obtain ⟨i, hi⟩ | hpool := h.names _ hname
  · exact equationName_ne hv i hi
  · rw [Settings.quantified, hoff, if_neg Bool.false_ne_true, List.append_nil] at hpool
    exact hapart v hv hpool

/-- For all settings and streams the generated system keeps its data finite. Each quantifier binds
one of two number variables and guards it by a bound of three; without quantifiers neither of them
occurs. From values of at most two for the parameters, and values that satisfy the guards for what
is bound, every instance gets arguments of at most two, as the initial one does. So whatever the
system unfolds to has numbers of at most two. -/
theorem generate_keeps_data_finite (c : Settings) (draws : Draws) :
    let s := (generate c draws).1
    (∀ e ∈ s.equations, ∀ i q v body, e.rhs.subterm? i = some (.quant q v body) →
      (v = ⟨"k", .nat⟩ ∨ v = ⟨"l", .nat⟩) ∧
      ∃ phi, (q = .all ∧ body = .bin .imp (.val (.binary .less (.var v.name) (.nat 3))) phi) ∨
        (q = .ex ∧ body = .bin .and (.val (.binary .less (.var v.name) (.nat 3))) phi)) ∧
    (c.quantifiers = false → "k" ∉ s.names ∧ "l" ∉ s.names ∧
      ∀ e ∈ s.equations, ∀ i q v body, e.rhs.subterm? i ≠ some (.quant q v body)) ∧
    (∀ e ∈ s.equations, ∀ ρ : Valuation, (∀ p ∈ e.params, (ρ p.name).Small p.sort) →
      ∀ i ρ', e.rhs.Asks ρ i ρ' → s.KeepsSmall i ρ') ∧
    (∀ ρ, s.KeepsSmall s.init ρ) ∧
    ∀ g, s.Reaches g → ∀ n, Value.nat n ∈ g.args → n ≤ 2 := by
  intro s
  have h : KeepsFinite c s := ensures_generate_finite c draws
  have hgenerated : Generated c s := ensures_generate c draws
  refine ⟨fun e he i q v body hsub => ?_, fun hoff => ⟨?_, ?_, fun e he i q v body hsub => ?_⟩,
    h.small, h.init, fun g hg n hn => ?_⟩
  · obtain ⟨hv, phi, hbounded⟩ := h.guarded e he i q v body hsub
    have hpool : v ∈ quantifierPool := (quantified_sublist c).subset hv
    refine ⟨by simpa [quantifierPool] using hpool, phi, ?_⟩
    cases hbounded with
    | all => exact .inl ⟨rfl, rfl⟩
    | ex => exact .inr ⟨rfl, rfl⟩
  · exact h.not_mem_names hoff (v := ⟨"k", .nat⟩) (by decide)
  · exact h.not_mem_names hoff (v := ⟨"l", .nat⟩) (by decide)
  · obtain ⟨hv, -⟩ := h.guarded e he i q v body hsub
    rw [Settings.quantified, hoff, if_neg Bool.false_ne_true] at hv
    cases hv
  -- small arguments are kept by every unfolding, from `init` on
  · have hnames := (EqSystem.check_eq_ok.mp hgenerated.check).1
    obtain ⟨e, -, -, hsmall⟩ := hg.smallAt hnames h.small h.init
    obtain ⟨p, -, hp⟩ := exists_of_forall₂ (List.Forall₂.flip hsmall) hn
    exact Value.Small.le hp

end PbesLab.Sampling
