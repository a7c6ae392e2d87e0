import PbesLab.Proofs.EqSystem.Printing
import PbesLab.Proofs.EqSystem.Typing
import PbesLab.Proofs.Sampling.Closing

namespace PbesLab

theorem Scope.sort?_of_mem {scope : Scope} (h : (scope.map VarDecl.name).Nodup) {v : VarDecl}
    (hv : v ∈ scope) : scope.sort? v.name = some v.sort :=
  (Environment.agrees_declared h v.name v.sort).mp hv

/-- Names that are not free may leave the scope. -/
theorem Formula.check_of_append {sigs : Signatures} {scope : Scope} {vars : List VarDecl}
    {f : Formula} (h : f.check sigs (scope ++ vars) = .ok ())
    (hfree : ∀ v ∈ vars, v.name ∉ f.freeVars) : f.check sigs scope = .ok () := by
  have hinsert : f.check sigs (scope ++ vars ++ []) = f.check sigs (scope ++ []) :=
    check_insert scope vars [] hfree
  rw [List.append_nil, List.append_nil] at hinsert
  rwa [← hinsert]

namespace Sampling

def signaturesOf (headers : List Header) : Signatures :=
  headers.map fun h => (h.name, h.params.map VarDecl.sort)

/-- A term over headers and variables: it fits the headers in the scope of the variables, and has no
names but theirs. -/
structure Drawn (headers : List Header) (scope : Scope) (f : Formula) : Prop where
  checks : f.check (signaturesOf headers) scope = .ok ()
  names : ∀ x ∈ f.names, x ∈ headers.map Header.name ∨ x ∈ scope.map VarDecl.name

variable {headers : List Header} {scope : Scope} {vars : List VarDecl}

theorem ensures_constant (scope : Scope) (s : DataSort) :
    Ensures (constant s) fun d => d.sort scope = .ok s := by
  cases s with
  | bool => exact (ensures_any flip).bind fun b _ => ensures_pure rfl
  | nat => exact (ensures_any (below32 constantCount)).bind fun n _ => ensures_pure rfl

theorem sort_var (hscope : (scope.map VarDecl.name).Nodup) {v : VarDecl} (hv : v ∈ scope) :
    (DataExpr.var v.name).sort scope = .ok v.sort := by
  simp only [DataExpr.sort, Scope.sort?_of_mem hscope hv]

theorem ensures_operand (hscope : (scope.map VarDecl.name).Nodup) (s : DataSort) :
    Ensures (operand scope s) fun d => d.sort scope = .ok s := by
  unfold operand
  dsimp only
  split
  · exact ensures_constant scope s
  · refine (ensures_any (chance .threeTenths)).bind fun constantly _ => ?_
    split
    · exact ensures_constant scope s
    · refine (ensures_choose? _).bind fun o ho => ?_
      cases o with
      | none => exact ensures_constant scope s
      | some v =>
        obtain ⟨hv, hs⟩ := List.mem_filter.mp (ho.2 v rfl)
        obtain rfl : v.sort = s := by simpa using hs
        exact ensures_pure (sort_var hscope hv)

theorem drawn_const (b : Bool) : Drawn headers scope (.const b) :=
  ⟨rfl, by simp [Formula.names]⟩

theorem drawn_val {d : DataExpr} (h : d.sort scope = .ok .bool) :
    Drawn headers scope (.val d) := by
  refine ⟨?_, fun x hx => .inr (d.declared_of_sort h hx)⟩
  simp [Formula.check, h, bind, Except.bind, pure, Except.pure]

theorem ensures_truth : Ensures truth (Drawn headers scope) :=
  (ensures_any flip).bind fun b _ => ensures_pure (drawn_const b)

theorem sort_comparison (hscope : (scope.map VarDecl.name).Nodup) {x : String}
    (hx : ⟨x, .nat⟩ ∈ scope) {d : DataExpr} (hd : d.sort scope = .ok .nat) {op : DataOp}
    (hop : op ≠ .plus) : (DataExpr.binary op (.var x) d).sort scope = .ok .bool :=
  DataExpr.sort_binary_eq_ok.mpr ⟨.nat, sort_var hscope hx, hd, .inr rfl, by rw [if_neg hop]⟩

theorem comparison_ne_plus (i : Nat) : comparison i ≠ .plus := by
  unfold comparison
  split <;> decide

theorem ensures_atom (hscope : (scope.map VarDecl.name).Nodup) :
    Ensures (atom scope) (Drawn headers scope) := by
  unfold atom
  refine (ensures_choose? scope).bind fun o ho => ?_
  match o, ho with
  | none, _ => exact ensures_truth
  | some ⟨x, .bool⟩, ho => exact ensures_pure (drawn_val (sort_var hscope (ho.2 _ rfl)))
  | some ⟨x, .nat⟩, ho =>
    refine (ensures_constant scope .nat).bind fun d hd => ?_
    refine (ensures_any (below32 3)).bind fun i _ => ensures_pure (drawn_val ?_)
    exact sort_comparison hscope (ho.2 _ rfl) hd (comparison_ne_plus i)

theorem check_inst (hheaders : (headers.map Header.name).Nodup) {h : Header} (hh : h ∈ headers)
    {args : List DataExpr} (hargs : List.Forall₂ (fun (p : VarDecl) d => d.sort scope = .ok p.sort)
      h.params args) : Instance.check (signaturesOf headers) scope ⟨h.name, args⟩ = .ok () := by
  have hlookup : (signaturesOf headers).lookup h.name = some (h.params.map VarDecl.sort) :=
    (lookup_named hheaders).mpr ⟨h, hh, rfl, rfl⟩
  obtain ⟨hlen, hcheck⟩ := checkArguments_eq_ok.mpr
    (List.forall₂_map_right_iff.mpr (List.Forall₂.flip hargs) :
      List.Forall₂ (fun d s => d.sort scope = .ok s) args (h.params.map VarDecl.sort))
  simp only [Instance.check, hlookup, hlen, ne_eq, not_true_eq_false, if_false]
  exact hcheck

theorem ensures_randomInstance (hheaders : (headers.map Header.name).Nodup)
    (hscope : (scope.map VarDecl.name).Nodup) :
    Ensures (randomInstance headers scope) (Drawn headers scope) := by
  unfold randomInstance
  refine (ensures_any (below64 headers.length)).bind fun i _ => ?_
  cases hi : headers[i]? with
  | none => exact ensures_pure (drawn_const true)
  | some h =>
    have hh : h ∈ headers := List.mem_of_getElem? hi
    refine (ensures_mapM fun p _ => ensures_operand hscope p.sort).bind fun args hargs => ?_
    have hcheck := check_inst hheaders hh hargs
    refine ensures_pure ⟨hcheck, fun x hx => ?_⟩
    obtain rfl | hx := List.mem_cons.mp hx
    · exact .inl (List.mem_map_of_mem hh)
    · exact .inr (Instance.declared_of_check hcheck hx)

/-- What atoms, instances and truth values have in common, all terms have. -/
theorem ensures_terms_of (c : Settings) {P : Formula → Prop} (hatom : Ensures (atom scope) P)
    (hinstance : Ensures (randomInstance headers scope) P) (htruth : Ensures truth P) :
    Ensures (terms c headers scope) fun ts => ∀ f ∈ ts, P f := by
  unfold terms
  refine (ensures_mapM (R := fun _ => P) fun _ _ => hatom).bind fun atoms hatoms => ?_
  refine (ensures_mapM (R := fun _ => P) fun _ _ => hinstance).bind fun instances hinstances => ?_
  dsimp only
  split
  · exact htruth.bind fun f hf => ensures_pure (List.forall_mem_singleton.mpr hf)
  · refine ensures_pure fun f hf => ?_
    obtain hf | hf := List.mem_append.mp hf
    · obtain ⟨_, -, hP⟩ := exists_of_forall₂ (List.Forall₂.flip hatoms) hf
      exact hP
    · obtain ⟨_, -, hP⟩ := exists_of_forall₂ (List.Forall₂.flip hinstances) hf
      exact hP

theorem check_guardOf (sigs : Signatures) {v : VarDecl} (hv : v.sort = .nat) :
    (guardOf v).check sigs (v :: scope) = .ok () := by
  have hvar : (DataExpr.var v.name).sort (v :: scope) = .ok .nat := by
    simp [DataExpr.sort, Scope.sort?_cons, hv]
  have hdata : (DataExpr.binary .less (.var v.name) (.nat quantifierBound)).sort (v :: scope) =
      .ok .bool := DataExpr.sort_binary_eq_ok.mpr ⟨.nat, hvar, rfl, .inr rfl, rfl⟩
  simp [guardOf, Formula.check, hdata, bind, Except.bind, pure, Except.pure]

/-- A variable of the scope may be bound once more. -/
theorem check_under_binder {sigs : Signatures} (hscope : (scope.map VarDecl.name).Nodup)
    {v : VarDecl} (hv : v ∈ scope) {f : Formula} (h : f.check sigs scope = .ok ()) :
    f.check sigs (v :: scope) = .ok () := by
  rw [← h]
  refine Formula.check_congr f fun x _ => ?_
  rw [Scope.sort?_cons]
  split
  · next hx => rw [← hx, Scope.sort?_of_mem hscope hv]
  · rfl

theorem Drawn.bounded (hscope : (scope.map VarDecl.name).Nodup) {v : VarDecl} (hv : v ∈ scope)
    (hsort : v.sort = .nat) {f g : Formula} (hg : Bounded v f g) (hf : Drawn headers scope f) :
    Drawn headers scope g := by
  have hbody (op : Connective) :
      (Formula.bin op (guardOf v) f).check (signaturesOf headers) (v :: scope) = .ok () :=
    Formula.check_bin_eq_ok.mpr
      ⟨check_guardOf _ hsort, check_under_binder hscope hv hf.checks⟩
  have hnames (x : String) (hx : x = v.name ∨ x ∈ f.names) :
      x ∈ headers.map Header.name ∨ x ∈ scope.map VarDecl.name := by
    obtain rfl | hx := hx
    · exact .inr (List.mem_map_of_mem hv)
    · exact hf.names x hx
  cases hg with
  | all =>
    refine ⟨hbody .imp, fun x hx => hnames x ?_⟩
    simpa [Formula.names, guardOf, DataExpr.vars] using hx
  | ex =>
    refine ⟨hbody .and, fun x hx => hnames x ?_⟩
    simpa [Formula.names, guardOf, DataExpr.vars] using hx

theorem kept_drawn (hscope : (scope.map VarDecl.name).Nodup)
    (hvars : ∀ v ∈ vars, v ∈ scope ∧ v.sort = .nat) : Kept vars (Drawn headers scope) where
  bin op l r hl hr := by
    refine ⟨Formula.check_bin_eq_ok.mpr ⟨hl.checks, hr.checks⟩, fun x hx => ?_⟩
    obtain hx | hx := List.mem_append.mp hx
    · exact hl.names x hx
    · exact hr.names x hx
  neg hf := ⟨hf.checks, hf.names⟩
  bounded hv hg hf := hf.bounded hscope (hvars _ hv).1 (hvars _ hv).2 hg

/-- A right-hand side for a header, closed but for the parameters. -/
structure Completes (c : Settings) (headers : List Header) (h : Header) (e : Equation) : Prop where
  name : e.name = h.name
  params : e.params = h.params
  checks : e.rhs.check (signaturesOf headers) h.params = .ok ()
  names : ∀ x ∈ e.rhs.names, x ∈ headers.map Header.name ∨
    x ∈ (parameterPool ++ quantifierPool).map VarDecl.name

theorem quantified_sublist (c : Settings) : c.quantified.Sublist quantifierPool := by
  unfold Settings.quantified
  split
  · exact .refl _
  · exact List.nil_sublist _

/-- What the terms have and joining and binding keep, the right-hand side has. -/
theorem Kept.equation {c : Settings} {h : Header} {P : Formula → Prop}
    (hkept : Kept c.quantified P)
    (hterms : Ensures (terms c headers (h.params ++ c.quantified)) (∀ f ∈ ·, P f))
    (hconst : P (.const true)) : Ensures (equation c headers h) fun e =>
      e.name = h.name ∧ e.params = h.params ∧ P e.rhs ∧
        ∀ v ∈ c.quantified, v.name ∉ e.rhs.freeVars := by
  unfold Sampling.equation
  refine hterms.bind fun drawn hdrawn => ?_
  refine (hkept.combine drawn.length hdrawn).bind fun combined hcombined => ?_
  have hlast : P (combined.getLastD (.const true)) := by
    rw [List.getLastD_eq_getLast?]
    cases hl : combined.getLast? with
    | none => exact hconst
    | some f => exact hcombined f (List.mem_of_getLast? hl)
  have hclose := (hkept.close c.quantified.length hlast).and (ensures_close_closed c.quantified _)
  refine hclose.bind fun f ⟨hf, hclosed⟩ => ?_
  exact (ensures_any flip).bind fun b _ => ensures_pure ⟨rfl, rfl, hf, hclosed⟩

theorem nodup_scope (c : Settings) {h : Header} (hparams : h.params.Sublist parameterPool) :
    ((h.params ++ c.quantified).map VarDecl.name).Nodup := by
  have hsub : (h.params ++ c.quantified).Sublist (parameterPool ++ quantifierPool) :=
    hparams.append (quantified_sublist c)
  exact List.Nodup.sublist (hsub.map VarDecl.name) (by decide)

theorem quantified_sort (c : Settings) : ∀ v ∈ c.quantified, v.sort = .nat := by
  have hall : ∀ v ∈ quantifierPool, v.sort = .nat := by decide
  exact fun v hv => hall v ((quantified_sublist c).subset hv)

theorem ensures_equation_drawn (c : Settings) (hheaders : (headers.map Header.name).Nodup)
    {h : Header} (hparams : h.params.Sublist parameterPool) :
    Ensures (equation c headers h) fun e => e.name = h.name ∧ e.params = h.params ∧
      Drawn headers (h.params ++ c.quantified) e.rhs ∧
        ∀ v ∈ c.quantified, v.name ∉ e.rhs.freeVars := by
  have hscope := nodup_scope c hparams
  have hkept : Kept c.quantified (Drawn headers (h.params ++ c.quantified)) :=
    kept_drawn hscope fun v hv => ⟨List.mem_append_right _ hv, quantified_sort c v hv⟩
  have hterms := ensures_terms_of c (ensures_atom hscope) (ensures_randomInstance hheaders hscope)
    ensures_truth
  exact hkept.equation hterms (drawn_const true)

theorem ensures_equation (c : Settings) (hheaders : (headers.map Header.name).Nodup) {h : Header}
    (hparams : h.params.Sublist parameterPool) :
    Ensures (equation c headers h) (Completes c headers h) := by
  have hsub : (h.params ++ c.quantified).Sublist (parameterPool ++ quantifierPool) :=
    hparams.append (quantified_sublist c)
  refine (ensures_equation_drawn c hheaders hparams).mono ?_
  rintro e ⟨hname, hparams', hdrawn, hclosed⟩
  refine ⟨hname, hparams', Formula.check_of_append hdrawn.checks hclosed, fun x hx => ?_⟩
  exact (hdrawn.names x hx).imp_right fun hm => (hsub.map VarDecl.name).subset hm

end Sampling

end PbesLab
