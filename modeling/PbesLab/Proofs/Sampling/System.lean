import PbesLab.Proofs.Sampling.Generator

namespace PbesLab.Sampling

/-- Entries picked from a list at growing places. -/
theorem filterMap_getElem?_sublist {α : Type} (pool : List α) {places : List Nat}
    (h : places.Pairwise (· < ·)) : (places.filterMap (pool[·]?)).Sublist pool := by
  have hdrop (k : Nat) (hk : ∀ i ∈ places, k ≤ i) :
      (places.filterMap (pool[·]?)).Sublist (pool.drop k) := by
    induction places generalizing k with
    | nil => exact List.nil_sublist _
    | cons i places ih =>
      obtain ⟨hi, hplaces⟩ := List.pairwise_cons.mp h
      have hrest := ih hplaces (i + 1) hi
      have hsuffix : (pool.drop i).Sublist (pool.drop k) :=
        List.drop_sublist_drop_left _ (hk i (by simp))
      refine List.Sublist.trans ?_ hsuffix
      rw [List.filterMap_cons]
      cases hget : pool[i]? with
      | none => exact hrest.trans (List.drop_sublist_drop_left _ (Nat.le_succ i))
      | some a =>
        obtain ⟨hlt, rfl⟩ := List.getElem?_eq_some_iff.mp hget
        rw [List.drop_eq_getElem_cons hlt]
        exact hrest.cons_cons _
  simpa using hdrop 0 fun i _ => Nat.zero_le i

theorem ensures_parameters : Ensures parameters (·.Sublist parameterPool) := by
  unfold parameters
  refine (ensures_below64 (Nat.succ_pos _)).bind fun count hcount => ?_
  refine (ensures_sample (Nat.lt_succ_iff.mp hcount)).bind fun chosen ⟨_, hnodup, _⟩ =>
    ensures_pure (filterMap_getElem?_sublist _ ?_)
  have hsorted : (chosen.mergeSort fun i j => i ≤ j).Pairwise fun i j => decide (i ≤ j) = true :=
    List.pairwise_mergeSort (by simpa using fun _ _ _ => Nat.le_trans)
      (by simpa using Nat.le_total) chosen
  have hdistinct : (chosen.mergeSort fun i j => i ≤ j).Nodup :=
    (List.mergeSort_perm chosen _).nodup_iff.mpr hnodup
  refine (hsorted.and hdistinct).imp fun ⟨hle, hne⟩ => ?_
  exact Nat.lt_of_le_of_ne (by simpa using hle) hne

theorem equationName_eq (i : Nat) : equationName i = String.ofList ('X' :: Nat.toDigits 10 i) := by
  rw [equationName, Nat.toString_eq_ofList_toDigits]
  exact String.ofList_append.symm

theorem equationName_injective : Function.Injective equationName := by
  intro i j h
  rw [equationName_eq, equationName_eq, String.ofList_inj] at h
  calc
    i = Nat.ofDigitChars 10 (Nat.toDigits 10 i) 0 := Nat.ofDigitChars_ten_toDigits.symm
    _ = Nat.ofDigitChars 10 (Nat.toDigits 10 j) 0 := by rw [List.tail_eq_of_cons_eq h]
    _ = j := Nat.ofDigitChars_ten_toDigits

theorem isLegalName_equationName (i : Nat) : isLegalName (equationName i) := by
  have hdigit (c : Char) (hc : c ∈ Nat.toDigits 10 i) : SystemRule.isNameChar c :=
    Token.isNameChar_of_isDigit (Nat.isDigit_of_mem_toDigits (by decide) (by decide) hc)
  rw [equationName_eq, SystemRule.isLegalName_ofList]
  refine ⟨⟨'X', _, rfl, by decide, hdigit⟩, fun hkey => ?_⟩
  have hhead : ∀ k ∈ SystemRule.keywords, k.toList.head? ≠ some 'X' := by decide
  exact hhead _ hkey (by simp)

theorem isLegalName_pool : ∀ x ∈ (parameterPool ++ quantifierPool).map VarDecl.name,
    isLegalName x := by
  decide

structure Headed (count : Nat) (headers : List Header) : Prop where
  names : headers.map Header.name = (List.range count).map equationName
  params : ∀ h ∈ headers, h.params.Sublist parameterPool

theorem ensures_headers (count : Nat) :
    Ensures ((List.range count).mapM fun i => return Header.mk (equationName i) (← parameters))
      (Headed count) := by
  refine (ensures_mapM (R := fun i h => h.name = equationName i ∧ h.params.Sublist parameterPool)
    fun i _ => ?_).mono fun headers hall => ⟨?_, fun h hh => ?_⟩
  · exact ensures_parameters.bind fun params hparams => ensures_pure ⟨rfl, hparams⟩
  · exact map_eq_of_forall₂ ((List.Forall₂.flip hall).imp fun h i hi => hi.1)
  · obtain ⟨i, -, -, hparams⟩ := exists_of_forall₂ (List.Forall₂.flip hall) hh
    exact hparams

theorem Headed.nodup {count : Nat} {headers : List Header} (h : Headed count headers) :
    (headers.map Header.name).Nodup := by
  rw [h.names]
  exact List.nodup_range.map equationName_injective

theorem ensures_generated_equations (c : Settings) {count : Nat} {headers : List Header}
    (h : Headed count headers) :
    Ensures (headers.mapM (equation c headers)) (List.Forall₂ (Completes c headers) headers) :=
  ensures_mapM fun _ hh => ensures_equation c h.nodup (h.params _ hh)

def systemOf (headers : List Header) (equations : List Equation) : EqSystem :=
  let first := headers.headD ⟨equationName 0, []⟩
  ⟨equations, ⟨first.name, first.params.map fun p => initialValue p.sort⟩⟩

/-- What each generated system is like. -/
structure Generated (c : Settings) (s : EqSystem) : Prop where
  check : s.check = .ok ()
  names : s.equations.map Equation.name = (List.range (max c.equations 1)).map equationName
  params : ∀ e ∈ s.equations, e.params.Sublist parameterPool
  legal : ∀ x ∈ s.names, isLegalName x

section Equations

variable {c : Settings} {count : Nat} {headers : List Header} {equations : List Equation}

theorem names_of_completes (h : List.Forall₂ (Completes c headers) headers equations) :
    equations.map Equation.name = headers.map Header.name :=
  map_eq_of_forall₂ ((List.Forall₂.flip h).imp fun _ _ he => he.name)

theorem signatures_of_completes (h : List.Forall₂ (Completes c headers) headers equations)
    (init : Instance) : EqSystem.signatures ⟨equations, init⟩ = signaturesOf headers :=
  map_eq_of_forall₂ ((List.Forall₂.flip h).imp fun e header he => by
    rw [Equation.signature, he.name, he.params])

theorem sort_initialValue (scope : Scope) (s : DataSort) : (initialValue s).sort scope = .ok s := by
  cases s <;> rfl

theorem Headed.exists_first (hheaders : Headed count headers) (hcount : 0 < count) :
    ∃ first rest, headers = first :: rest := by
  refine List.exists_cons_of_ne_nil ?_
  rintro rfl
  have hlen := congrArg List.length hheaders.names
  simp at hlen
  omega

theorem check_systemOf (hheaders : Headed count headers) (hcount : 0 < count)
    (h : List.Forall₂ (Completes c headers) headers equations) :
    (systemOf headers equations).check = .ok () := by
  rw [EqSystem.check_eq_ok, systemOf, signatures_of_completes h]
  refine ⟨?_, fun e he => ?_, ?_⟩
  · rw [names_of_completes h]
    exact hheaders.nodup
  · obtain ⟨header, hheader, hcompletes⟩ := exists_of_forall₂ (List.Forall₂.flip h) he
    rw [Equation.check_eq_ok, hcompletes.params]
    refine ⟨?_, hcompletes.checks⟩
    exact List.Nodup.sublist ((hheaders.params header hheader).map VarDecl.name) (by decide)
  · obtain ⟨first, rest, rfl⟩ := hheaders.exists_first hcount
    refine check_inst hheaders.nodup List.mem_cons_self ?_
    rw [List.headD_cons, List.forall₂_map_right_iff, List.forall₂_same]
    exact fun p _ => sort_initialValue [] p.sort

theorem Headed.isLegalName (hheaders : Headed count headers) {x : String}
    (hx : x ∈ headers.map Header.name) : isLegalName x := by
  rw [hheaders.names] at hx
  obtain ⟨i, -, rfl⟩ := List.mem_map.mp hx
  exact isLegalName_equationName i

theorem Completes.isLegalName (hheaders : Headed count headers) {header : Header}
    (hheader : header ∈ headers) {e : Equation} (he : Completes c headers header e) {x : String}
    (hx : x ∈ e.names) : isLegalName x := by
  simp only [Equation.names, List.mem_cons, List.mem_append] at hx
  obtain rfl | hx | hx := hx
  · rw [he.name]
    exact hheaders.isLegalName (List.mem_map_of_mem hheader)
  · rw [he.params] at hx
    have hpool := ((hheaders.params header hheader).map VarDecl.name).subset hx
    exact isLegalName_pool x (by simp only [List.map_append, List.mem_append, hpool, true_or])
  · obtain hx | hx := he.names x hx
    · exact hheaders.isLegalName hx
    · exact isLegalName_pool x hx

theorem legal_systemOf (hheaders : Headed count headers) (hcount : 0 < count)
    (h : List.Forall₂ (Completes c headers) headers equations) :
    ∀ x ∈ (systemOf headers equations).names, isLegalName x := by
  intro x hx
  obtain hx | hx := List.mem_append.mp hx
  · obtain ⟨e, he, hx⟩ := List.mem_flatMap.mp hx
    obtain ⟨header, hheader, hcompletes⟩ := exists_of_forall₂ (List.Forall₂.flip h) he
    exact hcompletes.isLegalName hheaders hheader hx
  · obtain ⟨first, rest, rfl⟩ := hheaders.exists_first hcount
    obtain rfl | hx := List.mem_cons.mp hx
    · exact hheaders.isLegalName List.mem_cons_self
    · -- the initial values have no variables
      obtain ⟨d, hd, hx⟩ := List.mem_flatMap.mp hx
      obtain ⟨p, -, rfl⟩ := List.mem_map.mp hd
      cases hs : p.sort <;> simp [hs, initialValue, DataExpr.vars] at hx

end Equations

theorem ensures_generate (c : Settings) : Ensures (generate c) (Generated c) := by
  have hcount : 0 < max c.equations 1 := by omega
  refine (ensures_headers _).bind fun headers hheaders => ?_
  refine (ensures_generated_equations c hheaders).bind fun equations hequations => ?_
  refine ensures_pure (P := Generated c) (a := systemOf headers equations)
    ⟨check_systemOf hheaders hcount hequations, ?_, fun e he => ?_,
      legal_systemOf hheaders hcount hequations⟩
  · exact (names_of_completes hequations).trans hheaders.names
  · obtain ⟨header, hheader, hcompletes⟩ := exists_of_forall₂ (List.Forall₂.flip hequations) he
    rw [hcompletes.params]
    exact hheaders.params header hheader

/-- Only parameters are free in a right-hand side. -/
theorem Generated.closed {c : Settings} {s : EqSystem} (h : Generated c s) {e : Equation}
    (he : e ∈ s.equations) {v : VarDecl} (hv : v ∈ quantifierPool) : v.name ∉ e.rhs.freeVars := by
  intro hfree
  have hcheck := (Equation.check_eq_ok.mp ((EqSystem.check_eq_ok.mp h.check).2.1 e he)).2
  have hparam := ((h.params e he).map VarDecl.name).subset (Formula.declared_of_check hcheck hfree)
  have hapart : ∀ v ∈ quantifierPool, v.name ∉ parameterPool.map VarDecl.name := by decide
  exact hapart v hv hparam

/-- For all settings and streams a system is generated that is closed and well-typed, with numbered
equations over some of the pool. The loops that build right-hand sides end by themselves: they stop
where there is one term and where nothing is left to bind, and more rounds change nothing. -/
theorem generate_closed_and_numbered (c : Settings) (draws : Draws) :
    let s := (generate c draws).1
    s.check = .ok () ∧
    s.equations.map Equation.name =
      (List.range (max 1 c.equations)).map (fun i => "X" ++ toString i) ∧
    (∀ e ∈ s.equations, e.params.Sublist [⟨"b", .bool⟩, ⟨"m", .nat⟩, ⟨"n", .nat⟩] ∧
      "k" ∉ e.rhs.freeVars ∧ "l" ∉ e.rhs.freeVars) ∧
    (∀ vars terms draws, terms ≠ [] → (combine vars terms.length terms draws).1.length = 1) ∧
    (∀ vars terms rounds, terms.length ≤ rounds →
      combine vars rounds terms = combine vars terms.length terms) ∧
    (∀ vars f draws, firstFree? vars (close vars vars.length f draws).1 = none) ∧
    ∀ vars f rounds, vars.length ≤ rounds → close vars rounds f = close vars vars.length f := by
  have h := ensures_generate c draws
  refine ⟨h.check, ?_, fun e he => ⟨h.params e he, h.closed he (v := ⟨"k", .nat⟩) (by decide),
    h.closed he (v := ⟨"l", .nat⟩) (by decide)⟩, ?_, ?_, ?_, ?_⟩
  · rw [Nat.max_comm]
    exact h.names
  · exact fun vars terms draws hne => ensures_combine_length hne (Nat.le_succ _) draws
  · exact fun vars terms rounds hle => combine_of_le (Nat.le_succ _) hle
  · exact fun vars f draws => firstFree?_eq_none.mpr (ensures_close_closed vars f draws)
  · exact fun vars f rounds hle => close_of_le List.countP_le_length hle

end PbesLab.Sampling
