import PbesLab.Proofs.EqSystem.Agreement
import PbesLab.Proofs.EqSystem.Symbols

namespace PbesLab

open Grammar (Gives GivesOne Only)
open Grammar.Tree (Node nodes)

namespace Conversion

variable {n : Node SystemRule}

theorem isFormula_of_unary : GivesOne (Only Consistent) SystemRule.unary IsFormula :=
  .choice (isFormula_of_rule (by decide)) <| .choice (isFormula_of_rule (by decide)) <|
    .choice (isFormula_of_rule (by decide)) <| .choice (isFormula_of_rule (by decide)) <|
      .choice (isFormula_of_rule (by decide)) <| .choice (isFormula_of_rule (by decide)) <|
        .parenthesised (isFormula_of_rule (by decide))

theorem consistent_val (hr : n.rule = .val)
    (h : Gives (Only Consistent) (SystemRule.body .val) n.inner) : Consistent n := by
  have hone : GivesOne (Only Consistent) (SystemRule.body .val) IsData :=
    .word_seq _ (.parenthesised (isData_of_rule (by decide)))
  obtain ⟨k, hinner, hk⟩ := hone _ h
  have hconv : formulaOf n = dataOf k >>= fun d => pure (.val d) := by
    rw [formulaOf]
    simp [hr, hinner, next, ok_bind]
  simp only [Consistent, hr]
  rw [hconv]
  refine agree_one hr hinner hk fun m d hm => ?_
  simp only [Meaning.ofNode?, hm]
  rfl

theorem consistent_expr (hr : n.rule = .expr)
    (h : Gives (Only Consistent) (SystemRule.body .expr) n.inner) : Consistent n := by
  obtain ⟨k, hinner, hk, hkcon⟩ := h
  have hbody : IsFormula k := hkcon.isFormula (hk ▸ by decide)
  have hconv : formulaOf n = formulaOf k >>= pure := by
    rw [formulaOf]
    simp only [hr]
    rw [List.attach_map_val, hinner, bind_pure]
    rfl
  simp only [Consistent, hr]
  rw [hconv]
  refine agree_one hr hinner hbody fun m f hm => ?_
  simp only [Meaning.ofNode?, hm]
  rfl

theorem consistent_implication (hr : n.rule = .implication)
    (h : Gives (Only Consistent) (SystemRule.body .implication) n.inner) : Consistent n := by
  obtain ⟨_, _, hinner, ⟨p, rfl, hp, hpcon⟩, h⟩ := h
  have hpremise : IsFormula p := hpcon.isFormula (hp ▸ by decide)
  simp only [Consistent, hr]
  obtain rfl | ⟨_, _, rfl, rfl, q, rfl, hq, hqcon⟩ := h
  · have hconv : formulaOf n = formulaOf p >>= pure := by
      rw [formulaOf]
      simp only [hr]
      rw [List.attach_map_val, hinner]
      rfl
    rw [hconv]
    refine agree_one hr hinner hpremise fun m f hm => ?_
    simp only [Meaning.ofNode?, hm]
    rfl
  · have hconclusion : IsFormula q := hqcon.isFormula (hq ▸ by decide)
    have hconv : formulaOf n = formulaOf p >>= fun f => formulaOf q >>= fun g =>
        pure (.bin .imp f g) := by
      rw [formulaOf]
      simp only [hr]
      rw [List.attach_map_val, hinner]
      rfl
    rw [meaning_of_inner hr, hinner, hconv]
    simp only [List.cons_append, List.nil_append, List.mapM_cons, List.mapM_nil, bind_assoc,
      pure_bind]
    refine hpremise.bind fun m f hm => ?_
    refine hconclusion.bind fun m' g hm' => ?_
    simp only [Meaning.ofNode?, hm, hm']
    exact .ok rfl

theorem consistent_disjunction (hr : n.rule = .disjunction)
    (h : Gives (Only Consistent) (SystemRule.body .disjunction) n.inner) : Consistent n := by
  have hone : GivesOne (Only Consistent) (.rule .conjunction) IsFormula :=
    isFormula_of_rule (by decide)
  obtain ⟨k, ks, hinner, hall⟩ := hone.seq_many (hone.word_seq "||") h
  have hconv : formulaOf n = chain .disjunction (.bin .or) (n.inner.map formulaOf) := by
    rw [formulaOf]
    simp only [hr]
    rw [List.attach_map_val]
  simp only [Consistent, hr]
  rw [hconv]
  exact agree_chain hr hinner hall fun ms => rfl

theorem consistent_conjunction (hr : n.rule = .conjunction)
    (h : Gives (Only Consistent) (SystemRule.body .conjunction) n.inner) : Consistent n := by
  obtain ⟨k, ks, hinner, hall⟩ := isFormula_of_unary.seq_many (isFormula_of_unary.word_seq "&&") h
  have hconv : formulaOf n = chain .conjunction (.bin .and) (n.inner.map formulaOf) := by
    rw [formulaOf]
    simp only [hr]
    rw [List.attach_map_val]
  simp only [Consistent, hr]
  rw [hconv]
  exact agree_chain hr hinner hall fun ms => rfl

theorem consistent_negation (hr : n.rule = .negation)
    (h : Gives (Only Consistent) (SystemRule.body .negation) n.inner) : Consistent n := by
  obtain ⟨k, hinner, hk⟩ := isFormula_of_unary.word_seq "!" _ h
  have hconv : formulaOf n = formulaOf k >>= fun f => pure (.neg f) := by
    rw [formulaOf]
    simp only [hr]
    rw [List.attach_map_val, hinner]
    rfl
  simp only [Consistent, hr]
  rw [hconv]
  refine agree_one hr hinner hk fun m f hm => ?_
  simp only [Meaning.ofNode?, hm]
  rfl

theorem consistent_quantifier (hr : n.rule = .quantifier)
    (h : Gives (Only Consistent) (SystemRule.body .quantifier) n.inner) : Consistent n := by
  obtain ⟨_, _, hinner, hkind, _, _, rfl, ⟨v, rfl, hv, hvcon⟩, _, _, rfl, rfl,
    e, rfl, he, hecon⟩ := h
  have hbody : IsFormula e := hecon.isFormula (he ▸ by decide)
  simp only [Consistent, hv] at hvcon
  obtain ⟨decl, hmdecl, hdecl⟩ := hvcon
  have hquant : ∃ k q, n.inner = [k, v, e] ∧ meaning k = .ok (.quantifier q) ∧
      formulaOf n = formulaOf e >>= fun f => pure (.quant q decl f) := by
    obtain ⟨k, rfl, hk, hkcon⟩ | ⟨k, rfl, hk, hkcon⟩ := hkind <;>
      · simp only [Consistent, hk] at hkcon
        refine ⟨k, _, hinner, hkcon, ?_⟩
        rw [formulaOf]
        simp only [hr]
        rw [List.attach_map_val, hinner]
        simp [next, ok_bind, hdecl, hk]
  obtain ⟨k, q, hinner, hmk, hconv⟩ := hquant
  simp only [Consistent, hr]
  rw [meaning_of_inner hr, hinner, hconv]
  simp only [List.mapM_cons, List.mapM_nil, bind_assoc, pure_bind, hmk, hmdecl, ok_bind]
  refine hbody.bind fun m f hm => ?_
  simp only [Meaning.ofNode?, hm]
  exact .ok rfl

theorem rest_append {decls : List (Node SystemRule)} {vs : List VarDecl}
    (h : List.Forall₂ (fun k v => k.rule = .varDecl ∧ declOf k = .ok v) decls vs)
    (ns : List (Node SystemRule)) (params : List VarDecl) (rhs : Option Formula) :
    rest (decls ++ ns) params rhs = rest ns (params ++ vs) rhs := by
  induction h generalizing params with
  | nil => rw [List.nil_append, List.append_nil]
  | cons hk _ ih =>
    rw [List.cons_append, rest]
    simp only [hk.1, hk.2, ok_bind]
    rw [ih, List.append_assoc, List.singleton_append]

theorem equationOf?_eq {f : Fixpoint} {x : String} {vs : List VarDecl} {m : Meaning} {g : Formula}
    (h : m.formula? = some g) : Meaning.equationOf? (.fixpoint f :: .name x ::
      (vs.map .decl ++ [m])) = some (.equation ⟨f, x, vs, g⟩) := by
  have hvs : (vs.map Meaning.decl).mapM Meaning.decl? = some vs := mapM_map_of_inverse fun _ => rfl
  simp [Meaning.equationOf?, h, hvs]

theorem consistent_equation (hr : n.rule = .equation)
    (h : Gives (Only Consistent) (SystemRule.body .equation) n.inner) : Consistent n := by
  obtain ⟨_, _, hinner, ⟨fix, rfl, hr', hfixcon⟩, _, _, rfl, ⟨x, rfl, hx, hxcon⟩, decls, _, rfl,
    hdecls, _, _, rfl, rfl, _, _, rfl, ⟨e, rfl, he, hecon⟩, rfl⟩ := h
  simp only [Consistent, hr'] at hfixcon
  simp only [Consistent, hx] at hxcon
  obtain ⟨f, hmfix, hfix⟩ := hfixcon
  obtain ⟨name, hmname, hname⟩ := hxcon
  have hbody : IsFormula e := hecon.isFormula (he ▸ by decide)
  -- the declarations cannot fail, so of the equation only its right-hand side can
  have hone : GivesOne (Only Consistent) (.rule .varDecl) fun k =>
      ∃ v, meaning k = .ok (.decl v) ∧ k.rule = .varDecl ∧ declOf k = .ok v := by
    refine .rule fun k hk h => ?_
    simp only [Consistent, hk] at h
    obtain ⟨v, hm, hv⟩ := h
    exact ⟨v, hm, hk, hv⟩
  obtain ⟨vs, hvs⟩ := exists_forall₂ (hone.listed hdecls)
  have hmvs : decls.mapM meaning = .ok (vs.map .decl) :=
    mapM_of_forall₂ (List.forall₂_map_right_iff.mpr (hvs.imp fun _ _ h => h.1))
  have hconv : equationOf n = formulaOf e >>= fun g => pure ⟨f, name, vs, g⟩ := by
    rw [equationOf, hinner]
    simp only [expect, hr, if_true, List.cons_append, List.nil_append, List.append_nil, next,
      ok_bind, hfix, hname, rest_append (hvs.imp fun _ _ h => h.2), rest, he, bind_assoc, pure_bind]
  simp only [Consistent, hr]
  rw [meaning_of_inner hr, hinner, hconv]
  simp only [List.cons_append, List.nil_append, List.append_nil, List.mapM_cons, List.mapM_append,
    List.mapM_nil, hmfix, hmname, hmvs, ok_bind, bind_assoc, pure_bind]
  refine hbody.bind fun m g hm => ?_
  rw [Meaning.ofNode?, equationOf?_eq hm]
  exact .ok rfl

theorem consistent_init (hr : n.rule = .init)
    (h : Gives (Only Consistent) (SystemRule.body .init) n.inner) : Consistent n := by
  obtain ⟨_, _, hinner, ⟨_, _, rfl, rfl, rfl⟩, _, _, rfl, ⟨i, rfl, hi, hicon⟩, rfl⟩ := h
  simp only [Consistent, hi] at hicon
  have hconv : initOf n = instanceOf i := by
    rw [initOf, hinner]
    rfl
  simp only [Consistent, hr]
  rw [meaning_of_inner hr, hinner, hconv, ← bind_pure (instanceOf i)]
  simp only [List.nil_append, List.append_nil, List.mapM_cons, List.mapM_nil, bind_assoc, pure_bind]
  refine hicon.bind fun m j hm => ?_
  rw [hm]
  exact .ok rfl

theorem entries_append {es : List (Node SystemRule)} (h : ∀ k ∈ es, k.rule = .equation)
    (ns : List (Node SystemRule)) (equations : List Equation) (init : Option Instance) :
    entries (es ++ ns) equations init =
      es.mapM equationOf >>= fun xs => entries ns (equations ++ xs) init := by
  induction es generalizing equations with
  | nil => simp
  | cons k es ih =>
    obtain ⟨hk, hes⟩ := List.forall_mem_cons.mp h
    rw [List.cons_append, entries, List.mapM_cons]
    simp [hk, ih hes]

theorem systemOf?_eq {es : List Equation} {i : Instance} :
    Meaning.systemOf? (es.map .equation ++ [.init i, .nothing]) = some (.system ⟨es, i⟩) := by
  have hes : (es.map Meaning.equation).mapM Meaning.equation? = some es :=
    mapM_map_of_inverse fun _ => rfl
  simp [Meaning.systemOf?, hes]

theorem consistent_system (hr : n.rule = .system)
    (h : Gives (Only Consistent) (SystemRule.body .system) n.inner) : Consistent n := by
  obtain ⟨_, _, hinner, rfl, _, _, rfl, ⟨_, _, rfl, rfl, rfl⟩, es, _, rfl, hes, _, _, rfl,
    ⟨i, rfl, hi, hicon⟩, z, rfl, hz, hzcon⟩ := h
  simp only [Consistent, hi] at hicon
  simp only [Consistent, hz] at hzcon
  have hone : GivesOne (Only Consistent) (.rule .equation) fun k => k.rule = .equation ∧
      Agree (fun m e => m = .equation e) (meaning k) (equationOf k) := by
    refine .rule fun k hk h => ?_
    simp only [Consistent, hk] at h
    exact ⟨hk, h⟩
  have hall : ∀ k ∈ es, k.rule = .equation ∧
      Agree (fun m e => m = .equation e) (meaning k) (equationOf k) := by
    obtain ⟨k, ks, rfl, hall⟩ := hone.seq_many hone hes
    exact hall
  have hconv : systemOf n = es.mapM equationOf >>= fun xs => initOf i >>= fun j =>
      pure ⟨xs, j⟩ := by
    rw [systemOf, hinner]
    simp only [expect, hr, if_true, List.cons_append, List.nil_append, ok_bind,
      entries_append fun k hk => (hall k hk).1, entries, hi, hz, bind_assoc, pure_bind]
  simp only [Consistent, hr]
  rw [meaning_of_inner hr, hinner, hconv]
  simp only [List.cons_append, List.nil_append, List.mapM_append, List.mapM_cons, List.mapM_nil,
    hzcon, ok_bind, bind_assoc, pure_bind]
  refine (Agree.mapM fun k hk => (hall k hk).2).bind fun ms xs hxs => ?_
  refine hicon.bind fun m j hm => ?_
  obtain rfl := eq_map_of_forall₂ hxs
  subst hm
  rw [Meaning.ofNode?, systemOf?_eq]
  exact .ok rfl

/-- Consistency passes from the nodes inside a node to the node. -/
theorem consistent_of_gives (ha : SystemRule.rules.atomic n.rule = false)
    (h : Gives (Only Consistent) (SystemRule.rules.body n.rule) n.inner) : Consistent n := by
  cases hr : n.rule with
  | system => exact consistent_system hr (hr ▸ h)
  | equation => exact consistent_equation hr (hr ▸ h)
  | init => exact consistent_init hr (hr ▸ h)
  | fixpoint => exact consistent_fixpoint hr (hr ▸ h)
  | varDecl => exact consistent_varDecl hr (hr ▸ h)
  | sort => exact consistent_sort hr (hr ▸ h)
  | inst => exact consistent_inst hr (hr ▸ h)
  | expr => exact consistent_expr hr (hr ▸ h)
  | implication => exact consistent_implication hr (hr ▸ h)
  | disjunction => exact consistent_disjunction hr (hr ▸ h)
  | conjunction => exact consistent_conjunction hr (hr ▸ h)
  | negation => exact consistent_negation hr (hr ▸ h)
  | quantifier => exact consistent_quantifier hr (hr ▸ h)
  | val => exact consistent_val hr (hr ▸ h)
  | dataExpr => exact consistent_dataExpr hr (hr ▸ h)
  | compareOp => exact consistent_compareOp hr (hr ▸ h)
  | dataSum => exact consistent_dataSum hr (hr ▸ h)
  | endOfInput | boolSort | natSort | equal | less | greater =>
    rw [hr] at h
    exact consistent_word (by simp [hr]) h
  | _ =>
    rw [hr] at ha
    cases ha

variable {text : String} {t : Grammar.Tree SystemRule}

/-- A tree gives one system either way, or a number in it does not fit. -/
theorem agree_ofTree (h : EqSystem.tree text = .ok t) :
    (∃ s, EqSystem.ofTree t = .ok s ∧ ofTree t = .ok s) ∨
      EqSystem.ofTree t = .error (.unexpectedNode .number) ∧
        ofTree t = .error (.unexpectedRule .number) := by
  obtain ⟨n, hn, hr, hcon⟩ :=
    EqSystem.only_of_tree (fun _ => consistent_atomic) (fun _ => consistent_of_gives) h
  simp only [Consistent, hr] at hcon
  have hconv : ofTree t = systemOf n := by
    rw [ofTree, hn]
    rfl
  rw [hconv, EqSystem.ofTree_eq hn]
  unfold meaning at hcon
  generalize n.meaning Meaning.ofNode? = x at hcon ⊢
  generalize systemOf n = y at hcon ⊢
  cases hcon with
  | ok hm =>
    subst hm
    exact .inl ⟨_, rfl, rfl⟩
  | number => exact .inr ⟨rfl, rfl⟩

end Conversion

end PbesLab
