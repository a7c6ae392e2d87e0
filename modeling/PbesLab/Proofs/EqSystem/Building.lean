import PbesLab.Proofs.EqSystem.Chains

namespace PbesLab

open Grammar SystemRule
open Grammar.Tree (leaves meaningsOf meaningsOf_leaves)

/-- How an expression of a level is taken: operands before everything, chains of operands before
what is looser. -/
def TakesData : DataLevel → List Token → DataExpr → Prop
  | .operand, ts, d => ∀ us, ∃ y, Meaning.data? y = some d ∧ Takes dataPrimary ts [y] us
  | .sum, ts, d => TakesChain dataPrimary .plus Meaning.data? (.binary .plus) 0 ts d
  | .comparison, ts, d => ∀ us, Follows (Token.looserThan 5) us →
      Takes (.rule dataExpr) ts [.data d] us

theorem takes_dataSum {ts us : List Token} {d : DataExpr} (h : TakesData .sum ts d)
    (hus : Follows (Token.looserThan 4) us) : Takes (.rule dataSum) ts [.data d] us :=
  TakesChain.rule h (by decide) hus rfl rfl fun _ _ => rfl

theorem takes_compareOp {op : DataOp} (hop : op ≠ .plus) {us : List Token} :
    Takes (.rule compareOp) [.mark op.mark] [.op op] us := by
  have hrefuses {r : SystemRule} {m : Mark} (hr : r.atomic = false) (hbody : r.body = .word m.text)
      (hm : ¬ (Token.mark op.mark).clashes m) : Refuses (.rule r) ([.mark op.mark] ++ us) := by
    refine Refuses.rule hr ?_
    rw [hbody]
    exact refuses_mark (follows_cons.mpr (by simpa using hm))
  have hbody : Takes (body compareOp) [.mark op.mark] [.op op] us := by
    cases op with
    | plus => exact absurd rfl hop
    | equal => exact .choice_left (takes_mark_rule (m := .equal) rfl rfl fun _ => rfl)
    | less =>
      exact .choice_right (hrefuses (m := .equal) rfl rfl (by decide))
        (.choice_left (takes_mark_rule (m := .less) rfl rfl fun _ => rfl))
    | greater =>
      exact .choice_right (hrefuses (m := .equal) rfl rfl (by decide))
        (.choice_right (hrefuses (m := .less) rfl rfl (by decide))
          (takes_mark_rule (m := .greater) rfl rfl fun _ => rfl))
  exact Takes.rule rfl hbody fun _ => rfl

theorem refuses_compareOp {us : List Token} (h : Follows (Token.looserThan 5) us) :
    Refuses (.rule compareOp) us := by
  have hequal : Refuses (.rule equal) us := .rule rfl (refuses_operator (m := .equal) (by decide) h)
  have hless : Refuses (.rule less) us := .rule rfl (refuses_operator (m := .less) (by decide) h)
  have hgreater : Refuses (.rule greater) us :=
    .rule rfl (refuses_operator (m := .greater) (by decide) h)
  exact .rule rfl (.choice hequal (.choice hless hgreater))

/-- A next token that does not stand for a rule of a single token. -/
theorem refuses_next {r : SystemRule} {t : Token} {us : List Token} (hr : r.atomic)
    (hk : r ≠ keyword) (h : ¬ t.standsFor r) : Refuses (.rule r) (t :: us) :=
  refuses_token hr hk (follows_cons.mpr (by simpa using h))

theorem takes_dataPrimary_bool (b : Bool) {us : List Token} :
    Takes dataPrimary [.keyword (boolKeyword b)] [.formula (.const b)] us := by
  cases b with
  | true =>
    exact .choice_right (refuses_next rfl (by decide) (by decide)) (.choice_left (takes_token rfl))
  | false =>
    exact .choice_right (refuses_next rfl (by decide) (by decide))
      (.choice_right (refuses_next rfl (by decide) (by decide)) (.choice_left (takes_token rfl)))

theorem takes_dataPrimary_name (x : LegalName) {us : List Token} :
    Takes dataPrimary [.name x] [.name x.val] us :=
  .choice_right (refuses_next rfl (by decide) Bool.false_ne_true)
    (.choice_right (refuses_next rfl (by decide) Bool.false_ne_true)
      (.choice_right (refuses_next rfl (by decide) Bool.false_ne_true)
        (.choice_left (takes_token rfl))))

theorem takes_dataPrimary_group {ts us : List Token} {ms : List Meaning}
    (h : Takes (.rule dataExpr) ts ms (.mark .closing :: us)) :
    Takes dataPrimary (.mark .opening :: (ts ++ [.mark .closing])) ms us :=
  .choice_right (refuses_next rfl (by decide) Bool.false_ne_true)
    (.choice_right (refuses_next rfl (by decide) Bool.false_ne_true)
      (.choice_right (refuses_next rfl (by decide) Bool.false_ne_true)
        (.choice_right (refuses_next rfl (by decide) Bool.false_ne_true)
          (takes_parenthesised h))))

theorem SpellsData.takes {level : DataLevel} {ts : List Token} {d : DataExpr}
    (h : SpellsData level ts d) : TakesData level ts d := by
  induction h with
  | var x => exact fun us => ⟨_, rfl, takes_dataPrimary_name x⟩
  | nat n => exact fun us => ⟨_, rfl, .choice_left (takes_number n)⟩
  | bool b => exact fun us => ⟨_, rfl, takes_dataPrimary_bool b⟩
  | group _ ih =>
    exact fun us => ⟨_, rfl, takes_dataPrimary_group (ih _ (follows_cons.mpr (by decide)))⟩
  | sum _ ih => exact .one fun us _ => ih us
  | plus _ _ ihl ihr =>
    exact TakesChain.snoc (k := 0) ihl (by decide) fun vs _ => ihr vs
  | comparison _ ih =>
    intro us hus
    have hsum := takes_dataSum ih (hus.looserThan_mono (by decide))
    have hnone : Takes (.opt (.seq (.rule compareOp) (.rule dataSum))) [] [] us :=
      .opt_none (.seq (refuses_compareOp hus))
    have hbody := hsum.seq hnone
    rw [List.append_nil] at hbody
    exact Takes.rule rfl hbody fun _ => rfl
  | @compare op ts vs l r hop _ _ ihl ihr =>
    intro us hus
    have hop' : (Token.mark op.mark).looserThan 4 := by
      cases op <;> revert hop <;> decide
    have hleft : Takes (.rule dataSum) ts [.data l] (.mark op.mark :: vs ++ us) :=
      takes_dataSum ihl (follows_cons.mpr hop')
    have hright := takes_dataSum ihr (hus.looserThan_mono (by decide))
    have hsome : Takes (.opt (.seq (.rule compareOp) (.rule dataSum))) (.mark op.mark :: vs)
        [.op op, .data r] us := .opt_some ((takes_compareOp hop).seq hright)
    exact Takes.rule rfl (hleft.seq hsome) fun _ => rfl

theorem takes_sort (s : DataSort) {us : List Token} :
    Takes (.rule sort) [.keyword s.keyword] [.sort s] us := by
  have hrefuses : Refuses (.rule boolSort) ([.keyword .nat] ++ us) := by
    refine Refuses.rule rfl (refuses_literal (by decide) fun t ht => ?_)
    obtain rfl := Option.some.inj ht
    decide
  have hbody : Takes (body sort) [.keyword s.keyword] [.sort s] us := by
    cases s with
    | bool => exact .choice_left (.rule rfl (Takes.keyword .bool) fun _ => rfl)
    | nat => exact .choice_right hrefuses (.rule rfl (Takes.keyword .nat) fun _ => rfl)
  exact Takes.rule rfl hbody fun _ => rfl

theorem SpellsDecl.takes {ts us : List Token} {v : VarDecl} (h : SpellsDecl ts v) :
    Takes (.rule varDecl) ts [.decl v] us := by
  obtain ⟨x, s⟩ := h
  exact Takes.rule rfl ((takes_identifier x).seq ((Takes.mark .colon).seq (takes_sort s)))
    fun _ => rfl

theorem SpellsInstance.takes {ts us : List Token} {i : Instance} (h : SpellsInstance ts i)
    (hus : Follows (Token.looserThan 0) us) : Takes (.rule SystemRule.inst) ts [.inst i] us := by
  obtain ⟨x, hargs⟩ := h
  have hitem {ts us : List Token} {d : DataExpr} (hd : SpellsData .comparison ts d)
      (hus : Follows (Token.looserThan 5) us) :
      ∃ y, Meaning.data? y = some d ∧ Takes (.rule dataExpr) ts [y] us :=
    ⟨.data d, rfl, hd.takes us hus⟩
  have hopening : Follows (fun t => !t.clashes .opening) us := hus.mono fun t ht => by
    simpa using not_clashes_of_looserThan (m := .opening) (by decide) ht
  obtain ⟨ms, hms, htakes⟩ := takes_listed hitem rfl rfl hargs hopening
  exact Takes.rule rfl ((takes_identifier x).seq htakes) fun _ => by simp [Meaning.ofNode?, hms]

/-- What may follow a formula: behind the body of a quantifier, nothing that the body could reach
over. -/
def FormulaLevel.bound : FormulaLevel → Bool → Nat
  | _, true | implication, false => 3
  | operand, false => 0
  | conjunction, false => 1
  | disjunction, false => 2

/-- How a formula of a level is taken. A chain is followed by further operands, which are tighter
than what may follow the whole. -/
def TakesFormula : FormulaLevel → Bool → List Token → Formula → Prop
  | .operand, o, ts, f => ∀ us, Follows (Token.looserThan (FormulaLevel.operand.bound o)) us →
      ∃ y, Meaning.formula? y = some f ∧ Takes unary ts [y] us
  | .conjunction, o, ts, f => TakesChain unary .and Meaning.formula? (.bin .and)
      (FormulaLevel.operand.bound o) ts f
  | .disjunction, o, ts, f => TakesChain (.rule conjunction) .or Meaning.formula? (.bin .or)
      (FormulaLevel.conjunction.bound o) ts f
  | .implication, _, ts, f => ∀ us, Follows (Token.looserThan 3) us →
      Takes (.rule implication) ts [.formula f] us

theorem takes_conjunction {o : Bool} {ts us : List Token} {f : Formula}
    (h : TakesFormula .conjunction o ts f)
    (hus : Follows (Token.looserThan (FormulaLevel.conjunction.bound o)) us) :
    Takes (.rule conjunction) ts [.formula f] us := by
  have hbound : max (FormulaLevel.operand.bound o) (Mark.looseness .and) ≤
      FormulaLevel.conjunction.bound o := by cases o <;> decide
  exact TakesChain.rule h (by decide) (hus.looserThan_mono hbound) rfl rfl fun _ _ => rfl

theorem takes_disjunction {o : Bool} {ts us : List Token} {f : Formula}
    (h : TakesFormula .disjunction o ts f)
    (hus : Follows (Token.looserThan (FormulaLevel.disjunction.bound o)) us) :
    Takes (.rule disjunction) ts [.formula f] us := by
  have hbound : max (FormulaLevel.conjunction.bound o) (Mark.looseness .or) ≤
      FormulaLevel.disjunction.bound o := by cases o <;> decide
  exact TakesChain.rule h (by decide) (hus.looserThan_mono hbound) rfl rfl fun _ _ => rfl

theorem refuses_quantifier {t : Token} {us : List Token}
    (h : ¬ t.standsFor all ∧ ¬ t.standsFor ex) : Refuses (.rule quantifier) (t :: us) :=
  .rule rfl (.seq (.choice (refuses_next rfl (by decide) h.1) (refuses_next rfl (by decide) h.2)))

theorem refuses_negation {t : Token} {us : List Token} (h : ¬ t.clashes .not) :
    Refuses (.rule negation) (t :: us) :=
  .rule rfl (.seq (refuses_mark (m := .not) (follows_cons.mpr (by simpa using h))))

/-- Operands that start with neither a quantifier nor a negation. -/
theorem takes_primary {t : Token} {ts us : List Token} {ms : List Meaning}
    (hq : ¬ t.standsFor all ∧ ¬ t.standsFor ex) (hn : ¬ t.clashes .not)
    (h : Takes primary (t :: ts) ms us) : Takes unary (t :: ts) ms us :=
  .choice_right (refuses_quantifier hq) (.choice_right (refuses_negation hn) h)

theorem takes_const (b : Bool) {us : List Token} :
    Takes unary [.keyword (boolKeyword b)] [.formula (.const b)] us := by
  refine takes_primary (by cases b <;> decide) Bool.false_ne_true ?_
  cases b with
  | true => exact .choice_left (takes_token rfl)
  | false =>
    exact .choice_right (refuses_next rfl (by decide) (by decide)) (.choice_left (takes_token rfl))

theorem takes_val {ts us : List Token} {d : DataExpr} (h : SpellsData .comparison ts d) :
    Takes unary (.keyword .val :: .mark .opening :: (ts ++ [.mark .closing])) [.formula (.val d)]
      us := by
  have hdata := takes_parenthesised (h.takes (.mark .closing :: us) (follows_cons.mpr (by decide)))
  have hval : Takes (.rule val) (.keyword .val :: .mark .opening :: (ts ++ [.mark .closing]))
      [.formula (.val d)] us := .rule rfl ((Takes.keyword .val).seq hdata) fun _ => rfl
  refine takes_primary (by decide) Bool.false_ne_true ?_
  exact .choice_right (refuses_next rfl (by decide) (by decide))
    (.choice_right (refuses_next rfl (by decide) (by decide)) (.choice_left hval))

theorem takes_inst {ts us : List Token} {i : Instance} (h : SpellsInstance ts i)
    (hus : Follows (Token.looserThan 0) us) : Takes unary ts [.inst i] us := by
  have hinst := h.takes hus
  -- its first token is a name, which no rule before `inst` takes
  obtain ⟨x, hargs⟩ := h
  refine takes_primary (by simp [Token.standsFor]) Bool.false_ne_true ?_
  exact .choice_right (refuses_next rfl (by decide) Bool.false_ne_true)
    (.choice_right (refuses_next rfl (by decide) Bool.false_ne_true)
      (.choice_right (refuses_val (by simp)) (.choice_left hinst)))

theorem takes_group {ts us : List Token} {ms : List Meaning}
    (h : Takes (.rule expr) ts ms (.mark .closing :: us)) :
    Takes unary (.mark .opening :: (ts ++ [.mark .closing])) ms us := by
  have hinst : Refuses (.rule inst) (.mark .opening :: (ts ++ [.mark .closing]) ++ us) :=
    .rule rfl (.seq (refuses_next rfl (by decide) Bool.false_ne_true))
  refine takes_primary (by simp [Token.standsFor]) (by decide) ?_
  exact .choice_right (refuses_next rfl (by decide) Bool.false_ne_true)
    (.choice_right (refuses_next rfl (by decide) Bool.false_ne_true)
      (.choice_right (refuses_val (by simp)) (.choice_right hinst (takes_parenthesised h))))

theorem takes_neg {o : Bool} {ts us : List Token} {f : Formula} (h : TakesFormula .operand o ts f)
    (hus : Follows (Token.looserThan (FormulaLevel.operand.bound o)) us) :
    Takes unary (.mark .not :: ts) [.formula (.neg f)] us := by
  obtain ⟨y, hy, hp⟩ := h us hus
  have hneg : Takes (.rule negation) (.mark .not :: ts) [.formula (.neg f)] us :=
    .rule rfl ((Takes.mark .not).seq hp) fun _ => by simp [Meaning.ofNode?, hy]
  exact .choice_right (refuses_quantifier (by simp [Token.standsFor])) (.choice_left hneg)

theorem takes_quant {q : Quantifier} {us ts vs : List Token} {v : VarDecl} {f : Formula}
    (hv : SpellsDecl us v) (h : Takes (.rule expr) ts [.formula f] vs) :
    Takes unary (.keyword q.keyword :: (us ++ .mark .dot :: ts)) [.formula (.quant q v f)] vs := by
  have hq {us : List Token} :
      Takes (.choice (.rule all) (.rule ex)) [.keyword q.keyword] [.quantifier q] us := by
    cases q with
    | all => exact .choice_left (takes_token rfl)
    | ex => exact .choice_right (refuses_next rfl (by decide) (by decide)) (takes_token rfl)
  have hquant := hq.seq (hv.takes.seq ((Takes.mark .dot).seq h))
  exact .choice_left (.rule rfl hquant fun _ => rfl)

theorem takes_expr {ts us : List Token} {f : Formula}
    (h : Takes (.rule implication) ts [.formula f] us) : Takes (.rule expr) ts [.formula f] us :=
  .rule rfl h fun _ => rfl

theorem SpellsFormula.takes {level : FormulaLevel} {o : Bool} {ts : List Token} {f : Formula}
    (h : SpellsFormula level o ts f) : TakesFormula level o ts f := by
  induction h with
  | const b => exact fun us _ => ⟨_, rfl, takes_const b⟩
  | val h => exact fun us _ => ⟨_, rfl, takes_val h⟩
  | inst h => exact fun us hus => ⟨_, rfl, takes_inst h hus⟩
  | group _ ih =>
    intro us _
    have hclosing : Follows (Token.looserThan 3) (.mark .closing :: us) :=
      follows_cons.mpr (by decide)
    exact ⟨_, rfl, takes_group (takes_expr (ih _ hclosing))⟩
  | neg _ ih => exact fun us hus => ⟨_, rfl, takes_neg ih hus⟩
  | quant hv _ ih => exact fun us hus => ⟨_, rfl, takes_quant hv (takes_expr (ih us hus))⟩
  | conjunction _ ih => exact .one ih
  | and _ _ ihl ihr => exact TakesChain.snoc ihl (by decide) ihr
  | disjunction _ ih => exact .one fun us hus => ⟨_, rfl, takes_conjunction ih hus⟩
  | or _ _ ihl ihr =>
    exact TakesChain.snoc ihl (by decide) fun us hus => ⟨_, rfl, takes_conjunction ihr hus⟩
  | @implication o ts f _ ih =>
    -- no arrow follows, so the right side stays out
    intro us hus
    have hbound : FormulaLevel.disjunction.bound o ≤ 3 := by cases o <;> decide
    have harrow := refuses_operator (m := .arrow) (by decide) hus
    have hnone : Takes (.opt (.seq (.word "=>") (.rule SystemRule.implication))) [] [] us :=
      .opt_none (.seq harrow)
    have hbody := (takes_disjunction ih (hus.looserThan_mono hbound)).seq hnone
    rw [List.append_nil] at hbody
    exact Takes.rule rfl hbody fun _ => rfl
  | @imp o ts vs l r _ _ ihl ihr =>
    intro us hus
    have hleft : Takes (.rule SystemRule.disjunction) ts [.formula l] (.mark .arrow :: vs ++ us) :=
      takes_disjunction ihl (follows_cons.mpr (by decide))
    have hsome : Takes (.opt (.seq (.word "=>") (.rule SystemRule.implication)))
        (.mark .arrow :: vs) [.formula r] us := .opt_some ((Takes.mark .arrow).seq (ihr us hus))
    exact Takes.rule rfl (hleft.seq hsome) fun _ => rfl

theorem takes_fixpoint (fix : Fixpoint) {us : List Token} :
    Takes (.rule fixpoint) [.keyword fix.keyword] [.fixpoint fix] us := by
  have hbody : Takes (body fixpoint) [.keyword fix.keyword] [.fixpoint fix] us := by
    cases fix with
    | mu => exact .choice_left (takes_token rfl)
    | nu => exact .choice_right (refuses_next rfl (by decide) (by decide)) (takes_token rfl)
  exact Takes.rule rfl hbody fun _ => rfl

theorem takes_keywordIs (k : Keyword) {us : List Token} :
    Takes (keywordIs k.text) [.keyword k] [] us := by
  have hahead : Takes (.ahead (.rule keyword)) [] [] ([.keyword k] ++ us) := takes_ahead_keyword k
  exact hahead.seq (Takes.keyword k)

theorem SpellsEquation.takes {ts us : List Token} {e : Equation} (h : SpellsEquation ts e) :
    Takes (.rule SystemRule.equation) ts [.equation e] us := by
  obtain @⟨fix, x, vs, params, o, ws, f, hparams, hf⟩ := h
  have hrhs := takes_expr (hf.takes (.mark .semicolon :: us) (follows_cons.mpr (by decide)))
  have hend := (Takes.mark .equals).seq (hrhs.seq (.mark .semicolon))
  have hitem {ts us : List Token} {v : VarDecl} (hv : SpellsDecl ts v)
      (_ : Follows (fun _ => true) us) :
      ∃ y, Meaning.decl? y = some v ∧ Takes (.rule varDecl) ts [y] us := ⟨.decl v, rfl, hv.takes⟩
  have hequals : Follows (fun t => !t.clashes .opening)
      (.mark .equals :: (ws ++ [.mark .semicolon]) ++ us) := follows_cons.mpr (by decide)
  obtain ⟨ms, hms, hlist⟩ := takes_listed hitem rfl rfl hparams hequals
  refine Takes.rule rfl ((takes_fixpoint fix).seq ((takes_identifier x).seq (hlist.seq hend)))
    fun parts => ?_
  simp [Meaning.ofNode?, Meaning.equationOf?, Meaning.formula?, hms]

theorem refuses_equation {us : List Token} :
    Refuses (.rule SystemRule.equation) (.keyword .init :: us) := by
  have hfixpoint : Refuses (.rule fixpoint) (.keyword .init :: us) :=
    .rule rfl (.choice (refuses_next rfl (by decide) (by decide))
      (refuses_next rfl (by decide) (by decide)))
  exact .rule rfl hfixpoint.seq

theorem takes_init {ts us : List Token} {i : Instance} (h : SpellsInstance ts i) :
    Takes (.rule init) (.keyword .init :: (ts ++ [.mark .semicolon])) [.init i] us := by
  have hinst : Takes (.rule inst) ts [.inst i] (.mark .semicolon :: us) :=
    h.takes (follows_cons.mpr (by decide))
  exact .rule rfl ((takes_keywordIs .init).seq (hinst.seq (.mark .semicolon))) fun _ => rfl

/-- From a text of tokens that spell a system, the grammar reads a tree that means the system. -/
theorem SpellsSystem.settles {ts : List Token} {s : EqSystem} (h : SpellsSystem ts s)
    {cs : List Char} (hcs : Reads Token.isWord ts cs) : ∃ parts rest,
    Settles rules false (.rule SystemRule.system) cs (.matched [.node .system parts] rest) ∧
      meaningsOf Meaning.ofNode? [.node .system parts] = Yield ts [.system s] := by
  obtain @⟨us, equations, vs, i, hequations, hne, hi⟩ := h
  have hitem {ts us : List Token} {e : Equation} (he : SpellsEquation ts e) :
      ∃ y, Meaning.equation? y = some e ∧ Takes (.rule SystemRule.equation) ts [y] us :=
    ⟨.equation e, rfl, he.takes⟩
  have hfinish : Takes (.rule endOfInput) [] [.nothing] [] := .rule rfl .finish fun _ => rfl
  have hend := Takes.seq (takes_init hi) hfinish
  have hinit : Refuses (.rule SystemRule.equation)
      (.keyword .init :: (vs ++ [.mark .semicolon]) ++ [] ++ []) := refuses_equation
  obtain ⟨ms, hms, hlist⟩ := takes_many1 hitem rfl hequations hne hinit
  have hall := (takes_keywordIs .pbes).seq (hlist.seq hend)
  rw [List.append_nil (_ :: _)] at hall
  obtain ⟨parts, rest, hsettles, hmeans, -⟩ := hall cs (by rwa [List.append_nil])
  have hempty : Settles rules false .empty cs (.matched [] cs) := .empty
  have hbody : Settles rules false (body .system) cs
      (.matched ([] ++ leaves (gap rules false cs).1 ++ parts) rest) := hempty.seq hsettles
  refine ⟨_, rest, .rule_matched hbody, ?_⟩
  have hgap : meaningsOf Meaning.ofNode? (leaves (gap rules false cs).1) = Yield [] [] :=
    meaningsOf_leaves _
  have hparts := meaningsOf_seq hgap hmeans
  refine meaningsOf_node_eq hparts ?_
  simp [Meaning.ofNode?, Meaning.systemOf?, hms]

end PbesLab
