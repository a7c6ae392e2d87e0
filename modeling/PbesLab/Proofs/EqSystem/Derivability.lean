import PbesLab.Proofs.EqSystem.Disambiguation

namespace PbesLab

open Grammar (Pattern)

namespace Derives

variable {p : Pattern SystemRule} {ts us : List Token}

theorem mark (m : Mark) : Derives (.word m.text) [.mark m] :=
  literal (t := .mark m) rfl

theorem keyword (k : Keyword) : Derives (.word k.text) [.keyword k] :=
  literal (t := .keyword k) rfl

theorem many_snoc (h : Derives (.many p) ts) (hp : Derives p us) :
    Derives (.many p) (ts ++ us) := by
  generalize hq : Pattern.many p = q at h
  induction h with
  | manyNil =>
    have hone := manyCons hp manyNil
    rwa [List.append_nil, ← List.nil_append us, hq] at hone
  | manyCons h _ _ ihmore =>
    rw [List.append_assoc]
    exact manyCons h (ihmore hq)
  | _ => cases hq

/-- One operand more at the end of a chain. -/
theorem chain_snoc {m : Mark} (h : Derives (.seq p (.many (.seq (.word m.text) p))) ts)
    (hp : Derives p us) :
    Derives (.seq p (.many (.seq (.word m.text) p))) (ts ++ .mark m :: us) := by
  cases h with
  | seq hfirst hmore =>
    rw [List.append_assoc]
    exact hfirst.seq (hmore.many_snoc ((mark m).seq hp))

theorem chain_one {m : Mark} (hp : Derives p ts) :
    Derives (.seq p (.many (.seq (.word m.text) p))) ts := by
  have hone := hp.seq (manyNil (p := .seq (.word m.text) p))
  rwa [List.append_nil] at hone

theorem parenthesised (h : Derives p ts) : Derives (SystemRule.parenthesised p)
    (.mark .opening :: (ts ++ [.mark .closing])) :=
  (mark .opening).seq (h.seq (mark .closing))

theorem separated {α : Type} {item : List Token → α → Prop} {m : Mark} {xs : List α}
    (hitem : ∀ {ts x}, item ts x → Derives p ts) (h : Separated m item ts xs) :
    Derives (.seq p (.many (.seq (.word m.text) p))) ts := by
  induction h with
  | one h => exact chain_one (hitem h)
  | cons h _ ih =>
    cases ih with
    | seq hfirst hmore => exact (hitem h).seq (manyCons ((mark m).seq hfirst) hmore)

theorem joined {α : Type} {item : List Token → α → Prop} {xs : List α}
    (hitem : ∀ {ts x}, item ts x → Derives p ts) (h : Joined item ts xs) :
    Derives (.many p) ts := by
  induction h with
  | nil => exact manyNil
  | cons h _ ih => exact manyCons (hitem h) ih

theorem listed {α : Type} {item : List Token → α → Prop} {xs : List α}
    (hitem : ∀ {ts x}, item ts x → Derives p ts) (h : Listed item ts xs) :
    Derives (.opt (SystemRule.parenthesised (.commaList p))) ts := by
  cases h with
  | none => exact .optNone
  | some h => exact .optSome (parenthesised (separated (m := .comma) hitem h))

end Derives

def DataLevel.pattern : DataLevel → Pattern SystemRule
  | operand => SystemRule.dataPrimary
  | sum => SystemRule.body .dataSum
  | comparison => SystemRule.body .dataExpr

def FormulaLevel.pattern : FormulaLevel → Pattern SystemRule
  | operand => SystemRule.unary
  | conjunction => SystemRule.body .conjunction
  | disjunction => SystemRule.body .disjunction
  | implication => SystemRule.body .implication

theorem SpellsDecl.derives {ts : List Token} {v : VarDecl} (h : SpellsDecl ts v) :
    Derives (.rule .varDecl) ts := by
  obtain ⟨x, s⟩ := h
  have hsort : Derives (.rule .sort) [.keyword s.keyword] := by
    cases s with
    | bool => exact .rule rfl (.choiceLeft (.rule rfl (.keyword .bool)))
    | nat => exact .rule rfl (.choiceRight (.rule rfl (.keyword .nat)))
  have hname : Derives (.rule .identifier) [.name x] := .token rfl
  exact .rule rfl (hname.seq ((Derives.mark .colon).seq hsort))

theorem derives_compareOp {op : DataOp} (hop : op ≠ .plus) :
    Derives (.rule .compareOp) [.mark op.mark] := by
  refine Derives.rule rfl ?_
  cases op with
  | plus => exact absurd rfl hop
  | equal => exact .choiceLeft (.rule rfl (.mark .equal))
  | less => exact .choiceRight (.choiceLeft (.rule rfl (.mark .less)))
  | greater => exact .choiceRight (.choiceRight (.rule rfl (.mark .greater)))

theorem SpellsData.derives {level : DataLevel} {ts : List Token} {d : DataExpr}
    (h : SpellsData level ts d) : Derives level.pattern ts := by
  induction h with
  | var x => exact .choiceRight (.choiceRight (.choiceRight (.choiceLeft (.token rfl))))
  | nat n => exact .choiceLeft (.token rfl)
  | bool b =>
    cases b with
    | true => exact .choiceRight (.choiceLeft (.token rfl))
    | false => exact .choiceRight (.choiceRight (.choiceLeft (.token rfl)))
  | group _ ih =>
    have hgroup := Derives.parenthesised (.rule (r := .dataExpr) rfl ih)
    exact .choiceRight (.choiceRight (.choiceRight (.choiceRight hgroup)))
  | sum _ ih => exact .chain_one (m := .plus) ih
  | plus _ _ ihl ihr => exact .chain_snoc (m := .plus) ihl ihr
  | comparison _ ih =>
    have hbody := (Derives.rule (r := .dataSum) rfl ih).seq
      (.optNone (p := .seq (.rule .compareOp) (.rule .dataSum)))
    rwa [List.append_nil] at hbody
  | compare hop _ _ ihl ihr =>
    have hright := (derives_compareOp hop).seq (.rule (r := .dataSum) rfl ihr)
    exact (Derives.rule (r := .dataSum) rfl ihl).seq (.optSome hright)

theorem SpellsInstance.derives {ts : List Token} {i : Instance} (h : SpellsInstance ts i) :
    Derives (.rule .inst) ts := by
  obtain ⟨x, hargs⟩ := h
  have hlist := Derives.listed (p := .rule .dataExpr) (fun hd => .rule rfl hd.derives) hargs
  have hname : Derives (.rule .identifier) [.name x] := .token rfl
  exact .rule rfl (hname.seq hlist)

theorem SpellsFormula.derives {level : FormulaLevel} {o : Bool} {ts : List Token} {f : Formula}
    (h : SpellsFormula level o ts f) : Derives level.pattern ts := by
  have hprimary {ts : List Token} (h : Derives SystemRule.primary ts) :
      Derives SystemRule.unary ts := .choiceRight (.choiceRight h)
  have hexpr {ts : List Token} (h : Derives (SystemRule.body .implication) ts) :
      Derives (.rule .expr) ts := .rule rfl (.rule rfl h)
  induction h with
  | const b =>
    cases b with
    | true => exact hprimary (.choiceLeft (.token rfl))
    | false => exact hprimary (.choiceRight (.choiceLeft (.token rfl)))
  | val h =>
    have hdata := Derives.parenthesised (.rule (r := .dataExpr) rfl h.derives)
    have hval : Derives (.rule .val) _ := .rule rfl ((Derives.keyword .val).seq hdata)
    exact hprimary (.choiceRight (.choiceRight (.choiceLeft hval)))
  | inst h =>
    exact hprimary (.choiceRight (.choiceRight (.choiceRight (.choiceLeft h.derives))))
  | group _ ih =>
    have hgroup := Derives.parenthesised (hexpr ih)
    exact hprimary (.choiceRight (.choiceRight (.choiceRight (.choiceRight hgroup))))
  | neg _ ih => exact .choiceRight (.choiceLeft (.rule rfl ((Derives.mark .not).seq ih)))
  | @quant q us v o ts f hv _ ih =>
    have hq : Derives (.choice (.rule .all) (.rule .ex)) [.keyword q.keyword] := by
      cases q with
      | all => exact .choiceLeft (.token rfl)
      | ex => exact .choiceRight (.token rfl)
    have hbody := hq.seq (hv.derives.seq ((Derives.mark .dot).seq (hexpr ih)))
    exact .choiceLeft (.rule rfl hbody)
  -- each level takes what the next tighter one takes, or two sides of its own operator
  | conjunction _ ih => exact .chain_one (m := .and) ih
  | and _ _ ihl ihr => exact .chain_snoc (m := .and) ihl ihr
  | disjunction _ ih =>
    exact .chain_one (m := .or) (.rule (r := .conjunction) rfl ih)
  | or _ _ ihl ihr => exact .chain_snoc (m := .or) ihl (.rule (r := .conjunction) rfl ihr)
  | implication _ ih =>
    have hbody := (Derives.rule (r := .disjunction) rfl ih).seq
      (.optNone (p := .seq (.word "=>") (.rule .implication)))
    rwa [List.append_nil] at hbody
  | imp _ _ ihl ihr =>
    have hright := (Derives.mark .arrow).seq (.rule (r := .implication) rfl ihr)
    exact (Derives.rule (r := .disjunction) rfl ihl).seq (.optSome hright)

theorem SpellsEquation.derives {ts : List Token} {e : Equation} (h : SpellsEquation ts e) :
    Derives (.rule .equation) ts := by
  obtain ⟨fix, x, hparams, hf⟩ := h
  have hfix : Derives (.rule .fixpoint) [.keyword fix.keyword] := by
    cases fix with
    | mu => exact .rule rfl (.choiceLeft (.token rfl))
    | nu => exact .rule rfl (.choiceRight (.token rfl))
  have hname : Derives (.rule .identifier) [.name x] := .token rfl
  have hlist := Derives.listed (p := .rule .varDecl) SpellsDecl.derives hparams
  have hexpr : Derives (.rule .expr) _ := .rule rfl (.rule rfl hf.derives)
  have hrhs := (Derives.mark .equals).seq (hexpr.seq (.mark .semicolon))
  exact .rule rfl (hfix.seq (hname.seq (hlist.seq hrhs)))

theorem SpellsSystem.derives {ts : List Token} {s : EqSystem} (h : SpellsSystem ts s) :
    Derives (.rule .system) ts := by
  obtain @⟨us, equations, vs, i, hequations, hne, hi⟩ := h
  have hkeyword (k : Keyword) : Derives (SystemRule.keywordIs k.text) [.keyword k] :=
    Derives.ahead.seq (.keyword k)
  have hmany1 : Derives (.many1 (.rule .equation)) us := by
    cases hequations with
    | nil => exact absurd rfl hne
    | cons h more => exact h.derives.seq (.joined SpellsEquation.derives more)
  have hinit : Derives (.rule .init) (.keyword .init :: (vs ++ [.mark .semicolon])) :=
    .rule rfl ((hkeyword .init).seq (hi.derives.seq (.mark .semicolon)))
  have hend : Derives (.rule .endOfInput) [] := .rule rfl .finish
  have hbody := Derives.empty.seq ((hkeyword .pbes).seq (hmany1.seq (hinit.seq hend)))
  rw [List.append_nil (_ :: _)] at hbody
  exact .rule rfl hbody

/-- The tokens that the grammar derives are those that spell a system by precedence. -/
theorem derives_system_iff {ts : List Token} :
    Derives (.rule .system) ts ↔ ∃ s, SpellsSystem ts s :=
  ⟨Derives.exists_system, fun ⟨_, hs⟩ => hs.derives⟩

end PbesLab
