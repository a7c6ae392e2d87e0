import PbesLab.Proofs.EqSystem.Derivation
import PbesLab.Proofs.EqSystem.Grouping

namespace PbesLab

open Grammar (Pattern)

/-- Derived tokens by rule; those of formulas are not grouped yet. -/
def Derived : SystemRule → List Token → Prop
  | .endOfInput, ts => ts = []
  | .keyword, _ => False
  | .identifier, ts => ∃ x, ts = [.name x]
  | .number, ts => ∃ n, ts = [.number n]
  | .mu, ts => ts = [.keyword .mu]
  | .nu, ts => ts = [.keyword .nu]
  | .all, ts => ts = [.keyword .all]
  | .ex, ts => ts = [.keyword .ex]
  | .trueLit, ts => ts = [.keyword .true]
  | .falseLit, ts => ts = [.keyword .false]
  | .boolSort, ts => ts = [.keyword .bool]
  | .natSort, ts => ts = [.keyword .nat]
  | .equal, ts => ts = [.mark .equal]
  | .less, ts => ts = [.mark .less]
  | .greater, ts => ts = [.mark .greater]
  | .fixpoint, ts => ∃ f : Fixpoint, ts = [.keyword f.keyword]
  | .sort, ts => ∃ s : DataSort, ts = [.keyword s.keyword]
  | .compareOp, ts => ∃ op : DataOp, op ≠ .plus ∧ ts = [.mark op.mark]
  | .varDecl, ts => ∃ v, SpellsDecl ts v
  | .dataExpr, ts => ∃ d, SpellsData .comparison ts d
  | .dataSum, ts => ∃ d, SpellsData .sum ts d
  | .inst, ts => ∃ i, SpellsInstance ts i
  | .val, ts => ∃ us d, SpellsData .comparison us d ∧
      ts = .keyword .val :: .mark .opening :: (us ++ [.mark .closing])
  | .expr, ts | .implication, ts | .disjunction, ts | .conjunction, ts | .negation, ts
  | .quantifier, ts => Ungrouped ts
  | .equation, ts => ∃ e, SpellsEquation ts e
  | .init, ts => ∃ us i, SpellsInstance us i ∧ ts = .keyword .init :: (us ++ [.mark .semicolon])
  | .system, ts => ∃ s, SpellsSystem ts s

section Patterns

variable {G : SystemRule → List Token → Prop} {α : Type} {item : List Token → α → Prop}
  {p : Pattern SystemRule} {ts : List Token}

theorem reading_literal {t : Token} (ht : t.isFixed) (h : Reading G (.literal t.chars) ts) :
    ts = [t] := by
  obtain ⟨u, hu, hchars, rfl⟩ := h
  rw [Token.eq_of_chars_eq hu ht hchars]

theorem reading_mark {m : Mark} (h : Reading G (.word m.text) ts) : ts = [.mark m] :=
  reading_literal (t := .mark m) rfl h

theorem reading_keyword {k : Keyword} (h : Reading G (.word k.text) ts) : ts = [.keyword k] :=
  reading_literal (t := .keyword k) rfl h

theorem reading_parenthesised (h : Reading G (SystemRule.parenthesised p) ts) :
    ∃ us, Reading G p us ∧ ts = .mark .opening :: (us ++ [.mark .closing]) := by
  obtain ⟨_, _, hopening, ⟨us, _, hp, hclosing, rfl⟩, rfl⟩ := h
  rw [reading_mark (m := .opening) hopening, reading_mark (m := .closing) hclosing]
  exact ⟨us, hp, rfl⟩

/-- Items with a mark between each two. -/
theorem reading_separated {m : Mark} (h : Reading G (.seq p (.many (.seq (.word m.text) p))) ts)
    (hitem : ∀ us, Reading G p us → ∃ x, item us x) :
    ∃ xs, Separated m item ts xs := by
  obtain ⟨us, _, hfirst, ⟨tss, htss, rfl⟩, rfl⟩ := h
  induction tss generalizing us with
  | nil =>
    obtain ⟨x, hx⟩ := hitem us hfirst
    rw [List.flatten_nil, List.append_nil]
    exact ⟨[x], .one hx⟩
  | cons vs tss ih =>
    obtain ⟨_, ws, hmark, hnext, rfl⟩ := htss vs List.mem_cons_self
    obtain ⟨x, hx⟩ := hitem us hfirst
    obtain ⟨xs, hxs⟩ := ih ws hnext fun vs hvs => htss vs (List.mem_cons_of_mem _ hvs)
    rw [reading_mark hmark]
    exact ⟨x :: xs, .cons hx hxs⟩

theorem reading_listed (h : Reading G (.opt (SystemRule.parenthesised (.commaList p))) ts)
    (hitem : ∀ us, Reading G p us → ∃ x, item us x) :
    ∃ xs, Listed item ts xs := by
  obtain rfl | h := h
  · exact ⟨[], .none⟩
  · obtain ⟨us, hus, rfl⟩ := reading_parenthesised h
    obtain ⟨xs, hxs⟩ := reading_separated (m := .comma) hus hitem
    exact ⟨xs, .some hxs⟩

theorem reading_joined (h : Reading G (.many1 p) ts)
    (hitem : ∀ us, Reading G p us → ∃ x, item us x) : ∃ xs, Joined item ts xs ∧ xs ≠ [] := by
  obtain ⟨us, _, hfirst, ⟨tss, htss, rfl⟩, rfl⟩ := h
  obtain ⟨x, hx⟩ := hitem us hfirst
  have hmore : ∃ xs, Joined item tss.flatten xs := by
    clear hfirst hx
    induction tss with
    | nil => exact ⟨[], .nil⟩
    | cons vs tss ih =>
      obtain ⟨y, hy⟩ := hitem vs (htss vs List.mem_cons_self)
      obtain ⟨xs, hxs⟩ := ih fun vs hvs => htss vs (List.mem_cons_of_mem _ hvs)
      exact ⟨y :: xs, .cons hy hxs⟩
  obtain ⟨xs, hxs⟩ := hmore
  exact ⟨x :: xs, .cons hx hxs, List.cons_ne_nil x xs⟩

end Patterns

section Rules

variable {ts : List Token}

theorem derived_of_standsFor {r : SystemRule} {t : Token} (h : t.standsFor r) : Derived r [t] := by
  cases t with
  | keyword k =>
    have hk : SystemRule.keywordOf? r = some k := by simpa [Token.standsFor] using h
    cases r <;> cases hk <;> rfl
  | name x =>
    obtain rfl : r = .identifier := by simpa [Token.standsFor] using h
    exact ⟨x, rfl⟩
  | number n =>
    obtain rfl : r = .number := by simpa [Token.standsFor] using h
    exact ⟨n, rfl⟩
  | mark m => cases h

theorem exists_data_of_dataPrimary (h : Reading Derived SystemRule.dataPrimary ts) :
    ∃ d, SpellsData .operand ts d := by
  obtain ⟨n, rfl⟩ | rfl | rfl | ⟨x, rfl⟩ | h := h
  · exact ⟨_, .nat n⟩
  · exact ⟨_, .bool true⟩
  · exact ⟨_, .bool false⟩
  · exact ⟨_, .var x⟩
  · obtain ⟨us, ⟨d, hd⟩, rfl⟩ := reading_parenthesised h
    exact ⟨d, .group hd⟩

theorem ungrouped_of_unary (h : Reading Derived SystemRule.unary ts) : Ungrouped ts := by
  obtain h | h | rfl | rfl | ⟨us, d, hd, rfl⟩ | ⟨i, hi⟩ | h := h
  · exact h
  · exact h
  · exact .operand (.const true)
  · exact .operand (.const false)
  · exact .operand (.val hd)
  · exact .operand (.inst hi)
  · obtain ⟨us, hus, rfl⟩ := reading_parenthesised h
    obtain ⟨o, f, hf⟩ := Ungrouped.exists_formula hus
    exact .operand (.group hf)

theorem ungrouped_of_chain {o : Connective} {p : Pattern SystemRule}
    (h : Reading Derived (.seq p (.many (.seq (.word o.mark.text) p))) ts)
    (hp : ∀ us, Reading Derived p us → Ungrouped us) : Ungrouped ts := by
  have hitem (us : List Token) (hus : Reading Derived p us) : ∃ _ : Unit, Ungrouped us :=
    ⟨(), hp us hus⟩
  obtain ⟨xs, hxs⟩ := reading_separated h hitem
  exact .of_separated hxs

theorem exists_data_of_dataExpr (h : Reading Derived (SystemRule.body .dataExpr) ts) :
    ∃ d, SpellsData .comparison ts d := by
  obtain ⟨us, _, ⟨l, hl⟩, rfl | ⟨_, vs, ⟨op, hop, rfl⟩, ⟨r, hr⟩, rfl⟩, rfl⟩ := h
  · rw [List.append_nil]
    exact ⟨_, hl.comparison⟩
  · exact ⟨_, .compare hop hl hr⟩

theorem ungrouped_of_implication (h : Reading Derived (SystemRule.body .implication) ts) :
    Ungrouped ts := by
  obtain ⟨us, _, hleft, rfl | ⟨_, vs, harrow, hright, rfl⟩, rfl⟩ := h
  · rw [List.append_nil]
    exact hleft
  · rw [reading_mark (m := .arrow) harrow]
    exact Ungrouped.join .imp hleft hright

theorem ungrouped_of_quantifier (h : Reading Derived (SystemRule.body .quantifier) ts) :
    Ungrouped ts := by
  obtain ⟨_, _, hq, ⟨us, _, ⟨v, hv⟩, ⟨_, vs, hdot, h, rfl⟩, rfl⟩, rfl⟩ := h
  rw [reading_mark (m := .dot) hdot]
  obtain rfl | rfl := hq
  · exact .quant .all hv h
  · exact .quant .ex hv h

theorem exists_equation_of_body (h : Reading Derived (SystemRule.body .equation) ts) :
    ∃ e, SpellsEquation ts e := by
  obtain ⟨_, _, ⟨fix, rfl⟩, ⟨_, _, ⟨x, rfl⟩, ⟨us, _, hparams, h, rfl⟩, rfl⟩, rfl⟩ := h
  obtain ⟨_, _, hequals, ⟨vs, _, hexpr, hsemi, rfl⟩, rfl⟩ := h
  obtain ⟨params, hparams⟩ := reading_listed hparams fun _ h => h
  obtain ⟨o, f, hf⟩ := Ungrouped.exists_formula hexpr
  rw [reading_mark (m := .equals) hequals, reading_mark (m := .semicolon) hsemi]
  exact ⟨_, .equation fix x hparams hf⟩

theorem exists_system_of_body (h : Reading Derived (SystemRule.body .system) ts) :
    ∃ s, SpellsSystem ts s := by
  obtain ⟨_, _, rfl, ⟨_, _, hpbes, ⟨_, _, heqs, ⟨_, _, hinit, rfl, rfl⟩, rfl⟩, rfl⟩, rfl⟩ := h
  obtain ⟨_, _, rfl, hpbes, rfl⟩ := hpbes
  obtain ⟨equations, hequations, hne⟩ := reading_joined heqs fun _ h => h
  obtain ⟨us, i, hi, rfl⟩ := hinit
  rw [reading_keyword (k := .pbes) hpbes]
  refine ⟨⟨equations, i⟩, ?_⟩
  simpa using SpellsSystem.system hequations hne hi

/-- What the body of a rule derives, the rule derives. -/
theorem derived_of_body {r : SystemRule} (hr : r.atomic = false) (h : Reading Derived r.body ts) :
    Derived r ts := by
  cases r with
  | endOfInput => exact h
  | system => exact exists_system_of_body h
  | equation => exact exists_equation_of_body h
  | init =>
    obtain ⟨_, _, ⟨_, _, rfl, hinit, rfl⟩, ⟨us, _, ⟨i, hi⟩, hsemi, rfl⟩, rfl⟩ := h
    rw [reading_keyword (k := .init) hinit, reading_mark (m := .semicolon) hsemi]
    exact ⟨us, i, hi, rfl⟩
  | fixpoint =>
    obtain rfl | rfl := h
    · exact ⟨.mu, rfl⟩
    · exact ⟨.nu, rfl⟩
  | varDecl =>
    obtain ⟨_, _, ⟨x, rfl⟩, ⟨_, _, hcolon, ⟨s, rfl⟩, rfl⟩, rfl⟩ := h
    rw [reading_mark (m := .colon) hcolon]
    exact ⟨_, .decl x s⟩
  | sort =>
    obtain rfl | rfl := h
    · exact ⟨.bool, rfl⟩
    · exact ⟨.nat, rfl⟩
  | boolSort => exact reading_keyword (k := .bool) h
  | natSort => exact reading_keyword (k := .nat) h
  | inst =>
    obtain ⟨_, us, ⟨x, rfl⟩, hargs, rfl⟩ := h
    obtain ⟨args, hargs⟩ := reading_listed hargs fun _ h => h
    exact ⟨_, .inst x hargs⟩
  | expr => exact h
  | implication => exact ungrouped_of_implication h
  | disjunction => exact ungrouped_of_chain (o := Connective.or) h fun _ h => h
  | conjunction => exact ungrouped_of_chain (o := Connective.and) h fun _ => ungrouped_of_unary
  | negation =>
    obtain ⟨_, us, hnot, h, rfl⟩ := h
    rw [reading_mark (m := .not) hnot]
    exact .neg (ungrouped_of_unary h)
  | quantifier => exact ungrouped_of_quantifier h
  | val =>
    obtain ⟨_, _, hval, h, rfl⟩ := h
    obtain ⟨us, ⟨d, hd⟩, rfl⟩ := reading_parenthesised h
    rw [reading_keyword (k := .val) hval]
    exact ⟨us, d, hd, rfl⟩
  | dataExpr => exact exists_data_of_dataExpr h
  | compareOp =>
    obtain rfl | rfl | rfl := h
    · exact ⟨.equal, by decide, rfl⟩
    · exact ⟨.less, by decide, rfl⟩
    · exact ⟨.greater, by decide, rfl⟩
  | equal => exact reading_mark (m := .equal) h
  | less => exact reading_mark (m := .less) h
  | greater => exact reading_mark (m := .greater) h
  | dataSum =>
    obtain ⟨ds, hds⟩ := reading_separated (m := .plus) h fun _ => exists_data_of_dataPrimary
    exact SpellsData.of_separated hds
  -- single tokens have atomic rules
  | keyword | identifier | mu | nu | all | ex | trueLit | falseLit | number => cases hr

end Rules

/-- Precedence gives a system to all tokens that the grammar derives. -/
theorem Derives.exists_system {ts : List Token} (h : Derives (.rule .system) ts) :
    ∃ s, SpellsSystem ts s :=
  h.reading (G := Derived) (fun _ _ => derived_of_standsFor) fun _ _ => derived_of_body

end PbesLab
