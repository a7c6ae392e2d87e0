import PbesLab.Proofs.EqSystem.Precedence
import PbesLab.Proofs.EqSystem.Spelling

namespace PbesLab

open SystemRule (NoName isBlank skip)

/-- All names in a formula: of variables, bound or used, and of instances. -/
def Formula.names : Formula → List String
  | const _ => []
  | val d => d.vars
  | inst i => i.name :: i.vars
  | neg f => f.names
  | bin _ l r => l.names ++ r.names
  | quant _ v f => v.name :: f.names

def Equation.names (e : Equation) : List String :=
  e.name :: (e.params.map VarDecl.name ++ e.rhs.names)

def EqSystem.names (s : EqSystem) : List String :=
  s.equations.flatMap Equation.names ++ s.init.name :: s.init.vars

/-- A text reads as tokens before whatever goes on with no name, and its numbers fit. -/
structure Prints (text : String) (ts : List Token) : Prop where
  fits : ts.all Token.fits
  reads : ∀ {us rest}, NoName rest → Reads Token.isWord us rest →
    Reads Token.isWord (ts ++ us) (text.toList ++ rest)

namespace Prints

variable {a b : String} {ts us : List Token}

theorem empty : Prints "" [] :=
  ⟨rfl, fun _ h => h⟩

theorem token {t : Token} (ht : t.fits) (ha : a.toList = t.chars) : Prints a [t] := by
  refine ⟨by simp [ht], fun {us rest} hrest hus => ⟨rest, ?_, fun _ => hrest, hus⟩⟩
  rw [ha]
  exact SystemRule.skip_eq_self (t.flush_chars rest)

theorem name (x : LegalName) : Prints x.val [.name x] :=
  token rfl rfl

theorem keyword (k : Keyword) : Prints k.text [.keyword k] :=
  token rfl rfl

theorem number (n : UInt32) :
    ∃ m : Numeral, m.value = n ∧ Prints (toString n.toNat) [.number m] := by
  have hvalue : Nat.ofDigitChars 10 (Nat.toDigits 10 n.toNat) 0 = n.toNat :=
    Nat.ofDigitChars_toDigits (by decide) (by decide)
  have hdigit : ∀ c ∈ Nat.toDigits 10 n.toNat, c.isDigit := fun c hc =>
    Nat.isDigit_of_mem_toDigits (by decide) (by decide) hc
  have hne : Nat.toDigits 10 n.toNat ≠ [] := Nat.toDigits_ne_nil
  refine ⟨⟨Nat.toDigits 10 n.toNat, hne, hdigit⟩, ?_, token ?_ (by simp [Token.chars])⟩
  · simp [Numeral.value, hvalue]
  · simp [Token.fits, hvalue, UInt32.toNat_lt_size]

theorem append (ha : Prints a ts) (hb : Prints b us) (hno : NoName b.toList) :
    Prints (a ++ b) (ts ++ us) := by
  refine ⟨by simp [ha.fits, hb.fits], fun {vs rest} hrest hvs => ?_⟩
  have hnoname : NoName (b.toList ++ rest) := by
    cases h : b.toList with
    | nil => exact hrest
    | cons c cs =>
      rw [h] at hno
      exact hno
  rw [String.toList_append, List.append_assoc, List.append_assoc]
  exact ha.reads hnoname (hb.reads hrest hvs)

/-- Anything may follow a mark. -/
theorem mark (m : Mark) (hb : Prints b us) : Prints (m.text ++ b) (.mark m :: us) := by
  refine ⟨by simp [Token.fits, hb.fits], fun {vs rest} hrest hvs => ?_⟩
  refine ⟨b.toList ++ rest, ?_, ?_, hb.reads hrest hvs⟩
  · rw [String.toList_append, List.append_assoc]
    exact SystemRule.skip_eq_self ((Token.mark m).flush_chars _)
  · exact fun hword => absurd hword Bool.false_ne_true

theorem gap (ha : a.toList.all isBlank) (hb : Prints b us) : Prints (a ++ b) us := by
  refine ⟨hb.fits, fun {vs rest} hrest hvs => ?_⟩
  rw [String.toList_append, List.append_assoc]
  have hbody := hb.reads hrest hvs
  rw [← reads_skip] at hbody ⊢
  have hskip (w : List Char) (hw : ∀ c ∈ w, isBlank c) :
      skip (w ++ (b.toList ++ rest)) = skip (b.toList ++ rest) := by
    induction w with
    | nil => rfl
    | cons c w ih =>
      have hc := SystemRule.layout_blank (hw c List.mem_cons_self) (w ++ (b.toList ++ rest))
      exact (congrArg Prod.snd hc).trans (ih fun d hd => hw d (List.mem_cons_of_mem _ hd))
  rwa [hskip _ (List.all_eq_true.mp ha)]

end Prints

theorem noName_mark (m : Mark) (b : String) : NoName (m.text ++ b).toList := by
  obtain ⟨c, rest, hm, -, -, hname⟩ := Token.exists_chars_mark m
  rw [String.toList_append, hm]
  simp [NoName, hname]

theorem noName_gap {a : String} (ha : a.toList.head?.any isBlank) (b : String) :
    NoName (a ++ b).toList := by
  rw [String.toList_append]
  cases h : a.toList with
  | nil => simp [h] at ha
  | cons c cs =>
    have hc : isBlank c := by simpa [h] using ha
    intro d hd hname
    obtain rfl := Option.some.inj hd
    exact (Token.not_layout_of_isNameChar hname).1 hc

theorem boolText_prints (b : Bool) : Prints (boolText b) [.keyword (boolKeyword b)] := by
  cases b with
  | true => exact .keyword .true
  | false => exact .keyword .false

theorem DataOp.text_eq (op : DataOp) : op.text = op.mark.text := by
  cases op <;> rfl

theorem Connective.text_eq (op : Connective) : op.text = op.mark.text := by
  cases op <;> rfl

/-- Two texts with an operator between them, in parentheses. -/
theorem Prints.operation {a b : String} {ts us : List Token} (m : Mark) (ha : Prints a ts)
    (hb : Prints b us) : Prints ("(" ++ a ++ " " ++ m.text ++ " " ++ b ++ ")")
      (.mark .opening :: (ts ++ .mark m :: us ++ [.mark .closing])) := by
  have hclosing : Prints ")" [.mark .closing] := token rfl rfl
  have hright := hb.append hclosing (noName_mark .closing "")
  have hop := mark m (gap (a := " ") (by decide) hright)
  have hleft := ha.append (gap (a := " ") (by decide) hop) (noName_gap (by decide) _)
  have hall : Prints ("(" ++ (a ++ (" " ++ (m.text ++ (" " ++ (b ++ ")")))))) _ :=
    mark .opening hleft
  simpa [String.append_assoc] using hall

theorem DataExpr.prints (d : DataExpr) (h : ∀ x ∈ d.vars, isLegalName x) :
    ∃ ts, SpellsData .operand ts d ∧ Prints d.text ts := by
  induction d with
  | var x =>
    have hx : isLegalName x := h x List.mem_cons_self
    exact ⟨_, .var ⟨x, hx⟩, .name ⟨x, hx⟩⟩
  | nat n =>
    obtain ⟨m, rfl, hm⟩ := Prints.number n
    exact ⟨_, .nat m, hm⟩
  | bool b => exact ⟨_, .bool b, boolText_prints b⟩
  | binary op l r ihl ihr =>
    obtain ⟨ts, hts, hl⟩ := ihl fun x hx => h x (List.mem_append_left _ hx)
    obtain ⟨us, hus, hr⟩ := ihr fun x hx => h x (List.mem_append_right _ hx)
    refine ⟨_, .group ?_, op.text_eq ▸ hl.operation op.mark hr⟩
    by_cases hop : op = .plus
    · subst hop
      exact .comparison (.plus hts.sum hus)
    · exact .compare hop hts.sum hus.sum

section Lists

variable {α : Type} {item : List Token → α → Prop} {text : α → String} {xs : List α}

theorem Separated.prints (hne : xs ≠ []) (h : ∀ x ∈ xs, ∃ ts, item ts x ∧ Prints (text x) ts) :
    ∃ ts, Separated .comma item ts xs ∧ Prints (String.intercalate ", " (xs.map text)) ts := by
  induction xs with
  | nil => exact absurd rfl hne
  | cons x xs ih =>
    obtain ⟨ts, hts, hx⟩ := h x List.mem_cons_self
    cases xs with
    | nil =>
      simp only [List.map_cons, List.map_nil, String.intercalate_singleton]
      exact ⟨ts, .one hts, hx⟩
    | cons y xs =>
      obtain ⟨us, hus, hxs⟩ := ih (List.cons_ne_nil _ _) fun z hz => h z (List.mem_cons_of_mem _ hz)
      have hcomma : Prints ("," ++ (" " ++ String.intercalate ", " ((y :: xs).map text)))
          (.mark .comma :: us) := .mark .comma (.gap (by decide) hxs)
      have hall := hx.append hcomma (noName_mark .comma _)
      refine ⟨_, .cons hts hus, ?_⟩
      simp only [List.map_cons, String.intercalate_cons_cons]
      simpa [← String.append_assoc] using hall

theorem Listed.prints (h : ∀ x ∈ xs, ∃ ts, item ts x ∧ Prints (text x) ts) :
    ∃ ts, Listed item ts xs ∧ Prints (argumentText (xs.map text)) ts := by
  by_cases hne : xs = []
  · subst hne
    exact ⟨[], .none, .empty⟩
  · obtain ⟨ts, hts, hxs⟩ := Separated.prints hne h
    have hclosing : Prints ")" [.mark .closing] := .token rfl rfl
    have hall : Prints ("(" ++ (String.intercalate ", " (xs.map text) ++ ")"))
        (.mark .opening :: (ts ++ [.mark .closing])) :=
      .mark .opening (hxs.append hclosing (noName_mark .closing ""))
    refine ⟨_, .some hts, ?_⟩
    simpa [argumentText, hne, String.append_assoc] using hall

end Lists

theorem noName_argumentText (items : List String) (b : String) (hb : NoName b.toList) :
    NoName (argumentText items ++ b).toList := by
  unfold argumentText
  split
  · simpa using hb
  · rw [String.append_assoc, String.append_assoc]
    exact noName_mark .opening _

theorem VarDecl.prints (v : VarDecl) (h : isLegalName v.name) :
    ∃ ts, SpellsDecl ts v ∧ Prints v.text ts := by
  obtain ⟨x, s⟩ := v
  have hsort : Prints s.text [.keyword s.keyword] := by
    cases s with
    | bool => exact .keyword .bool
    | nat => exact .keyword .nat
  have hcolon : Prints (":" ++ (" " ++ s.text)) [.mark .colon, .keyword s.keyword] :=
    .mark .colon (.gap (by decide) hsort)
  have hall := (Prints.name ⟨x, h⟩).append hcolon (noName_mark .colon _)
  refine ⟨_, .decl ⟨x, h⟩ s, ?_⟩
  simpa [VarDecl.text, ← String.append_assoc] using hall

theorem Instance.prints (i : Instance) (hname : isLegalName i.name)
    (hvars : ∀ x ∈ i.vars, isLegalName x) : ∃ ts, SpellsInstance ts i ∧ Prints i.text ts := by
  obtain ⟨x, args⟩ := i
  have hargs (d : DataExpr) (hd : d ∈ args) :
      ∃ ts, SpellsData .comparison ts d ∧ Prints d.text ts := by
    obtain ⟨ts, hts, hprints⟩ := d.prints fun x hx => hvars x (List.mem_flatMap.mpr ⟨d, hd, hx⟩)
    exact ⟨ts, hts.sum.comparison, hprints⟩
  obtain ⟨ts, hts, hlist⟩ := Listed.prints hargs
  have hno := noName_argumentText (args.map DataExpr.text) "" (by simp [NoName])
  rw [String.append_empty] at hno
  exact ⟨_, .inst ⟨x, hname⟩ hts, (Prints.name ⟨x, hname⟩).append hlist hno⟩

theorem Formula.prints_val (d : DataExpr) (h : ∀ x ∈ d.vars, isLegalName x) :
    ∃ ts, SpellsFormula .operand false ts (.val d) ∧ Prints (Formula.val d).text ts := by
  obtain ⟨ts, hts, hd⟩ := d.prints h
  unfold Formula.text
  cases hbinary : d.isBinary with
  | true =>
    -- a binary expression brings the parentheses of `val`
    cases d with
    | binary op l r =>
      have hno : NoName (DataExpr.binary op l r).text.toList := by
        simp only [DataExpr.text, String.append_assoc]
        exact noName_mark .opening _
      cases hts with
      | group h => exact ⟨_, .val h, (Prints.keyword .val).append hd hno⟩
    | var | nat | bool => cases hbinary
  | false =>
    have hclosing : Prints ")" [.mark .closing] := .token rfl rfl
    have hparens : Prints ("(" ++ (d.text ++ ")")) (.mark .opening :: (ts ++ [.mark .closing])) :=
      .mark .opening (hd.append hclosing (noName_mark .closing ""))
    have hall := (Prints.keyword .val).append hparens (noName_mark .opening _)
    have hval : "val(" = Keyword.val.text ++ "(" := by decide
    rw [if_neg Bool.false_ne_true, hval, String.append_assoc, String.append_assoc]
    exact ⟨_, .val hts.sum.comparison, hall⟩

theorem Formula.prints (f : Formula) (h : ∀ x ∈ f.names, isLegalName x) :
    ∃ ts, SpellsFormula .operand false ts f ∧ Prints f.text ts := by
  -- A text has parentheses around every operation and quantifier, so it is an operand throughout.
  induction f with
  | const b => exact ⟨_, .const b, boolText_prints b⟩
  | val d => exact prints_val d h
  | inst i =>
    obtain ⟨ts, hts, hi⟩ := i.prints (h _ List.mem_cons_self) fun x hx =>
      h x (List.mem_cons_of_mem _ hx)
    exact ⟨ts, .inst hts, hi⟩
  | neg f ih =>
    obtain ⟨ts, hts, hf⟩ := ih h
    exact ⟨_, .neg hts, .mark .not hf⟩
  | bin op l r ihl ihr =>
    obtain ⟨ts, hts, hl⟩ := ihl fun x hx => h x (List.mem_append_left _ hx)
    obtain ⟨us, hus, hr⟩ := ihr fun x hx => h x (List.mem_append_right _ hx)
    have hall := hl.operation op.mark hr
    rw [← op.text_eq] at hall
    refine ⟨_, .group (o := false) ?_, hall⟩
    cases op with
    | and => exact (hts.conjunction.and hus).disjunction.implication
    | or => exact (hts.conjunction.disjunction.or hus.conjunction).implication
    | imp => exact hts.conjunction.disjunction.imp hus.conjunction.disjunction.implication
  | quant q v f ih =>
    obtain ⟨us, hus, hv⟩ := v.prints (h _ List.mem_cons_self)
    obtain ⟨ts, hts, hf⟩ := ih fun x hx => h x (List.mem_cons_of_mem _ hx)
    have hq : Prints q.text [.keyword q.keyword] := by
      cases q with
      | all => exact .keyword .all
      | ex => exact .keyword .ex
    have hclosing : Prints ")" [.mark .closing] := .token rfl rfl
    have hbody := hf.append hclosing (noName_mark .closing "")
    have hdot : Prints ("." ++ (" " ++ (f.text ++ ")")))
        (.mark .dot :: (ts ++ [.mark .closing])) := .mark .dot (.gap (by decide) hbody)
    have hdecl := hv.append hdot (noName_mark .dot _)
    have hquant := hq.append (.gap (a := " ") (by decide) hdecl) (noName_gap (by decide) _)
    have hall : Prints
        ("(" ++ (q.text ++ (" " ++ (v.text ++ ("." ++ (" " ++ (f.text ++ ")"))))))) _ :=
      .mark .opening hquant
    have hspells : SpellsFormula .operand true (.keyword q.keyword :: (us ++ .mark .dot :: ts))
        (.quant q v f) := .quant hus hts.conjunction.disjunction.implication
    refine ⟨_, .group hspells.conjunction.disjunction.implication, ?_⟩
    simpa [Formula.text, ← String.append_assoc] using hall

theorem Equation.prints (e : Equation) (h : ∀ x ∈ e.names, isLegalName x) :
    ∃ ts, SpellsEquation ts e ∧ Prints e.text ts := by
  obtain ⟨fix, x, params, f⟩ := e
  have hx : isLegalName x := h x List.mem_cons_self
  have hparam (v : VarDecl) (hv : v ∈ params) : ∃ ts, SpellsDecl ts v ∧ Prints v.text ts :=
    v.prints (h _ (List.mem_cons_of_mem _ (List.mem_append_left _ (List.mem_map_of_mem hv))))
  obtain ⟨us, hus, hparams⟩ := Listed.prints hparam
  obtain ⟨ts, hts, hf⟩ := f.prints fun y hy =>
    h y (List.mem_cons_of_mem _ (List.mem_append_right _ hy))
  have hfix : Prints fix.text [.keyword fix.keyword] := by
    cases fix with
    | mu => exact .keyword .mu
    | nu => exact .keyword .nu
  have hsemicolon : Prints ";" [.mark .semicolon] := .token rfl rfl
  have hrhs := hf.append hsemicolon (noName_mark .semicolon "")
  have hequals : Prints (" " ++ ("=" ++ ("\n    " ++ (f.text ++ ";")))) _ :=
    .gap (by decide) (.mark .equals (.gap (by decide) hrhs))
  have hno : NoName (" " ++ ("=" ++ ("\n    " ++ (f.text ++ ";")))).toList :=
    noName_gap (by decide) _
  have hhead := (Prints.name ⟨x, hx⟩).append (hparams.append hequals hno)
    (noName_argumentText _ _ hno)
  have hall := hfix.append (.gap (a := " ") (by decide) hhead) (noName_gap (by decide) _)
  refine ⟨_, .equation fix ⟨x, hx⟩ hus hts.conjunction.disjunction.implication, ?_⟩
  -- the mark and the layout around it are one piece of the text
  have hsplit : " =\n    " = " " ++ ("=" ++ "\n    ") := by decide
  simp only [Equation.text, hsplit, String.append_assoc]
  exact hall

/-- Equations on a line each. -/
theorem Joined.prints {es : List Equation}
    (h : ∀ e ∈ es, ∃ ts, SpellsEquation ts e ∧ Prints e.text ts) :
    ∃ ts, Joined SpellsEquation ts es ∧
      Prints (String.join (es.map fun e => "  " ++ e.text ++ "\n")) ts := by
  induction es with
  | nil => exact ⟨[], .nil, by simpa using Prints.empty⟩
  | cons e es ih =>
    obtain ⟨ts, hts, he⟩ := h e List.mem_cons_self
    obtain ⟨us, hus, hes⟩ := ih fun d hd => h d (List.mem_cons_of_mem _ hd)
    have hline := he.append (.gap (a := "\n") (by decide) hes) (noName_gap (by decide) _)
    refine ⟨_, .cons hts hus, ?_⟩
    simp only [List.map_cons, String.join_cons, String.append_assoc]
    exact .gap (by decide) hline

/-- The canonical text of a system with equations and legal names spells the system. -/
theorem EqSystem.prints (s : EqSystem) (hne : s.equations ≠ []) (h : ∀ x ∈ s.names, isLegalName x) :
    ∃ ts, SpellsSystem ts s ∧ Prints s.text ts := by
  obtain ⟨us, hus, hequations⟩ := Joined.prints fun e he => e.prints fun x hx =>
    h x (List.mem_append_left _ (List.mem_flatMap.mpr ⟨e, he, hx⟩))
  obtain ⟨ts, hts, hinit⟩ := s.init.prints
    (h _ (List.mem_append_right _ List.mem_cons_self)) fun x hx =>
      h x (List.mem_append_right _ (List.mem_cons_of_mem _ hx))
  have hsemicolon : Prints ";" [.mark .semicolon] := .token rfl rfl
  have hend := hinit.append hsemicolon (noName_mark .semicolon "")
  have hlast := (Prints.keyword .init).append (.gap (a := " ") (by decide) hend)
    (noName_gap (by decide) _)
  have hbody := hequations.append (.gap (a := "\n") (by decide) hlast) (noName_gap (by decide) _)
  have hall := (Prints.keyword .pbes).append (.gap (a := "\n") (by decide) hbody)
    (noName_gap (by decide) _)
  refine ⟨_, .system hus hne hts, ?_⟩
  have hpbes : "pbes\n" = Keyword.pbes.text ++ "\n" := by decide
  have hsplit : "\ninit " = "\n" ++ (Keyword.init.text ++ " ") := by decide
  simp only [EqSystem.text, hpbes, hsplit, String.append_assoc]
  exact hall

theorem Prints.isSpelled {text : String} {ts : List Token} (h : Prints text ts) :
    IsSpelled ts text.toList := by
  have hreads : Reads Token.isWord (ts ++ []) (text.toList ++ []) :=
    h.reads (by simp [NoName]) rfl
  rw [List.append_nil, List.append_nil] at hreads
  exact isSpelled_iff_reads.mpr hreads

end PbesLab
