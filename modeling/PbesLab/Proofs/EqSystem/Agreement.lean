import PbesLab.Proofs.EqSystem.Chains
import PbesLab.Proofs.EqSystem.Conversion
import PbesLab.Proofs.Lists

namespace PbesLab

open Grammar (Gives GivesOne Only Pattern)
open Grammar.Tree (Node)

/-- Both give results that belong together, or both fail on a number. -/
inductive Agree {α β : Type} (Q : α → β → Prop) : Except SystemRule α → Except Misfit β → Prop
  | ok {a b} (h : Q a b) : Agree Q (.ok a) (.ok b)
  | number : Agree Q (.error .number) (.error (.unexpectedRule .number))

theorem ok_bind {ε α β : Type} (a : α) (f : α → Except ε β) : Except.ok a >>= f = f a := rfl

namespace Agree

variable {α β γ δ : Type} {Q : α → β → Prop} {Q' : γ → δ → Prop} {x : Except SystemRule α}
  {y : Except Misfit β}

theorem bind {f : α → Except SystemRule γ} {g : β → Except Misfit δ} (h : Agree Q x y)
    (hf : ∀ a b, Q a b → Agree Q' (f a) (g b)) : Agree Q' (x >>= f) (y >>= g) := by
  cases h with
  | ok h => exact hf _ _ h
  | number => exact .number

theorem of_ok {a : α} {b : β} (hx : x = .ok a) (hy : y = .ok b) (h : Q a b) : Agree Q x y := by
  rw [hx, hy]
  exact .ok h

theorem mono {P : α → β → Prop} (h : Agree P x y) (hP : ∀ a b, P a b → Q a b) : Agree Q x y := by
  cases h with
  | ok h => exact .ok (hP _ _ h)
  | number => exact .number

theorem mapM {ι : Type} {f : ι → Except SystemRule α} {g : ι → Except Misfit β} {is : List ι}
    (h : ∀ i ∈ is, Agree Q (f i) (g i)) : Agree (List.Forall₂ Q) (is.mapM f) (is.mapM g) := by
  induction is with
  | nil => exact .ok .nil
  | cons i is ih =>
    rw [List.mapM_cons, List.mapM_cons]
    refine (h i List.mem_cons_self).bind fun a b hab => ?_
    refine (ih fun j hj => h j (List.mem_cons_of_mem _ hj)).bind fun as bs hall => ?_
    exact .ok (.cons hab hall)

end Agree

namespace Grammar.GivesOne

variable {R : SystemRule → List (Node SystemRule) → Prop} {p : Pattern SystemRule}
  {Q : Node SystemRule → Prop} {ns : List (Node SystemRule)}

theorem parenthesised (hp : GivesOne R p Q) : GivesOne R (SystemRule.parenthesised p) Q :=
  .word_seq _ (hp.seq_word _)

theorem listed (hp : GivesOne R p Q)
    (h : Gives R (.opt (SystemRule.parenthesised (.commaList p))) ns) : ∀ n ∈ ns, Q n := by
  obtain rfl | ⟨_, _, rfl, rfl, vs, _, rfl, hvs, rfl⟩ := h
  · nofun
  · rw [List.nil_append, List.append_nil]
    exact hp.commaList hvs

end Grammar.GivesOne

namespace Conversion

abbrev meaning (n : Node SystemRule) : Except SystemRule Meaning :=
  n.meaning Meaning.ofNode?

/-- From the root down, the node is converted to what it means from the leaves up. What may hold a
number may fail on it, the same way. -/
def Consistent (n : Node SystemRule) : Prop :=
  match n.rule with
  | .keyword => True
  | .endOfInput => meaning n = .ok .nothing
  | .identifier => ∃ x, meaning n = .ok (.name x) ∧ nameOf n = .ok x
  | .boolSort => meaning n = .ok (.sort .bool)
  | .natSort => meaning n = .ok (.sort .nat)
  | .sort => ∃ s, meaning n = .ok (.sort s) ∧ sortOf n = .ok s
  | .varDecl => ∃ v, meaning n = .ok (.decl v) ∧ declOf n = .ok v
  | .equal => meaning n = .ok (.op .equal)
  | .less => meaning n = .ok (.op .less)
  | .greater => meaning n = .ok (.op .greater)
  | .compareOp => ∃ o, meaning n = .ok (.op o) ∧ comparisonOf n = .ok o
  | .trueLit => meaning n = .ok (.formula (.const true))
  | .falseLit => meaning n = .ok (.formula (.const false))
  | .number | .dataSum | .dataExpr => Agree (fun m d => m = .data d) (meaning n) (dataOf n)
  | .inst => Agree (fun m i => m = .inst i) (meaning n) (instanceOf n)
  | .all => meaning n = .ok (.quantifier .all)
  | .ex => meaning n = .ok (.quantifier .ex)
  | .expr | .implication | .disjunction | .conjunction | .negation | .quantifier | .val =>
    Agree (fun m f => m = .formula f) (meaning n) (formulaOf n)
  | .mu => meaning n = .ok (.fixpoint .mu)
  | .nu => meaning n = .ok (.fixpoint .nu)
  | .fixpoint => ∃ f, meaning n = .ok (.fixpoint f) ∧ fixpointOf n = .ok f
  | .equation => Agree (fun m e => m = .equation e) (meaning n) (equationOf n)
  | .init => Agree (fun m i => m = .init i) (meaning n) (initOf n)
  | .system => Agree (fun m s => m = .system s) (meaning n) (systemOf n)

variable {n : Node SystemRule}

def IsData (n : Node SystemRule) : Prop :=
  Agree (fun m d => m.data? = some d) (meaning n) (dataOf n)

def IsFormula (n : Node SystemRule) : Prop :=
  Agree (fun m f => m.formula? = some f) (meaning n) (formulaOf n)

def dataRules : List SystemRule :=
  [.number, .trueLit, .falseLit, .identifier, .dataSum, .dataExpr]

def formulaRules : List SystemRule :=
  [.expr, .implication, .disjunction, .conjunction, .negation, .quantifier, .val, .trueLit,
    .falseLit, .inst]

theorem Consistent.isData (h : Consistent n) (hr : n.rule ∈ dataRules) : IsData n := by
  unfold Consistent at h
  cases hn : n.rule with
  | number | dataSum | dataExpr =>
    simp only [hn] at h
    exact h.mono fun m d hm => hm ▸ rfl
  | trueLit | falseLit =>
    simp only [hn] at h
    exact Agree.of_ok h (by rw [dataOf]; simp only [hn]; rfl) rfl
  | identifier =>
    simp only [hn] at h
    obtain ⟨x, hm, hx⟩ := h
    exact Agree.of_ok hm (by rw [dataOf]; simp only [hn, hx]; rfl) rfl
  | _ =>
    rw [hn] at hr
    exact absurd hr (by decide)

theorem Consistent.isFormula (h : Consistent n) (hr : n.rule ∈ formulaRules) : IsFormula n := by
  unfold Consistent at h
  cases hn : n.rule with
  | expr | implication | disjunction | conjunction | negation | quantifier | val =>
    simp only [hn] at h
    exact h.mono fun m f hm => hm ▸ rfl
  | trueLit | falseLit =>
    simp only [hn] at h
    exact Agree.of_ok h (by rw [formulaOf]; simp only [hn]; rfl) rfl
  | inst =>
    simp only [hn] at h
    have hconv : formulaOf n = instanceOf n >>= fun i => pure (.inst i) := by
      rw [formulaOf]
      simp only [hn]
    unfold IsFormula
    rw [hconv, ← bind_pure (meaning n)]
    exact h.bind fun m i hm => .ok (hm ▸ rfl)
  | _ =>
    rw [hn] at hr
    exact absurd hr (by decide)

theorem isData_of_rule {r : SystemRule} (hr : r ∈ dataRules) :
    GivesOne (Only Consistent) (.rule r) IsData :=
  .rule fun _ hn h => h.isData (hn ▸ hr)

theorem isFormula_of_rule {r : SystemRule} (hr : r ∈ formulaRules) :
    GivesOne (Only Consistent) (.rule r) IsFormula :=
  .rule fun _ hn h => h.isFormula (hn ▸ hr)

theorem meaning_of_inner {r : SystemRule} (hr : n.rule = r) : meaning n =
    n.inner.mapM meaning >>= fun inner =>
      (Meaning.ofNode? r n.parts inner).elim (.error r) .ok := by
  rw [meaning, Node.meaning_eq, hr]

theorem consistent_atomic (ha : SystemRule.rules.atomic n.rule) (hinner : n.inner = []) :
    Consistent n := by
  have hm := meaning_of_inner (n := n) rfl
  rw [hinner] at hm
  unfold Consistent
  cases hr : n.rule with
  | keyword => trivial
  | identifier =>
    rw [hr] at hm
    refine ⟨_, hm, ?_⟩
    rw [nameOf, expect, if_pos hr]
    rfl
  | number =>
    rw [hr] at hm
    dsimp only
    rw [hm, dataOf]
    simp only [hr, Meaning.ofNode?]
    cases Meaning.number? (Grammar.Tree.textOf n.parts) with
    | none => exact .number
    | some v => exact .ok rfl
  | mu | nu | all | ex | trueLit | falseLit =>
    rw [hr] at hm
    exact hm
  | _ =>
    rw [hr] at ha
    cases ha

/-- A node over one node means what its rule makes of the meaning of that one. -/
theorem meaning_of_single {r : SystemRule} (hr : n.rule = r) {k : Node SystemRule}
    (hinner : n.inner = [k]) {m m' : Meaning} (hk : meaning k = .ok m)
    (hm : Meaning.ofNode? r n.parts [m] = some m') : meaning n = .ok m' :=
  Node.meaning_eq_ok hr hinner (.cons hk .nil) hm

theorem consistent_sort (hr : n.rule = .sort)
    (h : Gives (Only Consistent) (SystemRule.body .sort) n.inner) : Consistent n := by
  simp only [Consistent, hr]
  obtain ⟨k, hinner, hk, hcon⟩ | ⟨k, hinner, hk, hcon⟩ := h <;>
    · simp only [Consistent, hk] at hcon
      refine ⟨_, meaning_of_single hr hinner hcon rfl, ?_⟩
      rw [sortOf, hinner]
      simp only [next, ok_bind, hk]
      rfl

theorem consistent_fixpoint (hr : n.rule = .fixpoint)
    (h : Gives (Only Consistent) (SystemRule.body .fixpoint) n.inner) : Consistent n := by
  simp only [Consistent, hr]
  obtain ⟨k, hinner, hk, hcon⟩ | ⟨k, hinner, hk, hcon⟩ := h <;>
    · simp only [Consistent, hk] at hcon
      refine ⟨_, meaning_of_single hr hinner hcon rfl, ?_⟩
      rw [fixpointOf, hinner]
      simp only [next, ok_bind, hk]
      rfl

theorem consistent_compareOp (hr : n.rule = .compareOp)
    (h : Gives (Only Consistent) (SystemRule.body .compareOp) n.inner) : Consistent n := by
  simp only [Consistent, hr]
  obtain ⟨k, hinner, hk, hcon⟩ | ⟨k, hinner, hk, hcon⟩ | ⟨k, hinner, hk, hcon⟩ := h <;>
    · simp only [Consistent, hk] at hcon
      refine ⟨_, meaning_of_single hr hinner hcon rfl, ?_⟩
      rw [comparisonOf, hinner]
      simp only [next, ok_bind, hk]
      rfl

/-- Rules of a single literal. -/
theorem consistent_word (hr : n.rule ∈ [.endOfInput, .boolSort, .natSort, .equal, .less, .greater])
    (hinner : n.inner = []) : Consistent n := by
  have hm := meaning_of_inner (n := n) rfl
  rw [hinner] at hm
  unfold Consistent
  simp only [List.mem_cons, List.not_mem_nil, or_false] at hr
  obtain hr | hr | hr | hr | hr | hr := hr <;>
    · rw [hr] at hm ⊢
      exact hm

theorem consistent_varDecl (hr : n.rule = .varDecl)
    (h : Gives (Only Consistent) (SystemRule.body .varDecl) n.inner) : Consistent n := by
  obtain ⟨_, _, hinner, ⟨x, rfl, hx, hxcon⟩, _, _, rfl, rfl, s, rfl, hs, hscon⟩ := h
  simp only [Consistent, hx] at hxcon
  simp only [Consistent, hs] at hscon
  obtain ⟨name, hmname, hname⟩ := hxcon
  obtain ⟨sort, hmsort, hsort⟩ := hscon
  simp only [Consistent, hr]
  refine ⟨⟨name, sort⟩, ?_, ?_⟩
  · rw [meaning_of_inner hr, hinner]
    simp [hmname, hmsort]
    rfl
  · rw [declOf, hinner]
    simp [expect, hr, next, ok_bind, hname, hsort]

section

variable {α β : Type} {get? : Meaning → Option α} {convert : Node SystemRule → Except Misfit α}
  {r : SystemRule} {k : Node SystemRule} {ks : List (Node SystemRule)}

/-- A rule over one node. -/
theorem agree_one {give : β → Meaning} {f : α → β} (hr : n.rule = r) (hinner : n.inner = [k])
    (hk : Agree (fun m x => get? m = some x) (meaning k) (convert k))
    (hof : ∀ m x, get? m = some x → Meaning.ofNode? r n.parts [m] = some (give (f x))) :
    Agree (fun m y => m = give y) (meaning n) (convert k >>= fun x => pure (f x)) := by
  rw [meaning_of_inner hr, hinner]
  simp only [List.mapM_cons, List.mapM_nil, bind_assoc, pure_bind]
  refine hk.bind fun m x hm => ?_
  rw [hof m x hm]
  exact .ok rfl

/-- A rule over operands of an operator. -/
theorem agree_chain {give : α → Meaning} {op : α → α → α} (hr : n.rule = r)
    (hinner : n.inner = k :: ks)
    (hall : ∀ i ∈ k :: ks, Agree (fun m x => get? m = some x) (meaning i) (convert i))
    (hof : ∀ ms, Meaning.ofNode? r n.parts ms =
      (do return give (← Meaning.chain op (← ms.mapM get?)))) :
    Agree (fun m x => m = give x) (meaning n) (chain r op (n.inner.map convert)) := by
  have hrest : (ks.map convert).mapM id = ks.mapM convert := List.mapM_map
  rw [meaning_of_inner hr, hinner, List.mapM_cons, List.map_cons, chain, next, ok_bind]
  dsimp only
  simp only [hrest, bind_assoc, pure_bind]
  refine (hall k List.mem_cons_self).bind fun m x hx => ?_
  refine (Agree.mapM fun i hi => hall i (List.mem_cons_of_mem _ hi)).bind fun ms xs hxs => ?_
  have hms : (m :: ms).mapM get? = some (x :: xs) := mapM_of_forall₂ (.cons hx hxs)
  have hgives : Meaning.ofNode? r n.parts (m :: ms) = some (give (xs.foldl op x)) := by
    rw [hof, hms]
    rfl
  rw [hgives]
  exact .ok rfl

end

theorem isData_of_dataPrimary : GivesOne (Only Consistent) SystemRule.dataPrimary IsData :=
  .choice (isData_of_rule (by decide)) <| .choice (isData_of_rule (by decide)) <|
    .choice (isData_of_rule (by decide)) <| .choice (isData_of_rule (by decide)) <|
      .parenthesised (isData_of_rule (by decide))

theorem consistent_dataSum (hr : n.rule = .dataSum)
    (h : Gives (Only Consistent) (SystemRule.body .dataSum) n.inner) : Consistent n := by
  obtain ⟨k, ks, hinner, hall⟩ :=
    isData_of_dataPrimary.seq_many (isData_of_dataPrimary.word_seq "+") h
  have hconv : dataOf n = chain .dataSum (.binary .plus) (n.inner.map dataOf) := by
    rw [dataOf]
    simp only [hr]
    rw [List.attach_map_val]
  simp only [Consistent, hr]
  rw [hconv]
  exact agree_chain hr hinner hall fun ms => rfl

theorem consistent_dataExpr (hr : n.rule = .dataExpr)
    (h : Gives (Only Consistent) (SystemRule.body .dataExpr) n.inner) : Consistent n := by
  obtain ⟨_, _, hinner, ⟨l, rfl, hl, hlcon⟩, h⟩ := h
  have hleft : IsData l := hlcon.isData (hl ▸ by decide)
  simp only [Consistent, hr]
  obtain rfl | ⟨_, _, rfl, ⟨o, rfl, ho, hocon⟩, k, rfl, hk, hkcon⟩ := h
  · have hconv : dataOf n = dataOf l >>= pure := by
      rw [dataOf]
      simp only [hr]
      rw [List.attach_map_val, hinner]
      rfl
    rw [hconv]
    refine agree_one hr hinner hleft fun m d hm => ?_
    simp only [Meaning.ofNode?, hm]
    rfl
  · have hright : IsData k := hkcon.isData (hk ▸ by decide)
    simp only [Consistent, ho] at hocon
    obtain ⟨op, hmop, hop⟩ := hocon
    have hconv : dataOf n = dataOf l >>= fun x => dataOf k >>= fun y =>
        pure (.binary op x y) := by
      rw [dataOf]
      simp only [hr]
      rw [List.attach_map_val, hinner]
      simp only [List.cons_append, List.nil_append, List.map_cons, List.tail_cons, next, ok_bind,
        hop]
    rw [meaning_of_inner hr, hinner, hconv]
    simp only [List.cons_append, List.nil_append, List.mapM_cons, List.mapM_nil, bind_assoc,
      pure_bind, hmop, ok_bind]
    refine hleft.bind fun m x hm => ?_
    refine hright.bind fun m' y hm' => ?_
    simp only [Meaning.ofNode?, hm, hm']
    exact .ok rfl

theorem consistent_inst (hr : n.rule = .inst)
    (h : Gives (Only Consistent) (SystemRule.body .inst) n.inner) : Consistent n := by
  obtain ⟨_, args, hinner, ⟨x, rfl, hx, hxcon⟩, hargs⟩ := h
  simp only [Consistent, hx] at hxcon
  obtain ⟨name, hmname, hname⟩ := hxcon
  have hall : ∀ k ∈ args, IsData k :=
    (isData_of_rule (by decide)).listed hargs
  have hconv : instanceOf n = args.mapM dataOf >>= fun ds => pure ⟨name, ds⟩ := by
    rw [instanceOf, hinner]
    simp [expect, hr, next, ok_bind, hname]
  simp only [Consistent, hr]
  rw [meaning_of_inner hr, hinner, hconv]
  simp only [List.cons_append, List.nil_append, List.mapM_cons, hmname, ok_bind, bind_assoc,
    pure_bind]
  refine (Agree.mapM hall).bind fun ms ds hds => ?_
  simp only [Meaning.ofNode?, mapM_of_forall₂ hds]
  exact .ok rfl

end Conversion

end PbesLab
