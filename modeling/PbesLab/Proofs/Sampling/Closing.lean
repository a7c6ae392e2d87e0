import PbesLab.Proofs.Sampling.Draw
import PbesLab.Sampling.Generator
import Mathlib.Data.Finset.Card

namespace PbesLab.Sampling

variable {vars : List VarDecl} {f : Formula} {v : VarDecl} {P : Formula → Prop}

theorem firstFree?_eq_none : firstFree? vars f = none ↔ ∀ v ∈ vars, v.name ∉ f.freeVars := by
  simp [firstFree?]

theorem mem_freeVars_of_closed (h : firstFree? vars f = none) (x : String) :
    x ∈ f.freeVars ↔ x ∈ f.freeVars ∧ x ∉ vars.map VarDecl.name := by
  refine ⟨fun hx => ⟨hx, fun hm => ?_⟩, And.left⟩
  obtain ⟨v, hv, rfl⟩ := List.mem_map.mp hm
  exact firstFree?_eq_none.mp h v hv hx

theorem firstFree?_eq_some : firstFree? vars f = some v ↔
    v.name ∈ f.freeVars ∧ ∃ before after, vars = before ++ v :: after ∧
      ∀ w ∈ before, w.name ∉ f.freeVars := by
  simp [firstFree?, List.find?_eq_some_iff_append]

theorem mem_of_firstFree? (h : firstFree? vars f = some v) : v ∈ vars ∧ v.name ∈ f.freeVars :=
  ⟨List.mem_of_find?_eq_some h, by simpa using List.find?_some h⟩

def guardOf (v : VarDecl) : Formula :=
  .val (.binary .less (.var v.name) (.nat quantifierBound))

inductive Bounded (v : VarDecl) (f : Formula) : Formula → Prop
  | all : Bounded v f (.quant .all v (.bin .imp (guardOf v) f))
  | ex : Bounded v f (.quant .ex v (.bin .and (guardOf v) f))

theorem quantify_of_closed (h : firstFree? vars f = none) : quantify vars f = pure f := by
  unfold quantify
  rw [h]

theorem ensures_quantify (h : firstFree? vars f = some v) :
    Ensures (quantify vars f) (Bounded v f) := by
  unfold quantify
  rw [h]
  refine (ensures_any flip).bind fun b _ => ?_
  cases b with
  | true => exact ensures_pure .all
  | false => exact ensures_pure .ex

/-- The guard has no other variable than the one that is bound. -/
theorem Bounded.mem_freeVars {g : Formula} (h : Bounded v f g) (x : String) :
    x ∈ g.freeVars ↔ x ∈ f.freeVars ∧ x ≠ v.name := by
  cases h <;> simp [Formula.freeVars, guardOf, DataExpr.vars]

def openCount (vars : List VarDecl) (f : Formula) : Nat :=
  vars.countP (·.name ∈ f.freeVars)

/-- The names to bind. Variables of one name are bound together. -/
def openNames (vars : List VarDecl) (f : Formula) : Finset String :=
  ((vars.filter (·.name ∈ f.freeVars)).map VarDecl.name).toFinset

theorem mem_openNames {x : String} :
    x ∈ openNames vars f ↔ x ∈ vars.map VarDecl.name ∧ x ∈ f.freeVars := by
  simp only [openNames, List.mem_toFinset, List.mem_map, List.mem_filter, decide_eq_true_eq]
  constructor
  · rintro ⟨v, ⟨hv, hfree⟩, rfl⟩
    exact ⟨⟨v, hv, rfl⟩, hfree⟩
  · rintro ⟨⟨v, hv, rfl⟩, hfree⟩
    exact ⟨v, ⟨hv, hfree⟩, rfl⟩

theorem openNames_eq_empty : openNames vars f = ∅ ↔ firstFree? vars f = none := by
  simp [openNames, firstFree?_eq_none]

theorem card_openNames_le (vars : List VarDecl) (f : Formula) :
    (openNames vars f).card ≤ openCount vars f := by
  apply (List.toFinset_card_le _).trans
  rw [List.length_map, openCount, List.countP_eq_length_filter]

theorem Bounded.openNames_eq {g : Formula} (h : Bounded v f g) :
    openNames vars g = (openNames vars f).erase v.name := by
  ext x
  rw [Finset.mem_erase, mem_openNames, mem_openNames, h.mem_freeVars]
  tauto

/-- A round binds one name and opens none. -/
theorem card_openNames_quantify (h : firstFree? vars f = some v) (draws : Draws) :
    (openNames vars (quantify vars f draws).1).card + 1 = (openNames vars f).card := by
  obtain ⟨hv, hfree⟩ := mem_of_firstFree? h
  rw [(ensures_quantify h draws).openNames_eq]
  apply Finset.card_erase_add_one
  exact mem_openNames.mpr ⟨List.mem_map_of_mem hv, hfree⟩

/-- Binding as long as one of the variables is free, with the number of rounds that it takes, which
nothing limits. -/
inductive BindsAll (vars : List VarDecl) : Nat → Formula × Draws → Formula × Draws → Prop
  | done {f draws} (h : firstFree? vars f = none) : BindsAll vars 0 (f, draws) (f, draws)
  | round {v f draws rounds result} (h : firstFree? vars f = some v)
    (rest : BindsAll vars rounds (quantify vars f draws) result) :
    BindsAll vars (rounds + 1) (f, draws) result

section

variable {start result result' : Formula × Draws} {rounds rounds' : Nat}

theorem BindsAll.unique (h : BindsAll vars rounds start result)
    (h' : BindsAll vars rounds' start result') : rounds = rounds' ∧ result = result' := by
  induction h generalizing rounds' with
  | done hnone =>
    cases h' with
    | done => exact ⟨rfl, rfl⟩
    | round hsome => simp [hnone] at hsome
  | round hsome _ ih =>
    cases h' with
    | done hnone => simp [hnone] at hsome
    | round _ rest =>
      obtain ⟨hrounds, hresult⟩ := ih rest
      exact ⟨congrArg (· + 1) hrounds, hresult⟩

theorem BindsAll.mem_freeVars (h : BindsAll vars rounds start result) (x : String) :
    x ∈ result.1.freeVars ↔ x ∈ start.1.freeVars ∧ x ∉ vars.map VarDecl.name := by
  induction h with
  | done hnone => exact mem_freeVars_of_closed hnone x
  | round hsome _ ih =>
    obtain ⟨hv, -⟩ := mem_of_firstFree? hsome
    rw [ih, (ensures_quantify hsome _).mem_freeVars, and_assoc]
    -- the variable of this round is one of those to bind
    refine and_congr_right fun _ => ⟨And.right, fun hx => ⟨?_, hx⟩⟩
    rintro rfl
    exact hx (List.mem_map_of_mem hv)

/-- A round for each name to bind is enough, and none is left over. -/
theorem bindsAll_close (h : (openNames vars f).card ≤ rounds) (draws : Draws) :
    BindsAll vars (openNames vars f).card (f, draws) (close vars rounds f draws) := by
  induction rounds generalizing f draws with
  | zero =>
    have hempty := Finset.card_eq_zero.mp (Nat.le_zero.mp h)
    rw [hempty]
    exact .done (openNames_eq_empty.mp hempty)
  | succ rounds ih =>
    unfold close
    cases hfree : firstFree? vars f with
    | none =>
      rw [openNames_eq_empty.mpr hfree]
      exact .done hfree
    | some v =>
      have hcard := card_openNames_quantify hfree draws
      rw [← hcard]
      apply BindsAll.round hfree
      exact ih (by omega) _

end

theorem ensures_close {rounds : Nat} (h : openCount vars f ≤ rounds) :
    Ensures (close vars rounds f) fun g =>
      ∀ x, x ∈ g.freeVars ↔ x ∈ f.freeVars ∧ x ∉ vars.map VarDecl.name :=
  fun draws => (bindsAll_close ((card_openNames_le vars f).trans h) draws).mem_freeVars

theorem close_of_le {rounds more : Nat} (h : openCount vars f ≤ rounds) (hmore : rounds ≤ more) :
    close vars more f = close vars rounds f := by
  funext draws
  have hcard := (card_openNames_le vars f).trans h
  exact ((bindsAll_close (hcard.trans hmore) draws).unique (bindsAll_close hcard draws)).2

/-- A round for each variable is enough. -/
theorem ensures_close_closed (vars : List VarDecl) (f : Formula) :
    Ensures (close vars vars.length f) fun g => ∀ v ∈ vars, v.name ∉ g.freeVars := by
  refine (ensures_close List.countP_le_length).mono fun g hg v hv hfree => ?_
  exact ((hg v.name).mp hfree).2 (List.mem_map_of_mem hv)

/-- A property of formulas that the steps of the generator keep. -/
structure Kept (vars : List VarDecl) (P : Formula → Prop) : Prop where
  bin : ∀ op {l r}, P l → P r → P (.bin op l r)
  neg : ∀ {f}, P f → P (.neg f)
  bounded : ∀ {v f g}, v ∈ vars → Bounded v f g → P f → P g

theorem Kept.quantify (h : Kept vars P) (hf : P f) : Ensures (quantify vars f) P := by
  cases hfree : firstFree? vars f with
  | none =>
    rw [quantify_of_closed hfree]
    exact ensures_pure hf
  | some v =>
    exact (ensures_quantify hfree).mono fun g hg => h.bounded (mem_of_firstFree? hfree).1 hg hf

theorem Kept.close (h : Kept vars P) (rounds : Nat) (hf : P f) :
    Ensures (close vars rounds f) P := by
  induction rounds generalizing f with
  | zero => exact ensures_pure hf
  | succ rounds ih =>
    unfold Sampling.close
    split
    · exact ensures_pure hf
    · exact (h.quantify hf).bind fun g hg => ih hg

theorem Kept.join (h : Kept vars P) {l r : Formula} (hl : P l) (hr : P r) :
    Ensures (join vars l r) P := by
  refine (ensures_any (below32 3)).bind fun op _ => ?_
  refine (ensures_any (chance .fifth)).bind fun negated _ => ?_
  have hjoined := h.bin (connective op) hl hr
  have hsigned : P (if negated then .neg (.bin (connective op) l r)
      else .bin (connective op) l r) := by
    split
    · exact h.neg hjoined
    · exact hjoined
  refine (ensures_any (chance .threeTenths)).bind fun quantified _ => ?_
  cases quantified with
  | false => exact ensures_pure hsigned
  | true => exact h.quantify hsigned

/-- One round: the last two of the shuffled terms are joined. -/
def joinTwo (vars : List VarDecl) (terms : List Formula) : Rand (List Formula) := do
  match (← shuffle terms).reverse with
  | left :: right :: rest => return rest.reverse ++ [← join vars left right]
  | few => return few

/-- Where terms are left to join, the last two of the shuffled list are. -/
theorem ensures_shuffle_split {terms : List Formula} (h : 1 < terms.length) :
    Ensures (shuffle terms) fun shuffled => ∃ left right rest,
      shuffled.reverse = left :: right :: rest ∧ (left :: right :: rest).Perm terms := by
  refine (ensures_shuffle terms).mono fun shuffled hperm => ?_
  have hrev : shuffled.reverse.Perm terms := (List.reverse_perm shuffled).trans hperm
  match hs : shuffled.reverse, hrev with
  | left :: right :: rest, hrev => exact ⟨left, right, rest, rfl, hrev⟩
  | [_], hrev | [], hrev =>
    have hlen := hrev.length_eq
    simp at hlen
    omega

theorem combine_succ {terms : List Formula} (h : 1 < terms.length) (rounds : Nat) :
    combine vars (rounds + 1) terms = joinTwo vars terms >>= combine vars rounds := by
  unfold combine joinTwo
  rw [if_neg (Nat.not_le_of_lt h), bind_assoc]
  refine (ensures_shuffle_split h).bind_congr fun shuffled ⟨left, right, rest, hrev, _⟩ => ?_
  simp only [hrev, bind_assoc, pure_bind]

theorem combine_of_le_one {terms : List Formula} (h : terms.length ≤ 1) (rounds : Nat) :
    combine vars rounds terms = pure terms := by
  cases rounds with
  | zero => rfl
  | succ rounds =>
    unfold combine
    rw [if_pos h]

theorem ensures_joinTwo_length {terms : List Formula} (h : 1 < terms.length) :
    Ensures (joinTwo vars terms) (·.length + 1 = terms.length) := by
  refine (ensures_shuffle_split h).bind fun shuffled ⟨left, right, rest, hrev, hperm⟩ => ?_
  simp only [hrev]
  refine (ensures_any (join vars left right)).bind fun joined _ => ensures_pure ?_
  rw [← hperm.length_eq]
  simp

theorem Kept.joinTwo (h : Kept vars P) {terms : List Formula} (hlen : 1 < terms.length)
    (hterms : ∀ f ∈ terms, P f) : Ensures (joinTwo vars terms) (∀ f ∈ ·, P f) := by
  refine (ensures_shuffle_split hlen).bind fun shuffled ⟨left, right, rest, hrev, hperm⟩ => ?_
  have hall (f : Formula) (hf : f ∈ left :: right :: rest) := hterms f (hperm.mem_iff.mp hf)
  simp only [hrev]
  refine (h.join (hall left (by simp)) (hall right (by simp))).bind fun joined hjoined => ?_
  refine ensures_pure fun f hf => ?_
  obtain hf | rfl : f ∈ rest ∨ f = joined := by simpa using hf
  · exact hall f (by simp [hf])
  · exact hjoined

theorem Kept.combine (h : Kept vars P) (rounds : Nat) {terms : List Formula}
    (hterms : ∀ f ∈ terms, P f) : Ensures (combine vars rounds terms) (∀ f ∈ ·, P f) := by
  induction rounds generalizing terms with
  | zero => exact ensures_pure hterms
  | succ rounds ih =>
    by_cases hlen : 1 < terms.length
    · rw [combine_succ hlen]
      exact (h.joinTwo hlen hterms).bind fun _ hnext => ih hnext
    · rw [combine_of_le_one (Nat.le_of_not_lt hlen)]
      exact ensures_pure hterms

/-- Each round takes one term away, so that the rounds are enough to leave one. -/
theorem ensures_combine_length {rounds : Nat} {terms : List Formula} (hne : terms ≠ [])
    (h : terms.length ≤ rounds + 1) : Ensures (combine vars rounds terms) (·.length = 1) := by
  induction rounds generalizing terms with
  | zero =>
    have hpos := List.length_pos_iff.mpr hne
    exact ensures_pure (by omega)
  | succ rounds ih =>
    by_cases hlen : 1 < terms.length
    · rw [combine_succ hlen]
      refine (ensures_joinTwo_length hlen).bind fun next hnext => ih ?_ (by omega)
      rintro rfl
      simp at hnext
      omega
    · have hpos := List.length_pos_iff.mpr hne
      rw [combine_of_le_one (Nat.le_of_not_lt hlen)]
      exact ensures_pure (by omega)

theorem combine_of_le {rounds more : Nat} {terms : List Formula} (h : terms.length ≤ rounds + 1)
    (hmore : rounds ≤ more) : combine vars more terms = combine vars rounds terms := by
  induction rounds generalizing terms more with
  | zero => rw [combine_of_le_one h, combine_of_le_one h]
  | succ rounds ih =>
    obtain ⟨more, rfl⟩ : ∃ m, more = m + 1 := ⟨more - 1, by omega⟩
    by_cases hlen : 1 < terms.length
    · rw [combine_succ hlen, combine_succ hlen]
      refine (ensures_joinTwo_length hlen).bind_congr fun next hnext => ?_
      exact ih (by omega) (by omega)
    · rw [combine_of_le_one (Nat.le_of_not_lt hlen), combine_of_le_one (Nat.le_of_not_lt hlen)]

def combinedTerm (c : Settings) (headers : List Header) (h : Header) : Rand Formula := do
  let drawn ← terms c headers (h.params ++ c.quantified)
  let combined ← combine c.quantified drawn.length drawn
  return combined.getLastD (.const true)

theorem rhs_equation (c : Settings) (headers : List Header) (h : Header) (draws : Draws) :
    (equation c headers h draws).1.rhs =
      ((combinedTerm c headers h >>= close c.quantified c.quantified.length) draws).1 :=
  rfl

/-- Whatever the stream, the first of the variables that is free in a term is bound, which takes its
name from the free variables and nothing else; without such a variable the term stays as it is. So
the closing loop is over after exactly one round for each name that is to be bound, and what is free
in its result is what was free and is no name of the variables. Each right-hand side comes in this
way from the term that was joined for it. -/
theorem closing_binds_free_variables (vars : List VarDecl) (f : Formula) (draws : Draws) :
    (∀ before v after, vars = before ++ v :: after → (∀ w ∈ before, w.name ∉ f.freeVars) →
      v.name ∈ f.freeVars → Bounded v f (quantify vars f draws).1 ∧
        ∀ x, x ∈ (quantify vars f draws).1.freeVars ↔ x ∈ f.freeVars ∧ x ≠ v.name) ∧
    ((∀ v ∈ vars, v.name ∉ f.freeVars) → quantify vars f draws = (f, draws)) ∧
    (∀ rounds result, BindsAll vars rounds (f, draws) result ↔
      rounds = (openNames vars f).card ∧ result = close vars vars.length f draws) ∧
    (∀ x, x ∈ (close vars vars.length f draws).1.freeVars ↔
      x ∈ f.freeVars ∧ x ∉ vars.map VarDecl.name) ∧
    ∀ c headers h,
      let term := combinedTerm c headers h draws
      let rhs := (equation c headers h draws).1.rhs
      (∃ rest, BindsAll c.quantified (openNames c.quantified term.1).card term (rhs, rest)) ∧
        ∀ x, x ∈ rhs.freeVars ↔ x ∈ term.1.freeVars ∧ x ∉ c.quantified.map VarDecl.name := by
  have hloop (vars : List VarDecl) (f : Formula) (draws : Draws) :
      BindsAll vars (openNames vars f).card (f, draws) (close vars vars.length f draws) :=
    bindsAll_close ((card_openNames_le vars f).trans List.countP_le_length) draws
  refine ⟨fun before v after hvars hbefore hfree => ?_, fun hclosed => ?_,
    fun rounds result => ⟨fun h => h.unique (hloop vars f draws), ?_⟩,
    (hloop vars f draws).mem_freeVars, fun c headers h => ?_⟩
  · have hfirst := firstFree?_eq_some.mpr ⟨hfree, before, after, hvars, hbefore⟩
    have hbounded := ensures_quantify hfirst draws
    exact ⟨hbounded, hbounded.mem_freeVars⟩
  · rw [quantify_of_closed (firstFree?_eq_none.mpr hclosed)]
    rfl
  · rintro ⟨rfl, rfl⟩
    exact hloop vars f draws
  · intro term rhs
    have hterm := hloop c.quantified term.1 term.2
    have hrhs : rhs = (close c.quantified c.quantified.length term.1 term.2).1 :=
      rhs_equation c headers h draws
    rw [hrhs]
    exact ⟨⟨_, hterm⟩, hterm.mem_freeVars⟩

/-- `((forall k: Nat. (val((k < 3)) => X(k))) && val((l == k)))`, in which `k` is bound and free. -/
def rebindingTerm : Formula :=
  .bin .and (.quant .all ⟨"k", .nat⟩ (.bin .imp (guardOf ⟨"k", .nat⟩) (.inst ⟨"X", [.var "k"]⟩)))
    (.val (.binary .equal (.var "l") (.var "k")))

/-- Two rounds bind `k` once more and then `l`. -/
theorem rebindingTerm_closing :
    "k" ∈ rebindingTerm.freeVars ∧
    Bounded ⟨"k", .nat⟩ rebindingTerm (quantify quantifierPool rebindingTerm ⟨fun _ => 0, 0⟩).1 ∧
    (∀ x, x ∈ (quantify quantifierPool rebindingTerm ⟨fun _ => 0, 0⟩).1.freeVars ↔
      x ∈ rebindingTerm.freeVars ∧ x ≠ "k") ∧
    BindsAll quantifierPool 2 (rebindingTerm, ⟨fun _ => 0, 0⟩)
      (close quantifierPool 2 rebindingTerm ⟨fun _ => 0, 0⟩) := by
  obtain ⟨hfirst, -, hloop, -⟩ :=
    closing_binds_free_variables quantifierPool rebindingTerm ⟨fun _ => 0, 0⟩
  have hk : "k" ∈ rebindingTerm.freeVars := by decide
  obtain ⟨hbounded, hfree⟩ := hfirst [] ⟨"k", .nat⟩ [⟨"l", .nat⟩] rfl (by decide) hk
  have hcount : 2 = (openNames quantifierPool rebindingTerm).card := by decide
  exact ⟨hk, hbounded, hfree, (hloop 2 _).mpr ⟨hcount, rfl⟩⟩

end PbesLab.Sampling
