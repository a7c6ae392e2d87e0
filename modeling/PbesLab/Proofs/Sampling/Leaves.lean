import PbesLab.Proofs.Formula.Leaves
import PbesLab.Proofs.Sampling.Finiteness

namespace PbesLab.Sampling

open scoped List

variable {headers : List Header} {scope : Scope} {vars : List VarDecl} {f g : Formula}

/-- The leaves apart from the guards: under a quantifier, those of the right operand. -/
def ownLeaves : Formula → List Formula
  | .quant _ _ (.bin _ _ f) => ownLeaves f
  | .quant _ _ f | .neg f => ownLeaves f
  | .bin _ l r => ownLeaves l ++ ownLeaves r
  | .const b => [.const b]
  | .val d => [.val d]
  | .inst i => [.inst i]

/-- The connectives apart from those that join a guard. -/
def ownConnectives : Formula → Nat
  | .quant _ _ (.bin _ _ f) => ownConnectives f
  | .quant _ _ f | .neg f => ownConnectives f
  | .bin _ l r => ownConnectives l + ownConnectives r + 1
  | .const _ | .val _ | .inst _ => 0

theorem length_ownLeaves (f : Formula) : (ownLeaves f).length = ownConnectives f + 1 := by
  fun_induction ownLeaves f with
  | case1 q v op l f ih => rw [ih, ownConnectives]
  | case2 q v f hbody ih =>
    rw [ih, ownConnectives]
    exact hbody
  | case3 f ih => rw [ih, ownConnectives]
  | case4 op l r ihl ihr =>
    rw [List.length_append, ihl, ihr, ownConnectives]
    omega
  | case5 b | case6 d | case7 i => rfl

theorem Bounded.ownLeaves {v : VarDecl} (h : Bounded v f g) : ownLeaves g = ownLeaves f := by
  cases h <;> rfl

/-- A quantifier brings its guard and its declaration. -/
theorem Bounded.leaves {v : VarDecl} (h : Bounded v f g) :
    g.leaves = guardOf v :: f.leaves ∧ g.binders = v :: f.binders := by
  cases h <;> exact ⟨rfl, rfl⟩

/-- The leaves are those that are no guards and a guard for each quantifier. -/
def SplitsLeaves (f : Formula) : Prop :=
  f.leaves.Perm (ownLeaves f ++ f.binders.map guardOf)

theorem kept_splitsLeaves (vars : List VarDecl) : Kept vars SplitsLeaves where
  bin op l r hl hr := by
    unfold SplitsLeaves at hl hr ⊢
    rw [Formula.leaves, Sampling.ownLeaves, Formula.binders, List.map_append]
    refine (hl.append hr).trans ?_
    rw [List.append_assoc, List.append_assoc]
    refine .append_left _ ?_
    rw [← List.append_assoc, ← List.append_assoc]
    exact .append_right _ List.perm_append_comm
  neg hf := hf
  bounded {v f g} _ hg hf := by
    obtain ⟨hleaves, hbinders⟩ := hg.leaves
    unfold SplitsLeaves at hf ⊢
    rw [hleaves, hbinders, hg.ownLeaves, List.map_cons]
    exact (hf.cons _).trans List.perm_middle.symm

theorem ensures_quantify_ownLeaves (vars : List VarDecl) (f : Formula) :
    Ensures (quantify vars f) (ownLeaves · = ownLeaves f) := by
  cases hfree : firstFree? vars f with
  | none =>
    rw [quantify_of_closed hfree]
    exact ensures_pure rfl
  | some v => exact (ensures_quantify hfree).mono fun g hg => hg.ownLeaves

theorem ensures_close_ownLeaves (vars : List VarDecl) (rounds : Nat) (f : Formula) :
    Ensures (close vars rounds f) (ownLeaves · = ownLeaves f) := by
  induction rounds generalizing f with
  | zero => exact ensures_pure rfl
  | succ rounds ih =>
    unfold close
    split
    · exact ensures_pure rfl
    · refine (ensures_quantify_ownLeaves vars f).bind fun g hg => ?_
      exact hg ▸ ih g

theorem ensures_join_ownLeaves (vars : List VarDecl) (l r : Formula) :
    Ensures (join vars l r) (ownLeaves · = ownLeaves l ++ ownLeaves r) := by
  refine (ensures_any (below32 3)).bind fun op _ => ?_
  refine (ensures_any (chance .fifth)).bind fun negated _ => ?_
  have hsigned : ownLeaves (if negated then .neg (.bin (connective op) l r)
      else .bin (connective op) l r) = ownLeaves l ++ ownLeaves r := by
    split <;> rfl
  refine (ensures_any (chance .threeTenths)).bind fun quantified _ => ?_
  rw [← hsigned]
  cases quantified with
  | false => exact ensures_pure rfl
  | true => exact ensures_quantify_ownLeaves vars _

/-- A round exchanges two terms for one with the leaves of both. -/
theorem ensures_joinTwo_ownLeaves {terms : List Formula} (h : 1 < terms.length) :
    Ensures (joinTwo vars terms)
      fun next => (next.flatMap ownLeaves).Perm (terms.flatMap ownLeaves) := by
  refine (ensures_shuffle_split h).bind fun shuffled ⟨left, right, rest, hrev, hperm⟩ => ?_
  simp only [hrev]
  refine (ensures_join_ownLeaves vars left right).bind fun joined hjoined => ensures_pure ?_
  calc (rest.reverse ++ [joined]).flatMap ownLeaves
      = rest.reverse.flatMap ownLeaves ++ (ownLeaves left ++ ownLeaves right) := by
        rw [List.flatMap_append, List.flatMap_singleton, hjoined]
    _ ~ rest.flatMap ownLeaves ++ (ownLeaves left ++ ownLeaves right) :=
        (rest.reverse_perm.flatMap_right _).append_right _
    _ ~ ownLeaves left ++ ownLeaves right ++ rest.flatMap ownLeaves := List.perm_append_comm
    _ = (left :: right :: rest).flatMap ownLeaves := by
        rw [List.flatMap_cons, List.flatMap_cons, List.append_assoc]
    _ ~ terms.flatMap ownLeaves := hperm.flatMap_right _

theorem ensures_combine_ownLeaves (vars : List VarDecl) (rounds : Nat) (terms : List Formula) :
    Ensures (combine vars rounds terms)
      fun out => (out.flatMap ownLeaves).Perm (terms.flatMap ownLeaves) := by
  induction rounds generalizing terms with
  | zero => exact ensures_pure (.refl _)
  | succ rounds ih =>
    by_cases hlen : 1 < terms.length
    · rw [combine_succ hlen]
      refine (ensures_joinTwo_ownLeaves hlen).bind fun next hnext => ?_
      exact (ih next).mono fun out hout => hout.trans hnext
    · rw [combine_of_le_one (Nat.le_of_not_lt hlen)]
      exact ensures_pure (.refl _)

/-- Data where there is a variable in scope, and else a truth value. -/
inductive IsAtom (scope : Scope) : Formula → Prop
  | truth (b : Bool) (hscope : scope = []) : IsAtom scope (.const b)
  | data (d : DataExpr) (hscope : scope ≠ []) : IsAtom scope (.val d)

/-- So many atoms and so many instances, or a single truth value where neither are asked for. -/
inductive IsDraw (c : Settings) (scope : Scope) : List Formula → Prop
  | terms {atoms : List Formula} {instances : List Instance} (hsome : 0 < c.atoms + c.instances)
      (hatoms : atoms.length = c.atoms) (hshape : ∀ f ∈ atoms, IsAtom scope f)
      (hinstances : instances.length = c.instances) :
      IsDraw c scope (atoms ++ instances.map .inst)
  | truth (b : Bool) (hnone : c.atoms + c.instances = 0) : IsDraw c scope [.const b]

theorem ensures_atom_isAtom (scope : Scope) : Ensures (atom scope) (IsAtom scope) := by
  unfold atom
  refine (ensures_choose? scope).bind fun o ho => ?_
  match o, ho with
  | none, ho => exact ensures_truth_const.mono fun f ⟨b, hf⟩ => hf ▸ .truth b (ho.1.mp rfl)
  | some ⟨x, .bool⟩, ho => exact ensures_pure (.data _ (List.ne_nil_of_mem (ho.2 _ rfl)))
  | some ⟨x, .nat⟩, ho =>
    refine (ensures_any (constant .nat)).bind fun d _ => ?_
    refine (ensures_any (below32 3)).bind fun i _ => ?_
    exact ensures_pure (.data _ (List.ne_nil_of_mem (ho.2 _ rfl)))

theorem ensures_randomInstance_inst (hheaders : headers ≠ []) :
    Ensures (randomInstance headers scope) fun f => ∃ i, f = .inst i := by
  unfold randomInstance
  refine (ensures_below64 (List.length_pos_iff.mpr hheaders)).bind fun i hi => ?_
  rw [List.getElem?_eq_getElem hi]
  exact (ensures_any _).bind fun args _ => ensures_pure ⟨_, rfl⟩

theorem ensures_mapM_replicate {α : Type} {r : Rand α} {P : α → Prop} (h : Ensures r P) (n : Nat) :
    Ensures ((List.replicate n ()).mapM fun _ => r) fun xs => xs.length = n ∧ ∀ x ∈ xs, P x := by
  refine (ensures_mapM (R := fun _ => P) fun _ _ => h).mono fun xs hxs => ⟨?_, fun x hx => ?_⟩
  · rw [← hxs.length_eq, List.length_replicate]
  · obtain ⟨_, -, hP⟩ := exists_of_forall₂ hxs.flip hx
    exact hP

theorem exists_map_inst {fs : List Formula} (h : ∀ f ∈ fs, ∃ i, f = .inst i) :
    ∃ instances : List Instance, fs = instances.map .inst := by
  obtain ⟨instances, hall⟩ := exists_forall₂ h
  exact ⟨instances, eq_map_of_forall₂ hall⟩

theorem ensures_terms_isDraw (c : Settings) (hheaders : headers ≠ []) (scope : Scope) :
    Ensures (terms c headers scope) (IsDraw c scope) := by
  unfold terms
  refine (ensures_mapM_replicate (ensures_atom_isAtom scope) _).bind
    fun atoms ⟨hatoms, hshape⟩ => ?_
  refine (ensures_mapM_replicate (ensures_randomInstance_inst hheaders) _).bind
    fun drawn ⟨hdrawn, hinst⟩ => ?_
  obtain ⟨instances, rfl⟩ := exists_map_inst hinst
  rw [List.length_map] at hdrawn
  have hlength : (atoms ++ instances.map Formula.inst).length = c.atoms + c.instances := by
    rw [List.length_append, List.length_map, hatoms, hdrawn]
  dsimp only
  split
  · next hempty =>
    rw [List.isEmpty_iff.mp hempty] at hlength
    exact ensures_truth_const.bind fun f ⟨b, hf⟩ => ensures_pure (hf ▸ .truth b hlength.symm)
  · next hempty =>
    refine ensures_pure (.terms ?_ hatoms hshape hdrawn)
    rw [← hlength]
    exact List.length_pos_iff.mpr fun hnil => hempty (List.isEmpty_iff.mpr hnil)

theorem IsAtom.leaf (h : IsAtom scope f) : f.children = [] := by
  cases h <;> rfl

theorem ownLeaves_leaf (h : f.children = []) : ownLeaves f = [f] := by
  cases f with
  | const b | val d | inst i => rfl
  | neg f | bin op l r | quant q v f => cases h

theorem splitsLeaves_leaf (h : f.children = []) : SplitsLeaves f := by
  cases f with
  | const b | val d | inst i => exact .refl _
  | neg f | bin op l r | quant q v f => cases h

section

variable {c : Settings} {drawn : List Formula}

theorem IsDraw.leaf (h : IsDraw c scope drawn) : ∀ f ∈ drawn, f.children = [] := by
  cases h with
  | truth b hnone => exact List.forall_mem_singleton.mpr rfl
  | terms hsome hatoms hshape hinstances =>
    intro f hf
    obtain hf | hf := List.mem_append.mp hf
    · exact (hshape f hf).leaf
    · obtain ⟨i, -, rfl⟩ := List.mem_map.mp hf
      rfl

theorem IsDraw.flatMap_ownLeaves (h : IsDraw c scope drawn) :
    drawn.flatMap ownLeaves = drawn := by
  rw [List.flatMap_congr fun f hf => ownLeaves_leaf (h.leaf f hf), List.flatMap_singleton']

theorem IsDraw.length_instances (h : IsDraw c scope drawn) :
    (drawn.filterMap Formula.instance?).length = c.instances := by
  cases h with
  | truth b hnone =>
    change 0 = c.instances
    omega
  | @terms atoms instances hsome hatoms hshape hinstances =>
    have hnone : atoms.filterMap Formula.instance? = [] := by
      refine List.filterMap_eq_nil_iff.mpr fun f hf => ?_
      cases hshape f hf <;> rfl
    have hall : (instances.map Formula.inst).filterMap Formula.instance? = instances := by
      rw [List.filterMap_map]
      exact List.filterMap_some
    rw [List.filterMap_append, hnone, hall, List.nil_append, hinstances]

theorem IsDraw.length_others (h : IsDraw c scope drawn) :
    (drawn.filter (·.instance?.isNone)).length =
      if c.atoms + c.instances = 0 then 1 else c.atoms := by
  cases h with
  | truth b hnone =>
    rw [if_pos hnone]
    rfl
  | @terms atoms instances hsome hatoms hshape hinstances =>
    have hall : atoms.filter (·.instance?.isNone) = atoms := by
      refine List.filter_eq_self.mpr fun f hf => ?_
      cases hshape f hf <;> rfl
    have hnone : (instances.map Formula.inst).filter (·.instance?.isNone) = [] := by
      refine List.filter_eq_nil_iff.mpr fun f hf => ?_
      obtain ⟨i, -, rfl⟩ := List.mem_map.mp hf
      exact Bool.false_ne_true
    rw [if_neg (Nat.ne_of_gt hsome), List.filter_append, hall, hnone, List.append_nil, hatoms]

/-- Where there is a variable in scope, all that is drawn are data and instances. -/
theorem IsDraw.data (h : IsDraw c scope drawn) (hsome : 0 < c.atoms + c.instances)
    (hscope : scope ≠ []) : ∀ f ∈ drawn, (∃ i, f = .inst i) ∨ ∃ d, f = .val d := by
  cases h with
  | truth b hnone => omega
  | terms _ hatoms hshape hinstances =>
    intro f hf
    obtain hf | hf := List.mem_append.mp hf
    · cases hshape f hf with
      | truth b hnil => exact absurd hnil hscope
      | data d _ => exact .inr ⟨d, rfl⟩
    · obtain ⟨i, -, rfl⟩ := List.mem_map.mp hf
      exact .inl ⟨i, rfl⟩

end

theorem ensures_terms_ne_nil (c : Settings) (headers : List Header) (scope : Scope) :
    Ensures (terms c headers scope) (· ≠ []) := by
  unfold terms
  refine (ensures_any _).bind fun atoms _ => (ensures_any _).bind fun instances _ => ?_
  dsimp only
  split
  · exact (ensures_any truth).bind fun f _ => ensures_pure (List.cons_ne_nil _ _)
  · next hempty => exact ensures_pure fun hnil => hempty (List.isEmpty_iff.mpr hnil)

/-- The right-hand side has the leaves that were drawn and guards, and its quantifiers are the
guarded ones. -/
structure MadeOf (c : Settings) (drawn : List Formula) (f : Formula) : Prop where
  own : ownLeaves f ~ drawn
  splits : SplitsLeaves f
  guarded : Guarded c.quantified f

/-- What joining and binding make of the drawn terms. -/
theorem ensures_close_combine {c : Settings} {drawn : List Formula}
    (hdraw : IsDraw c scope drawn) (hne : drawn ≠ []) : Ensures (do
      let combined ← combine c.quantified drawn.length drawn
      close c.quantified c.quantified.length (combined.getLastD (.const true)))
    (MadeOf c drawn) := by
  have hlength : Ensures (combine c.quantified drawn.length drawn) (·.length = 1) :=
    ensures_combine_length hne (Nat.le_succ _)
  have hleaves := ensures_combine_ownLeaves c.quantified drawn.length drawn
  have hsplits := (kept_splitsLeaves c.quantified).combine drawn.length
    fun f hf => splitsLeaves_leaf (hdraw.leaf f hf)
  have hguarded := (kept_guarded c.quantified).combine drawn.length
    fun f hf => guarded_leaf (hdraw.leaf f hf)
  refine (hlength.and (hleaves.and (hsplits.and hguarded))).bind fun combined hcombined => ?_
  obtain ⟨hone, hleaves, hsplits, hguarded⟩ := hcombined
  -- one term is left, which has the leaves of all
  obtain ⟨f, rfl⟩ := List.length_eq_one_iff.mp hone
  rw [List.flatMap_singleton, hdraw.flatMap_ownLeaves] at hleaves
  have hclose := (ensures_close_ownLeaves c.quantified c.quantified.length f).and
    (((kept_splitsLeaves _).close _ (hsplits f List.mem_cons_self)).and
      ((kept_guarded _).close _ (hguarded f List.mem_cons_self)))
  exact hclose.mono fun g ⟨hown, hsplits, hguarded⟩ => ⟨hown ▸ hleaves, hsplits, hguarded⟩

section

variable {c : Settings} {drawn : List Formula}

theorem MadeOf.leaves (h : MadeOf c drawn f) : f.leaves ~ drawn ++ f.binders.map guardOf :=
  h.splits.trans (h.own.append_right _)

theorem MadeOf.length_instances (h : MadeOf c drawn f) (hdraw : IsDraw c scope drawn) :
    f.instances.length = c.instances := by
  have hguards : (f.binders.map guardOf).filterMap Formula.instance? = [] := by
    refine List.filterMap_eq_nil_iff.mpr fun g hg => ?_
    obtain ⟨v, -, rfl⟩ := List.mem_map.mp hg
    rfl
  rw [← f.filterMap_instance?_leaves, (h.leaves.filterMap _).length_eq, List.filterMap_append,
    hguards, List.append_nil, hdraw.length_instances]

theorem MadeOf.length_others (h : MadeOf c drawn f) (hdraw : IsDraw c scope drawn) :
    ((ownLeaves f).filter (·.instance?.isNone)).length =
      if c.atoms + c.instances = 0 then 1 else c.atoms := by
  rw [(h.own.filter _).length_eq, hdraw.length_others]

end

theorem scope_ne_nil {c : Settings} {params : List VarDecl}
    (h : params ≠ [] ∨ c.quantifiers = true) : params ++ c.quantified ≠ [] := by
  obtain h | h := h
  · exact List.append_ne_nil_of_left_ne_nil h _
  · refine List.append_ne_nil_of_right_ne_nil _ ?_
    rw [Settings.quantified, if_pos h]
    exact List.cons_ne_nil _ _

/-- What an equation is made of is drawn first. -/
theorem equation_madeOf (c : Settings) (hheaders : headers ≠ []) (h : Header) (draws : Draws) :
    IsDraw c (h.params ++ c.quantified) (terms c headers (h.params ++ c.quantified) draws).1 ∧
      MadeOf c (terms c headers (h.params ++ c.quantified) draws).1
        (equation c headers h draws).1.rhs := by
  have hdraw := ensures_terms_isDraw c hheaders (h.params ++ c.quantified) draws
  have hne := ensures_terms_ne_nil c headers (h.params ++ c.quantified) draws
  exact ⟨hdraw, ensures_close_combine hdraw hne _⟩

/-- The loop that takes two terms off the end, with a stand-in for each that is missing. -/
def combineOr (left right : Formula) (vars : List VarDecl) :
    Nat → List Formula → Rand (List Formula)
  | 0, terms => return terms
  | rounds + 1, terms => do
    if terms.length ≤ 1 then return terms
    let shuffled ← shuffle terms
    let joined ← join vars (shuffled.getLastD left) (shuffled.dropLast.getLastD right)
    combineOr left right vars rounds (shuffled.dropLast.dropLast ++ [joined])

/-- An equation as it is built where terms may be missing. -/
def equationOr (left right last : Formula) (c : Settings) (headers : List Header) (h : Header) :
    Rand Equation := do
  let vars := c.quantified
  let drawn ← terms c headers (h.params ++ vars)
  let combined ← combineOr left right vars drawn.length drawn
  let rhs ← close vars vars.length (combined.getLastD last)
  let fix := if ← flip then Fixpoint.mu else .nu
  return ⟨fix, h.name, h.params, rhs⟩

theorem combineOr_eq (left right : Formula) (rounds : Nat) (terms : List Formula) :
    combineOr left right vars rounds terms = combine vars rounds terms := by
  induction rounds generalizing terms with
  | zero => rfl
  | succ rounds ih =>
    unfold combineOr combine
    by_cases hlen : terms.length ≤ 1
    · rw [if_pos hlen, if_pos hlen]
    · rw [if_neg hlen, if_neg hlen]
      refine (ensures_shuffle_split (Nat.lt_of_not_le hlen)).bind_congr fun shuffled hsplit => ?_
      obtain ⟨l, r, rest, hrev, -⟩ := hsplit
      obtain rfl : shuffled = rest.reverse ++ [r] ++ [l] := by
        rw [← List.reverse_reverse shuffled, hrev]
        simp
      simp only [List.getLastD_concat, List.dropLast_concat, ih, List.reverse_append,
        List.reverse_cons, List.reverse_nil, List.nil_append, List.singleton_append,
        List.reverse_reverse]

/-- No stand-in is ever used. -/
theorem equationOr_eq (left right last : Formula) (c : Settings) (headers : List Header)
    (h : Header) : equationOr left right last c headers h = equation c headers h := by
  unfold equationOr equation
  refine (ensures_terms_ne_nil c headers _).bind_congr fun drawn hne => ?_
  rw [combineOr_eq]
  refine (ensures_combine_length hne (Nat.le_succ _)).bind_congr fun combined hone => ?_
  obtain ⟨f, rfl⟩ := List.length_eq_one_iff.mp hone
  rfl

def drawHeaders (c : Settings) : Rand (List Header) :=
  (List.range (max c.equations 1)).mapM fun i => return ⟨equationName i, ← parameters⟩

/-- What is left of the stream when it is an equation's turn. -/
def drawsAt (c : Settings) (draws : Draws) (i : Nat) : Draws :=
  let (headers, draws) := drawHeaders c draws
  ((headers.take i).mapM (equation c headers) draws).2

theorem getElem?_mapM {α β : Type} (f : α → Rand β) (xs : List α) (draws : Draws) (i : Nat) :
    (xs.mapM f draws).1[i]? = xs[i]?.map fun x => (f x ((xs.take i).mapM f draws).2).1 := by
  induction xs generalizing draws i with
  | nil => rfl
  | cons x xs ih =>
    rw [List.mapM_cons]
    cases i with
    | zero => rfl
    | succ i =>
      rw [List.take_succ_cons, List.mapM_cons]
      exact ih (f x draws).2 i

theorem getElem?_generate (c : Settings) (draws : Draws) (i : Nat) :
    (generate c draws).1.equations[i]? = (drawHeaders c draws).1[i]?.map fun h =>
      (equation c (drawHeaders c draws).1 h (drawsAt c draws i)).1 :=
  getElem?_mapM _ _ _ i

theorem drawHeaders_ne_nil (c : Settings) (draws : Draws) : (drawHeaders c draws).1 ≠ [] := by
  obtain ⟨first, rest, h⟩ := (ensures_headers (max c.equations 1) draws).exists_first (by omega)
  exact h ▸ List.cons_ne_nil _ _

/-- Building a right-hand side loses and doubles nothing: its leaves are the terms that were drawn
for its equation and a guard for each quantifier. No stand-in for a missing term is ever used. -/
theorem generate_keeps_terms (c : Settings) (draws : Draws) :
    (∀ i e, (generate c draws).1.equations[i]? = some e →
      let headers := (drawHeaders c draws).1
      let scope := e.params ++ c.quantified
      let drawn := (terms c headers scope (drawsAt c draws i)).1
      e = (equation c headers ⟨e.name, e.params⟩ (drawsAt c draws i)).1 ∧
      IsDraw c scope drawn ∧
      ownLeaves e.rhs ~ drawn ∧
      e.rhs.leaves ~ drawn ++ e.rhs.binders.map guardOf ∧
      Guarded c.quantified e.rhs ∧
      e.rhs.instances.length = c.instances ∧
      ((ownLeaves e.rhs).filter (·.instance?.isNone)).length =
        (if c.atoms + c.instances = 0 then 1 else c.atoms) ∧
      (0 < c.atoms + c.instances → e.params ≠ [] ∨ c.quantifiers = true →
        ∀ f ∈ ownLeaves e.rhs, (∃ i, f = .inst i) ∨ ∃ d, f = .val d) ∧
      ownConnectives e.rhs + 1 = (ownLeaves e.rhs).length) ∧
    ∀ left right last headers h,
      equationOr left right last c headers h = equation c headers h := by
  refine ⟨fun i e he => ?_, fun left right last headers h =>
    equationOr_eq left right last c headers h⟩
  rw [getElem?_generate, Option.map_eq_some_iff] at he
  obtain ⟨h, hh, rfl⟩ := he
  obtain ⟨hdraw, hmade⟩ := equation_madeOf c (drawHeaders_ne_nil c draws) h (drawsAt c draws i)
  refine ⟨rfl, hdraw, hmade.own, hmade.leaves, hmade.guarded, hmade.length_instances hdraw,
    hmade.length_others hdraw, fun hsome hscope f hf => ?_, (length_ownLeaves _).symm⟩
  exact hdraw.data hsome (scope_ne_nil hscope) f (hmade.own.mem_iff.mp hf)

end PbesLab.Sampling
