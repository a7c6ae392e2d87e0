import PbesLab.Proofs.Grammar.Depth
import Mathlib.Order.Filter.AtTopBot.Basic

namespace PbesLab.Grammar

open Filter

variable {ρ : Type} {g : Rules ρ}

/-- From some depth on, the pattern gives this answer on the text. -/
def Settles (g : Rules ρ) (atomic : Bool) (p : Pattern ρ) (cs : List Char) (res : Result ρ) :
    Prop :=
  ∀ᶠ depth in atTop, matchPattern g (matchRule g depth) atomic p cs = res

namespace Settles

variable {atomic : Bool} {p q : Pattern ρ} {cs mid rest : List Char} {xs ys : List (Tree ρ)}
  {res : Result ρ}

theorem rule {r : ρ} (h : Settles g (atomic || g.atomic r) (g.body r) cs res) :
    Settles g atomic (.rule r) cs (res.andThen fun parts rest =>
      .matched (if atomic then Tree.leaves (Tree.textOf parts) else [.node r parts]) rest) := by
  obtain ⟨n, hn⟩ := eventually_atTop.mp h
  refine eventually_atTop.mpr ⟨n + 1, fun depth hd => ?_⟩
  obtain ⟨k, rfl⟩ : ∃ k, depth = k + 1 := ⟨depth - 1, by omega⟩
  change matchRule g (k + 1) atomic r cs = _
  rw [matchRule, hn k (by omega)]

theorem rule_matched {r : ρ} (h : Settles g (g.atomic r) (g.body r) cs (.matched xs rest)) :
    Settles g false (.rule r) cs (.matched [.node r xs] rest) := by
  have hbody : Settles g (false || g.atomic r) (g.body r) cs (.matched xs rest) := h
  exact rule hbody

theorem rule_failed {r : ρ} (h : Settles g (atomic || g.atomic r) (g.body r) cs .failed) :
    Settles g atomic (.rule r) cs .failed :=
  rule h

theorem finish : Settles g atomic .finish [] (.matched [] []) :=
  .of_forall fun _ => rfl

theorem empty : Settles g atomic .empty cs (.matched [] cs) :=
  .of_forall fun _ => rfl

theorem literal {t : List Char} :
    Settles g atomic (.literal t) (t ++ cs) (.matched (Tree.leaves t) cs) := by
  have h : dropText? t (t ++ cs) = some cs := dropText?_eq_some.mpr rfl
  exact .of_forall fun _ => by simp only [matchPattern, h]

theorem literal_failed {t : List Char} (h : ¬ t <+: cs) :
    Settles g atomic (.literal t) cs .failed := by
  have hnone : dropText? t cs = none := by
    rw [Option.eq_none_iff_forall_ne_some]
    intro rest hrest
    exact h ⟨rest, (dropText?_eq_some.mp hrest).symm⟩
  exact .of_forall fun _ => by simp only [matchPattern, hnone]

theorem oneOf {test : Char → Bool} {c : Char} (h : test c) :
    Settles g atomic (.oneOf test) (c :: cs) (.matched [.leaf c] cs) :=
  .of_forall fun _ => by simp only [matchPattern, h, if_true]

theorem oneOf_failed {test : Char → Bool} (h : ∀ c ∈ cs.head?, test c = false) :
    Settles g atomic (.oneOf test) cs .failed := by
  cases cs with
  | nil => exact .of_forall fun _ => rfl
  | cons c cs =>
    have hc := h c rfl
    exact .of_forall fun _ => by simp [matchPattern, hc]

theorem seq (hp : Settles g atomic p cs (.matched xs mid))
    (hq : Settles g atomic q (gap g atomic mid).2 res) :
    Settles g atomic (.seq p q) cs (res.prepend (xs ++ Tree.leaves (gap g atomic mid).1)) := by
  filter_upwards [hp, hq] with depth hp hq
  rw [matchPattern_seq, hp]
  simp only [Result.andThen, hq]

theorem seq_failed (hp : Settles g atomic p cs .failed) :
    Settles g atomic (.seq p q) cs .failed := by
  filter_upwards [hp] with depth hp
  rw [matchPattern_seq, hp]
  rfl

theorem choice_left (hp : Settles g atomic p cs (.matched xs rest)) :
    Settles g atomic (.choice p q) cs (.matched xs rest) := by
  filter_upwards [hp] with depth hp
  simp only [matchPattern, hp]

theorem choice_right (hp : Settles g atomic p cs .failed) (hq : Settles g atomic q cs res) :
    Settles g atomic (.choice p q) cs res := by
  filter_upwards [hp, hq] with depth hp hq
  simp only [matchPattern, hp, hq]

theorem opt_some (hp : Settles g atomic p cs (.matched xs rest)) :
    Settles g atomic (.opt p) cs (.matched xs rest) := by
  filter_upwards [hp] with depth hp
  simp only [matchPattern, hp]

theorem opt_none (hp : Settles g atomic p cs .failed) :
    Settles g atomic (.opt p) cs (.matched [] cs) := by
  filter_upwards [hp] with depth hp
  simp only [matchPattern, hp]

theorem many_nil (hp : Settles g atomic p cs .failed) :
    Settles g atomic (.many p) cs (.matched [] cs) := by
  filter_upwards [hp] with depth hp
  simp only [matchPattern, hp]

theorem ahead (hp : Settles g atomic p cs (.matched xs rest)) :
    Settles g atomic (.ahead p) cs (.matched [] cs) := by
  filter_upwards [hp] with depth hp
  simp only [matchPattern, hp, Result.andThen]

theorem notAhead (hp : Settles g atomic p cs .failed) :
    Settles g atomic (.notAhead p) cs (.matched [] cs) := by
  filter_upwards [hp] with depth hp
  simp only [matchPattern, hp]

theorem notAhead_failed (hp : Settles g atomic p cs (.matched xs rest)) :
    Settles g atomic (.notAhead p) cs .failed := by
  filter_upwards [hp] with depth hp
  simp only [matchPattern, hp]

end Settles

/-- Further matches of a pattern, each after a gap and each of at least one character, up to the
first that fails. The gap before that one is given back. -/
inductive Repeats (g : Rules ρ) (atomic : Bool) (p : Pattern ρ) :
    List Char → List (Tree ρ) → List Char → Prop
  | stop {cs} (h : Settles g atomic p (gap g atomic cs).2 .failed) : Repeats g atomic p cs [] cs
  | step {cs mid rest xs ys} (h : Settles g atomic p (gap g atomic cs).2 (.matched xs mid))
      (shorter : mid.length < cs.length) (more : Repeats g atomic p mid ys rest) :
      Repeats g atomic p cs (Tree.leaves (gap g atomic cs).1 ++ xs ++ ys) rest

theorem Repeats.repeatStep {atomic : Bool} {p : Pattern ρ} {cs rest allowance : List Char}
    {xs : List (Tree ρ)} (h : Repeats g atomic p cs xs rest) (ha : cs.length ≤ allowance.length) :
    ∀ᶠ depth in atTop, repeatStep (gap g atomic) (matchPattern g (matchRule g depth) atomic p)
      allowance cs = .matched xs rest := by
  induction h generalizing allowance with
  | stop h =>
    cases allowance with
    | nil => exact .of_forall fun _ => rfl
    | cons a allowance =>
      filter_upwards [h] with depth h
      rw [repeatStep_cons, h]
  | @step cs mid rest xs ys h shorter more ih =>
    cases allowance with
    | nil =>
      simp only [List.length_nil] at ha
      omega
    | cons a allowance =>
      simp only [List.length_cons] at ha
      have hrest := ih (show mid.length ≤ allowance.length by omega)
      filter_upwards [h, hrest] with depth h hrest
      rw [repeatStep_cons, h]
      simp only [hrest, Result.prepend]

theorem Settles.many_cons {atomic : Bool} {p : Pattern ρ} {cs mid rest : List Char}
    {xs ys : List (Tree ρ)} (hp : Settles g atomic p cs (.matched xs mid))
    (hmore : Repeats g atomic p mid ys rest) :
    Settles g atomic (.many p) cs (.matched (xs ++ ys) rest) := by
  filter_upwards [hp, hmore.repeatStep (Nat.le_refl _)] with depth hp hmore
  simp only [matchPattern, hp, Result.andThen, hmore, Result.prepend]

theorem Settles.length_lt (hg : ∀ cs, (g.layout cs).1 ++ (g.layout cs).2 = cs) (R : Ranking g)
    {atomic : Bool} {p : Pattern ρ} (hp : p.consumes R.reads) {cs rest : List Char}
    {parts : List (Tree ρ)} (h : Settles g atomic p cs (.matched parts rest)) :
    rest.length < cs.length := by
  obtain ⟨n, hn⟩ := eventually_atTop.mp h
  have hwithin : Within (matchRule g n) := fun _ _ _ _ _ => matchRule_lossless hg
  exact length_lt_of_consumes hg hwithin (fun _ _ _ _ _ hr h => R.length_lt hg hr h) hp
    (hn n (Nat.le_refl _))

theorem exists_node_of_settles {r : ρ} {cs rest : List Char} {parts : List (Tree ρ)}
    (h : Settles g false (.rule r) cs (.matched parts rest)) : ∃ xs, parts = [.node r xs] := by
  obtain ⟨n, hn⟩ := eventually_atTop.mp h
  exact exists_node_of_matchRule (hn n (Nat.le_refl _))

/-- In a ranked grammar a rule is read from a text as it settles. -/
theorem read?_eq_some_of_settles (hg : ∀ cs, (g.layout cs).1 ++ (g.layout cs).2 = cs)
    (R : Ranking g) {r : ρ} {t : Tree ρ} {ts : List (Tree ρ)} {cs rest : List Char}
    (h : Settles g false (.rule r) cs (.matched (t :: ts) rest)) : read? g r cs = some t := by
  obtain ⟨n, hn⟩ := eventually_atTop.mp h
  have hne := R.matchRule_depthFor_ne_starved hg r cs
  have hdeep := hn (max n (depthFor cs)) (le_max_left _ _)
  rw [matchPattern, matchRule_of_le (le_max_right _ _) hne] at hdeep
  rw [read?, hdeep]

end PbesLab.Grammar
