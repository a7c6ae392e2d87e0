import PbesLab.Proofs.Trial.Action

namespace PbesLab

open PbesLab.Action

variable {τ : Type}

namespace Sampling

def drawsAfter (c : Settings) (draws : Draws) : Nat → Draws
  | 0 => draws
  | n + 1 => (generate c (drawsAfter c draws n)).2

/-- The systems that a stream gives, one after another. -/
def drawn (c : Settings) (draws : Draws) (n : Nat) : EqSystem :=
  (generate c (drawsAfter c draws n)).1

end Sampling

structure Trial where
  system : EqSystem
  name : String
  strategy : Strategy
  result : Except Failure Outcome

namespace Trial

/-- The test ends, and not with different answers. -/
def Passes (t : Trial) : Prop :=
  ∃ outcome, t.result = .ok outcome ∧ ∀ x y, outcome ≠ .mismatch x y

def passed (t : Trial) : Bool :=
  match t.result with
  | .ok outcome => outcome.passed
  | .error _ => false

theorem passed_iff {t : Trial} : t.passed = true ↔ t.Passes := by
  unfold passed Passes
  cases t.result with
  | error e => simp
  | ok outcome =>
    rw [← Bool.not_eq_false, Outcome.passed_eq_false]
    simp

theorem not_passes_of_error {t : Trial} {e : Failure} (h : t.result = .error e) : ¬ t.Passes := by
  rintro ⟨outcome, houtcome, -⟩
  rw [h] at houtcome
  cases houtcome

theorem not_passes_of_mismatch {t : Trial} {x y : Bool} (h : t.result = .ok (.mismatch x y)) :
    ¬ t.Passes := by
  rintro ⟨outcome, houtcome, hne⟩
  rw [h] at houtcome
  exact hne x y (Except.ok.inj houtcome).symm

end Trial

namespace Tools

/-- The tests of a series, each drawn from what the one before has left of the stream. The first
that does not pass is the last. -/
def trials (tools : Tools τ) (plan : Plan) :
    Nat → Nat → Sampling.Draws → Session τ → List Trial
  | 0, _, _, _ => []
  | left + 1, i, draws, st =>
    let drawn := Sampling.generate plan.settings draws
    let ended := tools.test drawn.1 plan.name (plan.strategyAt i) st
    let t : Trial := ⟨drawn.1, plan.name, plan.strategyAt i, ended.1⟩
    t :: if t.passed then tools.trials plan left (i + 1) drawn.2 ended.2 else []

/-- The tests are made in turn, each in the state that the one before it leaves. -/
inductive Makes (tools : Tools τ) : Session τ → List Trial → Session τ → Prop
  | nil (st) : Makes tools st [] st
  | cons {st t st' rest last} (test : tools.test t.system t.name t.strategy st = (t.result, st'))
      (makes : Makes tools st' rest last) : Makes tools st (t :: rest) last

/-- How a series of at most `count` tests closes after those that it has made, which leave `st`. -/
inductive Closes (tools : Tools τ) (plan : Plan) (count : Nat) (st : Session τ) :
    List Trial → Except Failure Unit × Session τ → Prop
  | passed {trials} (length : trials.length = count) (pass : ∀ t ∈ trials, t.Passes) :
      Closes tools plan count st trials (.ok (), st)
  | broken {before t e} (pass : ∀ t ∈ before, t.Passes) (result : t.result = .error e) :
      Closes tools plan count st (before ++ [t]) (.error e, st)
  | mismatch {before t x y} (pass : ∀ t ∈ before, t.Passes)
      (result : t.result = .ok (.mismatch x y)) (plain : plan.minimize = false) :
      Closes tools plan count st (before ++ [t]) (.error (.testFailed (plan.name ++ ".txt")), st)
  | minimized {before t x y q st'} (pass : ∀ t ∈ before, t.Passes)
      (result : t.result = .ok (.mismatch x y)) (minimize : plan.minimize = true)
      (search : tools.minimize t.system plan.name t.strategy st = (.ok q, st')) :
      Closes tools plan count st (before ++ [t]) (.error (.testFailed (plan.name ++ ".txt")), st')
  | abandoned {before t x y e st'} (pass : ∀ t ∈ before, t.Passes)
      (result : t.result = .ok (.mismatch x y)) (minimize : plan.minimize = true)
      (search : tools.minimize t.system plan.name t.strategy st = (.error e, st')) :
      Closes tools plan count st (before ++ [t]) (.error e, st')

section

variable {tools : Tools τ} {plan : Plan} {count : Nat} {st : Session τ} {t : Trial}
  {trials : List Trial} {r : Except Failure Unit × Session τ}

/-- A test that passes in front of all others. -/
theorem Closes.cons (ht : t.Passes) (h : Closes tools plan count st trials r) :
    Closes tools plan (count + 1) st (t :: trials) r := by
  have hbefore {before : List Trial} (pass : ∀ u ∈ before, u.Passes) :
      ∀ u ∈ t :: before, u.Passes := List.forall_mem_cons.mpr ⟨ht, pass⟩
  cases h with
  | passed length pass => exact .passed (congrArg (· + 1) length) (hbefore pass)
  | broken pass result => exact .broken (hbefore pass) result
  | mismatch pass result plain => exact .mismatch (hbefore pass) result plain
  | minimized pass result minimize search => exact .minimized (hbefore pass) result minimize search
  | abandoned pass result minimize search => exact .abandoned (hbefore pass) result minimize search

/-- Only a series that passes as a whole ends without an error. -/
theorem Closes.ok_iff (h : Closes tools plan count st trials r) :
    r.1 = .ok () ↔ trials.length = count ∧ ∀ t ∈ trials, t.Passes := by
  have herror {before : List Trial} {u : Trial} (hu : ¬ u.Passes) :
      ¬ ((before ++ [u]).length = count ∧ ∀ t ∈ before ++ [u], t.Passes) :=
    fun hpass => hu (hpass.2 u List.mem_concat_self)
  cases h with
  | passed length pass => exact iff_of_true rfl ⟨length, pass⟩
  | broken pass result => exact iff_of_false nofun (herror (Trial.not_passes_of_error result))
  | mismatch pass result => exact iff_of_false nofun (herror (Trial.not_passes_of_mismatch result))
  | minimized pass result => exact iff_of_false nofun (herror (Trial.not_passes_of_mismatch result))
  | abandoned pass result => exact iff_of_false nofun (herror (Trial.not_passes_of_mismatch result))

end

variable (tools : Tools τ) (plan : Plan)

/-- After a mismatch the series closes, with a search or without. -/
theorem closes_mismatch (count : Nat) (t : Trial) {x y : Bool} (ht : t.result = .ok (.mismatch x y))
    (st : Session τ) :
    let failed : Action (Session τ) Unit := throw (.testFailed (sourceName plan.name))
    tools.Closes plan count st [t] ((if plan.minimize then do
        let _ ← tools.minimize t.system plan.name t.strategy
        failed
      else failed) st) := by
  intro failed
  have hbefore : ∀ u ∈ ([] : List Trial), u.Passes := List.forall_mem_nil _
  cases hminimize : plan.minimize with
  | false => exact .mismatch hbefore ht hminimize
  | true =>
    rw [if_pos rfl, bind_apply]
    rcases hsearch : tools.minimize t.system plan.name t.strategy st with ⟨e | q, st'⟩
    · exact .abandoned hbefore ht hminimize hsearch
    · exact .minimized hbefore ht hminimize hsearch

/-- The loop makes its tests in turn and closes after them. -/
theorem iterate_closes (left i : Nat) (draws : Sampling.Draws) (st : Session τ) :
    ∃ last, tools.Makes st (tools.trials plan left i draws st) last ∧
      tools.Closes plan left last (tools.trials plan left i draws st)
        (tools.iterate plan left i draws st) := by
  induction left generalizing i draws st with
  | zero => exact ⟨st, .nil st, .passed rfl (List.forall_mem_nil _)⟩
  | succ left ih =>
    unfold iterate trials
    generalize Sampling.generate plan.settings draws = drawn
    obtain ⟨s, draws'⟩ := drawn
    dsimp only
    rw [bind_apply]
    rcases htest : tools.test s plan.name (plan.strategyAt i) st with ⟨e | outcome, st'⟩
    · exact ⟨st', .cons htest (.nil st'), .broken (List.forall_mem_nil _) rfl⟩
    · let t : Trial := ⟨s, plan.name, plan.strategyAt i, .ok outcome⟩
      have ht : t.passed = outcome.passed := rfl
      dsimp only
      rw [ht]
      cases hpassed : outcome.passed with
      | true =>
        obtain ⟨last, hmakes, hcloses⟩ := ih (i + 1) draws' st'
        exact ⟨last, .cons htest hmakes, hcloses.cons (Trial.passed_iff.mp (ht.trans hpassed))⟩
      | false =>
        obtain ⟨x, y, rfl⟩ := Outcome.passed_eq_false.mp hpassed
        rw [if_neg Bool.false_ne_true, if_neg Bool.false_ne_true]
        exact ⟨st', .cons htest (.nil st'), closes_mismatch tools plan (left + 1) t rfl st'⟩

theorem length_trials_le (left i : Nat) (draws : Sampling.Draws) (st : Session τ) :
    (tools.trials plan left i draws st).length ≤ left := by
  induction left generalizing i draws st with
  | zero => exact Nat.le_refl 0
  | succ left ih =>
    unfold trials
    refine Nat.succ_le_succ ?_
    split
    · exact ih _ _ _
    · exact Nat.zero_le left

/-- What is tested is what the stream gives at that point, whatever the tools have answered. -/
theorem trials_drawn (draws : Sampling.Draws) (left i : Nat) (st : Session τ) {n : Nat} {t : Trial}
    (ht : (tools.trials plan left i (Sampling.drawsAfter plan.settings draws i) st)[n]? = some t) :
    t.system = Sampling.drawn plan.settings draws (i + n) ∧ t.name = plan.name ∧
      t.strategy = plan.strategyAt (i + n) := by
  induction left generalizing i st n with
  | zero => cases ht
  | succ left ih =>
    unfold trials at ht
    dsimp only at ht
    cases n with
    | zero =>
      obtain rfl := Option.some.inj ht
      exact ⟨rfl, rfl, rfl⟩
    | succ n =>
      rw [List.getElem?_cons_succ] at ht
      split at ht
      · have hnext := ih (i + 1) _ ht
        rwa [Nat.add_right_comm] at hnext
      · cases ht

end Tools

/-- For all tools, plans and streams: a series tests under the name of its plan, in order, the
systems that the stream gives, whatever the tools answer, with the strategy of the plan or else from
above and from below by turns. It makes its tests one after another in the states that they leave,
and closes after the first that does not pass: with the error of the test, with the error of the
search if there is one, and else with the failed test. Two series on one stream with the same
settings test the same systems as long as both go on. -/
theorem runSeries_tests_in_turn (tools : Tools τ) (keepFiles : Bool) (plan : Plan)
    (draws : Sampling.Draws) (st : Session τ) :
    let done := tools.runSeries keepFiles plan draws st
    let trials := tools.trials plan plan.iterations 0 draws st
    (∃ last result ended, tools.Makes st trials last ∧
      tools.Closes plan plan.iterations last trials (result, ended) ∧
      done = (result, ended.finish keepFiles)) ∧
    (done.1 = .ok () ↔ trials.length = plan.iterations ∧ ∀ t ∈ trials, t.Passes) ∧
    trials.length ≤ plan.iterations ∧
    (∀ i t, trials[i]? = some t →
      t.system = Sampling.drawn plan.settings draws i ∧ t.name = plan.name ∧
        t.strategy = plan.strategy.getD (if i % 2 = 0 then .overApprox else .underApprox)) ∧
    ∀ {τ' : Type} (tools' : Tools τ') (plan' : Plan) (st' : Session τ'),
      plan'.settings = plan.settings →
      ∀ (i : Nat) (t t' : Trial), trials[i]? = some t →
        (tools'.trials plan' plan'.iterations 0 draws st')[i]? = some t' →
        t.system = t'.system := by
  intro done trials
  obtain ⟨last, hmakes, hcloses⟩ := tools.iterate_closes plan plan.iterations 0 draws st
  have hdrawn : ∀ i t, trials[i]? = some t →
      t.system = Sampling.drawn plan.settings draws i ∧ t.name = plan.name ∧
        t.strategy = plan.strategyAt i := by
    intro i t ht
    have h := tools.trials_drawn plan draws plan.iterations 0 st ht
    rwa [Nat.zero_add] at h
  refine ⟨⟨last, _, _, hmakes, hcloses, rfl⟩, hcloses.ok_iff,
    tools.length_trials_le plan _ _ _ _, hdrawn, ?_⟩
  -- the system of a trial is drawn from the stream and the settings, whatever the tools have done
  intro τ' tools' plan' st' hsettings i t t' ht ht'
  have h' := (tools'.trials_drawn plan' draws plan'.iterations 0 st' ht').1
  rw [Nat.zero_add, hsettings] at h'
  rw [(hdrawn i t ht).1, h']

end PbesLab
