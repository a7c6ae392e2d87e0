import PbesLab.Proofs.Shrink.Run

namespace PbesLab.Search

variable {σ ε : Type}

/-- A run that ends well ends with a sweep in which all pass, right after the last failure. -/
theorem Run.last_sweep {s r : EqSystem} {calls : List (Call ε)} (h : Run s calls (.ok r)) :
    ∃ earlier, calls = earlier ++ passing (lighter r) ∧
      (earlier = [] ∧ r = s ∨ ∃ init, earlier = init ++ [⟨r, .ok false⟩]) := by
  generalize hres : Except.ok r = result at h
  induction h with
  | exhausted s =>
    obtain rfl := Except.ok.inj hres
    exact ⟨[], rfl, .inl ⟨rfl, rfl⟩⟩
  | @found s before q after calls result split rest ih =>
    -- this failure is the last one if the rest of the run ends where it starts
    obtain ⟨earlier, rfl, hstart | ⟨init, rfl⟩⟩ := ih hres
    · obtain ⟨rfl, rfl⟩ := hstart
      exact ⟨passing before ++ [⟨r, .ok false⟩], by simp, .inr ⟨_, rfl⟩⟩
    · exact ⟨passing before ++ ⟨q, .ok false⟩ :: (init ++ [⟨r, .ok false⟩]), by simp,
        .inr ⟨passing before ++ ⟨q, .ok false⟩ :: init, by simp⟩⟩
  | broken split => cases hres

/-- The result is the start or the system of a call that failed, and each of its own lighter steps
is the system of a call that passed. -/
theorem calls_of_result {p : Probe σ ε} {m : Search} {st : σ} {r : EqSystem}
    (h : (run p m st).1 = .ok r) :
    (r = m.current ∨ (⟨r, .ok false⟩ : Call ε) ∈ calls p m st) ∧
      ∀ q ∈ lighter r, (⟨q, .ok true⟩ : Call ε) ∈ calls p m st := by
  have hrun := run_calls p m st
  rw [h] at hrun
  obtain ⟨earlier, hcalls, hlast⟩ := hrun.last_sweep
  constructor
  · obtain ⟨-, rfl⟩ | ⟨init, rfl⟩ := hlast
    · exact .inl rfl
    · exact .inr (by simp [hcalls])
  · intro q hq
    rw [hcalls]
    exact List.mem_append_right _ (List.mem_map.mpr ⟨q, hq, rfl⟩)

theorem check_of_mem_calls {p : Probe σ ε} {m : Search} {st : σ} {c : Call ε}
    (hc : c ∈ calls p m st) : c.system.check = .ok () := by
  obtain ⟨before, after, hsplit⟩ := List.append_of_mem hc
  exact (mem_lighter.mp (mem_lighter_of_calls hsplit)).2.1

/-- A run that breaks ends with the call that broke it. -/
theorem Run.broken_call {s : EqSystem} {e : ε} {calls : List (Call ε)}
    (h : Run s calls (.error e)) : ∃ c ∈ calls, c.answer = .error e := by
  generalize hres : Except.error e = result at h
  induction h with
  | exhausted s => cases hres
  | found split rest ih =>
    obtain ⟨c, hc, ha⟩ := ih hres
    exact ⟨c, by simp [hc], ha⟩
  | @broken s before q after e' split =>
    obtain rfl := Except.error.inj hres
    exact ⟨⟨q, .error e⟩, by simp, rfl⟩

theorem run_eq_ok_of_total {p : Probe σ ε} (hp : ∀ q st, ∃ b, (p.passes q st).1 = .ok b)
    (m : Search) (st : σ) : ∃ r, (run p m st).1 = .ok r := by
  cases h : (run p m st).1 with
  | ok r => exact ⟨r, rfl⟩
  | error e =>
    have hrun := run_calls p m st
    rw [h] at hrun
    obtain ⟨c, hc, ha⟩ := hrun.broken_call
    obtain ⟨st', hst'⟩ := answers_of_mem_calls hc
    obtain ⟨b, hb⟩ := hp c.system st'
    rw [hst', ha] at hb
    cases hb

/-- For a pure test the last sweep is a statement about all lighter steps. -/
theorem passes_of_pure {p : Probe σ ε} {passes : EqSystem → Bool} (hp : p.Pure passes)
    {m : Search} {st : σ} {earlier : List (Call ε)} {r q : EqSystem}
    (h : calls p m st = earlier ++ passing (lighter r)) (hq : q ∈ lighter r) :
    passes q = true := by
  have hc : (⟨q, .ok true⟩ : Call ε) ∈ calls p m st := by
    rw [h]
    exact List.mem_append_right _ (List.mem_map.mpr ⟨q, hq, rfl⟩)
  obtain ⟨st', hst'⟩ := answers_of_mem_calls hc
  rw [hp q st'] at hst'
  exact Except.ok.inj hst'

/-- A search with a test that never breaks gives a result. All it tests are well-formed lighter
steps of what is current; the result is the start or the last system that failed, and after that
failure all its own steps are tested once, in order, and pass. -/
theorem run_reaches_minimum (p : Probe σ ε) (hp : ∀ q st, ∃ b, (p.passes q st).1 = .ok b)
    (name : String) (s : EqSystem) (st : σ) :
    ∃ r, (run p (start name s) st).1 = .ok r ∧
      (∀ before c after, calls p (start name s) st = before ++ c :: after →
        c.system ∈ (currentAfter s before).reductions ∧ c.system.check = .ok () ∧
          c.system.weight < (currentAfter s before).weight) ∧
      (∃ earlier, calls p (start name s) st = earlier ++ passing
          (r.reductions.filter fun q => q.check = .ok () ∧ q.weight < r.weight) ∧
        (earlier = [] ∧ r = s ∨ ∃ init, earlier = init ++ [⟨r, .ok false⟩])) ∧
      ∀ passes, p.Pure passes →
        ∀ q ∈ r.reductions, q.check = .ok () → q.weight < r.weight → passes q = true := by
  obtain ⟨r, hr⟩ := run_eq_ok_of_total hp (start name s) st
  have hrun := run_calls p (start name s) st
  rw [hr] at hrun
  obtain ⟨earlier, hcalls, hlast⟩ := hrun.last_sweep
  refine ⟨r, hr, ?_, ⟨earlier, ?_, hlast⟩, ?_⟩
  · intro before c after h
    exact mem_lighter.mp (mem_lighter_of_calls h)
  · rw [← lighter_eq_filter]
    exact hcalls
  · intro passes hpure q hq hcheck hlight
    exact passes_of_pure hpure hcalls (mem_lighter.mpr ⟨hq, hcheck, hlight⟩)

/-- Fails as long as some equation has two nodes, and counts its calls. -/
def twoNodesProbe : Probe Nat Unit where
  passes q n := (.ok (q.equations.all fun e => e.rhs.size < 2), n + 1)
  note _ n := n

theorem twoNodesProbe_reaches_minimum :
    (∀ q n, ∃ b, (twoNodesProbe.passes q n).1 = .ok b) ∧
      ∃ r, (run twoNodesProbe (start "x" ⟨[⟨.mu, "X", [], .neg (.neg (.const true))⟩], ⟨"X", []⟩⟩)
          0).1 = .ok r ∧
        ∀ q ∈ r.reductions, q.check = .ok () → q.weight < r.weight →
          (q.equations.all fun e => e.rhs.size < 2) = true := by
  have hp : ∀ q n, ∃ b, (twoNodesProbe.passes q n).1 = .ok b := fun q n => ⟨_, rfl⟩
  obtain ⟨r, hr, -, -, hmin⟩ := run_reaches_minimum twoNodesProbe hp "x"
    ⟨[⟨.mu, "X", [], .neg (.neg (.const true))⟩], ⟨"X", []⟩⟩ 0
  exact ⟨hp, r, hr, hmin _ fun q n => rfl⟩

end PbesLab.Search
