import PbesLab.Proofs.Lists
import PbesLab.Proofs.Shrink.Run
import PbesLab.Proofs.Shrink.Weight
import Mathlib.Algebra.BigOperators.Ring.List

namespace PbesLab

variable {σ ε α β : Type}

def Call.fails (c : Call ε) : Bool :=
  match c.answer with
  | .ok false => true
  | _ => false

theorem Formula.length_reductions_le (f : Formula) : f.reductions.length ≤ 4 := by
  have hparts : f.parts.length ≤ 2 := by
    cases f with
    | quant q v f => by_cases hv : v.name ∈ f.freeVars <;> simp [parts, hv]
    | _ => simp [parts]
  apply (List.length_filter_le _ _).trans
  rw [List.length_append]
  exact Nat.add_le_add_left hparts 2

theorem Formula.length_reducts_le (f : Formula) : f.reducts.length ≤ 4 * f.size := by
  unfold reducts
  nth_rewrite 2 [← List.length_range (n := f.size)]
  apply length_flatMap_le
  intro i _
  split
  · next t _ =>
    rw [List.length_map]
    exact t.length_reductions_le
  · exact Nat.zero_le _

theorem length_changeOne (changes : α → List α) (xs : List α) :
    (changeOne changes xs).length = (xs.map fun x => (changes x).length).sum := by
  induction xs with
  | nil => rfl
  | cons x xs ih => simp [changeOne, ih]

theorem EqSystem.length_removals_le (s : EqSystem) :
    s.removals.length ≤ 2 * s.equations.length := by
  have hle : s.removals.length ≤ 2 * (s.equations.filter (·.name ≠ s.init.name)).length :=
    length_flatMap_le fun _ _ => Nat.le_refl 2
  exact hle.trans (Nat.mul_le_mul_left 2 (List.length_filter_le _ _))

/-- A system has at most four steps for each node and each equation. -/
theorem EqSystem.length_reductions_le (s : EqSystem) : s.reductions.length ≤ 4 * s.size := by
  have hremovals := s.length_removals_le
  have hreducts : s.reducts.length ≤ 4 * (s.equations.map fun e => e.rhs.size).sum := by
    rw [reducts, List.length_map, length_changeOne, ← List.sum_map_mul_left]
    apply List.sum_le_sum
    intro e _
    rw [List.length_map]
    exact e.rhs.length_reducts_le
  have hsize : s.size = s.equations.length + (s.equations.map fun e => e.rhs.size).sum := by
    rw [size_eq_sum, List.sum_map_add, List.map_const', List.sum_replicate, Nat.nsmul_eq_mul,
      mul_one]
  rw [reductions, List.length_append]
  omega

theorem Call.next_of_fails {s : EqSystem} {c : Call ε} (h : c.fails) : c.next s = c.system := by
  have hanswer : c.answer = .ok false := by
    unfold Call.fails at h
    split at h
    · assumption
    · cases h
  unfold Call.next
  rw [hanswer]

namespace Search

theorem sum_lt_of_mem_lighter {s q : EqSystem} (h : q ∈ lighter s) :
    q.size ≤ s.size ∧ q.looseLeaves ≤ s.looseLeaves ∧
      q.size + q.looseLeaves < s.size + s.looseLeaves := by
  obtain ⟨hq, -, hlt⟩ := mem_lighter.mp h
  exact EqSystem.sum_lt_of_mem_reductions hq hlt

def Ending.map (f : α → β) : Ending α ε → Ending β ε
  | .exhausted => .exhausted
  | .found x => .found (f x)
  | .broken e => .broken e

theorem sweep_map (p : Probe σ ε) (sys : α → EqSystem) (qs : List α) (n : Nat) (st : σ) :
    sweep p id (qs.map sys) n st =
      ((sweep p sys qs n st).1.map sys, (sweep p sys qs n st).2) := by
  induction qs generalizing n st with
  | nil => rfl
  | cons q qs ih =>
    simp only [List.map_cons, sweep, id_eq]
    rcases p.passes (sys q) st with ⟨e | passed, st'⟩
    · rfl
    · cases passed with
      | false => rfl
      | true => exact ih (n + 1) st'

theorem mem_of_sweep {p : Probe σ ε} {sys : α → EqSystem} {qs : List α} {n : Nat} {st : σ} {q : α}
    (h : (sweep p sys qs n st).1 = .found q) : q ∈ qs := by
  induction qs generalizing n st with
  | nil => cases h
  | cons x qs ih =>
    simp only [sweep] at h
    rcases hx : p.passes (sys x) st with ⟨e | passed, st'⟩
    · rw [hx] at h
      cases h
    · rw [hx] at h
      cases passed with
      | false =>
        obtain rfl := Ending.found.inj h
        exact List.mem_cons_self
      | true => exact List.mem_cons_of_mem _ (ih h)

/-- At most so many sweeps, each over the lighter steps of what is current then. There is nothing
if the search goes on after them. -/
def descendWithin (p : Probe σ ε) :
    Nat → Search → σ → Option (Except ε EqSystem × Search × σ)
  | 0, _, _ => none
  | k + 1, m, st =>
    match sweep p id (lighter m.current) m.attempts st with
    | (.broken e, n, st) => some (.error e, { m with attempts := n }, st)
    | (.exhausted, n, st) => some (.ok m.current, { m with attempts := n }, st)
    | (.found q, n, st) =>
      descendWithin p k { m with current := q, attempts := n }
        (p.note ⟨.search, .debug, "reduced counterexample to size " ++ toString q.size⟩ st)

/-- One sweep more than the sum of the components is enough. -/
theorem descendWithin_eq (p : Probe σ ε) {k : Nat} {m : Search} (st : σ)
    (hk : m.current.size + m.current.looseLeaves < k) :
    descendWithin p k m st = some (descend p m st) := by
  induction k generalizing m st with
  | zero => omega
  | succ k ih =>
    rw [descendWithin, descend, lighter, sweep_map]
    rcases hsweep : sweep p Subtype.val (smaller m.current) m.attempts st with ⟨ending, n, st'⟩
    cases ending with
    | exhausted | broken e => rfl
    | found q =>
      have hq : q ∈ smaller m.current := mem_of_sweep (congrArg Prod.fst hsweep)
      have hlt := sum_lt_of_mem_lighter (List.mem_map_of_mem (f := Subtype.val) hq)
      exact ih _ (by change q.val.size + q.val.looseLeaves < k; omega)

theorem countP_fails_passing (qs : List EqSystem) :
    (passing qs : List (Call ε)).countP Call.fails = 0 := by
  rw [List.countP_eq_zero]
  intro c hc
  obtain ⟨q, -, rfl⟩ := List.mem_map.mp hc
  exact Bool.false_ne_true

/-- Each move takes one from the sum of the components. -/
theorem Run.countP_fails_le {s : EqSystem} {calls : List (Call ε)}
    {result : Except ε EqSystem} (h : Run s calls result) :
    calls.countP Call.fails ≤ s.size + s.looseLeaves := by
  induction h with
  | exhausted s => simp [countP_fails_passing]
  | @found s before q after calls result split rest ih =>
    have hlt := sum_lt_of_mem_lighter (s := s) (q := q) (by simp [split])
    have hq : (⟨q, .ok false⟩ : Call ε).fails := rfl
    rw [List.countP_append, countP_fails_passing, List.countP_cons_of_pos hq]
    omega
  | @broken s before q after e split =>
    have hq : ¬ (⟨q, .error e⟩ : Call ε).fails := Bool.false_ne_true
    rw [List.countP_append, countP_fails_passing, List.countP_cons_of_neg hq, List.countP_nil]
    omega

theorem length_lighter_le (s : EqSystem) : (lighter s).length ≤ 4 * s.size := by
  rw [lighter_eq_filter]
  exact (List.length_filter_le _ _).trans s.length_reductions_le

/-- Each sweep makes at most as many calls as the start has steps. -/
theorem Run.length_le {s : EqSystem} {calls : List (Call ε)} {result : Except ε EqSystem}
    (h : Run s calls result) : calls.length ≤ (s.size + s.looseLeaves + 1) * (4 * s.size) := by
  have hone (s : EqSystem) : 4 * s.size ≤ (s.size + s.looseLeaves + 1) * (4 * s.size) :=
    Nat.le_mul_of_pos_left _ (Nat.succ_pos _)
  induction h with
  | exhausted s =>
    rw [passing, List.length_map]
    exact (length_lighter_le s).trans (hone s)
  | @found s before q after calls result split rest ih =>
    obtain ⟨hsize, -, hlt⟩ := sum_lt_of_mem_lighter (s := s) (q := q) (by simp [split])
    have hsweep := length_lighter_le s
    rw [split, List.length_append, List.length_cons] at hsweep
    -- the rest has one sweep less, and its systems are no larger
    have hrest : calls.length ≤ (s.size + s.looseLeaves) * (4 * s.size) :=
      ih.trans (Nat.mul_le_mul (by omega) (by omega))
    rw [List.length_append, passing, List.length_map, List.length_cons, Nat.succ_mul]
    omega
  | @broken s before q after e split =>
    have hsweep := length_lighter_le s
    rw [split, List.length_append, List.length_cons] at hsweep
    apply le_trans _ (hone s)
    simp only [passing, List.length_append, List.length_map, List.length_cons, List.length_nil]
    omega

/-- Where a search from `s` is after these calls. -/
structure Reached (s : EqSystem) (m : Search) (calls : List (Call ε)) : Prop where
  current : m.current = currentAfter s calls
  attempts : m.attempts = calls.length

theorem currentAfter_append (s : EqSystem) (xs ys : List (Call ε)) :
    currentAfter s (xs ++ ys) = currentAfter (currentAfter s xs) ys :=
  List.foldl_append

theorem sweep_recording_count (p : Probe σ ε) (sys : α → EqSystem) (qs : List α) (n : Nat)
    (st : σ × List (Call ε)) : (sweep p.recording sys qs n st).2.1 + st.2.length =
      n + (sweep p.recording sys qs n st).2.2.2.length := by
  induction qs generalizing n st with
  | nil => rfl
  | cons q qs ih =>
    simp only [sweep, Probe.recording]
    rcases p.passes (sys q) st.1 with ⟨e | passed, st'⟩
    · simp only [List.length_append, List.length_singleton]
      omega
    · cases passed with
      | false =>
        simp only [List.length_append, List.length_singleton]
        omega
      | true =>
        have htail := ih (n + 1) (st', st.2 ++ [⟨sys q, .ok true⟩])
        simp only [List.length_append, List.length_singleton, Probe.recording] at htail ⊢
        omega

def afterSweep (m : Search) :
    Ending { q : EqSystem // q.weight < m.current.weight } ε → Nat → Search
  | .found q, n => { m with current := q, attempts := n }
  | _, n => { m with attempts := n }

theorem reached_sweep {s : EqSystem} (p : Probe σ ε) {m : Search} {st : σ × List (Call ε)}
    (h : Reached s m st.2) {ending n st'}
    (hsweep : sweep p.recording Subtype.val (smaller m.current) m.attempts st = (ending, n, st')) :
    Reached s (afterSweep m ending n) st'.2 := by
  have hcount := sweep_recording_count p Subtype.val (smaller m.current) m.attempts st
  obtain ⟨tested, hst, -, htested⟩ :=
    sweep_recording p Subtype.val (smaller m.current) m.attempts st
  rw [hsweep] at hcount hst htested
  have hattempts : n = st'.2.length := by
    have := h.attempts
    dsimp only at hcount
    omega
  dsimp only at hst
  cases ending with
  | exhausted =>
    obtain rfl := htested
    refine ⟨?_, hattempts⟩
    rw [hst, currentAfter_append, currentAfter_passing]
    exact h.current
  | found q =>
    obtain ⟨before, after, -, rfl⟩ := htested
    refine ⟨?_, hattempts⟩
    rw [hst, currentAfter_append, currentAfter_append]
    rfl
  | broken e =>
    obtain ⟨before, q, after, -, rfl⟩ := htested
    refine ⟨?_, hattempts⟩
    rw [hst, currentAfter_append, currentAfter_append, currentAfter_passing]
    exact h.current

/-- The state of a search is what its calls tell. -/
theorem reached_descend {s : EqSystem} (p : Probe σ ε) (m : Search) (st : σ × List (Call ε))
    (h : Reached s m st.2) :
    Reached s (descend p.recording m st).2.1 (descend p.recording m st).2.2.2 := by
  induction m, st using descend.induct (p := p.recording) with
  | case1 m st e n st' hsweep | case2 m st n st' hsweep =>
    rw [descend, hsweep]
    exact reached_sweep p h hsweep
  | case3 m st q n st' hsweep ih =>
    rw [descend, hsweep]
    exact ih (reached_sweep p h hsweep)

theorem reached_run (p : Probe σ ε) (name : String) (s : EqSystem) (st : σ) :
    Reached s (run p (start name s) st).2.1 (calls p (start name s) st) := by
  have hplace := congrArg (fun x => x.2.1) (run_forget p (start name s) (st, []))
  dsimp only at hplace
  rw [← hplace]
  have hstart : Reached s (start name s) ([] : List (Call ε)) := ⟨rfl, rfl⟩
  have hdescend := reached_descend p (start name s) (p.recording.note ⟨.search, .info,
    "minimizing " ++ name ++ " counterexample of size " ++ toString s.size⟩ (st, [])) hstart
  unfold calls run
  dsimp only
  split
  · next h =>
    replace hdescend := h ▸ hdescend
    exact hdescend
  · next h =>
    replace hdescend := h ▸ hdescend
    exact hdescend

/-- Whatever the test answers, a search from `s` is over after one sweep more than the sum of the
components of the weight of `s`. It moves at most as often as that sum, each time to a lighter
system, and its calls are bounded, too. -/
theorem run_ends (p : Probe σ ε) (name : String) (s : EqSystem) (st : σ) :
    (∀ st', descendWithin p (s.size + s.looseLeaves + 1) (start name s) st' =
        some (descend p (start name s) st')) ∧
      (calls p (start name s) st).countP Call.fails ≤ s.size + s.looseLeaves ∧
      (calls p (start name s) st).length ≤ (s.size + s.looseLeaves + 1) * (4 * s.size) ∧
      Reached s (run p (start name s) st).2.1 (calls p (start name s) st) ∧
      ∀ before c after, calls p (start name s) st = before ++ c :: after → c.fails →
        currentAfter s (before ++ [c]) = c.system ∧
          c.system.weight < (currentAfter s before).weight := by
  have hrun := run_calls p (start name s) st
  refine ⟨fun st' => descendWithin_eq p st' (Nat.lt_succ_self _), hrun.countP_fails_le,
    hrun.length_le, reached_run p name s st, ?_⟩
  intro before c after hsplit hfails
  constructor
  · rw [currentAfter_append]
    exact c.next_of_fails hfails
  · obtain ⟨-, -, hlt⟩ := mem_lighter.mp (mem_lighter_of_calls hsplit)
    exact hlt

end Search

end PbesLab
