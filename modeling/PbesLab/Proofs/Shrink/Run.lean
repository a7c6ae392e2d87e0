import PbesLab.Proofs.Shrink.Simulation
import Mathlib.Data.List.Basic

namespace PbesLab

structure Call (ε : Type) where
  system : EqSystem
  answer : Except ε Bool

variable {σ ε : Type}

def Call.next (s : EqSystem) (c : Call ε) : EqSystem :=
  match c.answer with
  | .ok false => c.system
  | _ => s

/-- The same test with a list of its calls, the latest at the end. -/
def Probe.recording (p : Probe σ ε) : Probe (σ × List (Call ε)) ε where
  passes q st := ((p.passes q st.1).1, (p.passes q st.1).2, st.2 ++ [⟨q, (p.passes q st.1).1⟩])
  note line st := (p.note line st.1, st.2)

def Probe.Answers (p : Probe σ ε) (c : Call ε) : Prop :=
  ∃ st, (p.passes c.system st).1 = c.answer

/-- A test whose answer is a function of the system alone. -/
def Probe.Pure (p : Probe σ ε) (passes : EqSystem → Bool) : Prop :=
  ∀ q st, (p.passes q st).1 = .ok (passes q)

namespace Search

def passing (qs : List EqSystem) : List (Call ε) :=
  qs.map (⟨·, .ok true⟩)

def lighter (s : EqSystem) : List EqSystem :=
  (smaller s).map Subtype.val

/-- Sweeps over the lighter systems: each moves on to the first that fails, the last finds none. -/
inductive Run : EqSystem → List (Call ε) → Except ε EqSystem → Prop
  | exhausted (s : EqSystem) : Run s (passing (lighter s)) (.ok s)
  | found {s before q after calls result} (split : lighter s = before ++ q :: after)
      (rest : Run q calls result) : Run s (passing before ++ ⟨q, .ok false⟩ :: calls) result
  | broken {s before q after e} (split : lighter s = before ++ q :: after) :
      Run s (passing before ++ [⟨q, .error e⟩]) (.error e)

theorem lighter_eq_filter (s : EqSystem) :
    lighter s = s.reductions.filter fun q => q.check = .ok () ∧ q.weight < s.weight := by
  unfold lighter smaller
  induction s.reductions with
  | nil => rfl
  | cons q qs ih =>
    by_cases hw : q.weight < s.weight
    · cases hc : q.check with
      | ok u => simp [hw, hc, ih]
      | error e => simp [hw, hc, ih]
    · simp [hw, ih]

theorem mem_lighter {s q : EqSystem} :
    q ∈ lighter s ↔ q ∈ s.reductions ∧ q.check = .ok () ∧ q.weight < s.weight := by
  rw [lighter_eq_filter, List.mem_filter, decide_eq_true_eq]

def callsOf {α : Type} (sys : α → EqSystem) (qs : List α) : Ending α ε → List (Call ε) → Prop
  | .exhausted, calls => calls = passing (qs.map sys)
  | .found q, calls => ∃ before after, qs = before ++ q :: after ∧
      calls = passing (before.map sys) ++ [⟨sys q, .ok false⟩]
  | .broken e, calls => ∃ before q after, qs = before ++ q :: after ∧
      calls = passing (before.map sys) ++ [⟨sys q, .error e⟩]

theorem callsOf_cons {α : Type} {sys : α → EqSystem} {qs : List α} {ending : Ending α ε}
    {calls : List (Call ε)} (q : α) (h : callsOf sys qs ending calls) :
    callsOf sys (q :: qs) ending (⟨sys q, .ok true⟩ :: calls) := by
  cases ending with
  | exhausted => simpa [callsOf, passing] using h
  | found x =>
    obtain ⟨before, after, rfl, rfl⟩ := h
    exact ⟨q :: before, after, rfl, rfl⟩
  | broken e =>
    obtain ⟨before, x, after, rfl, rfl⟩ := h
    exact ⟨q :: before, x, after, rfl, rfl⟩

theorem sweep_recording {α : Type} (p : Probe σ ε) (sys : α → EqSystem) (qs : List α) (n : Nat)
    (st : σ × List (Call ε)) :
    ∃ calls, (sweep p.recording sys qs n st).2.2.2 = st.2 ++ calls ∧
      (∀ c ∈ calls, p.Answers c) ∧ callsOf sys qs (sweep p.recording sys qs n st).1 calls := by
  induction qs generalizing n st with
  | nil => exact ⟨[], by simp [sweep], by simp, rfl⟩
  | cons q qs ih =>
    have hq : p.Answers ⟨sys q, (p.passes (sys q) st.1).1⟩ := ⟨st.1, rfl⟩
    simp only [sweep, Probe.recording]
    rcases ha : p.passes (sys q) st.1 with ⟨answer, st'⟩
    rw [ha] at hq
    rcases answer with e | passed
    · exact ⟨[⟨sys q, .error e⟩], rfl, by simpa using hq, [], q, qs, rfl, rfl⟩
    · cases passed with
      | false => exact ⟨[⟨sys q, .ok false⟩], rfl, by simpa using hq, [], qs, rfl, rfl⟩
      | true =>
        obtain ⟨calls, hst, hans, hcalls⟩ := ih (n + 1) (st', st.2 ++ [⟨sys q, .ok true⟩])
        refine ⟨⟨sys q, .ok true⟩ :: calls, ?_, ?_, callsOf_cons q hcalls⟩
        · simpa [Probe.recording] using hst
        · simpa using ⟨hq, hans⟩

theorem lighter_of_split {s : EqSystem} {before after : List { q // q.weight < s.weight }}
    {q : { q // q.weight < s.weight }} (h : smaller s = before ++ q :: after) :
    lighter s = before.map Subtype.val ++ q.val :: after.map Subtype.val := by
  rw [lighter, h, List.map_append, List.map_cons]

theorem descend_recording (p : Probe σ ε) (m : Search) (st : σ × List (Call ε)) :
    ∃ calls, (descend p.recording m st).2.2.2 = st.2 ++ calls ∧
      (∀ c ∈ calls, p.Answers c) ∧ Run m.current calls (descend p.recording m st).1 := by
  -- the induction is over sweeps, so the first one is recorded before it starts
  obtain ⟨tested, hst, hans, htested⟩ :=
    sweep_recording p Subtype.val (smaller m.current) m.attempts st
  induction m, st using descend.induct (p := p.recording) generalizing tested with
  | case1 m st e n st' h =>
    rw [h] at hst htested
    rw [descend, h]
    obtain ⟨before, q, after, hsplit, rfl⟩ := htested
    exact ⟨_, hst, hans, .broken (lighter_of_split hsplit)⟩
  | case2 m st n st' h =>
    rw [h] at hst htested
    rw [descend, h]
    obtain rfl := htested
    exact ⟨_, hst, hans, .exhausted m.current⟩
  | case3 m st q n st' h ih =>
    rw [h] at hst htested
    rw [descend, h]
    obtain ⟨before, after, hsplit, rfl⟩ := htested
    obtain ⟨next, hst₂, hans₂, hnext⟩ := sweep_recording p Subtype.val (smaller q.val) n
      (p.recording.note _ st')
    obtain ⟨calls, hst', hans', hrun⟩ := ih next hst₂ hans₂ hnext
    refine ⟨passing (before.map Subtype.val) ++ ⟨q, .ok false⟩ :: calls, ?_, ?_, ?_⟩
    · rw [hst']
      change st'.2 ++ calls = _
      rw [hst]
      simp
    · intro c hc
      obtain hc | hc : c ∈ passing (before.map Subtype.val) ++ [⟨q.val, .ok false⟩] ∨
          c ∈ calls := by simpa [or_assoc] using hc
      · exact hans c hc
      · exact hans' c hc
    · exact .found (lighter_of_split hsplit) hrun

/-- What a whole search records is a run from its system. -/
theorem run_recording (p : Probe σ ε) (m : Search) (st : σ) :
    (∀ c ∈ (run p.recording m (st, [])).2.2.2, p.Answers c) ∧
      Run m.current (run p.recording m (st, [])).2.2.2 (run p.recording m (st, [])).1 := by
  obtain ⟨calls, hst, hans, hrun⟩ := descend_recording p m (p.recording.note ⟨.search, .info,
    "minimizing " ++ m.name ++ " counterexample of size " ++ toString m.current.size⟩ (st, []))
  replace hst : _ = calls := hst
  unfold run
  dsimp only
  split
  · next h =>
    rw [h] at hst hrun
    obtain rfl := hst
    exact ⟨hans, hrun⟩
  · next h =>
    rw [h] at hst hrun
    obtain rfl := hst
    exact ⟨hans, hrun⟩

theorem recording_simulates (p : Probe σ ε) :
    p.recording.Simulates (fun st a => st.1 = a) (fun st a => st.1 = a) p where
  passes q := by
    rintro st a rfl
    exact ⟨rfl, fun _ => rfl, fun _ => rfl⟩
  note line := by
    rintro st a rfl
    rfl

/-- The result, the place reached and the test's own state are those of the test itself. -/
theorem run_forget (p : Probe σ ε) (m : Search) (st : σ × List (Call ε)) :
    ((run p.recording m st).1, (run p.recording m st).2.1, (run p.recording m st).2.2.1) =
      run p m st.1 := by
  obtain ⟨hend, hplace⟩ := run_simulates (recording_simulates p) m (a := st) rfl
  have hresult : (run p.recording m st).1 = (run p m st.1).1 := hend.result
  have hstate : (run p.recording m st).2.2.1 = (run p m st.1).2.2 := hend.states
  rw [hresult, hplace, hstate]

def calls (p : Probe σ ε) (m : Search) (st : σ) : List (Call ε) :=
  (run p.recording m (st, [])).2.2.2

theorem run_calls (p : Probe σ ε) (m : Search) (st : σ) :
    Run m.current (calls p m st) (run p m st).1 := by
  have h := congrArg Prod.fst (run_forget p m (st, []))
  rw [← h]
  exact (run_recording p m st).2

theorem answers_of_mem_calls {p : Probe σ ε} {m : Search} {st : σ} {c : Call ε}
    (hc : c ∈ calls p m st) : p.Answers c :=
  (run_recording p m st).1 c hc

/-- What every test keeps, of its state and of the calls so far, is kept by a search. -/
theorem run_keeps_calls {p : Probe σ ε} {I J : σ → List (Call ε) → Prop}
    (hpasses : ∀ s st before, I st before →
      (∀ b, (p.passes s st).1 = .ok b → I (p.passes s st).2 (before ++ [⟨s, .ok b⟩])) ∧
      ∀ e, (p.passes s st).1 = .error e → J (p.passes s st).2 (before ++ [⟨s, .error e⟩]))
    (hnote : ∀ line st before, I st before → I (p.note line st) before)
    (m : Search) {st : σ} (h : I st []) :
    (∀ r, (run p m st).1 = .ok r → I (run p m st).2.2 (calls p m st)) ∧
      ∀ e, (run p m st).1 = .error e → J (run p m st).2.2 (calls p m st) := by
  have hkeeps : p.recording.Keeps (fun x => I x.1 x.2) (fun x => J x.1 x.2) := by
    refine ⟨fun s x hx => ?_, fun line x hx => hnote line x.1 x.2 hx⟩
    obtain ⟨hok, herror⟩ := hpasses s x.1 x.2 hx
    refine ⟨fun b hb => ?_, fun e he => ?_⟩
    · have hb' : (p.passes s x.1).1 = .ok b := hb
      have hI := hok b hb'
      rw [← hb'] at hI
      exact hI
    · have he' : (p.passes s x.1).1 = .error e := he
      have hJ := herror e he'
      rw [← he'] at hJ
      exact hJ
  obtain ⟨hok, herror⟩ := run_keeps hkeeps m (a := (st, [])) h
  rw [← run_forget p m (st, [])]
  exact ⟨hok, herror⟩

theorem calls_eq_of_simulates {τ : Type} {R E : σ → τ → Prop} {p : Probe σ ε} {q : Probe τ ε}
    (h : p.Simulates R E q) (m : Search) {a : σ} {b : τ} (hab : R a b) :
    calls p m a = calls q m b := by
  have hrecording : p.recording.Simulates (fun x y => R x.1 y.1 ∧ x.2 = y.2)
      (fun x y => E x.1 y.1 ∧ x.2 = y.2) q.recording := by
    constructor
    · rintro s ⟨a, before⟩ ⟨b, before'⟩ ⟨hab, rfl⟩
      have hs := h.passes s hab
      have hsame : before ++ [⟨s, (p.passes s a).1⟩] = before ++ [⟨s, (q.passes s b).1⟩] := by
        rw [hs.result]
      exact ⟨hs.result, fun hv => ⟨hs.ok hv, hsame⟩, fun he => ⟨hs.error he, hsame⟩⟩
    · rintro line x y ⟨hab, hsame⟩
      exact ⟨h.note line hab, hsame⟩
  obtain ⟨hend, -⟩ := run_simulates hrecording m (a := (a, [])) (b := (b, [])) ⟨hab, rfl⟩
  cases hr : (run p.recording m (a, [])).1 with
  | ok r => exact (hend.ok hr).2
  | error e => exact (hend.error hr).2

/-- The system of the last call that failed, or else the start. -/
def currentAfter (s : EqSystem) (calls : List (Call ε)) : EqSystem :=
  calls.foldl Call.next s

theorem currentAfter_passing (s : EqSystem) (qs : List EqSystem) :
    currentAfter s (passing qs : List (Call ε)) = s := by
  induction qs with
  | nil => rfl
  | cons q qs ih => exact ih

/-- Each call is about a system that the sweep at that moment has to test. -/
def Asked : EqSystem → List (Call ε) → Prop
  | _, [] => True
  | s, c :: calls => c.system ∈ lighter s ∧ Asked (Call.next s c) calls

theorem asked_append (s : EqSystem) (xs ys : List (Call ε)) :
    Asked s (xs ++ ys) ↔ Asked s xs ∧ Asked (currentAfter s xs) ys := by
  induction xs generalizing s with
  | nil => simp [Asked, currentAfter]
  | cons c xs ih =>
    rw [List.cons_append, Asked, Asked, ih, and_assoc]
    rfl

theorem asked_passing {s : EqSystem} {qs : List EqSystem} (h : ∀ q ∈ qs, q ∈ lighter s) :
    Asked s (passing qs : List (Call ε)) := by
  induction qs with
  | nil => trivial
  | cons q qs ih => exact ⟨h q (by simp), ih fun x hx => h x (by simp [hx])⟩

theorem Run.asked {s : EqSystem} {calls : List (Call ε)} {result : Except ε EqSystem}
    (h : Run s calls result) : Asked s calls := by
  induction h with
  | exhausted s => exact asked_passing fun _ => id
  | found split rest ih =>
    rw [asked_append, currentAfter_passing]
    exact ⟨asked_passing fun x hx => by simp [split, hx], by simp [split], ih⟩
  | broken split =>
    rw [asked_append, currentAfter_passing]
    exact ⟨asked_passing fun x hx => by simp [split, hx], by simp [split], trivial⟩

theorem mem_lighter_of_calls {p : Probe σ ε} {m : Search} {st : σ} {before after : List (Call ε)}
    {c : Call ε} (h : calls p m st = before ++ c :: after) :
    c.system ∈ lighter (currentAfter m.current before) := by
  have hasked := (run_calls p m st).asked
  rw [h, asked_append] at hasked
  exact hasked.2.1

end Search

end PbesLab
