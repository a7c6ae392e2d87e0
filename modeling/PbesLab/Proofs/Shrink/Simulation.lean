import PbesLab.Shrink.Search

namespace PbesLab

variable {σ τ ε α : Type}

/-- The same result twice. The states are related by `R` after a value and by `E` after an error. -/
structure SameEnd (R E : σ → τ → Prop) (x : Except ε α × σ) (y : Except ε α × τ) : Prop where
  result : x.1 = y.1
  ok {v : α} : x.1 = .ok v → R x.2 y.2
  error {e : ε} : x.1 = .error e → E x.2 y.2

/-- With one relation for both ends it holds of the final states. -/
theorem SameEnd.states {R : σ → τ → Prop} {x : Except ε α × σ} {y : Except ε α × τ}
    (h : SameEnd R R x y) : R x.2 y.2 := by
  cases hx : x.1 with
  | ok v => exact h.ok hx
  | error e => exact h.error hx

/-- Tests that answer alike in related states and keep them related. -/
structure Probe.Simulates (R E : σ → τ → Prop) (p : Probe σ ε) (q : Probe τ ε) : Prop where
  passes (s : EqSystem) {a : σ} {b : τ} : R a b → SameEnd R E (p.passes s a) (q.passes s b)
  note (line : LogLine) {a : σ} {b : τ} : R a b → R (p.note line a) (q.note line b)

/-- A test keeps `I` as long as it does not break, and leaves `J` when it does. -/
structure Probe.Keeps (I J : σ → Prop) (p : Probe σ ε) : Prop where
  passes (s : EqSystem) {a : σ} : I a → (∀ b, (p.passes s a).1 = .ok b → I (p.passes s a).2) ∧
    ∀ e, (p.passes s a).1 = .error e → J (p.passes s a).2
  note (line : LogLine) {a : σ} : I a → I (p.note line a)

theorem Probe.Keeps.simulates {I J : σ → Prop} {p : Probe σ ε} (h : p.Keeps I J) :
    p.Simulates (fun a b => a = b ∧ I a) (fun a b => a = b ∧ J a) p where
  passes s := by
    rintro a b ⟨rfl, ha⟩
    obtain ⟨hok, herror⟩ := h.passes s ha
    exact ⟨rfl, fun hv => ⟨rfl, hok _ hv⟩, fun he => ⟨rfl, herror _ he⟩⟩
  note line := by
    rintro a b ⟨rfl, ha⟩
    exact ⟨rfl, h.note line ha⟩

namespace Search

variable {R E : σ → τ → Prop} {p : Probe σ ε} {q : Probe τ ε}

def SameSweep (R E : σ → τ → Prop) : Ending α ε × Nat × σ → Ending α ε × Nat × τ → Prop
  | (.broken e, n, a), (.broken e', n', b) => e = e' ∧ n = n' ∧ E a b
  | (.exhausted, n, a), (.exhausted, n', b) => n = n' ∧ R a b
  | (.found x, n, a), (.found y, n', b) => x = y ∧ n = n' ∧ R a b
  | _, _ => False

theorem sweep_simulates (h : p.Simulates R E q) (sys : α → EqSystem) (xs : List α) (n : Nat)
    {a : σ} {b : τ} (hab : R a b) : SameSweep R E (sweep p sys xs n a) (sweep q sys xs n b) := by
  induction xs generalizing n a b with
  | nil => exact ⟨rfl, hab⟩
  | cons x xs ih =>
    have hx := h.passes (sys x) hab
    simp only [sweep]
    rcases hp : p.passes (sys x) a with ⟨r, a'⟩
    rcases hq : q.passes (sys x) b with ⟨r', b'⟩
    rw [hp, hq] at hx
    obtain rfl : r = r' := hx.result
    rcases r with e | passed
    · exact ⟨rfl, rfl, hx.error rfl⟩
    · cases passed with
      | false => exact ⟨rfl, rfl, hx.ok rfl⟩
      | true => exact ih (n + 1) (hx.ok rfl)

theorem descend_simulates (h : p.Simulates R E q) (m : Search) {a : σ} {b : τ} (hab : R a b) :
    SameEnd R E ((descend p m a).1, (descend p m a).2.2) ((descend q m b).1, (descend q m b).2.2) ∧
      (descend p m a).2.1 = (descend q m b).2.1 := by
  have hsweep := sweep_simulates h Subtype.val (smaller m.current) m.attempts hab
  rw [descend, descend]
  rcases hp : sweep p Subtype.val (smaller m.current) m.attempts a with ⟨ending, n, a'⟩
  rcases hq : sweep q Subtype.val (smaller m.current) m.attempts b with ⟨ending', n', b'⟩
  rw [hp, hq] at hsweep
  rcases ending with - | x | e <;> rcases ending' with - | x' | e'
  any_goals exact hsweep.elim
  · obtain ⟨rfl, hR⟩ := hsweep
    exact ⟨⟨rfl, fun _ => hR, nofun⟩, rfl⟩
  · obtain ⟨rfl, rfl, hR⟩ := hsweep
    exact descend_simulates h _ (h.note _ hR)
  · obtain ⟨rfl, rfl, hE⟩ := hsweep
    exact ⟨⟨rfl, nofun, fun _ => hE⟩, rfl⟩
termination_by (m.current.weight.size, m.current.weight.leaves)
decreasing_by exact Prod.lex_def.mpr x.property

theorem run_simulates (h : p.Simulates R E q) (m : Search) {a : σ} {b : τ} (hab : R a b) :
    SameEnd R E ((run p m a).1, (run p m a).2.2) ((run q m b).1, (run q m b).2.2) ∧
      (run p m a).2.1 = (run q m b).2.1 := by
  have hd := descend_simulates h m (h.note ⟨.search, .info, "minimizing " ++ m.name ++
    " counterexample of size " ++ toString m.current.size⟩ hab)
  unfold run
  dsimp only
  rcases hp : descend p m _ with ⟨r, m', a'⟩
  rcases hq : descend q m _ with ⟨r', m'', b'⟩
  rw [hp, hq] at hd
  obtain ⟨hend, rfl⟩ := hd
  obtain rfl : r = r' := hend.result
  cases r with
  | error e => exact ⟨⟨rfl, nofun, fun _ => hend.error rfl⟩, rfl⟩
  | ok s => exact ⟨⟨rfl, fun _ => h.note _ (hend.ok rfl), nofun⟩, rfl⟩

/-- What every test keeps is kept by a search. -/
theorem run_keeps {I J : σ → Prop} (h : p.Keeps I J) (m : Search) {a : σ} (ha : I a) :
    (∀ r, (run p m a).1 = .ok r → I (run p m a).2.2) ∧
      ∀ e, (run p m a).1 = .error e → J (run p m a).2.2 := by
  obtain ⟨hend, -⟩ := run_simulates h.simulates m ⟨rfl, ha⟩
  exact ⟨fun r hr => (hend.ok hr).2, fun e he => (hend.error he).2⟩

/-- The name stays, and a result is what is current at the end. -/
theorem descend_place (p : Probe σ ε) (m : Search) (a : σ) :
    (descend p m a).2.1.name = m.name ∧
      ∀ r, (descend p m a).1 = .ok r → (descend p m a).2.1.current = r := by
  induction m, a using descend.induct (p := p) with
  | case1 m a e n a' h =>
    rw [descend, h]
    exact ⟨rfl, nofun⟩
  | case2 m a n a' h =>
    rw [descend, h]
    exact ⟨rfl, fun r hr => Except.ok.inj hr⟩
  | case3 m a x n a' h ih =>
    rw [descend, h]
    exact ih

theorem run_place (p : Probe σ ε) (m : Search) (a : σ) :
    (run p m a).2.1.name = m.name ∧ ∀ r, (run p m a).1 = .ok r → (run p m a).2.1.current = r := by
  have h := descend_place p m (p.note ⟨.search, .info, "minimizing " ++ m.name ++
    " counterexample of size " ++ toString m.current.size⟩ a)
  unfold run
  dsimp only
  rcases hd : descend p m _ with ⟨r, m', a'⟩
  rw [hd] at h
  cases r with
  | error e => exact h
  | ok s => exact h

end Search

end PbesLab
