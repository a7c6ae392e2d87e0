import PbesLab.Proofs.Shrink.Simulation
import PbesLab.Trial.Series

namespace PbesLab

variable {σ σ' τ τ' α β : Type}

namespace Action

theorem bind_apply (a : Action σ α) (f : α → Action σ β) (st : σ) :
    (a >>= f) st = match a st with
      | (.ok x, st') => f x st'
      | (.error e, st') => (.error e, st') := by
  rcases h : a st with ⟨_ | x, st'⟩
  · simp only [bind, ExceptT.bind, ExceptT.mk, StateT.bind, h]
    rfl
  · simp [bind, ExceptT.bind, ExceptT.mk, ExceptT.bindCont, StateT.bind, h]

theorem bind_eq_ok {a : Action σ α} {f : α → Action σ β} {st st' : σ} {y : β} :
    (a >>= f) st = (.ok y, st') ↔ ∃ x st₁, a st = (.ok x, st₁) ∧ f x st₁ = (.ok y, st') := by
  rw [bind_apply]
  rcases a st with ⟨e | x, st₁⟩
  · exact ⟨nofun, fun ⟨_, _, he, _⟩ => nomatch he⟩
  · refine ⟨fun h => ⟨x, st₁, rfl, h⟩, ?_⟩
    rintro ⟨_, _, ⟨⟩, h⟩
    exact h

/-- With a value an action ends as in `Q`, with a failure as in `E`. -/
structure Ends (Q : α → σ → Prop) (E : Failure → σ → Prop) (r : Except Failure α × σ) : Prop where
  ok (x : α) : r.1 = .ok x → Q x r.2
  error (e : Failure) : r.1 = .error e → E e r.2

section

variable {a : Action σ α} {f : α → Action σ β} {st : σ} {x : α} {e : Failure}
  {Q Q' : α → σ → Prop} {R : β → σ → Prop} {E E' : Failure → σ → Prop}

theorem ends_ok (h : Q x st) : Ends Q E (.ok x, st) :=
  ⟨fun _ hx => Except.ok.inj hx ▸ h, fun _ he => (nomatch he)⟩

theorem ends_error (h : E e st) : Ends Q E (.error e, st) :=
  ⟨fun _ hx => (nomatch hx), fun _ he => Except.error.inj he ▸ h⟩

theorem ends_pure (h : Q x st) : Ends Q E ((pure x : Action σ α) st) :=
  ends_ok h

theorem ends_bind (h : Ends (fun x st' => Ends R E (f x st')) E (a st)) :
    Ends R E ((a >>= f) st) := by
  rw [bind_apply]
  rcases hst : a st with ⟨_ | x, st'⟩
  · rw [hst] at h
    exact ends_error (h.error _ rfl)
  · rw [hst] at h
    exact h.ok x rfl

theorem Ends.imp {r : Except Failure α × σ} (h : Ends Q E r) (hQ : ∀ x st, Q x st → Q' x st)
    (hE : ∀ e st, E e st → E' e st) : Ends Q' E' r :=
  ⟨fun x hx => hQ x _ (h.ok x hx), fun e he => hE e _ (h.error e he)⟩

end

/-- What holds before an action holds after it, whatever comes of it. -/
def Keeps (P : σ → Prop) (a : Action σ α) : Prop :=
  ∀ st, P st → P (a st).2

theorem keeps_pure (P : σ → Prop) (x : α) : Keeps P (pure x) :=
  fun _ h => h

theorem Keeps.bind {P : σ → Prop} {a : Action σ α} {f : α → Action σ β} (h : Keeps P a)
    (hf : ∀ x, Keeps P (f x)) : Keeps P (a >>= f) := by
  intro st hst
  have ha := h st hst
  rw [bind_apply]
  rcases hr : a st with ⟨_ | x, st'⟩
  · rw [hr] at ha
    exact ha
  · rw [hr] at ha
    exact hf x st' ha

theorem tryCatch_apply (a : Action σ α) (f : Failure → Action σ α) (st : σ) :
    (tryCatch a f) st = match a st with
      | (.ok x, st') => (.ok x, st')
      | (.error e, st') => f e st' := by
  change (ExceptT.tryCatch a f : StateM σ _) st = _
  simp only [ExceptT.tryCatch, ExceptT.mk, bind, StateT.bind]
  rcases a st with ⟨_ | x, st'⟩
  · rfl
  · rfl

theorem ends_tryCatch {a : Action σ α} {f : Failure → Action σ α} {st : σ} {Q : α → σ → Prop}
    {E : Failure → σ → Prop} (h : Ends Q (fun e st' => Ends Q E (f e st')) (a st)) :
    Ends Q E ((tryCatch a f) st) := by
  rw [tryCatch_apply]
  rcases hr : a st with ⟨e | x, st'⟩
  · rw [hr] at h
    exact h.error e rfl
  · rw [hr] at h
    exact ends_ok (h.ok x rfl)

theorem Keeps.ends {P : σ → Prop} {a : Action σ α} (h : Keeps P a) {st : σ} (hst : P st) :
    Ends (fun _ => P) (fun _ => P) (a st) :=
  ⟨fun _ _ => h st hst, fun _ _ => h st hst⟩

/-- What holds after a value and after a failure holds in the end. -/
theorem Ends.final {P : σ → Prop} {r : Except Failure α × σ}
    (h : Ends (fun _ => P) (fun _ => P) r) : P r.2 := by
  cases hr : r.1 with
  | ok x => exact h.ok x hr
  | error e => exact h.error e hr

theorem Ends.result {P : Except Failure α → σ → Prop} {r : Except Failure α × σ}
    (h : Ends (fun x => P (.ok x)) (fun e => P (.error e)) r) : P r.1 r.2 := by
  rcases r with ⟨e | x, st⟩
  · exact h.error e rfl
  · exact h.ok x rfl

theorem Ends.and {P : Except Failure α → σ → Prop} {Q : α → σ → Prop} {E : Failure → σ → Prop}
    {r : Except Failure α × σ} (h : Ends Q E r) (hP : P r.1 r.2) :
    Ends (fun x st => Q x st ∧ P (.ok x) st) (fun e st => E e st ∧ P (.error e) st) r :=
  ⟨fun x hx => ⟨h.ok x hx, hx ▸ hP⟩, fun e he => ⟨h.error e he, he ▸ hP⟩⟩

/-- `a` does on states what `a'` does on what `f` shows of them. -/
def Over (f : σ → σ') (a : Action σ α) (a' : Action σ' α) : Prop :=
  ∀ st, a' (f st) = ((a st).1, f (a st).2)

section

variable {f : σ → σ'}

theorem Over.sameEnd {a : Action σ α} {a' : Action σ' α} (h : Over f a a') (st : σ) :
    SameEnd (fun st st' => f st = st') (fun st st' => f st = st') (a st) (a' (f st)) := by
  rw [h st]
  exact ⟨rfl, fun _ => rfl, fun _ => rfl⟩

theorem Over.ends {a : Action σ α} {a' : Action σ' α} (h : Over f a a') (st : σ)
    {Q : α → σ' → Prop} {E : Failure → σ' → Prop}
    (hend : Ends (fun x st' => Q x (f st')) (fun e st' => E e (f st')) (a st)) :
    Ends Q E (a' (f st)) := by
  rw [h st]
  exact ⟨hend.ok, hend.error⟩

theorem over_pure (x : α) : Over f (pure x) (pure x) :=
  fun _ => rfl

theorem over_throw (e : Failure) : Over f (throw e : Action σ α) (throw e) :=
  fun _ => rfl

theorem Over.bind {a : Action σ α} {a' : Action σ' α} {g : α → Action σ β} {g' : α → Action σ' β}
    (h : Over f a a') (hg : ∀ x, Over f (g x) (g' x)) : Over f (a >>= g) (a' >>= g') := by
  intro st
  rw [bind_apply, bind_apply, h st]
  rcases a st with ⟨r, st'⟩
  cases r with
  | error e => rfl
  | ok x => exact hg x st'

end

end Action

open PbesLab.Action

theorem Bench.disk_tellAll (b : Bench τ) (lines : List LogLine) :
    (b.tellAll lines).disk = b.disk := by
  induction lines generalizing b with
  | nil => rfl
  | cons line lines ih => exact ih (b.tell line)

/-- Cleaning up discards what is registered. -/
theorem Session.disk_cleanup (st : Session τ) :
    st.cleanup.bench.disk = (st.bench.disk.discardAll st.registry.files).1 :=
  Bench.disk_tellAll _ _

theorem Bench.ends_change {f : Disk → Except FileFault Disk} {b : Bench τ}
    {Q : Unit → Bench τ → Prop} {E : Failure → Bench τ → Prop}
    (hok : ∀ disk, f b.disk = .ok disk → Q () { b with disk })
    (herror : ∀ e, f b.disk = .error e → E (.file e) b) : Ends Q E (change f b) := by
  unfold change
  cases h : f b.disk with
  | ok disk => exact ends_ok (hok disk h)
  | error e => exact ends_error (herror e h)

namespace Session

theorem onBench_apply (a : Action (Bench τ) α) (st : Session τ) :
    onBench a st = ((a st.bench).1, { st with bench := (a st.bench).2 }) :=
  rfl

theorem keeps_onBench {P : Bench τ → Prop} {a : Action (Bench τ) α} (h : Keeps P a) :
    Keeps (fun st => P st.bench) (onBench a) :=
  fun st hst => h st.bench hst

theorem onBench_bind (a : Action (Bench τ) α) (f : α → Action (Bench τ) β) :
    onBench (a >>= f) = onBench a >>= fun x => onBench (f x) := by
  funext st
  rw [onBench_apply, bind_apply, bind_apply, onBench_apply]
  rcases a st.bench with ⟨r, b⟩
  cases r <;> rfl

theorem ends_onBench {a : Action (Bench τ) α} {st : Session τ} {Q : α → Session τ → Prop}
    {E : Failure → Session τ → Prop}
    (h : Ends (fun x bench => Q x { st with bench }) (fun e bench => E e { st with bench })
      (a st.bench)) : Ends Q E (onBench a st) := by
  rw [onBench_apply]
  exact ⟨h.ok, h.error⟩

theorem ends_register {name : String} {st : Session τ} {Q : Path → Session τ → Prop}
    {E : Failure → Session τ → Prop}
    (h : Q (st.registry.pathOf name) { st with registry := st.registry.add name }) :
    Ends Q E (register name st) :=
  ends_ok h

theorem finishing_apply (keepFiles : Bool) (a : Action (Session τ) α) (st : Session τ) :
    finishing keepFiles a st = ((a st).1, (a st).2.finish keepFiles) :=
  rfl

theorem ends_finishing {keepFiles : Bool} {a : Action (Session τ) α} {st : Session τ}
    {Q : α → Session τ → Prop} {E : Failure → Session τ → Prop}
    (h : Ends (fun x st' => Q x (st'.finish keepFiles)) (fun e st' => E e (st'.finish keepFiles))
      (a st)) : Ends Q E (finishing keepFiles a st) :=
  ⟨h.ok, h.error⟩

def map (f : Bench τ → Bench τ') (st : Session τ) : Session τ' :=
  ⟨f st.bench, st.registry⟩

theorem over_onBench {f : Bench τ → Bench τ'} {a : Action (Bench τ) α} {a' : Action (Bench τ') α}
    (h : Over f a a') : Over (map f) (onBench a) (onBench a') := by
  intro st
  rw [onBench_apply, onBench_apply, map, h st.bench]
  rfl

theorem over_register (f : Bench τ → Bench τ') (name : String) :
    Over (map f) (register name) (register name) :=
  fun _ => rfl

end Session

@[simp] theorem Registry.pathOf_add (r : Registry) (name other : String) :
    (r.add name).pathOf other = r.pathOf other := by
  unfold add
  split <;> rfl

theorem Registry.dir_add (r : Registry) (name : String) : (r.add name).dir = r.dir := by
  unfold add
  split <;> rfl

theorem Registry.mem_add {r : Registry} {name : String} {p : Path} (hp : p ∈ (r.add name).files) :
    p ∈ r.files ∨ p = r.pathOf name := by
  unfold add at hp
  split at hp
  · exact .inl hp
  · simpa using hp

theorem Outcome.passed_eq_false {outcome : Outcome} :
    outcome.passed = false ↔ ∃ x y, outcome = .mismatch x y := by
  cases outcome <;> simp [passed]

/-- The second part of what the tools do in a test: solving, and the outcome. -/
def Tools.judge (tools : Tools τ) (name : String) (strategy : Strategy)
    (concrete abstracted : Path) (done : Bool) : Action (Bench τ) Outcome := do
  let before ← tools.solve concrete
  let after ← (if done then tools.solve abstracted else pure none : Action (Bench τ) (Option Bool))
  Bench.say .trial .info (name ++ " " ++ strategy.text ++ " " ++
    answerText before ++ " " ++ answerText after)
  return .ofAnswers before after

/-- What the tools do in a test, after the text has been written. -/
def Tools.compare (tools : Tools τ) (name : String) (strategy : Strategy)
    (source concrete abstracted : Path) : Action (Bench τ) Outcome := do
  tools.convert source concrete
  let done ← tools.abstract concrete abstracted strategy
  tools.judge name strategy concrete abstracted done

theorem Tools.test_eq (tools : Tools τ) (s : EqSystem) (name : String) (strategy : Strategy) :
    tools.test s name strategy = (do
      let source ← Session.register (sourceName name)
      Session.onBench (Bench.change (·.writeText source s.text))
      let concrete ← Session.register (concreteName name)
      let abstracted ← Session.register (abstractedName name)
      Session.onBench (tools.compare name strategy source concrete abstracted)) := by
  simp only [test, compare, judge, Session.onBench_bind]
  refine bind_congr fun source => bind_congr fun _ => bind_congr fun concrete =>
    bind_congr fun abstracted => bind_congr fun _ => bind_congr fun done =>
      bind_congr fun before => ?_
  cases done with
  | false => rfl
  | true => rfl

def Registry.addTest (r : Registry) (name : String) : Registry :=
  ((r.add (sourceName name)).add (concreteName name)).add (abstractedName name)

theorem Registry.dir_addTest (r : Registry) (name : String) : (r.addTest name).dir = r.dir := by
  simp only [addTest, dir_add]

/-- A test writes the text and leaves the rest to the tools, which find it written. -/
theorem Tools.ends_test {tools : Tools τ} {s : EqSystem} {name : String} {strategy : Strategy}
    {st : Session τ} {Q : Outcome → Session τ → Prop} {E : Failure → Session τ → Prop}
    (hok : ∀ disk,
      st.bench.disk.writeText (st.registry.pathOf (sourceName name)) s.text = .ok disk →
      Ends (fun outcome bench => Q outcome ⟨bench, st.registry.addTest name⟩)
        (fun e bench => E e ⟨bench, st.registry.addTest name⟩)
        (tools.compare name strategy (st.registry.pathOf (sourceName name))
          (st.registry.pathOf (concreteName name)) (st.registry.pathOf (abstractedName name))
          { st.bench with disk }))
    (herror : ∀ e,
      st.bench.disk.writeText (st.registry.pathOf (sourceName name)) s.text = .error e →
      E (.file e) ⟨st.bench, st.registry.add (sourceName name)⟩) :
    Ends Q E (tools.test s name strategy st) := by
  rw [test_eq]
  apply ends_bind
  apply Session.ends_register
  apply ends_bind
  apply Session.ends_onBench
  apply Bench.ends_change
  · intro disk hdisk
    apply ends_bind
    apply Session.ends_register
    apply ends_bind
    apply Session.ends_register
    apply Session.ends_onBench
    simp only [Registry.pathOf_add]
    exact hok disk hdisk
  · exact herror

/-- A test with an outcome, call by call. -/
theorem Tools.test_eq_ok {tools : Tools τ} {s : EqSystem} {name : String} {strategy : Strategy}
    {st st' : Session τ} {outcome : Outcome}
    (h : tools.test s name strategy st = (.ok outcome, st')) :
    let source := st.registry.pathOf (sourceName name)
    let concrete := st.registry.pathOf (concreteName name)
    let abstracted := st.registry.pathOf (abstractedName name)
    ∃ written converted done made,
      st.bench.disk.writeText source s.text = .ok written ∧
      tools.convert source concrete ⟨written, st.bench.log, st.bench.tools⟩ = (.ok (), converted) ∧
      tools.abstract concrete abstracted strategy converted = (.ok done, made) ∧
      tools.judge name strategy concrete abstracted done made = (.ok outcome, st'.bench) ∧
      st'.registry = st.registry.addTest name := by
  intro source concrete abstracted
  let Course (outcome : Outcome) (st' : Session τ) : Prop := ∃ written converted done made,
    st.bench.disk.writeText source s.text = .ok written ∧
    tools.convert source concrete ⟨written, st.bench.log, st.bench.tools⟩ = (.ok (), converted) ∧
    tools.abstract concrete abstracted strategy converted = (.ok done, made) ∧
    tools.judge name strategy concrete abstracted done made = (.ok outcome, st'.bench) ∧
    st'.registry = st.registry.addTest name
  have hend : Ends Course (fun _ _ => True) (tools.test s name strategy st) := by
    apply ends_test
    · intro written hwrite
      refine ⟨fun outcome houtcome => ?_, fun _ _ => trivial⟩
      obtain ⟨⟨⟩, converted, hconvert, hrest⟩ := Action.bind_eq_ok.mp (Prod.ext houtcome rfl)
      obtain ⟨done, made, habstract, hjudge⟩ := Action.bind_eq_ok.mp hrest
      exact ⟨written, converted, done, made, hwrite, hconvert, habstract, hjudge, rfl⟩
    · exact fun _ _ => trivial
  rw [h] at hend
  exact hend.ok outcome rfl

/-- What every test of a search keeps is kept by the search. -/
theorem Tools.keeps_run {tools : Tools τ} {name : String} {strategy : Strategy}
    {P : Session τ → Prop} (htest : ∀ q, Keeps P (tools.test q (name ++ "_minimize") strategy))
    (htell : ∀ st line, P st → P (Session.tell st line)) (m : Search) {st : Session τ} (h : P st) :
    P (Search.run (tools.probe name strategy) m st).2.2 := by
  have hkeeps : (tools.probe name strategy).Keeps P P := by
    refine ⟨fun q st hst => ?_, fun line st => htell st line⟩
    have hprobe : P ((tools.probe name strategy).passes q st).2 :=
      (htest q).bind (fun outcome => keeps_pure P outcome.passed) st hst
    exact ⟨fun _ _ => hprobe, fun _ _ => hprobe⟩
  obtain ⟨hok, herror⟩ := Search.run_keeps hkeeps m h
  cases hr : (Search.run (tools.probe name strategy) m st).1 with
  | ok r => exact hok r hr
  | error e => exact herror e hr

/-- The operation that `checkAndMinimize` finishes. -/
def Tools.check (tools : Tools τ) (s : EqSystem) (name : String) (strategy : Strategy) :
    Action (Session τ) (Option EqSystem) := do
  let outcome ← tools.test s (name ++ "_check") strategy
  Session.onBench (Bench.say .trial .info (name ++ ": " ++ outcome.text))
  if outcome.passed then return none
  return some (← tools.minimize s name strategy)

theorem Tools.checkAndMinimize_eq (tools : Tools τ) (keepFiles : Bool) (s : EqSystem)
    (name : String) (strategy : Strategy) : tools.checkAndMinimize keepFiles s name strategy =
      Session.finishing keepFiles (tools.check s name strategy) :=
  rfl

end PbesLab
