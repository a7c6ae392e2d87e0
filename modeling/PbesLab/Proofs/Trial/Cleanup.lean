import PbesLab.Proofs.Shrink.WellFormed
import PbesLab.Proofs.Trial.Traces

namespace PbesLab

open PbesLab.Action

variable {τ α : Type}

/-- From `start` an operation has come to `final` and has taken back what it left at the paths that
it registered. Nothing else differs but the target, and that exactly where a result is stored. -/
structure Session.CleanedUp (start : Session τ) (registered : List Path) (target : Path)
    (stored : EqSystem → Prop) (final : Session τ) : Prop where
  registry : final.registry = .within start.registry.dir
  current : final.bench.disk.current = start.bench.disk.current
  removed : ∀ p ∈ registered, ∀ content x, final.bench.disk.find p ≠ .ok (.file content x)
  apart : ∀ p ∈ registered, ∀ k, start.bench.disk.locate p = .ok k →
    start.bench.disk.locate target ≠ .ok k
  elsewhere (k : Location) : (∀ p ∈ registered, start.bench.disk.locate p ≠ .ok k) →
    start.bench.disk.locate target ≠ .ok k → final.bench.disk.entry? k = start.bench.disk.entry? k
  untouched : (∀ q, ¬ stored q) → ∀ k, start.bench.disk.locate target = .ok k →
    final.bench.disk.entry? k = start.bench.disk.entry? k
  result (q : EqSystem) : stored q → final.bench.disk.find target = .ok .sink ∨
    final.bench.disk.readText target = .ok q.text

namespace Session

variable {start st : Session τ} {name : String} {q : EqSystem} {stored : EqSystem → Prop}

theorem registry_finish (st : Session τ) : (st.finish true).registry = st.registry :=
  rfl

theorem disk_finish (st : Session τ) :
    (st.finish false).bench.disk = (st.bench.disk.discardAll st.registry.files).1 :=
  disk_cleanup st

/-- The result of a search is at no registered path. -/
theorem locate_target_ne (h : st.registry.Lists start.registry.dir name) :
    ∀ p ∈ st.registry.files, ∀ k, start.bench.disk.locate p = .ok k →
      start.bench.disk.locate (start.target name) ≠ .ok k := by
  intro p hp k hk htarget
  obtain ⟨ending, hending, rfl⟩ := h.files p hp
  exact Disk.locate_ne hending.1 (by decide) hending.2 hk htarget rfl

/-- Cleaning up takes nothing from other places. -/
theorem changedIn_finish {ps : List Path}
    (hdisk : start.bench.disk.Traced start.registry.dir name ps st.bench.disk)
    (h : st.registry.Lists start.registry.dir name) :
    st.bench.disk.ChangedIn (fun k => ∃ p ∈ st.registry.files, start.bench.disk.locate p = .ok k)
      (st.finish false).bench.disk := by
  rw [disk_finish]
  refine (Disk.changedIn_discardAll st.bench.disk st.registry.files).mono ?_
  rintro k ⟨p, hp, hk⟩
  obtain ⟨ending, hending, rfl⟩ := h.files p hp
  exact ⟨_, hp, (hdisk.places ending hending.1 k).mp hk⟩

/-- What is known before cleaning up tells what is there afterwards. -/
theorem cleanedUp_finish
    (hdisk : start.bench.disk.Traced start.registry.dir name
      (start.target name :: st.registry.files) st.bench.disk)
    (h : st.registry.Lists start.registry.dir name)
    (huntouched : (∀ q, ¬ stored q) → ∀ k, start.bench.disk.locate (start.target name) = .ok k →
      st.bench.disk.entry? k = start.bench.disk.entry? k)
    (hresult : ∀ q, stored q → st.bench.disk.find (start.target name) = .ok .sink ∨
      ∃ x, st.bench.disk.find (start.target name) = .ok (.file q.text.toUTF8 x)) :
    CleanedUp start st.registry.files (start.target name) stored (st.finish false) := by
  have hchanged := changedIn_finish hdisk h
  have hapart := locate_target_ne h
  -- The target is never registered, so the removal leaves alone what is there.
  have hfind {e : Entry} (he : st.bench.disk.find (start.target name) = .ok e) :
      (st.finish false).bench.disk.find (start.target name) = .ok e := by
    obtain ⟨l, hl, -⟩ := Disk.find_eq_ok.mp he
    have hstart := (hdisk.places "_minimized.txt" (by decide) l).mp hl
    rw [← he]
    exact hchanged.find_eq hl fun ⟨p, hp, hpl⟩ => hapart p hp l hpl hstart
  constructor
  case registry => exact congrArg Registry.within h.within
  case current => exact hchanged.current.trans hdisk.current
  case removed =>
    intro p hp content x
    rw [disk_finish]
    exact Disk.find_discardAll_ne hp _ content x
  case apart => exact hapart
  case elsewhere =>
    intro k hk htarget
    rw [hchanged.elsewhere k fun ⟨p, hp, hl⟩ => hk p hp hl]
    exact hdisk.elsewhere k (List.forall_mem_cons.mpr ⟨htarget, hk⟩)
  case untouched =>
    intro hnone k hk
    rw [hchanged.elsewhere k fun ⟨p, hp, hl⟩ => hapart p hp k hl hk]
    exact huntouched hnone k hk
  case result =>
    intro q hq
    obtain hsink | ⟨x, hfile⟩ := hresult q hq
    · exact .inl (hfind hsink)
    · exact .inr (Disk.readText_of_find (hfind hfile))

theorem Traced.cleanedUp (h : Traced start name st) (hnone : ∀ q, ¬ stored q) :
    CleanedUp start st.registry.files (start.target name) stored (st.finish false) := by
  refine cleanedUp_finish (h.disk.mono (List.subset_cons_self _ _)) h.registry (fun _ k hk => ?_)
    fun q hq => absurd hq (hnone q)
  exact h.disk.elsewhere k fun p hp hl => locate_target_ne h.registry p hp k hl hk

theorem Stored.cleanedUp (h : Stored start name q st) (hq : stored q)
    (honly : ∀ q', stored q' → q' = q) :
    CleanedUp start st.registry.files (start.target name) stored (st.finish false) :=
  cleanedUp_finish h.disk h.registry (fun hnone => absurd hq (hnone q))
    fun q' hq' => honly q' hq' ▸ h.target

theorem traced_start (bench : Bench τ) (dir : Path) (name : String) :
    Traced ⟨bench, .within dir⟩ name ⟨bench, .within dir⟩ :=
  ⟨.refl _ _ _ _, rfl, nofun⟩

end Session

namespace Tools

open Session

variable {tools : Tools τ} {start : Session τ} {name : String}

theorem Stores.unique {s : EqSystem} {strategy : Strategy} {st : Session τ} {q q' : EqSystem}
    (h : tools.Stores s name strategy st q) (h' : tools.Stores s name strategy st q') : q' = q := by
  obtain ⟨m, st₁, disk, hrun, -⟩ := h
  obtain ⟨m', st₂, disk', hrun', -⟩ := h'
  rw [hrun] at hrun'
  exact (Except.ok.inj (congrArg Prod.fst hrun')).symm

theorem Makes.unique {st last last' : Session τ} {trials : List Trial}
    (h : tools.Makes st trials last) (h' : tools.Makes st trials last') : last' = last := by
  induction h with
  | nil st =>
    cases h'
    rfl
  | cons test makes ih =>
    cases h' with
    | cons test' makes' =>
      rw [test] at test'
      obtain rfl := congrArg Prod.snd test'
      exact ih makes'

/-- The last of the tests finds a mismatch, and the search that follows stores `q`. -/
def SeriesStores (tools : Tools τ) (plan : Plan) (start : Session τ) (trials : List Trial)
    (q : EqSystem) : Prop :=
  ∃ before t x y last, trials = before ++ [t] ∧ t.result = .ok (.mismatch x y) ∧
    tools.Makes start trials last ∧ plan.minimize = true ∧
    tools.Stores t.system plan.name t.strategy last q

/-- The test finds a mismatch, which is told, and the search that follows stores `q`. -/
def CheckStores (tools : Tools τ) (s : EqSystem) (name : String) (strategy : Strategy)
    (start : Session τ) (q : EqSystem) : Prop :=
  ∃ x y st, tools.test s (name ++ "_check") strategy start = (.ok (.mismatch x y), st) ∧
    tools.Stores s name strategy
      (st.tell ⟨.trial, .info, name ++ ": " ++ (Outcome.mismatch x y).text⟩) q

/-- What a series has stored is up to its last test. -/
theorem SeriesStores.of_last {plan : Plan} {before : List Trial} {t : Trial} {last : Session τ}
    {q : EqSystem} (h : tools.SeriesStores plan start (before ++ [t]) q)
    (hmakes : tools.Makes start (before ++ [t]) last) :
    (∃ x y, t.result = .ok (.mismatch x y)) ∧ plan.minimize = true ∧
      tools.Stores t.system plan.name t.strategy last q := by
  obtain ⟨before', t', x, y, last', hsplit, hresult, hmakes', hminimize, hstores⟩ := h
  obtain ⟨-, ht⟩ := List.append_inj' hsplit rfl
  obtain rfl : t = t' := List.singleton_inj.mp ht
  rw [hmakes.unique hmakes'] at hstores
  exact ⟨⟨x, y, hresult⟩, hminimize, hstores⟩

theorem WritesOutput.cleanedUp_closes (h : tools.WritesOutput) {plan : Plan} {count : Nat}
    {trials : List Trial} {last st : Session τ} {r : Except Failure Unit}
    (hlast : Traced start plan.name last) (hmakes : tools.Makes start trials last)
    (hcloses : tools.Closes plan count last trials (r, st)) :
    CleanedUp start st.registry.files (start.target plan.name)
      (tools.SeriesStores plan start trials) (st.finish false) := by
  cases hcloses with
  | passed length pass =>
    refine hlast.cleanedUp ?_
    rintro q ⟨before, t, x, y, -, hsplit, hresult, -⟩
    exact Trial.not_passes_of_mismatch hresult (pass t (hsplit ▸ List.mem_concat_self))
  | broken pass result =>
    refine hlast.cleanedUp fun q hq => ?_
    obtain ⟨⟨x, y, hresult⟩, -⟩ := hq.of_last hmakes
    rw [result] at hresult
    cases hresult
  | mismatch pass result plain =>
    refine hlast.cleanedUp fun q hq => ?_
    obtain ⟨-, hminimize, -⟩ := hq.of_last hmakes
    rw [plain] at hminimize
    cases hminimize
  | @minimized before t x y q st pass result minimize search =>
    have hend := h.ends_minimize t.system t.strategy hlast
    rw [search] at hend
    obtain ⟨hstores, hstored⟩ := hend.ok q rfl
    refine hstored.cleanedUp ⟨before, t, x, y, last, rfl, result, hmakes, minimize, hstores⟩ ?_
    exact fun q' hq' => hstores.unique (hq'.of_last hmakes).2.2
  | @abandoned before t x y e st pass result minimize search =>
    have hend := h.ends_minimize t.system t.strategy hlast
    rw [search] at hend
    obtain ⟨hnone, htraced⟩ := hend.error e rfl
    exact htraced.cleanedUp fun q hq => hnone q (hq.of_last hmakes).2.2

theorem WritesOutput.cleanedUp_iterate (h : tools.WritesOutput) (plan : Plan)
    (draws : Sampling.Draws) (hstart : Traced start plan.name start) :
    let st := (tools.iterate plan plan.iterations 0 draws start).2
    CleanedUp start st.registry.files (start.target plan.name)
      (tools.SeriesStores plan start (tools.trials plan plan.iterations 0 draws start))
      (st.finish false) := by
  intro st
  obtain ⟨last, hmakes, hcloses⟩ := tools.iterate_closes plan plan.iterations 0 draws start
  have hname : ∀ t ∈ tools.trials plan plan.iterations 0 draws start, t.name = plan.name := by
    intro t ht
    obtain ⟨i, hi⟩ := List.mem_iff_getElem?.mp ht
    exact (tools.trials_drawn plan draws plan.iterations 0 start hi).2.1
  exact h.cleanedUp_closes (h.traced_makes hmakes hname hstart) hmakes hcloses

theorem WritesOutput.cleanedUp_check (h : tools.WritesOutput) (s : EqSystem) (strategy : Strategy)
    (hstart : Traced start name start) :
    let st := (tools.check s name strategy start).2
    CleanedUp start st.registry.files (start.target name) (tools.CheckStores s name strategy start)
      (st.finish false) := by
  have htest := h.keeps_test s strategy "_check" (by decide) start hstart
  unfold check
  rw [bind_apply]
  rcases hend : tools.test s (name ++ "_check") strategy start with ⟨e | outcome, st⟩
  · rw [hend] at htest
    refine htest.cleanedUp ?_
    rintro q ⟨x, y, st', hmismatch, -⟩
    rw [hend] at hmismatch
    cases hmismatch
  · rw [hend] at htest
    let told := st.tell ⟨.trial, .info, name ++ ": " ++ outcome.text⟩
    have htold : Traced start name told := ⟨htest.disk, htest.registry⟩
    have hsay {f : Unit → Action (Session τ) (Option EqSystem)} : (Session.onBench
        (Bench.say .trial .info (name ++ ": " ++ outcome.text)) >>= f) st = f () told := by
      rw [bind_apply]
      rfl
    dsimp only
    rw [hsay]
    -- Something is stored only by a search, and there is none without a mismatch.
    cases hpassed : outcome.passed with
    | true =>
      refine htold.cleanedUp ?_
      rintro q ⟨x, y, st', hmismatch, -⟩
      rw [hend] at hmismatch
      cases hmismatch
      cases hpassed
    | false =>
      obtain ⟨x, y, rfl⟩ := Outcome.passed_eq_false.mp hpassed
      have hminimize := h.ends_minimize s strategy htold
      have hstores {q : EqSystem} (hq : tools.CheckStores s name strategy start q) :
          tools.Stores s name strategy told q := by
        obtain ⟨x', y', st', hmismatch, hq⟩ := hq
        rw [hend] at hmismatch
        cases hmismatch
        exact hq
      rw [if_neg Bool.false_ne_true, bind_apply]
      rcases hsearch : tools.minimize s name strategy told with ⟨e | q, st'⟩
      · rw [hsearch] at hminimize
        obtain ⟨hnone, htraced⟩ := hminimize.error e rfl
        exact htraced.cleanedUp fun q hq => hnone q (hstores hq)
      · rw [hsearch] at hminimize
        obtain ⟨hq, hstored⟩ := hminimize.ok q rfl
        exact hstored.cleanedUp ⟨x, y, st, hend, hq⟩ fun q' hq' => hq.unique (hstores hq')

end Tools

/-- For tools that leave things at their output only, on any disk, with any plan and stream and
whichever call fails: after a series, and after a check with its search, no file is at any path that
was registered, the registry is empty, and every other place is as it was, except that the target
holds the text of the result where a search has stored one. The registered paths are those that
still are when the files are kept. -/
theorem operations_clean_up {tools : Tools τ} (h : tools.WritesOutput) (bench : Bench τ)
    (dir : Path) :
    let start : Session τ := ⟨bench, .within dir⟩
    (∀ (plan : Plan) (draws : Sampling.Draws),
      start.CleanedUp (tools.runSeries true plan draws start).2.registry.files
        (dir.join ⟨plan.name ++ "_minimized.txt"⟩)
        (tools.SeriesStores plan start (tools.trials plan plan.iterations 0 draws start))
        (tools.runSeries false plan draws start).2) ∧
    ∀ (s : EqSystem) (name : String) (strategy : Strategy),
      start.CleanedUp (tools.checkAndMinimize true s name strategy start).2.registry.files
        (dir.join ⟨name ++ "_minimized.txt"⟩) (tools.CheckStores s name strategy start)
        (tools.checkAndMinimize false s name strategy start).2 := by
  intro start
  have hstart : ∀ name, start.Traced name start := Session.traced_start bench dir
  refine ⟨fun plan draws => ?_, fun s name strategy => ?_⟩
  · have hend := h.cleanedUp_iterate plan draws (hstart plan.name)
    simp only [Tools.runSeries, Session.finishing_apply, Session.registry_finish]
    exact hend
  · have hend := h.cleanedUp_check s strategy (hstart name)
    simp only [Tools.checkAndMinimize_eq, Session.finishing_apply, Session.registry_finish]
    exact hend

/-- The abstraction fails after it has begun to write. -/
def breakingTools : Tools Unit where
  convert _ output := Bench.change (·.writeText output "pbes")
  abstract _ output _ := do
    Bench.change (·.writeText output "half")
    throw (.toolExited "abstract" 1)
  solve _ := return none

theorem breakingTools_writesOutput : breakingTools.WritesOutput where
  convert _ output b := Bench.onlyAt_write output "pbes".toUTF8 b
  abstract _ output _ b := by
    simp only [breakingTools, Disk.writeText]
    exact Bench.onlyAt_write_bind (fun _ => rfl) output _ b
  solve _ _ := .refl _ _

def emptyRoom : Bench Unit :=
  ⟨⟨[(["w"], .directory)], []⟩, [], ()⟩

theorem breakingTools_clean_up : breakingTools.WritesOutput ∧ ∃ kept final,
    breakingTools.checkAndMinimize true hidingSystem "x" .overApprox ⟨emptyRoom, .within ⟨"w"⟩⟩ =
      (.error (.toolExited "abstract" 1), kept) ∧
    breakingTools.checkAndMinimize false hidingSystem "x" .overApprox ⟨emptyRoom, .within ⟨"w"⟩⟩ =
      (.error (.toolExited "abstract" 1), final) ∧
    kept.bench.disk.readText ⟨"w/x_checkb.pbes"⟩ = .ok "half" ∧
    kept.registry.files = [⟨"w/x_check.txt"⟩, ⟨"w/x_checka.pbes"⟩, ⟨"w/x_checkb.pbes"⟩] ∧
    ∀ p ∈ kept.registry.files, ∀ content x, final.bench.disk.find p ≠ .ok (.file content x) := by
  have herror (keepFiles : Bool) : (breakingTools.checkAndMinimize keepFiles hidingSystem "x"
      .overApprox ⟨emptyRoom, .within ⟨"w"⟩⟩).1 = .error (.toolExited "abstract" 1) := by
    cases keepFiles <;> decide +kernel
  have hkept := herror true
  have hfinal := herror false
  have hhalf : (breakingTools.checkAndMinimize true hidingSystem "x" .overApprox
      ⟨emptyRoom, .within ⟨"w"⟩⟩).2.bench.disk.readText ⟨"w/x_checkb.pbes"⟩ = .ok "half" := by
    decide +kernel
  have hfiles : (breakingTools.checkAndMinimize true hidingSystem "x" .overApprox
      ⟨emptyRoom, .within ⟨"w"⟩⟩).2.registry.files =
        [⟨"w/x_check.txt"⟩, ⟨"w/x_checka.pbes"⟩, ⟨"w/x_checkb.pbes"⟩] := by
    decide +kernel
  have hend := ((operations_clean_up breakingTools_writesOutput emptyRoom ⟨"w"⟩).2
    hidingSystem "x" .overApprox).removed
  generalize breakingTools.checkAndMinimize true hidingSystem "x" .overApprox
    ⟨emptyRoom, .within ⟨"w"⟩⟩ = kept at *
  generalize breakingTools.checkAndMinimize false hidingSystem "x" .overApprox
    ⟨emptyRoom, .within ⟨"w"⟩⟩ = final at *
  obtain ⟨_, kept⟩ := kept
  obtain ⟨_, final⟩ := final
  obtain rfl := hkept
  obtain rfl := hfinal
  exact ⟨breakingTools_writesOutput, kept, final, rfl, rfl, hhalf, hfiles, hend⟩

end PbesLab
