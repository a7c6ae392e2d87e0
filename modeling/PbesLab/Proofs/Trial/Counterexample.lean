import PbesLab.Proofs.Shrink.Minimum
import PbesLab.Proofs.Shrink.WellFormed
import PbesLab.Proofs.Trial.Comparison

namespace PbesLab

open PbesLab.Action

variable {τ ε α : Type}

namespace Tools

/-- The test finds different answers, under any name and in any session with room for its files. -/
def Mismatches (tools : Tools τ) (s : EqSystem) (strategy : Strategy) : Prop :=
  ∀ (st : Session τ) (name : String), st.Admits name →
    ∃ x y, (tools.test s name strategy st).1 = .ok (.mismatch x y)

/-- The test passes, under any name and in any session with room for its files. -/
def Passes (tools : Tools τ) (s : EqSystem) (strategy : Strategy) : Prop :=
  ∀ (st : Session τ) (name : String), st.Admits name →
    ∃ outcome, (tools.test s name strategy st).1 = .ok outcome ∧ ∀ x y, outcome ≠ .mismatch x y

/-- The test gives no outcome, under any name and in any session with room for its files. -/
def Breaks (tools : Tools τ) (s : EqSystem) (strategy : Strategy) : Prop :=
  ∀ (st : Session τ) (name : String), st.Admits name →
    ∃ e, (tools.test s name strategy st).1 = .error e

variable {tools : Tools τ} {s : EqSystem} {strategy : Strategy}

theorem Mismatches.not_passes (h : tools.Mismatches s strategy) {st : Session τ} {name : String}
    (hst : st.Admits name) : ¬ tools.Passes s strategy := by
  intro hpasses
  obtain ⟨x, y, hxy⟩ := h st name hst
  obtain ⟨outcome, hok, hne⟩ := hpasses st name hst
  exact hne x y (Except.ok.inj (hok.symm.trans hxy))

end Tools

/-- The outcome for a text tells whether its test passes. -/
def FileResults.Judges (f : FileResults ε) (s : EqSystem) (strategy : Strategy) (passed : Bool) :
    Prop :=
  ∃ outcome, f.outcome s.text.toUTF8 strategy = .ok outcome ∧ outcome.passed = passed

def FileResults.Breaks (f : FileResults ε) (s : EqSystem) (strategy : Strategy) : Prop :=
  ∃ e, f.outcome s.text.toUTF8 strategy = .error e

/-- A counterexample reached from `s` that no lighter step from it is. -/
structure FileResults.Minimized (f : FileResults ε) (strategy : Strategy) (s q : EqSystem) :
    Prop where
  fails : f.Judges q strategy false
  check : s.check = .ok () → q.check = .ok ()
  lighter : ∀ c ∈ q.reductions, c.check = .ok () → c.weight < q.weight → f.Judges c strategy true

namespace Tools.Follows

variable {tools : Tools τ} {view : Failure → ε} {f : FileResults ε} {s : EqSystem}
  {strategy : Strategy}

theorem test_eq_of_judges (hf : tools.Follows view Disk.ChangedIn f) {passed : Bool}
    (h : f.Judges s strategy passed) {st : Session τ} {name : String} (hst : st.Admits name) :
    ∃ outcome, (tools.test s name strategy st).1 = .ok outcome ∧ outcome.passed = passed := by
  have hend := hf.ends_test Disk.isFrame_changedIn s strategy hst
  obtain ⟨outcome, houtcome, hpassed⟩ := h
  cases hr : (tools.test s name strategy st).1 with
  | error e =>
    rw [hend.error e hr] at houtcome
    cases houtcome
  | ok outcome' =>
    obtain ⟨houtcome', -⟩ := hend.ok outcome' hr
    rw [houtcome] at houtcome'
    obtain rfl := Except.ok.inj houtcome'
    exact ⟨outcome, rfl, hpassed⟩

theorem mismatches_of_judges (hf : tools.Follows view Disk.ChangedIn f)
    (h : f.Judges s strategy false) : tools.Mismatches s strategy := by
  intro st name hst
  obtain ⟨outcome, hr, hpassed⟩ := hf.test_eq_of_judges h hst
  obtain ⟨x, y, rfl⟩ := Outcome.passed_eq_false.mp hpassed
  exact ⟨x, y, hr⟩

theorem passes_of_judges (hf : tools.Follows view Disk.ChangedIn f)
    (h : f.Judges s strategy true) : tools.Passes s strategy := by
  intro st name hst
  obtain ⟨outcome, hr, hpassed⟩ := hf.test_eq_of_judges h hst
  refine ⟨outcome, hr, fun x y hxy => ?_⟩
  subst hxy
  cases hpassed

theorem breaks_of_outcome (hf : tools.Follows view Disk.ChangedIn f) (h : f.Breaks s strategy) :
    tools.Breaks s strategy := by
  intro st name hst
  have hend := hf.ends_test Disk.isFrame_changedIn s strategy hst
  obtain ⟨e', herror⟩ := h
  cases hr : (tools.test s name strategy st).1 with
  | error e => exact ⟨e, rfl⟩
  | ok outcome =>
    obtain ⟨houtcome, -⟩ := hend.ok outcome hr
    rw [herror] at houtcome
    cases houtcome

theorem not_breaks_of_judges (hf : tools.Follows view Disk.ChangedIn f) {passed : Bool}
    (h : f.Judges s strategy passed) {st : Session τ} {name : String} (hst : st.Admits name) :
    ¬ tools.Breaks s strategy := by
  intro hbreaks
  obtain ⟨e, he⟩ := hbreaks st name hst
  obtain ⟨outcome, hok, -⟩ := hf.test_eq_of_judges h hst
  rw [he] at hok
  cases hok

end Tools.Follows

theorem Registry.mem_addTest {r : Registry} {name : String} {p : Path}
    (hp : p ∈ (r.addTest name).files) :
    p ∈ r.files ∨ ∃ ending ∈ testEndings, p = r.pathOf (name ++ ending) := by
  obtain hp | rfl := mem_add hp
  · obtain hp | rfl := mem_add hp
    · obtain hp | rfl := mem_add hp
      · exact .inl hp
      · exact .inr ⟨".txt", by decide, rfl⟩
    · exact .inr ⟨"a.pbes", by decide, pathOf_add r _ _⟩
  · exact .inr ⟨"b.pbes", by decide, by rw [pathOf_add, pathOf_add]; rfl⟩

namespace Session

/-- Since `start`, tests have been made under names in `names` only: nothing else has been
registered, and the disk has changed at places in `P` only. -/
structure Kept (start : Session τ) (names : List String) (P : Location → Prop) (st : Session τ) :
    Prop where
  disk : start.bench.disk.ChangedIn P st.bench.disk
  dir : st.registry.dir = start.registry.dir
  files : ∀ p ∈ st.registry.files, ∃ name ∈ names, ∃ ending ∈ testEndings,
    p = start.registry.pathOf (name ++ ending)

namespace Kept

variable {start st st' : Session τ} {names : List String} {name : String} {P Q : Location → Prop}

theorem pathOf (h : Kept start names P st) (name : String) :
    st.registry.pathOf name = start.registry.pathOf name := by
  unfold Registry.pathOf
  rw [h.dir]

theorem admits (h : Kept start names P st) (hname : start.Admits name) : st.Admits name := by
  intro ending hending
  obtain ⟨l, hl⟩ := hname ending hending
  rw [h.pathOf]
  exact ⟨l, hl.changed h.disk⟩

/-- A test under one of the names. -/
theorem test (h : Kept start names P st) (hname : name ∈ names)
    (hP : ∀ k, start.TestPlace name k → P k)
    (hdisk : st.bench.disk.ChangedIn (st.TestPlace name) st'.bench.disk)
    (hregistry : st'.registry = st.registry.addTest name) : Kept start names P st' where
  disk := by
    refine h.disk.trans (hdisk.mono fun k hk => hP k ?_)
    obtain ⟨ending, hending, hk⟩ | hk := hk
    · rw [h.pathOf] at hk
      exact .inl ⟨ending, hending, h.disk.locate_eq_ok.mp hk⟩
    · exact .inr hk
  dir := by rw [hregistry, Registry.dir_addTest, h.dir]
  files p hp := by
    rw [hregistry] at hp
    obtain hp | ⟨ending, hending, rfl⟩ := Registry.mem_addTest hp
    · exact h.files p hp
    · exact ⟨name, hname, ending, hending, h.pathOf _⟩

/-- The text of a search's result is stored at a place of its own. -/
theorem ends_write (h : Kept start names P st) {m : Search} {l : Location}
    (htarget : start.bench.disk.Takes (start.registry.pathOf (name ++ "_minimized.txt")) l)
    (hm : m.name = name) :
    Ends (fun _ st' => Kept start names (fun k => P k ∨ k = l) st' ∧
        st'.bench.disk.Holds l m.current.text.toUTF8)
      (fun _ _ => False) (onBench (m.write st.registry.dir) st) := by
  have hresult : st.registry.dir.join ⟨m.resultName⟩ =
      start.registry.pathOf (name ++ "_minimized.txt") := by
    rw [Search.resultName, hm, h.dir]
    rfl
  have hwrite := (htarget.changed h.disk).ends_write m.current.text.toUTF8
    (E := fun _ _ => False)
  rw [← hresult] at hwrite
  apply ends_onBench
  apply ends_bind
  refine hwrite.imp ?_ fun _ _ => id
  rintro - b ⟨hchanged, hholds⟩
  refine ends_bind (ends_ok (ends_pure ⟨⟨?_, h.dir, h.files⟩, hholds⟩))
  exact (h.disk.mono fun k hk => .inl hk).trans (hchanged.mono fun k hk => .inr hk)

/-- Cleaning up removes files of tests only. -/
theorem find_finish (h : Kept start names P st) (keepFiles : Bool) {p : Path} {l : Location}
    (hp : start.bench.disk.locate p = .ok l)
    (hl : ∀ name ∈ names, ∀ ending ∈ testEndings,
      start.bench.disk.locate (start.registry.pathOf (name ++ ending)) ≠ .ok l) :
    (st.finish keepFiles).bench.disk.find p = st.bench.disk.find p := by
  cases keepFiles with
  | true => rfl
  | false =>
    have hdisk : (st.finish false).bench.disk = (st.bench.disk.discardAll st.registry.files).1 :=
      Bench.disk_tellAll _ _
    rw [hdisk]
    refine (Disk.changedIn_discardAll st.bench.disk st.registry.files).find_eq
      (h.disk.locate_eq_ok.mpr hp) ?_
    rintro ⟨q, hq, hlocate⟩
    obtain ⟨name, hname, ending, hending, rfl⟩ := h.files q hq
    exact hl name hname ending hending (h.disk.locate_eq_ok.mp hlocate)

end Kept

end Session

namespace Tools.Follows

open Session

variable {tools : Tools τ} {view : Failure → ε} {f : FileResults ε} {s : EqSystem} {name : String}
  {strategy : Strategy} {start st : Session τ} {names : List String} {P : Location → Prop}

/-- A search keeps what its tests keep. Each answer is the one for the text of the system. It breaks
only where a test does. -/
theorem kept_run (hf : tools.Follows view Disk.ChangedIn f) (strategy : Strategy)
    (hname : name ++ "_minimize" ∈ names) (hP : ∀ k, start.TestPlace (name ++ "_minimize") k → P k)
    (hadmits : start.Admits (name ++ "_minimize")) (hkept : Kept start names P st) (m : Search) :
    let p := tools.probe name strategy
    (∀ r, (Search.run p m st).1 = .ok r → Kept start names P (Search.run p m st).2.2 ∧
      ∀ c ∈ Search.calls p m st, ∃ passed, c.answer = .ok passed ∧
        f.Judges c.system strategy passed) ∧
      ∀ e, (Search.run p m st).1 = .error e → ∃ t, f.Breaks t strategy := by
  intro p
  let judged := fun (st' : Session τ) (calls : List (Call Failure)) => Kept start names P st' ∧
    ∀ c ∈ calls, ∃ passed, c.answer = .ok passed ∧ f.Judges c.system strategy passed
  let broken := fun (_ : Session τ) (_ : List (Call Failure)) => ∃ t, f.Breaks t strategy
  -- A test that fails itself ends the search, so until then every call has been judged.
  have hpasses : ∀ q st' before, judged st' before →
      (∀ b, (p.passes q st').1 = .ok b → judged (p.passes q st').2 (before ++ [⟨q, .ok b⟩])) ∧
      ∀ e, (p.passes q st').1 = .error e →
        broken (p.passes q st').2 (before ++ [⟨q, .error e⟩]) := by
    rintro q st' before ⟨hkept', hcalls⟩
    have hprobe : Ends (fun passed st'' => Kept start names P st'' ∧ f.Judges q strategy passed)
        (fun _ _ => f.Breaks q strategy) (p.passes q st') := by
      have hend := hf.ends_test Disk.isFrame_changedIn q strategy
        (hkept'.admits hadmits)
      refine ends_bind (hend.imp ?_ fun e _ he => ⟨view e, he⟩)
      rintro outcome st'' ⟨houtcome, hdisk, hregistry⟩
      exact ends_pure ⟨hkept'.test hname hP hdisk hregistry, outcome, houtcome, rfl⟩
    refine ⟨fun b hb => ?_, fun e he => ⟨q, hprobe.error e he⟩⟩
    obtain ⟨hkept'', hjudges⟩ := hprobe.ok b hb
    refine ⟨hkept'', fun c hc => ?_⟩
    obtain hc | hc := List.mem_append.mp hc
    · exact hcalls c hc
    · obtain rfl := List.mem_singleton.mp hc
      exact ⟨b, rfl, hjudges⟩
  have hnote : ∀ line st' before, judged st' before → judged (p.note line st') before :=
    fun _ _ _ ⟨hkept', hcalls⟩ => ⟨⟨hkept'.disk, hkept'.dir, hkept'.files⟩, hcalls⟩
  exact Search.run_keeps_calls hpasses hnote m ⟨hkept, nofun⟩

theorem minimized_result (hf : tools.Follows view Disk.ChangedIn f)
    (hname : name ++ "_minimize" ∈ names) (hP : ∀ k, start.TestPlace (name ++ "_minimize") k → P k)
    (hadmits : start.Admits (name ++ "_minimize")) (hkept : Kept start names P st)
    (hs : f.Judges s strategy false) {r : EqSystem}
    (hr : (Search.run (tools.probe name strategy) (Search.start name s) st).1 = .ok r) :
    f.Minimized strategy s r := by
  obtain ⟨-, hjudged⟩ := (hf.kept_run strategy hname hP hadmits hkept (Search.start name s)).1 r hr
  obtain ⟨hresult, hsweep⟩ := Search.calls_of_result hr
  have hanswer : ∀ {q b}, ⟨q, .ok b⟩ ∈ Search.calls (tools.probe name strategy)
      (Search.start name s) st → f.Judges q strategy b := by
    intro q b hq
    obtain ⟨passed, hpassed, hjudges⟩ := hjudged _ hq
    obtain rfl := Except.ok.inj hpassed
    exact hjudges
  refine ⟨?_, fun hcheck => ?_, fun c hc hcheck hlight => ?_⟩
  · obtain rfl | hcall := hresult
    · exact hs
    · exact hanswer hcall
  · obtain rfl | hcall := hresult
    · exact hcheck
    · exact Search.check_of_mem_calls hcall
  · exact hanswer (hsweep c (Search.mem_lighter.mpr ⟨hc, hcheck, hlight⟩))

/-- A search from a counterexample ends on one, and its text is stored. -/
theorem ends_minimize (hf : tools.Follows view Disk.ChangedIn f) {l : Location}
    (hname : name ++ "_minimize" ∈ names) (hP : ∀ k, start.TestPlace (name ++ "_minimize") k → P k)
    (hadmits : start.Admits (name ++ "_minimize"))
    (htarget : start.bench.disk.Takes (start.registry.pathOf (name ++ "_minimized.txt")) l)
    (hkept : Kept start names P st) (hs : f.Judges s strategy false) :
    Ends (fun q st' => f.Minimized strategy s q ∧
        Kept start names (fun k => P k ∨ k = l) st' ∧ st'.bench.disk.Holds l q.text.toUTF8)
      (fun _ _ => ∃ t, f.Breaks t strategy)
      (tools.minimize s name strategy st) := by
  have hplace := Search.run_place (tools.probe name strategy) (Search.start name s) st
  obtain ⟨hok, herror⟩ := hf.kept_run strategy hname hP hadmits hkept (Search.start name s)
  unfold minimize
  rcases hend : Search.run (tools.probe name strategy) (Search.start name s) st with ⟨r, m, st'⟩
  cases r with
  | error e =>
    rw [hend] at herror
    exact ends_error (herror e rfl)
  | ok r =>
    have hr : (Search.run (tools.probe name strategy) (Search.start name s) st).1 = .ok r := by
      rw [hend]
    have hminimized := hf.minimized_result hname hP hadmits hkept hs hr
    obtain ⟨hkept', -⟩ := hok r hr
    rw [hend] at hkept' hplace
    have hm : m.name = name := hplace.1
    have hcurrent : m.current = r := hplace.2 r rfl
    subst hcurrent
    apply ends_bind
    refine (hkept'.ends_write htarget hm).imp ?_ fun _ _ => False.elim
    rintro - st'' ⟨hkept'', hholds⟩
    exact ends_pure ⟨hminimized, hkept'', hholds⟩

end Tools.Follows

def operationNames (name : String) : List String :=
  [name ++ "_check", name ++ "_minimize"]

theorem forall_mem_operationNames {Q : String → Prop} {name : String}
    (h : ∀ part ∈ ["_check", "_minimize"], Q (name ++ part)) :
    ∀ part ∈ operationNames name, Q part :=
  List.forall_mem_map (f := (name ++ ·)).mpr h

/-- How the files of an operation end: those of its tests, and the result. -/
def operationEndings : List String :=
  ["_check.txt", "_checka.pbes", "_checkb.pbes", "_minimize.txt", "_minimizea.pbes",
    "_minimizeb.pbes", "_minimized.txt"]

/-- Where an operation may leave something before its end. -/
def Session.OperationPlace (start : Session τ) (name : String) (k : Location) : Prop :=
  ∃ part ∈ operationNames name, start.TestPlace part k

theorem Session.kept_start (bench : Bench τ) (dir : Path) (names : List String)
    (P : Location → Prop) : Kept ⟨bench, .within dir⟩ names P ⟨bench, .within dir⟩ :=
  ⟨.refl P bench.disk, rfl, nofun⟩

section

variable {start st : Session τ} {name : String} {l : Location}

theorem Session.admits_of_operation
    (hroom : ∀ ending ∈ operationEndings,
      ∃ l, start.bench.disk.Takes (start.registry.pathOf (name ++ ending)) l) :
    ∀ part ∈ operationNames name, start.Admits part := by
  have hlisted : ∀ part ∈ ["_check", "_minimize"], ∀ ending ∈ testEndings,
      part ++ ending ∈ operationEndings := by decide
  refine forall_mem_operationNames fun part hpart ending hending => ?_
  rw [String.append_assoc]
  exact hroom (part ++ ending) (hlisted part hpart ending hending)

/-- The result has a place of its own. -/
theorem Session.locate_ne_result
    (hl : start.bench.disk.locate (start.registry.pathOf (name ++ "_minimized.txt")) = .ok l) :
    ∀ part ∈ operationNames name, ∀ ending ∈ testEndings,
      start.bench.disk.locate (start.registry.pathOf (part ++ ending)) ≠ .ok l := by
  have hendings : ∀ part ∈ ["_check", "_minimize"], ∀ ending ∈ testEndings,
      IsEnding (part ++ ending) ∧ part ++ ending ≠ "_minimized.txt" := by decide
  refine forall_mem_operationNames fun part hpart ending hending hk => ?_
  obtain ⟨his, hne⟩ := hendings part hpart ending hending
  rw [String.append_assoc] at hk
  exact Disk.locate_ne his (by decide) hne hk hl rfl

/-- Without a search there is at the end what was there before. -/
theorem Session.Kept.find_result
    (h : Kept start (operationNames name) (start.OperationPlace name) st) (keepFiles : Bool)
    (hl : start.bench.disk.locate (start.registry.pathOf (name ++ "_minimized.txt")) = .ok l) :
    (st.finish keepFiles).bench.disk.find (start.registry.pathOf (name ++ "_minimized.txt")) =
      start.bench.disk.find (start.registry.pathOf (name ++ "_minimized.txt")) := by
  have hapart := locate_ne_result hl
  have huntouched : ¬ start.OperationPlace name l := by
    rintro ⟨part, hpart, ⟨ending, hending, hk⟩ | hk⟩
    · exact hapart part hpart ending hending hk
    · exact not_isAnswerPlace (by decide) (by decide) hl hk
  rw [h.find_finish keepFiles hl hapart]
  exact h.disk.find_eq hl huntouched

/-- What a search stores is there at the end. -/
theorem Session.Kept.readText_result {P : Location → Prop} {q : EqSystem}
    (h : Kept start (operationNames name) P st) (keepFiles : Bool)
    (hl : start.bench.disk.locate (start.registry.pathOf (name ++ "_minimized.txt")) = .ok l)
    (hholds : st.bench.disk.Holds l q.text.toUTF8) :
    (st.finish keepFiles).bench.disk.readText
      (start.registry.pathOf (name ++ "_minimized.txt")) = .ok q.text := by
  obtain ⟨x, hx⟩ := hholds.find (h.disk.locate_eq_ok.mpr hl)
  apply Disk.readText_of_find (x := x)
  rw [h.find_finish keepFiles hl (locate_ne_result hl)]
  exact hx

end

/-- The first test decides whether there is a search. -/
theorem Tools.Follows.ends_operation {tools : Tools τ} {view : Failure → ε} {f : FileResults ε}
    (hf : tools.Follows view Disk.ChangedIn f) (s : EqSystem) {name : String}
    (strategy : Strategy) {start : Session τ} {l : Location}
    (hadmits : ∀ part ∈ operationNames name, start.Admits part)
    (htarget : start.bench.disk.Takes (start.registry.pathOf (name ++ "_minimized.txt")) l)
    (hstart : start.Kept (operationNames name) (start.OperationPlace name) start)
    (keepFiles : Bool) :
    Ends (fun result final => ∃ st', final = st'.finish keepFiles ∧
        (result = none → f.Judges s strategy true ∧
          start.Kept (operationNames name) (start.OperationPlace name) st') ∧
        ∀ q, result = some q → f.Judges s strategy false ∧ f.Minimized strategy s q ∧
          start.Kept (operationNames name) (fun k => start.OperationPlace name k ∨ k = l) st' ∧
          st'.bench.disk.Holds l q.text.toUTF8)
      (fun _ _ => ∃ t, f.Breaks t strategy)
      (tools.checkAndMinimize keepFiles s name strategy start) := by
  have hcheckName : name ++ "_check" ∈ operationNames name := List.mem_cons_self
  have hminimizeName : name ++ "_minimize" ∈ operationNames name :=
    List.mem_cons_of_mem _ List.mem_cons_self
  unfold Tools.checkAndMinimize
  apply Session.ends_finishing
  apply ends_bind
  have hend := hf.ends_test Disk.isFrame_changedIn s strategy
    (hadmits _ hcheckName)
  refine hend.imp ?_ fun e _ he => ⟨s, view e, he⟩
  rintro outcome st ⟨houtcome, hdisk, hregistry⟩
  have hkept := hstart.test hcheckName (fun k hk => ⟨_, hcheckName, hk⟩) hdisk hregistry
  apply ends_bind
  refine ends_ok ?_
  -- the log is no part of what is kept
  let logged : Session τ :=
    { st with bench := st.bench.tell ⟨.trial, .info, name ++ ": " ++ outcome.text⟩ }
  have hlogged : start.Kept (operationNames name) (start.OperationPlace name) logged :=
    ⟨hkept.disk, hkept.dir, hkept.files⟩
  have hjudges : f.Judges s strategy outcome.passed := ⟨outcome, houtcome, rfl⟩
  -- the search never tests its start: that it fails is known from this test only
  cases hpassed : outcome.passed with
  | true =>
    rw [hpassed] at hjudges
    exact ends_pure ⟨logged, rfl, fun _ => ⟨hjudges, hlogged⟩, nofun⟩
  | false =>
    rw [hpassed] at hjudges
    have hsearch := hf.ends_minimize hminimizeName (fun k hk => ⟨_, hminimizeName, hk⟩)
      (hadmits _ hminimizeName) htarget hlogged hjudges
    refine ends_bind (hsearch.imp ?_ fun _ _ => id)
    rintro q st' hq
    refine ends_pure ⟨st', rfl, nofun, fun q' hq' => ?_⟩
    obtain rfl := Option.some.inj hq'
    exact ⟨hjudges, hq⟩

/-- For tools that go by the contents of files, on any disk with room for the files: a result is
a system on which the test fails, as it does on the given one; it is well-formed if that is, no
well-formed lighter step from it fails, and after the end its text is stored. Without a result the
test passes on the given system and nothing is stored. There is an error only if some text breaks
the test. -/
theorem checkAndMinimize_minimal {tools : Tools τ} {view : Failure → ε} {f : FileResults ε}
    (hf : tools.Follows view Disk.ChangedIn f) (keepFiles : Bool) (s : EqSystem) (name : String)
    (strategy : Strategy) (bench : Bench τ) (dir : Path)
    (hroom : ∀ ending ∈ operationEndings, ∃ l, bench.disk.Takes (dir.join ⟨name ++ ending⟩) l) :
    let done := tools.checkAndMinimize keepFiles s name strategy ⟨bench, .within dir⟩
    let target := dir.join ⟨name ++ "_minimized.txt"⟩
    (∀ q, done.1 = .ok (some q) →
      tools.Mismatches s strategy ∧ tools.Mismatches q strategy ∧
      (s.check = .ok () → q.check = .ok ()) ∧
      (∀ c ∈ q.reductions, c.check = .ok () → c.weight < q.weight → tools.Passes c strategy) ∧
      done.2.bench.disk.readText target = .ok q.text) ∧
    (done.1 = .ok none →
      tools.Passes s strategy ∧ done.2.bench.disk.find target = bench.disk.find target) ∧
    ∀ e, done.1 = .error e → ∃ t, tools.Breaks t strategy := by
  intro done target
  let start : Session τ := ⟨bench, .within dir⟩
  obtain ⟨l, htarget⟩ := hroom "_minimized.txt" (by decide)
  have hstart := Session.kept_start bench dir (operationNames name) (start.OperationPlace name)
  have hend := hf.ends_operation s strategy (Session.admits_of_operation hroom) htarget hstart
    keepFiles
  refine ⟨fun q hq => ?_, fun hnone => ?_, fun e he => ?_⟩
  · obtain ⟨st', hfinal, -, hsome⟩ := hend.ok (some q) hq
    obtain ⟨hs, hq, hkept, hholds⟩ := hsome q rfl
    refine ⟨hf.mismatches_of_judges hs, hf.mismatches_of_judges hq.fails, hq.check, ?_, ?_⟩
    · exact fun c hc hcheck hlight => hf.passes_of_judges (hq.lighter c hc hcheck hlight)
    · rw [hfinal]
      exact hkept.readText_result keepFiles htarget.locate hholds
  · obtain ⟨st', hfinal, hnothing, -⟩ := hend.ok none hnone
    obtain ⟨hs, hkept⟩ := hnothing rfl
    refine ⟨hf.passes_of_judges hs, ?_⟩
    rw [hfinal]
    exact hkept.find_result keepFiles htarget.locate
  · obtain ⟨t, ht⟩ := hend.error e he
    exact ⟨t, hf.breaks_of_outcome ht⟩

/-- Takes texts as they are, loses everything in abstraction, and answers yes on less than sixty
bytes: the test fails on long texts. -/
def lossyResults : FileResults Failure where
  convert content := .ok content
  abstract _ _ := .ok (some .empty)
  solve content := .ok (some (content.size < 60))

theorem lossyResults_judges (t : EqSystem) (strategy : Strategy) :
    lossyResults.Judges t strategy (t.text.toUTF8.size < 60) := by
  refine ⟨.ofAnswers (some (t.text.toUTF8.size < 60)) (some true), rfl, ?_⟩
  generalize decide (t.text.toUTF8.size < 60) = small
  cases small with
  | false => rfl
  | true => rfl

theorem hidingSystem_checkAndMinimize :
    let tools := lossyResults.tools .empty
    let room : Bench Unit := ⟨⟨[(["w"], .directory)], []⟩, [], ()⟩
    tools.Follows id Disk.ChangedIn lossyResults ∧
      (∀ ending ∈ operationEndings, ∃ l, room.disk.Takes (Path.join ⟨"w"⟩ ⟨"x" ++ ending⟩) l) ∧
      ∃ q final, tools.checkAndMinimize false hidingSystem "x" .overApprox
          ⟨room, .within ⟨"w"⟩⟩ = (.ok (some q), final) ∧
        q.check = .ok () ∧ tools.Mismatches q .overApprox ∧
        (∀ c ∈ q.reductions, c.check = .ok () → c.weight < q.weight →
          tools.Passes c .overApprox) ∧
        final.bench.disk.readText ⟨"w/x_minimized.txt"⟩ = .ok q.text := by
  intro tools room
  have hf : tools.Follows id Disk.ChangedIn lossyResults :=
    lossyResults.follows Disk.isFrame_changedIn .empty
  have hroom : ∀ ending ∈ operationEndings,
      ∃ l, room.disk.Takes (Path.join ⟨"w"⟩ ⟨"x" ++ ending⟩) l := by
    have hwritable : ∀ ending ∈ operationEndings,
        room.disk.writable (Path.join ⟨"w"⟩ ⟨"x" ++ ending⟩) = .ok ["w", "x" ++ ending] := by
      decide
    intro ending hending
    refine ⟨["w", "x" ++ ending], hwritable ending hending, ?_⟩
    exact nofun
  have hadmits : Session.Admits ⟨room, .within ⟨"w"⟩⟩ ("x" ++ "_check") :=
    Session.admits_of_operation hroom _ List.mem_cons_self
  have hmain := checkAndMinimize_minimal hf false hidingSystem "x" .overApprox room ⟨"w"⟩ hroom
  have htarget : Path.join ⟨"w"⟩ ⟨"x" ++ "_minimized.txt"⟩ = ⟨"w/x_minimized.txt"⟩ := by decide
  refine ⟨hf, hroom, ?_⟩
  dsimp only at hmain
  rw [htarget] at hmain
  generalize tools.checkAndMinimize false hidingSystem "x" .overApprox ⟨room, .within ⟨"w"⟩⟩ =
    ended at hmain ⊢
  obtain ⟨hsome, hnone, herror⟩ := hmain
  obtain ⟨result, final⟩ := ended
  -- no text breaks the test, and the first one fails it
  cases result with
  | error e =>
    obtain ⟨t, ht⟩ := herror e rfl
    exact absurd ht (hf.not_breaks_of_judges (lossyResults_judges t .overApprox) hadmits)
  | ok result =>
    cases result with
    | none =>
      have hlong : decide (hidingSystem.text.toUTF8.size < 60) = false := by decide
      have hjudges := lossyResults_judges hidingSystem .overApprox
      rw [hlong] at hjudges
      exact absurd (hnone rfl).1 ((hf.mismatches_of_judges hjudges).not_passes hadmits)
    | some q =>
      obtain ⟨-, hmismatches, hwf, hmin, htext⟩ := hsome q rfl
      exact ⟨q, final, rfl, hwf (by decide), hmismatches, hmin, htext⟩

end PbesLab
